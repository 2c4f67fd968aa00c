import Latkit.HttpHandler

namespace Latkit
open Delimited (tail_dropWhile_lt)

/-! The S3 dialect: an access key, a bucket, an operation and an error code. -/

def s3Codes : List String :=
  ["AccessDenied", "AccountProblem", "AllAccessDisabled", "AmbiguousGrantByEmailAddress",
    "AuthorizationHeaderMalformed", "AuthorizationQueryParametersError", "BadDigest", "BadRequest",
    "BucketAlreadyExists", "BucketAlreadyOwnedByYou", "BucketNotEmpty", "CredentialsNotSupported",
    "CrossLocationLoggingProhibited", "EntityTooLarge", "EntityTooSmall", "ExpiredToken",
    "IllegalVersioningConfigurationException", "IncompleteBody", "IncorrectNumberOfFilesInPostRequest",
    "InlineDataTooLarge", "InternalError", "InvalidAccessKeyId", "InvalidAddressingHeader",
    "InvalidArgument", "InvalidBucketName", "InvalidBucketState", "InvalidDigest",
    "InvalidEncryptionAlgorithmError", "InvalidLocationConstraint", "InvalidObjectState",
    "InvalidPart", "InvalidPartOrder", "InvalidPayer", "InvalidPolicyDocument", "InvalidRange",
    "InvalidRequest", "InvalidSOAPRequest", "InvalidSecurity", "InvalidStorageClass",
    "InvalidTargetBucketForLogging", "InvalidToken", "InvalidURI", "InvalidWriteOffset",
    "KeyTooLongError", "MalformedACLError", "MalformedPOSTRequest", "MalformedXML",
    "MaxMessageLengthExceeded", "MaxPostPreDataLengthExceededError", "MetadataTooLarge",
    "MethodNotAllowed", "MissingAttachment", "MissingContentLength", "MissingRequestBodyError",
    "MissingSecurityElement", "MissingSecurityHeader", "NoLoggingStatusForKey", "NoSuchAccessPoint",
    "NoSuchBucket", "NoSuchBucketPolicy", "NoSuchCORSConfiguration", "NoSuchKey",
    "NoSuchLifecycleConfiguration", "NoSuchObjectLockConfiguration", "NoSuchTagSet", "NoSuchUpload",
    "NoSuchVersion", "NoSuchWebsiteConfiguration", "NotImplemented", "NotSignedUp",
    "ObjectLockConfigurationNotFoundError", "OperationAborted", "PermanentRedirect",
    "PreconditionFailed", "Redirect", "ReplicationConfigurationNotFoundError",
    "RequestHeaderSectionTooLarge", "RequestIsNotMultiPartContent", "RequestTimeTooSkewed",
    "RequestTimeout", "RequestTorrentOfBucketError", "RestoreAlreadyInProgress",
    "ServerSideEncryptionConfigurationNotFoundError", "ServiceUnavailable", "SignatureDoesNotMatch",
    "SlowDown", "TemporaryRedirect", "TokenRefreshRequired", "TooManyBuckets", "TooManyParts",
    "UnexpectedContent", "UnresolvableGrantByEmailAddress", "UserKeyMustBeSpecified",
    "XAmzContentSHA256Mismatch", "XMinioInvalidObjectName", "XMinioMalformedIAMPolicy",
    "XMinioObjectExistsAsDirectory", "XMinioServerNotInitialized", "XMinioStorageFull"]

def lkS3CodeMax : Nat := 48

def lkS3CodeKnown (p : List Byte) : Bool := p ≠ [] && p.length < lkS3CodeMax && s3Codes.any (keyIs p)

def s3LabelByte (b : Byte) : Bool := 0x20 < b && b < 0x7f

/-- Copy a span into a buffer as a C string, and refuse one that is empty, too long or not printable.
What precedes the byte that it refuses has been written. -/
def s3CopyLabel (buf p : List Byte) : Bool × List Byte :=
  let good := p.takeWhile s3LabelByte
  if p = [] ∨ buf.length ≤ p.length then (false, buf)
  else if good.length = p.length then (true, p ++ 0 :: buf.drop (p.length + 1))
  else (false, good ++ buf.drop good.length)

def s3FindCi (s : List Byte) (lit : String) : Option (List Byte) :=
  s.tails.find? fun t => lit.toUTF8.toList.isPrefixOf (t.map asciiLower)

def s3AuthAccessKey (v buf : List Byte) : Bool × List Byte :=
  if 4 < v.length ∧ keyIs (v.take 4) "AWS " then
    let key := (v.drop 4).takeWhile (· != ':'.toUInt8)
    if '/'.toUInt8 ∈ key ∨ key.length = (v.drop 4).length then (false, buf) else s3CopyLabel buf key
  else if ¬ spanEqCi (v.take 16) "aws4-hmac-sha256" then (false, buf)
  else
    match s3FindCi v "credential=" with
    | none => (false, buf)
    | some t =>
      let key := (t.drop 11).takeWhile (· != '/'.toUInt8)
      if key.length = (t.drop 11).length then (false, buf) else s3CopyLabel buf key

def s3Scope : List Byte → Option (List Byte)
  | [] => none
  | b :: v =>
    if b = '/'.toUInt8 then some []
    else if b = '%'.toUInt8 ∧ v[0]? = some '2'.toUInt8 ∧ v[1]?.map asciiLower = some 'f'.toUInt8 then some []
    else (s3Scope v).map (b :: ·)

def s3QueryAccessKey (q buf : List Byte) : Bool × List Byte :=
  if q = [] then (false, buf)
  else
    let key := q.takeWhile fun b => !isEq b && !isAmp b
    let rest := q.dropWhile fun b => !isEq b && !isAmp b
    let valued := rest.head? = some '='.toUInt8
    let v := if valued then rest.tail.takeWhile (!isAmp ·) else []
    let next := if valued then (rest.tail.dropWhile (!isAmp ·)).tail else rest.tail
    if spanEqCi key "x-amz-credential" then
      match s3Scope v with
      | none => (false, buf)
      | some k => s3CopyLabel buf k
    else s3QueryAccessKey next buf
termination_by q.length
decreasing_by
  split
  · exact tail_dropWhile_lt _ ‹¬ q = []› ((List.tail_suffix _).trans (List.dropWhile_suffix _))
  · exact tail_dropWhile_lt _ ‹¬ q = []› (List.suffix_refl q)

def s3CodeLabel (cap : Nat) (p old : List Byte) : List Byte :=
  if lkS3CodeKnown p ∧ p.length < cap ∧ p.all s3LabelByte then p
  else if p = [] ∨ cap < 6 then old
  else "other".toUTF8.toList

def s3Between (opening closing : String) (p : List Byte) : Option (List Byte) := do
  let t ← p.tails.find? fun t => opening.toUTF8.toList.isPrefixOf t
  let t := t.drop opening.utf8ByteSize
  let rest ← t.tails.find? fun t => closing.toUTF8.toList.isPrefixOf t
  some (t.take (t.length - rest.length))

def s3ErrorCode (cap : Nat) (p old : List Byte) : List Byte :=
  match s3Between "<Code>" "</Code>" p with
  | none => old
  | some code => s3CodeLabel cap code old

def s3ReqField (cfg : LkHttpCfg) (f : HttpField) (u : HttpUnit) : HttpUnit :=
  if spanEqCi f.name "authorization" then
    if cfg.s3.noUser then u
    else
      let (ok, buf) := s3AuthAccessKey f.val u.user
      { u with user := if ok then buf else buf.set 0 0 }
  else if spanEqCi f.name "x-amz-copy-source" then { u with copySrc := true }
  else if spanEqCi f.name "x-amz-decoded-content-length" then
    { u with objBytes := (httpParseU64 f.val).getD u.objBytes }
  else u

/-- The bucket takes the host's place. A presigned request has its key in the query. -/
def s3ReqHead (cfg : LkHttpCfg) (rq : LkHttpReq) (u : HttpUnit) : HttpUnit :=
  let path := rq.target.takeWhile (· != '?'.toUInt8)
  let query := (rq.target.dropWhile (· != '?'.toUInt8)).tail
  let a := lkS3Addr cfg.s3 rq.host path
  let host :=
    if a.valid then httpCopyLabel lkHttpHostMax a.bucket
    else if a.bucket ≠ [] ∨ a.vhost then "other".toUTF8.toList
    else []
  let user :=
    if ¬ cfg.s3.noUser ∧ cstr u.user = [] ∧ query ≠ [] then (s3QueryAccessKey query u.user).2 else u.user
  { u with vhost := u.vhost || a.vhost, host := host, user := user }

def s3RespField (f : HttpField) (r : HttpDresp × HttpUnit) : HttpDresp × HttpUnit :=
  let (dr, u) := r
  if spanEqCi f.name "x-amz-request-id" then
    (dr, if u.reqId = [] then { u with reqId := httpCopyLabel lkHttpReqidMax f.val } else u)
  else if spanEqCi f.name "x-amz-version-id" then ({ dr with objVersion := httpCopyLabel lkS3CodeMax f.val }, u)
  else if spanEqCi f.name "x-minio-error-code" then ({ dr with errName := s3CodeLabel lkS3CodeMax f.val dr.errName }, u)
  else r

def s3ErrBody (p : List Byte) (dr : HttpDresp) : HttpDresp :=
  { dr with errName := s3ErrorCode lkS3CodeMax p dr.errName }

/-- The form of the address was decided at the head. -/
def s3Classify (xxh3 : List Byte → UInt64) (rq : LkHttpReq) : LkRouteOut :=
  let path := rq.target.takeWhile (· != '?'.toUInt8)
  let query := (rq.target.dropWhile (· != '?'.toUInt8)).tail
  lkNormS3 xxh3 rq.method query (lkS3Split rq.vhost path) rq.copySrc

def s3Obs (dr : HttpDresp) (u : HttpUnit) (o : HttpQueryObs) : HttpQueryObs :=
  { o with
    errName := if dr.errName ≠ [] then dr.errName else o.errName
    objBytes := if u.objBytes ≠ 0 then u.objBytes else if o.bytesIn ≠ 0 then o.bytesIn else o.bytesOut }

/-- A route that the application declares is taken as `given` says; without a target there is none. -/
def lkHttpDialectS3 (xxh3 : List Byte → UInt64) (given : List Byte → List Byte → LkRouteOut) : LkHttpDialect where
  errBody := true
  resolve _ u :=
    if u.routeHdr ≠ [] then given u.method u.routeHdr
    else if u.flags.noText ∨ u.target = [] then {}
    else s3Classify xxh3 u.req
  reqField := s3ReqField
  reqHead := s3ReqHead
  respField := s3RespField
  readErr := s3ErrBody
  obs := s3Obs

end Latkit
