import Latkit.NormRedact

namespace Latkit
open Delimited (tail_dropWhile_lt)

/-! Classification of S3 requests by a closed table. -/

inductive S3M where
  | none
  | get
  | head
  | put
  | post
  | delete
  deriving DecidableEq, Repr

inductive S3Lvl where
  | service
  | bucket
  | object
  deriving DecidableEq, Repr

inductive S3Copy where
  | any
  | no
  | yes
  deriving DecidableEq, Repr

inductive S3Key where
  | none
  | acl
  | tagging
  | policy
  | policyStatus
  | versioning
  | lifecycle
  | location
  | notification
  | encryption
  | replication
  | objectLock
  | cors
  | accelerate
  | logging
  | requestPayment
  | website
  | publicAccessBlock
  | attributes
  | retention
  | legalHold
  | restore
  | select
  | delete
  | uploads
  | uploadId
  | versions
  | listType
  deriving DecidableEq, Repr

def s3Subres : List (S3Key × String) :=
  [(.acl, "acl"), (.tagging, "tagging"), (.policy, "policy"), (.policyStatus, "policyStatus"),
    (.versioning, "versioning"), (.lifecycle, "lifecycle"), (.location, "location"),
    (.notification, "notification"), (.encryption, "encryption"), (.replication, "replication"),
    (.objectLock, "object-lock"), (.cors, "cors"), (.accelerate, "accelerate"), (.logging, "logging"),
    (.requestPayment, "requestPayment"), (.website, "website"),
    (.publicAccessBlock, "publicAccessBlock"), (.attributes, "attributes"), (.retention, "retention"),
    (.legalHold, "legal-hold"), (.restore, "restore"), (.select, "select"), (.delete, "delete"),
    (.uploads, "uploads"), (.uploadId, "uploadId"), (.versions, "versions"), (.listType, "list-type")]

structure S3Row where
  key : S3Key
  lvl : S3Lvl
  method : S3M
  copy : S3Copy
  op : String
  deriving DecidableEq, Repr

/-- The operations. A row that asks for a copy comes before its twin. -/
def s3Rows : List S3Row :=
  [⟨.none, .service, .get, .any, "ListBuckets"⟩,
    ⟨.acl, .bucket, .get, .any, "GetBucketAcl"⟩,
    ⟨.acl, .bucket, .put, .any, "PutBucketAcl"⟩,
    ⟨.tagging, .bucket, .get, .any, "GetBucketTagging"⟩,
    ⟨.tagging, .bucket, .put, .any, "PutBucketTagging"⟩,
    ⟨.tagging, .bucket, .delete, .any, "DeleteBucketTagging"⟩,
    ⟨.policy, .bucket, .get, .any, "GetBucketPolicy"⟩,
    ⟨.policy, .bucket, .put, .any, "PutBucketPolicy"⟩,
    ⟨.policy, .bucket, .delete, .any, "DeleteBucketPolicy"⟩,
    ⟨.policyStatus, .bucket, .get, .any, "GetBucketPolicyStatus"⟩,
    ⟨.versioning, .bucket, .get, .any, "GetBucketVersioning"⟩,
    ⟨.versioning, .bucket, .put, .any, "PutBucketVersioning"⟩,
    ⟨.lifecycle, .bucket, .get, .any, "GetBucketLifecycleConfiguration"⟩,
    ⟨.lifecycle, .bucket, .put, .any, "PutBucketLifecycleConfiguration"⟩,
    ⟨.lifecycle, .bucket, .delete, .any, "DeleteBucketLifecycleConfiguration"⟩,
    ⟨.location, .bucket, .get, .any, "GetBucketLocation"⟩,
    ⟨.notification, .bucket, .get, .any, "GetBucketNotificationConfiguration"⟩,
    ⟨.notification, .bucket, .put, .any, "PutBucketNotificationConfiguration"⟩,
    ⟨.encryption, .bucket, .get, .any, "GetBucketEncryption"⟩,
    ⟨.encryption, .bucket, .put, .any, "PutBucketEncryption"⟩,
    ⟨.encryption, .bucket, .delete, .any, "DeleteBucketEncryption"⟩,
    ⟨.replication, .bucket, .get, .any, "GetBucketReplication"⟩,
    ⟨.replication, .bucket, .put, .any, "PutBucketReplication"⟩,
    ⟨.replication, .bucket, .delete, .any, "DeleteBucketReplication"⟩,
    ⟨.objectLock, .bucket, .get, .any, "GetObjectLockConfiguration"⟩,
    ⟨.objectLock, .bucket, .put, .any, "PutObjectLockConfiguration"⟩,
    ⟨.cors, .bucket, .get, .any, "GetBucketCors"⟩,
    ⟨.cors, .bucket, .put, .any, "PutBucketCors"⟩,
    ⟨.cors, .bucket, .delete, .any, "DeleteBucketCors"⟩,
    ⟨.accelerate, .bucket, .get, .any, "GetBucketAccelerateConfiguration"⟩,
    ⟨.accelerate, .bucket, .put, .any, "PutBucketAccelerateConfiguration"⟩,
    ⟨.logging, .bucket, .get, .any, "GetBucketLogging"⟩,
    ⟨.logging, .bucket, .put, .any, "PutBucketLogging"⟩,
    ⟨.requestPayment, .bucket, .get, .any, "GetBucketRequestPayment"⟩,
    ⟨.requestPayment, .bucket, .put, .any, "PutBucketRequestPayment"⟩,
    ⟨.website, .bucket, .get, .any, "GetBucketWebsite"⟩,
    ⟨.website, .bucket, .put, .any, "PutBucketWebsite"⟩,
    ⟨.website, .bucket, .delete, .any, "DeleteBucketWebsite"⟩,
    ⟨.publicAccessBlock, .bucket, .get, .any, "GetPublicAccessBlock"⟩,
    ⟨.publicAccessBlock, .bucket, .put, .any, "PutPublicAccessBlock"⟩,
    ⟨.publicAccessBlock, .bucket, .delete, .any, "DeletePublicAccessBlock"⟩,
    ⟨.delete, .bucket, .post, .any, "DeleteObjects"⟩,
    ⟨.uploads, .bucket, .get, .any, "ListMultipartUploads"⟩,
    ⟨.versions, .bucket, .get, .any, "ListObjectVersions"⟩,
    ⟨.listType, .bucket, .get, .any, "ListObjectsV2"⟩,
    ⟨.none, .bucket, .get, .any, "ListObjects"⟩,
    ⟨.none, .bucket, .put, .any, "CreateBucket"⟩,
    ⟨.none, .bucket, .delete, .any, "DeleteBucket"⟩,
    ⟨.none, .bucket, .head, .any, "HeadBucket"⟩,
    ⟨.none, .bucket, .post, .any, "PostObject"⟩,
    ⟨.acl, .object, .get, .any, "GetObjectAcl"⟩,
    ⟨.acl, .object, .put, .any, "PutObjectAcl"⟩,
    ⟨.tagging, .object, .get, .any, "GetObjectTagging"⟩,
    ⟨.tagging, .object, .put, .any, "PutObjectTagging"⟩,
    ⟨.tagging, .object, .delete, .any, "DeleteObjectTagging"⟩,
    ⟨.retention, .object, .get, .any, "GetObjectRetention"⟩,
    ⟨.retention, .object, .put, .any, "PutObjectRetention"⟩,
    ⟨.legalHold, .object, .get, .any, "GetObjectLegalHold"⟩,
    ⟨.legalHold, .object, .put, .any, "PutObjectLegalHold"⟩,
    ⟨.attributes, .object, .get, .any, "GetObjectAttributes"⟩,
    ⟨.restore, .object, .post, .any, "RestoreObject"⟩,
    ⟨.select, .object, .post, .any, "SelectObjectContent"⟩,
    ⟨.uploads, .object, .post, .any, "CreateMultipartUpload"⟩,
    ⟨.uploadId, .object, .put, .yes, "UploadPartCopy"⟩,
    ⟨.uploadId, .object, .put, .no, "UploadPart"⟩,
    ⟨.uploadId, .object, .get, .any, "ListParts"⟩,
    ⟨.uploadId, .object, .post, .any, "CompleteMultipartUpload"⟩,
    ⟨.uploadId, .object, .delete, .any, "AbortMultipartUpload"⟩,
    ⟨.none, .object, .get, .any, "GetObject"⟩,
    ⟨.none, .object, .head, .any, "HeadObject"⟩,
    ⟨.none, .object, .put, .yes, "CopyObject"⟩,
    ⟨.none, .object, .put, .no, "PutObject"⟩,
    ⟨.none, .object, .delete, .any, "DeleteObject"⟩]

def s3OpInternal : String := "internal"
def s3OpOther : String := "other"

def s3Ops : List String := s3Rows.map S3Row.op ++ [s3OpInternal, s3OpOther]

def s3IsDigit (b : Byte) : Bool := '0'.toUInt8 ≤ b && b ≤ '9'.toUInt8

def s3IsLowerAlnum (b : Byte) : Bool := s3IsDigit b || ('a'.toUInt8 ≤ b && b ≤ 'z'.toUInt8)

def ipv4Groups (p : List Byte) (groups : Nat) : Option Nat :=
  match h : p.dropWhile s3IsDigit with
  | [] => if p = [] then some groups else some (groups + 1)
  | c :: rest =>
    if s3IsDigit (p.headD 0) = false ∨ c ≠ '.'.toUInt8 then none else ipv4Groups rest (groups + 1)
termination_by p.length
decreasing_by
  have hle := (List.dropWhile_suffix s3IsDigit (l := p)).length_le
  rw [h, List.length_cons] at hle
  omega

def s3LooksIpv4 (p : List Byte) : Bool := ipv4Groups p 0 == some 4

def lkS3BucketMax : Nat := 64

def lkS3BucketValid (p : List Byte) : Bool :=
  (3 ≤ p.length && p.length ≤ lkS3BucketMax - 1) && (p.head?.any s3IsLowerAlnum && p.getLast?.any s3IsLowerAlnum) &&
    (p.all fun b => s3IsLowerAlnum b || b == '-'.toUInt8 || b == '.'.toUInt8) &&
    !((p.zip p.tail).any fun (a, b) => a == '.'.toUInt8 && b == '.'.toUInt8) && !s3LooksIpv4 p

structure LkS3Addr where
  bucket : List Byte := []
  key : List Byte := []
  vhost : Bool := false
  valid : Bool := false
  internal : Bool := false
  deriving DecidableEq, Repr

def s3PathInternal (path : List Byte) : Bool :=
  keyIs (path.take 6) "/minio" && (path.length == 6 || path[6]? == some '/'.toUInt8)

def lkS3Split (vhost : Bool) (path : List Byte) : LkS3Addr :=
  if !vhost && s3PathInternal path then { vhost := vhost, internal := true }
  else
    let path := if path.head? = some '/'.toUInt8 then path.tail else path
    if vhost then { vhost := vhost, key := path }
    else
      let bucket := path.takeWhile (· != '/'.toUInt8)
      { vhost := vhost
        bucket := bucket
        key := (path.dropWhile (· != '/'.toUInt8)).tail
        valid := lkS3BucketValid bucket }

structure LkS3Cfg where
  domains : List (List Byte) := []
  noUser : Bool := false
  deriving DecidableEq, Repr

def lkS3DomainMax : Nat := 8

/-- The host is a bucket before one of the configured suffixes, or the bucket is in the path. -/
def lkS3Addr (cfg : LkS3Cfg) (host path : List Byte) : LkS3Addr :=
  let host := host.takeWhile (· != ':'.toUInt8)
  let suffix := (cfg.domains.take lkS3DomainMax).find? fun d =>
    d ≠ [] && d.length + 1 < host.length && host[host.length - d.length - 1]? == some '.'.toUInt8 &&
      host.drop (host.length - d.length) == d
  match suffix with
  | some d =>
    let bucket := host.take (host.length - d.length - 1)
    { lkS3Split true path with bucket := bucket, valid := lkS3BucketValid bucket }
  | none => lkS3Split false path

def s3Method (m : List Byte) : S3M :=
  if keyIs m "GET" then .get
  else if keyIs m "PUT" then .put
  else if keyIs m "HEAD" then .head
  else if keyIs m "POST" then .post
  else if keyIs m "DELETE" then .delete
  else .none

def isAmp (b : Byte) : Bool := b == '&'.toUInt8

def s3KeyOf (k : List Byte) : Option S3Key := (s3Subres.find? fun r => keyIs k r.2).map Prod.fst

def s3Subresource (q : List Byte) : S3Key × List Byte :=
  if q = [] then (.none, [])
  else
    let rest := q.dropWhile fun b => !isEq b && !isAmp b
    let key := s3KeyOf (q.takeWhile fun b => !isEq b && !isAmp b)
    if rest.head? = some '='.toUInt8 then
      match key with
      | some k => (k, rest.tail.takeWhile (!isAmp ·))
      | none => s3Subresource (rest.tail.dropWhile (!isAmp ·)).tail
    else
      match key with
      | some k => (k, [])
      | none => s3Subresource rest.tail
termination_by q.length
decreasing_by
  · exact tail_dropWhile_lt _ ‹¬ q = []› ((List.tail_suffix _).trans (List.dropWhile_suffix _))
  · exact tail_dropWhile_lt _ ‹¬ q = []› (List.suffix_refl q)

def s3Level (a : LkS3Addr) : Option S3Lvl :=
  if a.vhost ∨ a.bucket ≠ [] then some (if a.key ≠ [] then .object else .bucket)
  else if a.key ≠ [] then none
  else some .service

def s3Find (key : S3Key) (lvl : S3Lvl) (m : S3M) (copy : S3Copy) : String :=
  ((s3Rows.find? fun r => r.key = key ∧ r.lvl = lvl ∧ r.method = m ∧ (r.copy = .any ∨ r.copy = copy)).map
    S3Row.op).getD s3OpOther

def lkS3Op (method query : List Byte) (a : LkS3Addr) (copySrc : Bool) : String :=
  if a.internal then s3OpInternal
  else
    let m := s3Method method
    let copy := if copySrc then S3Copy.yes else .no
    if m = .none then s3OpOther
    else
      match s3Level a with
      | none => s3OpOther
      | some lvl =>
        let (key, val) := s3Subresource query
        let key := if key = .listType ∧ ¬ keyIs val "2" then .none else key
        s3Find key lvl m copy

structure LkRouteOut where
  text : List Byte := []
  fp : UInt64 := 0
  templated : Bool := false
  internal : Bool := false
  deriving DecidableEq, Repr

def lkNormS3 (xxh3 : List Byte → UInt64) (method query : List Byte) (a : LkS3Addr) (copySrc : Bool) : LkRouteOut :=
  let op := lkS3Op method query a copySrc
  { text := op.toUTF8.toList
    fp := xxh3 (method ++ 0 :: op.toUTF8.toList)
    templated := true
    internal := op == s3OpInternal }

end Latkit
