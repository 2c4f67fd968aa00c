import Latkit.Frame
import Latkit.Hist

namespace Latkit

/-! Observation profiles: which families an observation is reported in, and under which label keys. -/

inductive LkProfile where
  | query
  | http
  | s3
  | redis
  deriving DecidableEq, Repr

def lkProfile (id : UInt8) : LkProfile :=
  match id.toNat with
  | 1 => .http
  | 2 => .s3
  | 3 => .redis
  | _ => .query

def LkProfile.all : List LkProfile := [.query, .http, .s3, .redis]

inductive Rf where
  | qtotal
  | total
  | duration
  | rows
  | firstRow
  | ttfb
  | errors
  | truncated
  | other
  | txn
  | upload
  | bytes
  | size
  | internal
  | blocking
  | redirect
  | depth
  deriving DecidableEq, Repr

structure RegFamily where
  name : String := ""
  help : String := ""

structure RegProfile where
  families : List Rf
  kSlot : String
  kOp : Option String
  kDb : String
  kUser : String
  kErr : String
  kTotal : String := ""
  totalQcode : Bool := false
  sizeMinLog2 : Nat := 0
  sizeNbuckets : Nat := 0
  fTotal : RegFamily := {}
  fDur : RegFamily
  fRows : RegFamily := {}
  fSecond : RegFamily := {}
  fErr : RegFamily
  fUpload : RegFamily := {}
  fBytes : RegFamily := {}
  fSize : RegFamily := {}
  fInternal : RegFamily := {}
  fRedirect : RegFamily := {}
  fDepth : RegFamily := {}

def RegProfile.has (pf : RegProfile) (f : Rf) : Bool := f ∈ pf.families

def queryProfile : RegProfile where
  families := [.qtotal, .duration, .rows, .firstRow, .errors, .truncated, .other, .txn]
  kSlot := "query"
  kOp := none
  kDb := "db"
  kUser := "user"
  kErr := "sqlstate"
  fTotal := ⟨"latkit_queries_total", "Query observations by kind and outcome."⟩
  fDur := ⟨"latkit_query_duration_seconds", "Server-side query latency in seconds."⟩
  fRows := ⟨"latkit_query_rows_total", "Rows returned/affected, from CommandComplete."⟩
  fSecond := ⟨"latkit_query_first_row_seconds", "Time to first row in seconds."⟩
  fErr := ⟨"latkit_query_errors_total", "Errors by SQLSTATE (query-independent)."⟩

def httpProfile : RegProfile where
  families := [.total, .duration, .ttfb, .errors, .upload, .bytes, .size]
  kSlot := "route"
  kOp := some "method"
  kDb := "host"
  kUser := "user"
  kErr := "code"
  kTotal := "status"
  fTotal := ⟨"latkit_http_requests_total", "HTTP exchanges observed, by route and status class."⟩
  fDur := ⟨"latkit_http_request_duration_seconds",
    "Server-side HTTP latency in seconds: last response byte minus last request byte, so a slow upload is not a slow server (РH5)."⟩
  fSecond := ⟨"latkit_http_ttfb_seconds",
    "Time to the first response byte in seconds, from the end of the request."⟩
  fErr := ⟨"latkit_http_errors_total", "Responses with status >= 400, by exact code (route-independent)."⟩
  fUpload := ⟨"latkit_http_request_upload_seconds", "Time spent receiving the request body in seconds."⟩
  fBytes := ⟨"latkit_http_bytes_total", "HTTP body bytes observed, by direction."⟩
  fSize := ⟨"latkit_http_response_size_bytes", "Response body size in bytes."⟩

def s3Profile : RegProfile where
  families := [.total, .duration, .ttfb, .errors, .upload, .bytes, .size, .internal]
  kSlot := "op"
  kOp := some "method"
  kDb := "bucket"
  kUser := "user"
  kErr := "s3code"
  kTotal := "status"
  sizeMinLog2 := lkOhistMinLog2
  sizeNbuckets := lkOhistNbuckets
  fTotal := ⟨"latkit_s3_requests_total", "S3 operations observed, by operation and status class."⟩
  fDur := ⟨"latkit_s3_request_duration_seconds",
    "Server-side S3 latency in seconds: last response byte minus last request byte, so a slow upload is not a slow server (РH5)."⟩
  fSecond := ⟨"latkit_s3_ttfb_seconds",
    "Time to the first response byte in seconds, from the end of the request."⟩
  fErr := ⟨"latkit_s3_errors_total",
    "Failed S3 operations by error code — the `<Code>` of the error body, or the HTTP status when none was readable (operation-independent)."⟩
  fUpload := ⟨"latkit_s3_request_upload_seconds", "Time spent receiving the request body in seconds."⟩
  fBytes := ⟨"latkit_s3_bytes_total", "S3 body bytes on the wire, by direction."⟩
  fSize := ⟨"latkit_s3_object_size_bytes",
    "Size in bytes of the payload an operation moved, with the aws-chunked framing discounted (РS6)."⟩
  fInternal := ⟨"latkit_s3_internal_requests_total",
    "Requests to the server's own API (/minio/...): counted here and reported in no other family (РS2)."⟩

def redisProfile : RegProfile where
  families := [.total, .duration, .errors, .bytes, .size, .blocking, .redirect, .depth]
  kSlot := "cmd"
  kOp := none
  kDb := "db"
  kUser := "user"
  kErr := "error"
  kTotal := "code"
  totalQcode := true
  sizeMinLog2 := lkVhistMinLog2
  sizeNbuckets := lkVhistNbuckets
  fTotal := ⟨"latkit_redis_commands_total", "Redis commands observed, by command and outcome."⟩
  fDur := ⟨"latkit_redis_command_duration_seconds",
    "Command latency in seconds: last byte of the reply minus first byte of the command. Excludes blocking commands and queued MULTI members, whose duration is not the server's work (РR9/РR10)."⟩
  fSecond := ⟨"latkit_redis_blocking_seconds",
    "Time a blocking command (BLPOP, XREAD BLOCK, WAIT) waited — the client's own timeout, not the server's service time."⟩
  fErr := ⟨"latkit_redis_errors_total",
    "Failed commands by symbolic error (WRONGTYPE, NOSCRIPT, ...), command-independent. MOVED/ASK are redirects and are not here."⟩
  fBytes := ⟨"latkit_redis_bytes_total", "RESP bytes on the wire, by direction."⟩
  fSize := ⟨"latkit_redis_value_size_bytes", "Size in bytes of the reply value."⟩
  fRedirect := ⟨"latkit_redis_redirects_total",
    "Cluster redirects (-MOVED / -ASK): ordinary cluster operation, counted apart from the errors (РR7)."⟩
  fDepth := ⟨"latkit_redis_pipeline_depth",
    "Commands that arrived in the same syscall as this one, sampled per command: le=\"1\" is a client that does not pipeline."⟩

def profiles : LkProfile → RegProfile
  | .query => queryProfile
  | .http => httpProfile
  | .s3 => s3Profile
  | .redis => redisProfile

def LkProfile.grid : LkProfile → BhistGrid
  | .s3 => ⟨lkOhistMinLog2, lkOhistNbuckets, by decide, by decide, by decide⟩
  | .redis => ⟨lkVhistMinLog2, lkVhistNbuckets, by decide, by decide, by decide⟩
  | _ => defaultGrid

def lkNQcodes : Nat := 4
def lkNSclasses : Nat := 6
def lkNQkinds : Nat := 8
def lkNRedirects : Nat := 3

def totalAxisN (pf : RegProfile) : Nat := if pf.totalQcode then lkNQcodes else lkNSclasses

end Latkit
