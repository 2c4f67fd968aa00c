import Latkit.NormSql
import Latkit.Registry

/-! The span collector of `spans.c`: a sampler and a ring whose texts live in arenas by ring slot. -/

namespace Latkit.Spans

def lkSpanBuf : Nat := 2048
def lkSpanTextMaxDef : Nat := 4096
def lkSpanNameMax : Nat := 64
def lkSpanRedisArgsMax : Nat := 32

/-- The HTTP half of an observation; the trace comes with the caller's span. -/
structure HttpObs where
  trace : Option (List Byte × List Byte) := none
  traceFlags : UInt8 := 0
  reqId : Option (List Byte) := none
  ctype : Option (List Byte) := none
  objVersion : Option (List Byte) := none
  tracestate : List Byte := []
  version : UInt8 := 0

structure RedisObs where
  argc : UInt32 := 0
  pipelineDepth : UInt32 := 0
  txnSize : UInt32 := 0

structure Obs where
  tsStart : UInt64 := 0
  tsReqDone : UInt64 := 0
  tsFirstRow : UInt64 := 0
  tsComplete : UInt64 := 0
  text : List Byte := []
  rows : UInt64 := 0
  bytesIn : UInt64 := 0
  bytesOut : UInt64 := 0
  op : Option (List Byte) := none
  route : List Byte := []
  errName : Option (List Byte) := none
  sqlstate : List Byte := []
  errCode : UInt16 := 0
  kind : UInt8 := 0
  error : Bool := false
  noText : Bool := false
  empty : Bool := false
  blocking : Bool := false
  clientErr : Bool := false
  http : Option HttpObs := none
  redis : Option RedisObs := none
  database : List Byte := []
  user : List Byte := []
  app : List Byte := []
  cookie : UInt64 := 0
  tls : Bool := false
  /-- The client's address as it is printed, its port and the server's. -/
  peer : Option (List Byte × UInt16 × UInt16) := none
  kindHttp : Bool := false
  dbSystem : Option (List Byte) := none
  mysql : Bool := false

structure SpanHttp where
  route : List Byte
  method : List Byte
  host : List Byte
  reqId : List Byte
  ctype : List Byte
  objVersion : List Byte
  client : List Byte
  ua : List Byte
  tstate : List Byte
  bytesIn : UInt64
  bytesOut : UInt64
  reqDone : UInt64
  firstByte : UInt64
  status : UInt16
  clientPort : UInt16
  serverPort : UInt16
  version : UInt8
  tls : Bool
  clientError : Bool

structure SpanBody where
  startNs : UInt64
  endNs : UInt64
  kind : UInt8
  error : Bool
  errCode : UInt16
  isHttp : Bool := false
  name : List Byte := []
  db : List Byte := []
  user : List Byte := []
  dbSystem : Option (List Byte) := none
  errName : Option (List Byte) := none
  rows : Option UInt64 := none
  sqlstate : List Byte := []
  redis : Option (UInt32 × UInt32) := none

structure SpanIds where
  trace : List Byte := []
  span : List Byte := []
  parent : Option (List Byte) := none

structure SpansCfg where
  ratioAlways : Bool := false
  ratioThreshold : UInt64 := 0
  slowNs : UInt64 := 0
  textMax : Nat := lkSpanTextMaxDef
  masked : Bool := false
  seed : UInt64 := 0
  textMax_pos : 0 < textMax := by decide

def splitmix64 (x : UInt64) : UInt64 × UInt64 :=
  let x := x + 0x9e3779b97f4a7c15
  let z := (x ^^^ (x >>> 30)) * 0xbf58476d1ce4e5b9
  let z := (z ^^^ (z >>> 27)) * 0x94d049bb133111eb
  (z ^^^ (z >>> 31), x)

def mix64 (x : UInt64) : UInt64 := (splitmix64 x).1

def leBytes (v : UInt64) : List Byte := (List.range 8).map fun i => (v >>> UInt64.ofNat (8 * i)).toUInt8

def shouldSample (cfg : SpansCfg) (o : Obs) : Bool :=
  if o.tsComplete ≤ o.tsStart then false
  else
    let start := if o.http.isSome && o.tsStart < o.tsReqDone && o.tsReqDone < o.tsComplete then o.tsReqDone else o.tsStart
    if cfg.slowNs != 0 && cfg.slowNs ≤ o.tsComplete - start && !o.blocking then true
    else
      match o.http.bind (·.trace) with
      | some _ => (o.http.map (·.traceFlags)).getD 0 &&& 1 != 0
      | none =>
        cfg.ratioAlways || (cfg.ratioThreshold != 0 &&
          mix64 (o.tsStart * 0x9e3779b97f4a7c15 + o.cookie + cfg.seed) < cfg.ratioThreshold)

def storeText (cfg : SpansCfg) (src : List Byte) : Option (List Byte) :=
  if src = [] then none else some (src.take cfg.textMax)

/-- The text of a database span is the statement, or its normal form. -/
def sqlText (cfg : SpansCfg) (o : Obs) : List Byte × Option (List Byte) :=
  if o.noText || o.text.isEmpty then ([], none)
  else
    let norm := (lkNormSql (fun _ => 0) o.mysql o.text).text
    (norm.take (lkSpanNameMax - 1), storeText cfg (if cfg.masked then norm else o.text))

def redisText (cfg : SpansCfg) (cmd : List Byte) (argc : UInt32) : Option (List Byte) :=
  if cmd = [] then none
  else
    let shown := (cmd.take cfg.textMax).map fun c => if c = '|'.toUInt8 then ' '.toUInt8 else c
    let marks := min (min argc.toNat lkSpanRedisArgsMax) ((cfg.textMax - shown.length) / 2)
    let text := shown ++ (List.replicate marks (bytesOf " ?")).flatten
    some (if lkSpanRedisArgsMax < argc.toNat && text.length + 4 ≤ cfg.textMax then text ++ bytesOf " ..." else text)

def spanHttp (o : Obs) (h : HttpObs) : SpanHttp where
  route := o.route.take 127
  method := (o.op.getD []).take 15
  host := o.database.take 63
  reqId := (h.reqId.getD []).take 47
  ctype := (h.ctype.getD []).take 31
  objVersion := (h.objVersion.getD []).take 47
  client := (o.peer.map Prod.fst).getD []
  ua := o.app.take 63
  tstate := if h.tracestate.length < 256 then h.tracestate else []
  bytesIn := o.bytesIn
  bytesOut := o.bytesOut
  reqDone := o.tsReqDone
  firstByte := o.tsFirstRow
  status := o.errCode
  clientPort := (o.peer.map (·.2.1)).getD 0
  serverPort := (o.peer.map (·.2.2)).getD 0
  version := h.version
  tls := o.tls
  clientError := o.clientErr

def httpName (h : SpanHttp) : List Byte :=
  if h.route = [] then h.method else (h.method ++ ' '.toUInt8 :: h.route).take (lkSpanNameMax - 1)

structure Own where
  body : SpanBody
  text : Option (List Byte)
  http : Option SpanHttp

def own (cfg : SpansCfg) (o : Obs) : Own :=
  let body : SpanBody :=
    { startNs := o.tsStart, endNs := o.tsComplete, kind := o.kind, error := o.error,
      errCode := if o.error then o.errCode else 0 }
  match o.http with
  | some h =>
    if o.kindHttp then
      { body := { body with isHttp := true, name := httpName (spanHttp o h), user := o.user.take 63 }
        text := if cfg.masked || o.noText then none else storeText cfg o.text
        http := some (spanHttp o h) }
    else database cfg o body
  | none => database cfg o body
where
  database (cfg : SpansCfg) (o : Obs) (body : SpanBody) : Own :=
    let body := { body with
      dbSystem := if o.kindHttp then none else o.dbSystem, db := o.database.take 63, user := o.user.take 63 }
    match o.redis with
    | some r =>
      { body := { body with
          errName := o.errName, name := o.route.take (lkSpanNameMax - 1), redis := some (r.pipelineDepth, r.txnSize) }
        text := redisText cfg o.route r.argc
        http := none }
    | none =>
      { body := { body with
          rows := if o.rows != 0 || !(o.error || o.empty) then some o.rows else none
          sqlstate := if o.error then o.sqlstate else []
          name := (sqlText cfg o).1 }
        text := (sqlText cfg o).2
        http := none }

structure Span where
  ids : SpanIds := {}
  body : Option SpanBody := none
  text : Option (Nat × Nat) := none
  http : Option Nat := none

structure LkSpans where
  cfg : SpansCfg
  idState : UInt64
  textArena : Nat → Byte := fun _ => 0
  httpArena : Nat → Option SpanHttp := fun _ => none
  ring : Nat → Span := fun _ => {}
  head : Nat := 0
  count : Nat := 0
  wmFired : Bool := false
  sampledTotal : UInt64 := 0
  droppedTotal : UInt64 := 0

def writeAt (arena : Nat → Byte) (addr : Nat) (bytes : List Byte) : Nat → Byte :=
  fun a => if addr ≤ a ∧ a < addr + bytes.length then bytes.getD (a - addr) 0 else arena a

def readAt (arena : Nat → Byte) (addr len : Nat) : List Byte := (List.range len).map fun i => arena (addr + i)

def place (s : LkSpans) (slot : Nat) (ids : SpanIds) (mine : Own) : LkSpans :=
  { s with
    ring := Function.update s.ring slot
      { ids := ids, body := some mine.body, text := mine.text.map fun t => (slot * s.cfg.textMax, t.length)
        http := mine.http.map fun _ => slot }
    textArena :=
      match mine.text with
      | some t => writeAt s.textArena (slot * s.cfg.textMax) t
      | none => s.textArena
    httpArena :=
      match mine.http with
      | some h => Function.update s.httpArena slot (some h)
      | none => s.httpArena }

structure Seen where
  ids : SpanIds
  body : Option SpanBody
  text : Option (List Byte)
  http : Option SpanHttp

def seen (s : LkSpans) (slot : Nat) : Seen where
  ids := (s.ring slot).ids
  body := (s.ring slot).body
  text := (s.ring slot).text.map fun t => readAt s.textArena t.1 t.2
  http := (s.ring slot).http.bind s.httpArena

def Seen.own (v : Seen) : Option SpanBody × Option (List Byte) × Option SpanHttp := (v.body, v.text, v.http)

end Latkit.Spans
