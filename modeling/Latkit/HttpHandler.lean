import Latkit.HttpWire
import Latkit.NormS3

namespace Latkit

/-! The handler of HTTP/1.x: the queue of requests in flight, and what becomes of a request and its
response. -/

def lkHttpMaxInflight : Nat := 16
def lkHttpTargetMax : Nat := 2048
def lkHttpTstateMax : Nat := 256
def lkHttpMethodMax : Nat := 16
def lkHttpHostMax : Nat := 64
def lkHttpUserMax : Nat := 40
def lkHttpReqidMax : Nat := 48
def lkHttpCtypeMax : Nat := 32
def lkHttpRouteMax : Nat := 96

structure LkHttpCfg where
  noRedact : Bool := false
  userBasic : Bool := false
  routeHeader : String := ""
  s3 : LkS3Cfg := {}
  deriving DecidableEq, Repr

structure HttpQo where
  error : Bool := false
  clientErr : Bool := false
  pipelined : Bool := false
  textTrunc : Bool := false
  noText : Bool := false
  bodyUnseen : Bool := false
  expectCont : Bool := false
  internal : Bool := false
  deriving DecidableEq, Repr

structure HttpTrace where
  traceId : List Byte
  parentId : List Byte
  flags : Byte
  deriving DecidableEq, Repr

def httpHexBytes : List Byte → Option (List Byte)
  | [] => some []
  | hi :: lo :: v => do
    let hi ← httpHexVal hi
    let lo ← httpHexVal lo
    let bs ← httpHexBytes v
    some (UInt8.ofNat (hi * 16 + lo) :: bs)
  | _ => none

/-- Version 00, both identifiers not zero, and nothing behind the flags but another field. -/
def httpParseTraceparent (v : List Byte) : Option HttpTrace := do
  let version ← httpHexBytes (v.take 2)
  let traceId ← httpHexBytes ((v.drop 3).take 32)
  let parentId ← httpHexBytes ((v.drop 36).take 16)
  let flags ← httpHexBytes ((v.drop 53).take 2)
  let dash : Option Byte := some '-'.toUInt8
  if v.length < 55 ∨ v[2]? ≠ dash ∨ v[35]? ≠ dash ∨ v[52]? ≠ dash ∨ (55 < v.length ∧ v[55]? ≠ dash) then none
  else if version ≠ [0] ∨ traceId.all (· == 0) ∨ parentId.all (· == 0) then none
  else some ⟨traceId, parentId, flags.headD 0⟩

def cstr (buf : List Byte) : List Byte := buf.takeWhile (· != 0)

def httpB64Val (b : Byte) : Option Nat :=
  if 'A'.toUInt8 ≤ b ∧ b ≤ 'Z'.toUInt8 then some (b - 'A'.toUInt8).toNat
  else if 'a'.toUInt8 ≤ b ∧ b ≤ 'z'.toUInt8 then some ((b - 'a'.toUInt8).toNat + 26)
  else if httpIsDigit b then some ((b - '0'.toUInt8).toNat + 52)
  else if b = '+'.toUInt8 then some 62
  else if b = '/'.toUInt8 then some 63
  else none

def httpBasicLoop : List Byte → (acc bits n : Nat) → (buf : List Byte) → Bool × List Byte
  | [], _, _, _, buf => (false, buf)
  | b :: v, acc, bits, n, buf =>
    if b = '='.toUInt8 then (false, buf)
    else
      match httpB64Val b with
      | none => (false, buf)
      | some d =>
        let acc := (acc * 64 + d) % 2 ^ 32
        if bits + 6 < 8 then httpBasicLoop v acc (bits + 6) n buf
        else
          let bits := bits + 6 - 8
          let c := UInt8.ofNat (acc / 2 ^ bits)
          if c = ':'.toUInt8 then (decide (0 < n), buf.set n 0)
          else if buf.length ≤ n + 1 then (false, buf)
          else if c < 0x20 ∨ 0x7f ≤ c then (false, buf)
          else httpBasicLoop v acc bits (n + 1) (buf.set n c)

def httpBasicUser (v buf : List Byte) : Bool × List Byte :=
  if v.length < 6 ∨ ¬ spanEqCi (v.take 5) "basic" ∨ v[5]? ≠ some ' '.toUInt8 then (false, buf)
  else httpBasicLoop ((v.drop 6).dropWhile httpIsOws) 0 0 0 buf

structure HttpUnit where
  tsStart : Nat
  tsReqDone : Nat := 0
  tsFirstRow : Nat := 0
  tsComplete : Nat := 0
  tsInterim : Nat := 0
  bytesIn : Nat := 0
  bytesOut : Nat := 0
  target : List Byte := []
  tracestate : List Byte := []
  tp : Option HttpTrace := none
  method : List Byte := []
  host : List Byte := []
  user : List Byte := List.replicate lkHttpUserMax 0
  reqId : List Byte := []
  ctype : List Byte := []
  routeHdr : List Byte := []
  objBytes : Nat := 0
  status : Nat := 0
  flags : HttpQo := {}
  vhost : Bool := false
  copySrc : Bool := false
  methodId : HttpMethod := .other
  minor : Nat := 0
  respMinor : Nat := 0
  reqDone : Bool := false
  haveResp : Bool := false
  expectCont : Bool := false
  toClose : Bool := false
  deriving DecidableEq, Repr

structure HttpDresp where
  errName : List Byte := []
  objVersion : List Byte := []
  deriving DecidableEq, Repr

structure LkHttpReq where
  method : List Byte
  target : List Byte
  host : List Byte
  vhost : Bool
  copySrc : Bool
  deriving DecidableEq, Repr

def HttpUnit.req (u : HttpUnit) : LkHttpReq := ⟨u.method, u.target, u.host, u.vhost, u.copySrc⟩

structure HttpQueryObs where
  tsStart : Nat
  tsReqDone : Nat
  tsFirstRow : Nat
  tsComplete : Nat
  tsReady : Nat
  bytesIn : Nat
  bytesOut : Nat
  objBytes : Nat := 0
  op : List Byte
  text : List Byte
  route : LkRouteOut
  errName : List Byte := []
  errCode : Nat
  trace : Option HttpTrace
  tracestate : List Byte
  reqId : List Byte
  objVersion : List Byte
  ctype : List Byte
  tsInterim : Nat
  version : Nat
  flags : HttpQo
  deriving DecidableEq, Repr

/-- One flavour of HTTP. `resolve` is the route that a unit is reported under. -/
structure LkHttpDialect where
  errBody : Bool
  resolve : LkHttpCfg → HttpUnit → LkRouteOut
  reqField : LkHttpCfg → HttpField → HttpUnit → HttpUnit
  reqHead : LkHttpCfg → LkHttpReq → HttpUnit → HttpUnit
  respField : HttpField → HttpDresp × HttpUnit → HttpDresp × HttpUnit
  readErr : List Byte → HttpDresp → HttpDresp
  obs : HttpDresp → HttpUnit → HttpQueryObs → HttpQueryObs

/-- The connection's state. The units in flight, oldest first, have the sequence numbers from `headSeq`
on; `reqSeq` is the one that receives a request body. -/
structure HttpConn where
  session : Session := {}
  dr : HttpDresp := {}
  units : List HttpUnit := []
  headSeq : Nat := 0
  reqSeq : Option Nat := none
  owed : Nat := 0
  respOrphan : Bool := false
  sessionEmitted : Bool := false
  degraded : Bool := false
  deriving DecidableEq, Repr

def HttpConn.openSeq (hc : HttpConn) : Nat := hc.headSeq + hc.units.length

inductive HttpUpcall where
  | query (session : Session) (obs : HttpQueryObs)
  | session (session : Session)
  deriving DecidableEq, Repr

structure HttpStats where
  msgs : Nat := 0
  resyncs : Nat := 0
  sessions : Nat := 0
  queries : Nat := 0
  errorsSql : Nat := 0
  parseErrors : Nat := 0
  unknownMsgs : Nat := 0
  unitsDroppedResync : Nat := 0
  unitsDroppedClose : Nat := 0
  unitsDroppedOverflow : Nat := 0
  orphanMsgs : Nat := 0
  blindConns : Nat := 0
  blindH2 : Nat := 0
  blindUpgrade : Nat := 0
  blindConnect : Nat := 0
  deriving DecidableEq, Repr

structure HttpHs where
  st : HttpStats := {}
  out : List HttpUpcall := []
  hc : HttpConn := {}
  deriving DecidableEq, Repr

namespace HttpHs

def bump (s : HttpHs) (g : HttpStats → HttpStats) : HttpHs := { s with st := g s.st }
def call (s : HttpHs) (e : HttpUpcall) : HttpHs := { s with out := s.out ++ [e] }
def mapHc (s : HttpHs) (g : HttpConn → HttpConn) : HttpHs := { s with hc := g s.hc }

end HttpHs

def httpOrphan (s : HttpHs) : HttpHs :=
  if s.hc.degraded then s else s.bump fun st => { st with orphanMsgs := st.orphanMsgs + 1 }

def lkHttpMsgReq : Byte := 'R'.toUInt8
def lkHttpMsgResp : Byte := 'S'.toUInt8
def lkHttpMsgInter : Byte := 'I'.toUInt8
def lkHttpMsgData : Byte := 'D'.toUInt8
def lkHttpMsgEnd : Byte := 'E'.toUInt8
def lkHttpMsgErrb : Byte := 'X'.toUInt8
def lkHttpMsgNote : Byte := '!'.toUInt8

inductive LkHttpNote where
  | badHead
  | fieldBad
  | headTooBig
  | headHole
  | clTe
  | clBad
  | teBad
  | chunkBad
  | chunkHole
  | lfOnly
  | pipelineOver
  | bodyUnseen
  | noMem
  | tls
  | blindH2
  | blindUpgrade
  | blindConnect
  deriving DecidableEq, Repr

def LkHttpNote.code (n : LkHttpNote) : Nat := n.ctorIdx + 1

def lkHttpNoteIsParseErr (n : Nat) : Bool :=
  n ∈ [LkHttpNote.badHead.code, LkHttpNote.fieldBad.code, LkHttpNote.headTooBig.code, LkHttpNote.clTe.code,
    LkHttpNote.clBad.code, LkHttpNote.teBad.code, LkHttpNote.chunkBad.code]

def lkHttpNoteIsBlind (n : Nat) : Bool := LkHttpNote.blindH2.code ≤ n && n ≤ LkHttpNote.blindConnect.code

section
variable (d : LkHttpDialect) (cfg : LkHttpCfg)

def unitPushHttp (units : List HttpUnit) (u : HttpUnit) : List HttpUnit :=
  if units = [] then [u]
  else (units ++ [u]).map fun u => { u with flags := { u.flags with pipelined := true } }

structure HttpReqRead where
  u : HttpUnit
  host : List Byte := []
  ua : List Byte := []
  tstate : List Byte := []
  deriving DecidableEq, Repr

def httpReqField (r : HttpReqRead) (f : HttpField) : HttpReqRead :=
  let u := d.reqField cfg f r.u
  let r := { r with u := u }
  if spanEqCi f.name "host" then { r with host := f.val }
  else if spanEqCi f.name "user-agent" then { r with ua := f.val }
  else if spanEqCi f.name "expect" then { r with u := { u with expectCont := httpListHas f.val "100-continue" } }
  else if spanEqCi f.name "traceparent" then { r with u := { u with tp := httpParseTraceparent f.val } }
  else if spanEqCi f.name "tracestate" then { r with tstate := f.val }
  else if spanEqCi f.name "x-request-id" || spanEqCi f.name "x-amzn-trace-id" then
    if u.reqId = [] then { r with u := { u with reqId := httpCopyLabel lkHttpReqidMax f.val } } else r
  else if cfg.routeHeader ≠ "" && spanEqCi f.name cfg.routeHeader then
    { r with u := { u with routeHdr := httpCopyLabel lkHttpRouteMax f.val } }
  else if cfg.userBasic && spanEqCi f.name "authorization" then
    let (ok, buf) := httpBasicUser f.val u.user
    { r with u := { u with user := if ok then buf else buf.set 0 0 } }
  else r

def httpRawTarget (t : HttpTarget) : List Byte := t.path ++ if t.query = [] then [] else '?'.toUInt8 :: t.query

def httpReqUnit (m : Msg) (rl : HttpReqLine) (fields : List HttpField) : HttpUnit × List Byte :=
  let t := httpTargetSplit rl.target
  let raw := httpRawTarget t
  let u : HttpUnit :=
    { tsStart := m.ts
      method := httpCopyLabel lkHttpMethodMax rl.method
      methodId := httpMethodId rl.method
      minor := rl.minor
      target := if t.path = [] then [] else raw.take lkHttpTargetMax
      flags :=
        { textTrunc := m.flags.bodyTrunc || (t.path ≠ [] && lkHttpTargetMax < raw.length)
          noText := t.path = [] } }
  let r := fields.foldl (httpReqField d cfg) { u := u }
  let u :=
    { r.u with
      host := httpCopyLabel lkHttpHostMax (if t.authority ≠ [] then t.authority else r.host)
      tracestate := if r.tstate.length ≤ lkHttpTstateMax then r.tstate else [] }
  (d.reqHead cfg u.req u, r.ua)

def sessionEmit (u : HttpUnit) (ua : List Byte) (s : HttpHs) : HttpHs :=
  if s.hc.sessionEmitted then s
  else
    let session : Session :=
      { database := u.host
        user := cstr u.user
        app := httpCopyLabel 64 ua
        serverVersion := (if u.minor = 0 then "HTTP/1.0" else "HTTP/1.1").toUTF8.toList
        complete := true }
    ((s.mapHc fun hc => { hc with session := session, sessionEmitted := true }).bump fun st =>
      { st with sessions := st.sessions + 1 }).call (.session session)

def httpReadReq (body : List Byte) : Option (HttpReqLine × List HttpField) := do
  let (line, h) ← httpHeadLine { rest := body }
  let rl ← httpParseReqLine line
  some (rl, (httpHeadFields h).1)

def httpReqHead (m : Msg) (s : HttpHs) : HttpHs :=
  match httpReadReq m.body with
  | none => httpOrphan s
  | some (rl, fields) =>
    if lkHttpMaxInflight ≤ s.hc.units.length then
      (s.bump fun st => { st with unitsDroppedOverflow := st.unitsDroppedOverflow + 1 }).mapHc fun hc =>
        { hc with owed := (hc.owed + 1) % 2 ^ 32 }
    else
      let (u, ua) := httpReqUnit d cfg m rl fields
      sessionEmit u ua (s.mapHc fun hc =>
        { hc with units := unitPushHttp hc.units u, degraded := false, reqSeq := some hc.openSeq })

structure HttpRespRead where
  dr : HttpDresp := {}
  u : HttpUnit
  haveCl : Bool := false
  tePresent : Bool := false
  ctype : List Byte := []
  deriving DecidableEq, Repr

def httpRespField (r : HttpRespRead) (f : HttpField) : HttpRespRead :=
  let (dr, u) := d.respField f (r.dr, r.u)
  let r := { r with dr := dr, u := u }
  if spanEqCi f.name "content-length" then
    { r with haveCl := r.haveCl || (httpParseContentLength f.val).isSome }
  else if spanEqCi f.name "transfer-encoding" then { r with tePresent := true }
  else if spanEqCi f.name "content-type" then { r with ctype := httpFirstToken f.val }
  else r

def httpRespUnit (m : Msg) (code minor : Nat) (fields : List HttpField) (u : HttpUnit) : HttpDresp × HttpUnit :=
  let r := fields.foldl (httpRespField d) { u := u }
  (r.dr,
    { r.u with
      status := code
      respMinor := minor
      haveResp := true
      tsFirstRow := m.ts
      ctype := if r.ctype ≠ [] then httpCopyLabel lkHttpCtypeMax r.ctype else r.u.ctype
      flags :=
        { r.u.flags with
          textTrunc := r.u.flags.textTrunc || m.flags.bodyTrunc
          error := r.u.flags.error || 500 ≤ code
          clientErr := r.u.flags.clientErr || (400 ≤ code && code < 500) }
      toClose := !r.haveCl && !r.tePresent && code ≠ 204 && code ≠ 304 && r.u.methodId ≠ .head })

def httpReadResp (body : List Byte) : Option ((Nat × Nat) × List HttpField) := do
  let (line, h) ← httpHeadLine { rest := body }
  let st ← httpParseStatusLine line
  some (st, (httpHeadFields h).1)

/-- A response head for the oldest unit. With none in flight it is one that is owed, or nobody's; an
interim one closes nothing. -/
def httpRespHead (interim : Bool) (m : Msg) (s : HttpHs) : HttpHs :=
  match httpReadResp m.body with
  | none => httpOrphan s
  | some ((code, minor), fields) =>
    match s.hc.units with
    | [] =>
      httpOrphan <|
        if !interim && s.hc.owed ≠ 0 then s.mapHc fun hc => { hc with owed := hc.owed - 1, respOrphan := true } else s
    | u :: us =>
      if interim then
        s.mapHc fun hc => { hc with units := (if u.tsInterim = 0 then { u with tsInterim := m.ts } else u) :: us }
      else
        let (dr, u) := httpRespUnit d m code minor fields u
        s.mapHc fun hc => { hc with dr := dr, units := u :: us }

def obsText (u : HttpUnit) : List Byte :=
  if u.flags.noText || u.target = [] then []
  else if cfg.noRedact || !lkUrlRedactNeeded u.target then u.target
  else lkUrlRedact u.target (u.target.length * 2 + lkRedactMark.length)

def unitObsHttp (dr : HttpDresp) (u : HttpUnit) : HttpQueryObs :=
  let route := d.resolve cfg u
  d.obs dr u
    { tsStart := u.tsStart
      tsReqDone := if u.tsReqDone ≠ 0 then u.tsReqDone else u.tsStart
      tsFirstRow := u.tsFirstRow
      tsComplete := u.tsComplete
      tsReady := u.tsComplete
      bytesIn := u.bytesIn
      bytesOut := u.bytesOut
      op := u.method
      text := obsText cfg u
      route := route
      errCode := u.status
      trace := u.tp
      tracestate := u.tracestate
      reqId := u.reqId
      objVersion := dr.objVersion
      ctype := u.ctype
      tsInterim := u.tsInterim
      version := if u.haveResp then u.respMinor else u.minor
      flags :=
        { u.flags with
          expectCont := u.flags.expectCont || u.expectCont
          noText := u.flags.noText || u.target = []
          internal := u.flags.internal || route.internal } }

def unitEmitHttp (u : HttpUnit) (s : HttpHs) : HttpHs :=
  let o := unitObsHttp d cfg s.hc.dr u
  let session := { s.hc.session with database := u.host, user := cstr u.user }
  ((s.mapHc fun hc => { hc with session := session }).bump fun st =>
    { st with queries := st.queries + 1, errorsSql := st.errorsSql + o.flags.error.toNat }).call (.query session o)

def unitsPop (hc : HttpConn) : HttpConn := { hc with headSeq := hc.headSeq + 1, units := hc.units.tail }

def unitsDropAllHttp (hc : HttpConn) : HttpConn :=
  { hc with headSeq := hc.openSeq, units := [], reqSeq := none, owed := 0, respOrphan := false }

def HttpConn.unitAt (hc : HttpConn) (seq : Option Nat) : Option HttpUnit :=
  seq.bind fun seq => if seq < hc.headSeq then none else hc.units[seq - hc.headSeq]?

def HttpConn.modifyAt (hc : HttpConn) (seq : Option Nat) (g : HttpUnit → HttpUnit) : HttpConn :=
  { hc with units := hc.units.modify (seq.getD 0 - hc.headSeq) g }

def bodyDataHttp (dir : Dir) (m : Msg) (s : HttpHs) : HttpHs :=
  match dir with
  | .recv =>
    if (s.hc.unitAt s.hc.reqSeq).isNone then httpOrphan s
    else s.mapHc fun hc => hc.modifyAt hc.reqSeq fun u => { u with bytesIn := u.bytesIn + m.len }
  | .send =>
    if s.hc.respOrphan then s
    else
      match s.hc.units with
      | [] => httpOrphan s
      | u :: us => s.mapHc fun hc => { hc with units := { u with bytesOut := u.bytesOut + m.len } :: us }

def bodyEndHttp (dir : Dir) (m : Msg) (s : HttpHs) : HttpHs :=
  match dir with
  | .recv =>
    if (s.hc.unitAt s.hc.reqSeq).isNone then httpOrphan (s.mapHc fun hc => { hc with reqSeq := none })
    else
      s.mapHc fun hc =>
        { hc.modifyAt hc.reqSeq fun u => { u with reqDone := true, tsReqDone := m.ts } with reqSeq := none }
  | .send =>
    if s.hc.respOrphan then s.mapHc fun hc => { hc with respOrphan := false }
    else
      match s.hc.units with
      | [] => httpOrphan s
      | u :: _ =>
        if u.haveResp then (unitEmitHttp d cfg { u with tsComplete := m.ts } s).mapHc unitsPop
        else (httpOrphan s).mapHc unitsPop

def framerNoteHttp (m : Msg) (s : HttpHs) : HttpHs :=
  let s := s.bump fun st =>
    { st with
      parseErrors := st.parseErrors + (lkHttpNoteIsParseErr m.len).toNat
      blindConns := st.blindConns + (lkHttpNoteIsBlind m.len).toNat
      blindH2 := st.blindH2 + (m.len == LkHttpNote.blindH2.code).toNat
      blindUpgrade := st.blindUpgrade + (m.len == LkHttpNote.blindUpgrade.code).toNat
      blindConnect := st.blindConnect + (m.len == LkHttpNote.blindConnect.code).toNat }
  if m.len = LkHttpNote.bodyUnseen.code then
    s.mapHc fun hc =>
      { hc with units := hc.units.modifyHead fun u => { u with flags := { u.flags with bodyUnseen := true } } }
  else s

def httpOnMsg (dir : Dir) (m : Msg) (s : HttpHs) : HttpHs :=
  let s := s.bump fun st => { st with msgs := st.msgs + 1 }
  if m.type = lkHttpMsgNote then framerNoteHttp m s
  else if m.type = lkHttpMsgReq then if dir = .recv then httpReqHead d cfg m s else s
  else if m.type = lkHttpMsgResp ∨ m.type = lkHttpMsgInter then
    if dir = .send then httpRespHead d (m.type == lkHttpMsgInter) m s else s
  else if m.type = lkHttpMsgData then bodyDataHttp dir m s
  else if m.type = lkHttpMsgEnd then bodyEndHttp d cfg dir m s
  else if m.type = lkHttpMsgErrb then
    if dir = .send then s.mapHc fun hc => { hc with dr := d.readErr m.body hc.dr } else s
  else s.bump fun st => { st with unknownMsgs := st.unknownMsgs + 1 }

/-- A loss of requests ruins every pairing; a loss of responses ruins the units being answered. -/
def httpOnResync (dir : Dir) (s : HttpHs) : HttpHs :=
  let s := s.bump fun st => { st with resyncs := st.resyncs + 1 }
  let dropped (n : Nat) (s : HttpHs) : HttpHs :=
    s.bump fun st => { st with unitsDroppedResync := st.unitsDroppedResync + n }
  let s := match dir with
    | .recv => (dropped s.hc.units.length s).mapHc unitsDropAllHttp
    | .send =>
      let k := (s.hc.units.takeWhile HttpUnit.haveResp).length
      (dropped k s).mapHc fun hc =>
        { hc with headSeq := hc.headSeq + k, units := hc.units.drop k, respOrphan := false }
  s.mapHc fun hc => { hc with degraded := true }

/-- The connection is gone: a body without a length is complete, another one is cut. -/
def httpOnConnClose (lastActivity : Nat) (s : HttpHs) : HttpHs :=
  let s := match s.hc.units with
    | [] => s
    | u :: _ =>
      if u.haveResp then
        let u := { u with
          tsComplete := lastActivity
          flags := { u.flags with bodyUnseen := u.flags.bodyUnseen || !u.toClose } }
        (unitEmitHttp d cfg u s).mapHc unitsPop
      else s
  (s.bump fun st => { st with unitsDroppedClose := st.unitsDroppedClose + s.hc.units.length }).mapHc unitsDropAllHttp

end

end Latkit
