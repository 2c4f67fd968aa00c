import Latkit.PgQuery

namespace Latkit

def setParam (key val : List Byte) (se : Session) : Session :=
  if keyIs key "user" then { se with user := copyField 64 val }
  else if keyIs key "database" then { se with database := copyField 64 val }
  else if keyIs key "application_name" then { se with app := copyField 64 val }
  else se

def parseParams : Nat → List Byte → Session → Session
  | 0, _, se => se
  | n + 1, w, se =>
    let (haveKey, key, w) := pgWireCstring w
    if !haveKey || key.isEmpty then se
    else
      let (valOk, val, w) := pgWireCstring w
      let se := setParam key val se
      if valOk then parseParams n w se else se

def emitCancel (s : PgState) : PgState :=
  { s with
    pc := { s.pc with phase := .ignore }
    p := (s.p.call (.query s.pc.session { kind := .cancel })).bump fun st =>
      { st with queries := st.queries + 1 } }

def pgSessionStartup (s : PgState) (m : Msg) : PgState :=
  match pgWireGetU32 m.body with
  | none => s
  | some (code, w) =>
    if code = lkPgProtoV3 then
      s.withPc { s.pc with
        phase := .auth
        session := { parseParams w.length w s.pc.session with complete := !m.flags.bodyTrunc } }
    else if code = lkPgCancelRequest then emitCancel s
    else s

def pgSessionAuth (s : PgState) (m : Msg) : PgState :=
  if s.pc.phase ≠ .auth then s
  else
    match pgWireGetU32 m.body with
    | some (0, _) =>
      { s with
        pc := { s.pc with phase := .ready }
        p := (s.p.call (.session s.pc.session)).bump fun st => { st with sessions := st.sessions + 1 } }
    | _ => s

def pgSessionParamStatus (pc : PgConn) (m : Msg) : PgConn :=
  let (haveKey, key, w) := pgWireCstring m.body
  let (haveVal, val, _) := pgWireCstring w
  if haveKey && haveVal && keyIs key "server_version" then
    { pc with session := { pc.session with serverVersion := copyField 16 val } }
  else pc

inductive FeKind where
  | query
  | parse
  | bind
  | function
  | close
  | copyData
  | sync
  | neutral
  | unknown
  deriving DecidableEq, Repr

/-- PasswordMessage, Execute, Describe, Flush, Terminate, CopyDone and CopyFail do nothing here; the
Sync of a batch does nothing either, but it ends what the client sends of it. -/
def feKind (type : Byte) : FeKind :=
  if type = 'Q'.toUInt8 then .query
  else if type = 'P'.toUInt8 then .parse
  else if type = 'B'.toUInt8 then .bind
  else if type = 'F'.toUInt8 then .function
  else if type = 'C'.toUInt8 then .close
  else if type = 'd'.toUInt8 then .copyData
  else if type = 'S'.toUInt8 then .sync
  else if type ∈ ['p', 'E', 'D', 'H', 'X', 'c', 'f'].map Char.toUInt8 then .neutral
  else .unknown

def countUnknown (s : PgState) : PgState :=
  { s with p := s.p.bump fun st => { st with unknownMsgs := st.unknownMsgs + 1 } }

def pgFrontendMsg (s : PgState) (m : Msg) : PgState :=
  if s.pc.phase = .ignore then s
  else if m.flags.startup then pgSessionStartup s m
  else
    match feKind m.type with
    | .query => pgQuerySimple s m
    | .parse => pgPrepParse s m
    | .bind => pgQueryBind s m
    | .function => pgQueryFunction s m
    | .close => s.withPc (pgPrepClose s.pc m)
    | .copyData => s.withPc (pgQueryCopyData s.pc m)
    | .sync => s
    | .neutral => s
    | .unknown => countUnknown s

inductive BeKind where
  | auth
  | paramStatus
  | dataRow
  | complete
  | empty
  | suspended
  | error
  | funcResponse
  | ready
  | copyIn
  | copyOut
  | copyData
  | copyBoth
  | neutral
  | unknown
  deriving DecidableEq, Repr

def beKind (type : Byte) : BeKind :=
  if type = 'R'.toUInt8 then .auth
  else if type = 'S'.toUInt8 then .paramStatus
  else if type = 'D'.toUInt8 then .dataRow
  else if type = 'C'.toUInt8 then .complete
  else if type = 'I'.toUInt8 then .empty
  else if type = 's'.toUInt8 then .suspended
  else if type = 'E'.toUInt8 then .error
  else if type = 'V'.toUInt8 then .funcResponse
  else if type = 'Z'.toUInt8 then .ready
  else if type = 'G'.toUInt8 then .copyIn
  else if type = 'H'.toUInt8 then .copyOut
  else if type = 'd'.toUInt8 then .copyData
  else if type = 'W'.toUInt8 then .copyBoth
  else if type ∈ ['T', 't', 'n', '1', '2', '3', 'N', 'A', 'K', 'c'].map Char.toUInt8 then .neutral
  else .unknown

def pgBackendMsg (s : PgState) (m : Msg) : PgState :=
  if s.pc.phase = .ignore then s
  else
    match beKind m.type with
    | .auth => pgSessionAuth s m
    | .paramStatus => s.withPc (pgSessionParamStatus s.pc m)
    | .dataRow => s.withPc (pgQueryDataRow s.pc m)
    | .complete => pgQueryComplete s m
    | .empty => s.withPc (pgQueryEmpty s.pc m)
    | .suspended => s.withPc (pgQuerySuspended s.pc m)
    | .error => s.withPc (pgQueryError s.pc m)
    | .funcResponse => s.withPc (pgQueryFuncResponse s.pc m)
    | .ready => pgQueryReady s m
    | .copyIn => s.withPc (pgQueryCopyBegin s.pc .copyIn)
    | .copyOut => s.withPc (pgQueryCopyBegin s.pc .copyOut)
    | .copyData => s.withPc (pgQueryCopyData s.pc m)
    | .copyBoth => pgQueryCopyBoth s
    | .neutral => s
    | .unknown => countUnknown s

/-- The state of a connection at its first message: without a startup nothing is known before a Z. -/
def pgConnNew (flags : ConnFlags) : PgConn :=
  if flags.synthetic then { phase := .ready, degraded := true } else { phase := .startup }

def pgConnGet (p : LkProto) (flags : ConnFlags) : Option PgConn → PgState
  | some pc => { p, flags, pc }
  | none => { p := p.bump fun st => { st with conns := st.conns + 1 }, flags, pc := pgConnNew flags }

def pgDispatch (s : PgState) (dir : Dir) (m : Msg) : PgState :=
  match dir with
  | .recv => pgFrontendMsg s m
  | .send => pgBackendMsg s m

def countMsgs (m : Msg) (s : PgState) : PgState :=
  { s with p := s.p.bump fun st =>
      { st with msgs := st.msgs + 1, startupMsgs := st.startupMsgs + m.flags.startup.toNat } }

def pgOnMsg (p : LkProto) (flags : ConnFlags) (pc : Option PgConn) (dir : Dir) (m : Msg) : PgState :=
  pgDispatch (countMsgs m (pgConnGet p flags pc)) dir m

def pgOnResync (p : LkProto) (flags : ConnFlags) (pc : Option PgConn) : PgState :=
  let s := pgConnGet p flags pc
  { s with
    p := s.p.bump fun st =>
      { st with
        resyncs := st.resyncs + 1
        unitsDroppedResync := st.unitsDroppedResync + s.pc.ring.count }
    pc := { pgQueryDropAll s.pc with degraded := true, txnStatus := 0, phase := s.pc.phase.settle } }

def pgOnConnClose (p : LkProto) (pc : Option PgConn) : LkProto :=
  match pc with
  | none => p
  | some pc => p.bump fun st =>
      { st with unitsDroppedClose := st.unitsDroppedClose + pc.ring.count }

end Latkit
