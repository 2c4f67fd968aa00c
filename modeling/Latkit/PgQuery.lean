import Latkit.PgPrep

namespace Latkit

namespace PgState

def withPc (s : PgState) (pc : PgConn) : PgState := { s with pc }

def mapRing (s : PgState) (g : Inflight.UnitRing PgUnit → Inflight.UnitRing PgUnit) : PgState :=
  { s with pc := { s.pc with ring := g s.pc.ring } }

end PgState

def PgConn.full (pc : PgConn) : Bool := pc.lossy || lkPgMaxInflight ≤ pc.ring.count

def PgUnit.pipelined (u : PgUnit) : PgUnit := { u with flags := { u.flags with pipelined := true } }

def PgConn.ringPush (pc : PgConn) (u : PgUnit) : PgConn :=
  let ring := pc.ring.push u
  { pc with ring := if ring.count > 1 then ring.map PgUnit.pipelined else ring }

def PgState.overflow (s : PgState) : PgState :=
  { s with
    p := s.p.bump fun st => { st with unitsDroppedOverflow := st.unitsDroppedOverflow + 1 }
    pc := { s.pc with lossy := true } }

def pgQueryDropAll (pc : PgConn) : PgConn := { pc with ring := {}, lossy := false }

def simpleText (m : Msg) : List Byte :=
  let text := m.body.take lkMsgBodyMax
  if text.getLast? = some 0 then text.dropLast else text

def fillText (prep : Option PgPrepCache) (u : PgUnit) : List Byte :=
  if u.flags.noText then []
  else
    match u.prepIdx, prep with
    | some i, some cache =>
      let e := cache.slot i
      if e.used && e.gen == u.prepGen then e.text else []
    | _, _ => u.ownText

def countedCommands : List String :=
  ["SELECT", "INSERT", "UPDATE", "DELETE", "MERGE", "FETCH", "MOVE", "COPY"]

def isDigit (b : Byte) : Bool := '0'.toUInt8 ≤ b && b ≤ '9'.toUInt8

def decimal (digits : List Byte) : UInt64 :=
  digits.foldl (fun rows b => rows * 10 + (b - '0'.toUInt8).toUInt64) 0

def lastToken (tag : List Byte) : List Byte :=
  ((tag.reverse.dropWhile (· == ' '.toUInt8)).takeWhile (· != ' '.toUInt8)).reverse

def tagRows (tag : List Byte) : UInt64 :=
  let cmd := tag.takeWhile (· != ' '.toUInt8)
  if countedCommands.any fun c => c.toUTF8.toList == cmd then
    let token := lastToken tag
    if token.all isDigit then decimal token else 0
  else 0

/-- A full body whose content is corrupt: no reply can be matched before the next Z. -/
def corrupt (s : PgState) : PgState :=
  { s with
    p := s.p.bump fun st => { st with parseErrors := st.parseErrors + 1 }
    pc := { pgQueryDropAll s.pc with degraded := true } }

/-- Simple and function units wait for the Z; extended ones are closed by their own replies. -/
def PgUnit.zClosed (u : PgUnit) : Bool := u.kind == .simple || u.kind == .function

def PgUnit.obs (prep : Option PgPrepCache) (u : PgUnit) (ready : Nat) (status : Byte) : QueryObs where
  tsStart := u.tsStart
  tsFirstRow := u.tsFirstRow
  tsComplete := u.tsComplete
  tsReady := ready
  text := fillText prep u
  rows := u.rows
  bytes := u.bytes
  sqlstate := if u.flags.error then u.sqlstate else []
  kind := u.copyKind.getD u.kind
  txnStatus := status
  flags := u.flags

def emitUnit (s : PgState) (u : PgUnit) (ready : Nat) (status : Byte) : PgState :=
  { s with p := (s.p.call (.query s.pc.session (u.obs s.pc.prep ready status))).bump fun st =>
      { st with queries := st.queries + 1, errorsSql := st.errorsSql + u.flags.error.toNat } }

def pgQuerySimple (s : PgState) (m : Msg) : PgState :=
  if s.pc.phase ≠ .ready ∨ s.pc.degraded then s
  else if s.pc.full then s.overflow
  else s.withPc (s.pc.ringPush {
    kind := .simple
    tsStart := m.ts
    ownText := simpleText m
    flags := { textTrunc := m.flags.bodyTrunc } })

def boundUnit (prep : Option PgPrepCache) (m : Msg) : Option PgPrepCache × PgUnit :=
  let (_, _, w) := pgWireCstring m.body
  let (haveStmt, stmt, _) := pgWireCstring w
  let u : PgUnit := { kind := .extended, tsStart := m.ts }
  if !haveStmt then (prep, { u with flags := { noText := true } })
  else
    match pgPrepLookup prep stmt with
    | none => (prep, { u with flags := { noText := true } })
    | some (idx, gen, trunc, cache) =>
      (some cache, { u with prepIdx := some idx, prepGen := gen, flags := { textTrunc := trunc } })

def pgQueryBind (s : PgState) (m : Msg) : PgState :=
  if s.pc.phase ≠ .ready ∨ s.pc.degraded then s
  else if s.pc.full then s.overflow
  else
    let (prep, u) := boundUnit s.pc.prep m
    s.withPc (PgConn.ringPush { s.pc with prep } u)

def pgQueryFunction (s : PgState) (m : Msg) : PgState :=
  if s.pc.phase ≠ .ready ∨ s.pc.degraded then s
  else if s.pc.full then s.overflow
  else s.withPc (s.pc.ringPush { kind := .function, tsStart := m.ts, flags := { noText := true } })

namespace PgUnit

def dataRow (ts : Nat) (u : PgUnit) : PgUnit :=
  if u.tsFirstRow = 0 then { u with tsFirstRow := ts } else u

def complete (rows : UInt64) (ts : Nat) (u : PgUnit) : PgUnit :=
  { u with
    rows := u.rows + rows
    tsComplete := ts
    ncomplete := u.ncomplete + 1
    flags := { u.flags with multiStmt := u.flags.multiStmt || u.ncomplete + 1 > 1 } }

def empty (ts : Nat) (u : PgUnit) : PgUnit :=
  { u with tsComplete := ts, ncomplete := u.ncomplete + 1, flags := { u.flags with empty := true } }

def suspended (ts : Nat) (u : PgUnit) : PgUnit :=
  { u with tsComplete := ts, ncomplete := u.ncomplete + 1, flags := { u.flags with suspended := true } }

def error (sqlstate : List Byte → List Byte) (ts : Nat) (u : PgUnit) : PgUnit :=
  { u with
    sqlstate := sqlstate u.sqlstate
    tsComplete := ts
    ncomplete := if u.ncomplete = 0 then 1 else u.ncomplete
    flags := { u.flags with error := true } }

def aborted (u : PgUnit) : PgUnit :=
  { u with tsComplete := 0, tsFirstRow := 0, flags := { u.flags with aborted := true } }

def funcResponse (ts : Nat) (u : PgUnit) : PgUnit :=
  { u with tsComplete := ts, ncomplete := u.ncomplete + 1 }

def copyBegin (copyKind : QueryKind) (u : PgUnit) : PgUnit := { u with copyKind := some copyKind }

def copyData (len : Nat) (u : PgUnit) : PgUnit := { u with bytes := u.bytes + UInt64.ofNat len }

end PgUnit

def closeReply (g : PgUnit → PgUnit) (ring : Inflight.UnitRing PgUnit) : Inflight.UnitRing PgUnit :=
  if ring.current.any PgUnit.zClosed then ring.modify g else ring.close g

def pgQueryDataRow (pc : PgConn) (m : Msg) : PgConn :=
  { pc with ring := pc.ring.modify (PgUnit.dataRow m.ts) }

def pgQueryComplete (s : PgState) (m : Msg) : PgState :=
  match s.pc.ring.current with
  | none => s
  | some _ =>
    let (haveTag, tag, _) := pgWireCstring m.body
    if haveTag then s.mapRing (closeReply (PgUnit.complete (tagRows tag) m.ts))
    else if m.flags.bodyTrunc then s.mapRing (closeReply (PgUnit.complete 0 m.ts))
    else corrupt s

def pgQueryEmpty (pc : PgConn) (m : Msg) : PgConn :=
  { pc with ring := closeReply (PgUnit.empty m.ts) pc.ring }

def pgQuerySuspended (pc : PgConn) (m : Msg) : PgConn :=
  { pc with ring := pc.ring.close (PgUnit.suspended m.ts) }

def errorFields : Nat → List Byte → List Byte → List Byte
  | 0, _, sqlstate => sqlstate
  | _ + 1, [], sqlstate => sqlstate
  | n + 1, field :: w, sqlstate =>
    if field = 0 then sqlstate
    else
      let (haveVal, val, w) := pgWireCstring w
      if !haveVal then sqlstate
      else errorFields n w (if field = 'C'.toUInt8 then val.take 5 else sqlstate)

def errorReply (g : PgUnit → PgUnit) (ring : Inflight.UnitRing PgUnit) : Inflight.UnitRing PgUnit :=
  if ring.current.any PgUnit.zClosed then ring.modify g else ring.abort g PgUnit.aborted

def pgQueryError (pc : PgConn) (m : Msg) : PgConn :=
  { pc with
    ring := errorReply (PgUnit.error (errorFields m.body.length m.body) m.ts) pc.ring
    phase := if pc.ring.current.any fun u => !u.zClosed then .skipToSync else pc.phase }

def pgQueryFuncResponse (pc : PgConn) (m : Msg) : PgConn :=
  { pc with ring := pc.ring.modify (PgUnit.funcResponse m.ts) }

def pgQueryCopyBegin (pc : PgConn) (copyKind : QueryKind) : PgConn :=
  { pc with
    phase := if copyKind = .copyIn then .copyIn else .copyOut
    ring := pc.ring.modify (PgUnit.copyBegin copyKind) }

def pgQueryCopyData (pc : PgConn) (m : Msg) : PgConn :=
  { pc with ring := pc.ring.modify (PgUnit.copyData m.len) }

def pgQueryCopyBoth (s : PgState) : PgState where
  p := s.p.bump fun st => { st with replicationConns := st.replicationConns + 1 }
  flags := { s.flags with replication := true }
  pc := { pgQueryDropAll s.pc with phase := .ignore }

def PgUnit.ready (ts : Nat) (u : PgUnit) : PgUnit :=
  if u.zClosed && u.tsComplete == 0 then { u with tsComplete := ts } else u

/-- The units a Z reports, oldest first. An extended unit without a reply is left out. -/
def readyUnits (ring : Inflight.UnitRing PgUnit) (ts : Nat) : List PgUnit :=
  (ring.closed ++ ring.opened.filter PgUnit.zClosed).map (PgUnit.ready ts)

def PgPhase.settle : PgPhase → PgPhase
  | .skipToSync => .ready
  | .copyIn => .ready
  | .copyOut => .ready
  | phase => phase

/-- A transaction spans from the Z that reports it to the Z that reports idle again. -/
def trackTxn (s : PgState) (ts : Nat) (status : Byte) : PgState :=
  let prev := s.pc.txnStatus
  let busy := prev = 'T'.toUInt8 ∨ prev = 'E'.toUInt8
  if status = 0 then s
  else if status = 'T'.toUInt8 ∧ ¬ busy then
    { s with pc := { s.pc with txnStartNs := ts, txnStatus := status } }
  else
    { s with
      p := if status = 'I'.toUInt8 ∧ busy then s.p.call (.txn s.pc.txnStartNs ts prev) else s.p
      pc := { s.pc with txnStatus := status } }

def pgQueryReady (s : PgState) (m : Msg) : PgState :=
  let status := match pgWireGetU8 m.body with
    | some (sb, _) => sb
    | none => 0
  let s := if s.pc.lossy then s
    else (readyUnits s.pc.ring m.ts).foldl
      (fun s u => emitUnit s u (if u.flags.aborted then 0 else m.ts) status) s
  let pc := { s.pc with ring := {}, lossy := false, degraded := false, phase := s.pc.phase.settle }
  trackTxn (s.withPc pc) m.ts status

end Latkit
