import Latkit.PgReady

namespace Latkit

inductive PgEvent where
  | msg (dir : Dir) (m : Msg)
  | resync
  | close
  deriving DecidableEq, Repr

/-- A connection; the handler attaches its state at the first event. -/
structure PgLink where
  p : LkProto := {}
  flags : ConnFlags := {}
  pc : Option PgConn := none
  deriving DecidableEq, Repr

def PgState.link (s : PgState) : PgLink := ⟨s.p, s.flags, some s.pc⟩

def pgEvent (l : PgLink) : PgEvent → PgLink
  | .msg dir m => (pgOnMsg l.p l.flags l.pc dir m).link
  | .resync => (pgOnResync l.p l.flags l.pc).link
  | .close => { l with p := pgOnConnClose l.p l.pc, pc := none }

/-- The connection after a history, which is listed newest event first. -/
def pgAfter (l : PgLink) : List PgEvent → PgLink
  | [] => l
  | e :: past => pgEvent (pgAfter l past) e

def PgLink.conn (l : PgLink) : PgConn := l.pc.getD (pgConnNew l.flags)

theorem pgConnGet_pc (l : PgLink) : (pgConnGet l.p l.flags l.pc).pc = l.conn := by
  obtain ⟨p, flags, _ | pc⟩ := l <;> rfl

theorem pgConnGet_out (l : PgLink) : (pgConnGet l.p l.flags l.pc).p.out = l.p.out := by
  obtain ⟨p, flags, _ | pc⟩ := l <;> rfl

def txns (out : List Upcall) : List Upcall :=
  out.filter fun
    | .txn _ _ _ => true
    | _ => false

def inTxn (status : Byte) : Bool := status == 'T'.toUInt8 || status == 'E'.toUInt8

structure TxnView where
  status : Byte
  start : Nat
  calls : List Upcall
  deriving DecidableEq, Repr

def PgState.txnView (s : PgState) : TxnView := ⟨s.pc.txnStatus, s.pc.txnStartNs, txns s.p.out⟩

def PgLink.txnView (l : PgLink) : TxnView := ⟨l.conn.txnStatus, l.conn.txnStartNs, txns l.p.out⟩

def TxnView.ready (v : TxnView) (ts : Nat) (status : Byte) : TxnView :=
  if status = 0 then v
  else if status = 'T'.toUInt8 ∧ inTxn v.status = false then { v with start := ts, status }
  else
    { v with
      status
      calls := if status = 'I'.toUInt8 ∧ inTxn v.status = true then
        v.calls ++ [.txn v.start ts v.status] else v.calls }

theorem trackTxn_txnView (s : PgState) (ts : Nat) (status : Byte) :
    (trackTxn s ts status).txnView = s.txnView.ready ts status := by
  have hbusy : (s.pc.txnStatus = 'T'.toUInt8 ∨ s.pc.txnStatus = 'E'.toUInt8) ↔
      inTxn s.pc.txnStatus = true := by
    simp [inTxn]
  have hstatus : s.txnView.status = s.pc.txnStatus := rfl
  simp only [trackTxn, TxnView.ready, hbusy, Bool.not_eq_true, hstatus]
  by_cases h0 : status = 0
  · rw [if_pos h0, if_pos h0]
  rw [if_neg h0, if_neg h0]
  by_cases hT : status = 'T'.toUInt8 ∧ inTxn s.pc.txnStatus = false
  · rw [if_pos hT, if_pos hT]
    rfl
  rw [if_neg hT, if_neg hT]
  by_cases hI : status = 'I'.toUInt8 ∧ inTxn s.pc.txnStatus = true
  · simp [PgState.txnView, hI, txns, LkProto.call]
  · simp [PgState.txnView, hI]

theorem emitUnit_txnView (m : Msg) (us : List PgUnit) (s : PgState) :
    (us.foldl (fun s u => emitUnit s u (if u.flags.aborted then 0 else m.ts) (readyStatus m)) s).txnView =
      s.txnView := by
  induction us generalizing s with
  | nil => rfl
  | cons u us ih =>
    rw [List.foldl_cons, ih]
    simp [PgState.txnView, emitUnit, txns, LkProto.call, LkProto.bump]

theorem pgQueryReady_txnView (s : PgState) (m : Msg) :
    (pgQueryReady s m).txnView = s.txnView.ready m.ts (readyStatus m) := by
  cases hl : s.pc.lossy with
  | true =>
    rw [pgQueryReady_lossy s m hl, trackTxn_txnView]
    rfl
  | false =>
    rw [pgQueryReady_eq s m hl, trackTxn_txnView]
    have hfold := emitUnit_txnView m (readyUnits s.pc.ring m.ts) s
    rw [← hfold]
    rfl

theorem pgQueryReady_pc (s : PgState) (m : Msg) :
    (pgQueryReady s m).pc.phase = s.pc.phase.settle ∧ (pgQueryReady s m).pc.lossy = false ∧
      (pgQueryReady s m).pc.degraded = false ∧ (pgQueryReady s m).pc.ring = {} := by
  cases hl : s.pc.lossy with
  | true =>
    rw [pgQueryReady_lossy s m hl]
    obtain ⟨hphase, hlossy, hdegraded, hring, _⟩ := trackTxn_pc _ m.ts (readyStatus m)
    exact ⟨hphase, hlossy, hdegraded, hring⟩
  | false =>
    obtain ⟨hpc, _⟩ := emitUnit_foldl m (readyUnits s.pc.ring m.ts) s
    simp only [pgQueryReady_eq s m hl, hpc]
    obtain ⟨hphase, hlossy, hdegraded, hring, _⟩ := trackTxn_pc _ m.ts (readyStatus m)
    exact ⟨hphase, hlossy, hdegraded, hring⟩

theorem pgSessionStartup_txnView (s : PgState) (m : Msg) :
    (pgSessionStartup s m).txnView = s.txnView := by
  simp only [pgSessionStartup]
  repeat' split
  all_goals simp [PgState.txnView, PgState.withPc, emitCancel, txns, LkProto.call, LkProto.bump]

theorem pgFrontendMsg_txnView (s : PgState) (m : Msg) : (pgFrontendMsg s m).txnView = s.txnView := by
  rw [pgFrontendMsg]
  split
  · rfl
  split
  · exact pgSessionStartup_txnView s m
  cases feKind m.type with
  | query =>
    simp only [pgQuerySimple]
    repeat' split
    all_goals rfl
  | parse =>
    simp only [pgPrepParse]
    repeat' split
    all_goals rfl
  | bind =>
    simp only [pgQueryBind]
    repeat' split
    all_goals rfl
  | function =>
    simp only [pgQueryFunction]
    repeat' split
    all_goals rfl
  | close =>
    simp only [pgPrepClose]
    split <;> rfl
  | _ => rfl

theorem pgBackendMsg_txnView (s : PgState) (m : Msg) :
    (pgBackendMsg s m).txnView =
      if s.pc.phase ≠ .ignore ∧ beKind m.type = .ready then s.txnView.ready m.ts (readyStatus m)
      else s.txnView := by
  rw [pgBackendMsg]
  by_cases hp : s.pc.phase = .ignore
  · rw [if_pos hp, if_neg (fun h => h.1 hp)]
  rw [if_neg hp]
  cases hk : beKind m.type with
  | ready =>
    rw [if_pos ⟨hp, rfl⟩]
    exact pgQueryReady_txnView s m
  | auth =>
    simp only [pgSessionAuth]
    repeat' split
    all_goals simp_all [PgState.txnView, txns, LkProto.call, LkProto.bump]
  | paramStatus =>
    simp only [pgSessionParamStatus]
    repeat' split
    all_goals simp_all [PgState.txnView, PgState.withPc]
  | complete =>
    simp only [pgQueryComplete]
    repeat' split
    all_goals simp_all [PgState.txnView, PgState.mapRing, corrupt, pgQueryDropAll, LkProto.bump]
  | _ => exact (if_neg (by simp)).symm

def PgEvent.isReady (c : PgConn) : PgEvent → Bool
  | .msg .send m => c.phase != .ignore && beKind m.type == .ready
  | _ => false

def TxnView.next (v : TxnView) (c : PgConn) (e : PgEvent) : TxnView :=
  match e with
  | .msg _ m => if e.isReady c then v.ready m.ts (readyStatus m) else v
  | .resync => { v with status := 0 }
  | .close => { v with status := 0, start := 0 }

theorem pgConnNew_txn (flags : ConnFlags) :
    (pgConnNew flags).txnStatus = 0 ∧ (pgConnNew flags).txnStartNs = 0 := by
  rw [pgConnNew]
  split <;> exact ⟨rfl, rfl⟩

theorem pgEvent_txnView (l : PgLink) (e : PgEvent) :
    (pgEvent l e).txnView = l.txnView.next l.conn e := by
  have hget : (pgConnGet l.p l.flags l.pc).txnView = l.txnView := by
    rw [PgState.txnView, PgLink.txnView, pgConnGet_pc, pgConnGet_out]
  cases e with
  | msg dir m =>
    have hcount : (countMsgs m (pgConnGet l.p l.flags l.pc)).txnView = l.txnView := hget
    have hpc : (countMsgs m (pgConnGet l.p l.flags l.pc)).pc = l.conn := pgConnGet_pc l
    change (pgOnMsg l.p l.flags l.pc dir m).txnView = _
    rw [pgOnMsg]
    cases dir with
    | recv =>
      rw [pgDispatch, pgFrontendMsg_txnView]
      exact hcount
    | send =>
      rw [pgDispatch, pgBackendMsg_txnView, hcount, hpc]
      simp [TxnView.next, PgEvent.isReady]
  | resync =>
    change (pgOnResync l.p l.flags l.pc).txnView = { l.txnView with status := 0 }
    rw [← hget]
    rfl
  | close =>
    obtain ⟨hstatus, hstart⟩ := pgConnNew_txn l.flags
    have hout : (pgOnConnClose l.p l.pc).out = l.p.out := by
      obtain ⟨p, flags, _ | pc⟩ := l <;> rfl
    change TxnView.mk (pgConnNew l.flags).txnStatus (pgConnNew l.flags).txnStartNs
      (txns (pgOnConnClose l.p l.pc).out) = _
    rw [hstatus, hstart, hout]
    rfl

end Latkit
