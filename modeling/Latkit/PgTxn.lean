import Latkit.PgHistory

namespace Latkit

def zStatus (m : Msg) : Option Byte := (pgWireGetU8 m.body).map Prod.fst

theorem readyStatus_eq (m : Msg) : readyStatus m = (zStatus m).getD 0 := by
  rw [readyStatus, zStatus]
  cases pgWireGetU8 m.body <;> rfl

namespace PgEvent

def status : PgEvent → Option Byte
  | .msg .send m => if m.type = 'Z'.toUInt8 then zStatus m else none
  | _ => none

def ts : PgEvent → Nat
  | .msg _ m => m.ts
  | _ => 0

/-- A Z whose status is I, T, E or cannot be read, or a resync. -/
def ofTxn : PgEvent → Bool
  | .msg .send m => m.type == 'Z'.toUInt8 && (zStatus m).all fun b => b == 'I'.toUInt8 || inTxn b
  | .resync => true
  | _ => false

end PgEvent

def lastStatus : List PgEvent → Option Byte
  | [] => none
  | .resync :: _ => none
  | e :: past => e.status.or (lastStatus past)

def txnOpener : List PgEvent → Option (PgEvent × List PgEvent)
  | [] => none
  | .resync :: _ => none
  | e :: past =>
    if e.status = some 'I'.toUInt8 then none
    else (txnOpener past).or (if e.status.any inTxn then some (e, past) else none)

/-- The call due at an event: an I ends the transaction whose status came last. -/
def dueTxn (e : PgEvent) (past : List PgEvent) : List Upcall :=
  match e.status, lastStatus past with
  | some b, some prev =>
    if b = 'I'.toUInt8 ∧ inTxn prev = true then
      [.txn (((txnOpener past).map fun o => o.1.ts).getD 0) e.ts prev]
    else []
  | _, _ => []

theorem PgEvent.ofTxn_cases {e : PgEvent} (h : e.ofTxn = true) :
    e = .resync ∨ ∃ m, e = .msg .send m ∧ m.type = 'Z'.toUInt8 ∧
      ∀ b, zStatus m = some b → b = 'I'.toUInt8 ∨ inTxn b = true := by
  match e with
  | .resync => exact .inl rfl
  | .msg .send m =>
    simp only [ofTxn, Bool.and_eq_true, beq_iff_eq] at h
    refine .inr ⟨m, rfl, h.1, fun b hb => ?_⟩
    rw [hb] at h
    simpa using h.2

theorem ready_type {m : Msg} (h : m.type = 'Z'.toUInt8) : beKind m.type = .ready := by
  rw [h]
  rfl

theorem PgPhase.settle_ignore {phase : PgPhase} (h : phase ≠ .ignore) : phase.settle ≠ .ignore := by
  cases phase <;> first | exact h | exact nofun

theorem pgEvent_phase {l : PgLink} {e : PgEvent} (he : e.ofTxn = true) (hp : l.conn.phase ≠ .ignore) :
    (pgEvent l e).conn.phase ≠ .ignore := by
  have hpc := pgConnGet_pc l
  obtain rfl | ⟨m, rfl, hz, _⟩ := PgEvent.ofTxn_cases he
  · change (pgConnGet l.p l.flags l.pc).pc.phase.settle ≠ .ignore
    rw [hpc]
    exact PgPhase.settle_ignore hp
  · have hcount : (countMsgs m (pgConnGet l.p l.flags l.pc)).pc = l.conn := hpc
    change (pgBackendMsg (countMsgs m (pgConnGet l.p l.flags l.pc)) m).pc.phase ≠ .ignore
    rw [pgBackendMsg, hcount, if_neg hp, ready_type hz]
    change (pgQueryReady _ m).pc.phase ≠ .ignore
    rw [(pgQueryReady_pc _ m).1, hcount]
    exact PgPhase.settle_ignore hp

theorem pgEvent_ready {l : PgLink} {m : Msg} (hz : m.type = 'Z'.toUInt8) (hp : l.conn.phase ≠ .ignore) :
    (pgEvent l (.msg .send m)).txnView = l.txnView.ready m.ts ((zStatus m).getD 0) := by
  have hready : PgEvent.isReady l.conn (.msg .send m) = true := by
    simp [PgEvent.isReady, hp, ready_type hz]
  rw [pgEvent_txnView, TxnView.next, if_pos hready, readyStatus_eq]

/-- The handler's record agrees with the history, but a transaction entered by an E keeps the start
it finds. -/
structure TracksTxn (l : PgLink) (past : List PgEvent) : Prop where
  phase : (pgAfter l past).conn.phase ≠ .ignore
  status : (pgAfter l past).conn.txnStatus = (lastStatus past).getD 0
  busy : inTxn ((lastStatus past).getD 0) = (txnOpener past).isSome
  start : ∀ o before, txnOpener past = some (o, before) →
    (pgAfter l past).conn.txnStartNs =
      if o.status = some 'T'.toUInt8 then o.ts else (pgAfter l before).conn.txnStartNs

theorem TracksTxn.nil (p : LkProto) (flags : ConnFlags) : TracksTxn { p, flags } [] where
  phase := by
    change (pgConnNew flags).phase ≠ .ignore
    rw [pgConnNew]
    split <;> rintro ⟨⟩
  status := (pgConnNew_txn flags).1
  busy := rfl
  start := by rintro _ _ ⟨⟩

theorem TracksTxn.resync {l : PgLink} (h : TracksTxn l past) : TracksTxn l (.resync :: past) where
  phase := pgEvent_phase rfl h.phase
  status := congrArg TxnView.status (pgEvent_txnView (pgAfter l past) .resync)
  busy := rfl
  start := nofun

section
variable {l : PgLink} {past : List PgEvent} {m : Msg}

theorem status_ready (hz : m.type = 'Z'.toUInt8) : (PgEvent.msg .send m).status = zStatus m := if_pos hz

theorem TracksTxn.unread (h : TracksTxn l past) (hz : m.type = 'Z'.toUInt8) (hm : zStatus m = none) :
    TracksTxn l (.msg .send m :: past) := by
  have hview := pgEvent_ready hz h.phase
  rw [hm] at hview
  have hstatus : (PgEvent.msg .send m).status = none := (status_ready hz).trans hm
  have hlast : lastStatus (.msg .send m :: past) = lastStatus past := by
    rw [lastStatus, hstatus, Option.none_or]
    exact nofun
  have hopener : txnOpener (.msg .send m :: past) = txnOpener past := by
    rw [txnOpener, hstatus, if_neg nofun]
    · simp
    · exact nofun
  refine ⟨pgEvent_phase (by simp [PgEvent.ofTxn, hz, hm]) h.phase, ?_, ?_, ?_⟩
  · rw [hlast]
    exact (congrArg TxnView.status hview).trans h.status
  · rw [hlast, hopener]
    exact h.busy
  · intro o before ho
    rw [hopener] at ho
    exact (congrArg TxnView.start hview).trans (h.start o before ho)

theorem TracksTxn.idle (h : TracksTxn l past) (hz : m.type = 'Z'.toUInt8)
    (hm : zStatus m = some 'I'.toUInt8) : TracksTxn l (.msg .send m :: past) := by
  have hview := pgEvent_ready hz h.phase
  rw [hm] at hview
  have hstatus : (PgEvent.msg .send m).status = some 'I'.toUInt8 := (status_ready hz).trans hm
  have hlast : lastStatus (.msg .send m :: past) = some 'I'.toUInt8 := by
    rw [lastStatus, hstatus, Option.some_or]
    exact nofun
  have hopener : txnOpener (.msg .send m :: past) = none := by
    rw [txnOpener, hstatus, if_pos rfl]
    exact nofun
  refine ⟨pgEvent_phase (by simp [PgEvent.ofTxn, hz, hm]) h.phase, ?_, ?_, ?_⟩
  · rw [hlast]
    exact congrArg TxnView.status hview
  · rw [hlast, hopener]
    rfl
  · intro o before ho
    rw [hopener] at ho
    cases ho

theorem inTxn_iff {b : Byte} : inTxn b = true ↔ b = 'T'.toUInt8 ∨ b = 'E'.toUInt8 := by
  simp [inTxn]

theorem TracksTxn.busyReady (h : TracksTxn l past) (hz : m.type = 'Z'.toUInt8)
    (hm : zStatus m = some b) (hb : inTxn b = true) : TracksTxn l (.msg .send m :: past) := by
  have hview := pgEvent_ready hz h.phase
  rw [hm, Option.getD_some] at hview
  have hstatus : (PgEvent.msg .send m).status = some b := (status_ready hz).trans hm
  have hne : b ≠ 0 ∧ b ≠ 'I'.toUInt8 := by
    obtain rfl | rfl := inTxn_iff.mp hb <;> decide
  have hlast : lastStatus (.msg .send m :: past) = some b := by
    rw [lastStatus, hstatus, Option.some_or]
    rintro ⟨⟩
  have hopener : txnOpener (.msg .send m :: past) =
      (txnOpener past).or (some (.msg .send m, past)) := by
    rw [txnOpener, hstatus, if_neg fun hI => hne.2 (Option.some.inj hI), Option.any_some, if_pos hb]
    rintro ⟨⟩
  have hbusy : inTxn (pgAfter l past).txnView.status = (txnOpener past).isSome := by
    rw [← h.busy, ← h.status]
    rfl
  refine ⟨pgEvent_phase (by simp [PgEvent.ofTxn, hz, hm, hb]) h.phase, ?_, ?_, ?_⟩
  · rw [hlast]
    refine (congrArg TxnView.status hview).trans ?_
    rw [TxnView.ready, if_neg hne.1]
    split <;> rfl
  · rw [hlast, hopener]
    cases txnOpener past <;> exact hb
  · intro o before ho
    rw [hopener] at ho
    refine (congrArg TxnView.start hview).trans ?_
    rw [TxnView.ready, if_neg hne.1, hbusy]
    cases hopen : txnOpener past with
    | some x =>
      rw [hopen, Option.some_or, Option.some.injEq] at ho
      rw [if_neg (by simp)]
      exact h.start o before (hopen.trans (congrArg some ho))
    | none =>
      rw [hopen, Option.none_or, Option.some.injEq] at ho
      cases ho
      rw [hstatus]
      split
      · next hT =>
        rw [if_pos (congrArg some hT.1)]
        rfl
      · next hT =>
        rw [if_neg fun hT' => hT ⟨Option.some.inj hT', rfl⟩]
        rfl

end

theorem TracksTxn.step {l : PgLink} (h : TracksTxn l past) (he : e.ofTxn = true) :
    TracksTxn l (e :: past) := by
  obtain rfl | ⟨m, rfl, hz, hm⟩ := PgEvent.ofTxn_cases he
  · exact h.resync
  cases hs : zStatus m with
  | none => exact h.unread hz hs
  | some b =>
    obtain rfl | hb := hm b hs
    · exact h.idle hz hs
    · exact h.busyReady hz hs hb

theorem tracksTxn (p : LkProto) (flags : ConnFlags) {past : List PgEvent}
    (h : ∀ e ∈ past, e.ofTxn = true) : TracksTxn { p, flags } past := by
  induction past with
  | nil => exact .nil p flags
  | cons e past ih =>
    rw [List.forall_mem_cons] at h
    exact (ih h.2).step h.1

def TxnStamped (l : PgLink) (past : List PgEvent) : Prop :=
  ∀ o before, txnOpener past = some (o, before) →
    o.status = some 'T'.toUInt8 ∨ o.ts = (pgAfter l before).conn.txnStartNs

theorem TracksTxn.stamped_iff {l : PgLink} (h : TracksTxn l past)
    (ho : txnOpener past = some (o, before)) :
    (pgAfter l past).conn.txnStartNs = o.ts ↔ TxnStamped l past := by
  rw [h.start o before ho]
  have hall : TxnStamped l past ↔
      (o.status = some 'T'.toUInt8 ∨ o.ts = (pgAfter l before).conn.txnStartNs) := by
    constructor
    · intro hs
      exact hs o before ho
    · intro hs o' before' ho'
      rw [ho] at ho'
      cases ho'
      exact hs
  rw [hall]
  by_cases hT : o.status = some 'T'.toUInt8
  · simp [hT]
  · rw [if_neg hT]
    simp only [hT, false_or]
    exact eq_comm

theorem calls_quiet {l : PgLink} {e : PgEvent} (hcalls : (pgEvent (pgAfter l past) e).txnView.calls =
    (pgAfter l past).txnView.calls) (hdue : dueTxn e past = []) :
    txns (pgAfter l (e :: past)).p.out = txns (pgAfter l past).p.out ++ dueTxn e past := by
  rw [hdue, List.append_nil]
  exact hcalls

theorem TxnView.ready_calls {v : TxnView} {b : Byte}
    (h : ¬ (b = 'I'.toUInt8 ∧ inTxn v.status = true)) : (v.ready ts b).calls = v.calls := by
  rw [TxnView.ready, if_neg h]
  repeat' split
  all_goals rfl

theorem TracksTxn.calls_idle {l : PgLink} (h : TracksTxn l past) (hz : m.type = 'Z'.toUInt8)
    (hm : zStatus m = some 'I'.toUInt8) :
    txns (pgAfter l (.msg .send m :: past)).p.out =
        txns (pgAfter l past).p.out ++ dueTxn (.msg .send m) past ↔
      TxnStamped l past := by
  have hview := pgEvent_ready hz h.phase
  rw [hm, Option.getD_some] at hview
  have hcalls := congrArg TxnView.calls hview
  have hstatus : (PgEvent.msg .send m).status = some 'I'.toUInt8 := (status_ready hz).trans hm
  have hprev : (pgAfter l past).txnView.status = (lastStatus past).getD 0 := h.status
  cases ho : txnOpener past with
  | none =>
    have hidle : inTxn ((lastStatus past).getD 0) = false := h.busy.trans (by rw [ho]; rfl)
    have hdue : dueTxn (.msg .send m) past = [] := by
      cases hl : lastStatus past with
      | none => simp [dueTxn, hl]
      | some prev =>
        rw [hl, Option.getD_some] at hidle
        simp [dueTxn, hl, hstatus, hidle]
    have hquiet := calls_quiet (hcalls.trans (TxnView.ready_calls fun hI => by
      rw [hprev, hidle] at hI
      exact nomatch hI.2)) hdue
    refine iff_of_true hquiet ?_
    intro o before ho'
    rw [ho] at ho'
    cases ho'
  | some x =>
    obtain ⟨o, before⟩ := x
    have hbusy : inTxn ((lastStatus past).getD 0) = true := h.busy.trans (by rw [ho]; rfl)
    rw [← h.stamped_iff ho]
    cases hl : lastStatus past with
    | none =>
      rw [hl] at hbusy
      exact absurd hbusy (by decide)
    | some prev =>
      rw [hl, Option.getD_some] at hbusy hprev
      have hdue : dueTxn (.msg .send m) past = [.txn o.ts m.ts prev] := by
        simp [dueTxn, hl, hstatus, hbusy, ho, PgEvent.ts]
      have hcall : txns (pgAfter l (.msg .send m :: past)).p.out =
          txns (pgAfter l past).p.out ++ [.txn (pgAfter l past).conn.txnStartNs m.ts prev] := by
        refine hcalls.trans ?_
        rw [TxnView.ready, if_neg (by decide), hprev, if_neg (fun hT => absurd hT.1 (by decide)),
          if_pos ⟨rfl, hbusy⟩]
        rfl
      rw [hdue, hcall, List.append_cancel_left_eq]
      simp

theorem TracksTxn.calls_iff {l : PgLink} (h : TracksTxn l past) (he : e.ofTxn = true) :
    txns (pgAfter l (e :: past)).p.out = txns (pgAfter l past).p.out ++ dueTxn e past ↔
      (e.status = some 'I'.toUInt8 → TxnStamped l past) := by
  obtain rfl | ⟨m, rfl, hz, _⟩ := PgEvent.ofTxn_cases he
  · refine iff_of_true (calls_quiet ?_ rfl) nofun
    rw [pgEvent_txnView]
    rfl
  have hview := congrArg TxnView.calls (pgEvent_ready hz h.phase)
  rw [status_ready hz]
  by_cases hI : zStatus m = some 'I'.toUInt8
  · rw [h.calls_idle hz hI]
    simp [hI]
  · refine iff_of_true (calls_quiet (hview.trans (TxnView.ready_calls ?_)) ?_) fun hI' => absurd hI' hI
    · intro hready
      cases hs : zStatus m with
      | none =>
        rw [hs] at hready
        exact absurd hready.1 (by decide)
      | some b =>
        rw [hs, Option.getD_some] at hready
        exact hI (by rw [hs, hready.1])
    · rw [dueTxn, status_ready hz]
      split
      · next b prev hb _ =>
        rw [if_neg]
        intro hb'
        exact hI (by rw [hb, hb'.1])
      · rfl

/-- Every event of a history makes the on_txn call that is due at it, and no other. -/
def TxnLaw (l : PgLink) (h : List PgEvent) : Prop :=
  ∀ e past, e :: past <:+ h →
    txns (pgAfter l (e :: past)).p.out = txns (pgAfter l past).p.out ++ dueTxn e past

/-- The transaction intervals of a connection are right exactly if each transaction that an I ends was
entered by a T, or by an E at the very time that was on record. -/
theorem pgTxn_law_iff (p : LkProto) (flags : ConnFlags) (h : List PgEvent)
    (hh : ∀ e ∈ h, e.ofTxn = true) :
    TxnLaw { p, flags } h ↔ ∀ e past, e :: past <:+ h → e.status = some 'I'.toUInt8 →
      ∀ o before, txnOpener past = some (o, before) →
        o.status = some 'T'.toUInt8 ∨ o.ts = (pgAfter { p, flags } before).conn.txnStartNs := by
  have hstep : ∀ e past, e :: past <:+ h →
      (txns (pgAfter { p, flags } (e :: past)).p.out =
          txns (pgAfter { p, flags } past).p.out ++ dueTxn e past ↔
        (e.status = some 'I'.toUInt8 → TxnStamped { p, flags } past)) := by
    intro e past hs
    have hall : ∀ e' ∈ e :: past, e'.ofTxn = true := fun e' he' => hh e' (hs.subset he')
    rw [List.forall_mem_cons] at hall
    exact (tracksTxn p flags hall.2).calls_iff hall.1
  constructor
  · intro hlaw e past hs
    exact (hstep e past hs).mp (hlaw e past hs)
  · intro hstamp e past hs
    exact (hstep e past hs).mpr (hstamp e past hs)

def zAt (ts : Nat) (status : Char) : PgEvent :=
  .msg .send { type := 'Z'.toUInt8, body := [status.toUInt8], ts }

theorem pgTxn_law_begin :
    TxnLaw {} [zAt 30 'I', zAt 20 'T'] ↔ ∀ e past, e :: past <:+ [zAt 30 'I', zAt 20 'T'] →
      e.status = some 'I'.toUInt8 → ∀ o before, txnOpener past = some (o, before) →
        o.status = some 'T'.toUInt8 ∨ o.ts = (pgAfter {} before).conn.txnStartNs :=
  pgTxn_law_iff {} {} _ (by decide)

/-- A transaction that is first seen failed gets no start of its own. -/
theorem pgTxn_law_failed : ¬ TxnLaw {} [zAt 30 'I', zAt 20 'E'] := by
  intro h
  have hcall := h (zAt 30 'I') [zAt 20 'E'] (List.suffix_refl _)
  revert hcall
  decide

end Latkit
