import Latkit.PgMoves

namespace Latkit
open Inflight (UnitRing)

/-- An event that breaks the stream: a resync, or a message whose content is corrupt. -/
def Breaks (l : PgLink) (e : PgEvent) (past : List PgEvent) : Prop :=
  e = .resync ∨ (pgAfter l (e :: past)).p.st.parseErrors ≠ (pgAfter l past).p.st.parseErrors

/-- The unit at a place of the ring is the one that an event opened, with no break since. -/
inductive OpenedBy (l : PgLink) (o : PgEvent) (i : Nat) : List PgEvent → Prop
  | opened (before : (pgAfter l past).conn.ring.count = i)
      (after : (pgAfter l (o :: past)).conn.ring.count = i + 1) : OpenedBy l o i (o :: past)
  | kept (since : OpenedBy l o i past) (unbroken : ¬ Breaks l e past)
      (same : (pgAfter l (e :: past)).conn.origins[i]? = (pgAfter l past).conn.origins[i]?) :
      OpenedBy l o i (e :: past)

structure InFlight (l : PgLink) (past : List PgEvent) : Prop where
  fits : (pgAfter l past).conn.ring.count ≤ lkPgMaxInflight
  degraded : (pgAfter l past).conn.degraded = true → (pgAfter l past).conn.origins = []
  openers : ∀ i x, (pgAfter l past).conn.origins[i]? = some x → ∃ o, OpenedBy l o i past ∧ o.ts = x.2

theorem origins_empty {pc : PgConn} (h : pc.ring = {}) : pc.origins = [] := by
  rw [PgConn.origins, h]
  rfl

theorem InFlight.ofEmpty {l : PgLink} (h : (pgAfter l past).conn.ring = {}) : InFlight l past where
  fits := by
    rw [h]
    exact Nat.zero_le _
  degraded _ := origins_empty h
  openers i x hx := by
    rw [origins_empty h] at hx
    cases hx

theorem InFlight.nil (p : LkProto) (flags : ConnFlags) : InFlight { p, flags } [] :=
  .ofEmpty (pgConnNew_ring flags)

theorem InFlight.msg {l : PgLink} (h : InFlight l past) (dir : Dir) (m : Msg) :
    InFlight l (.msg dir m :: past) := by
  have hcount := (pgAfter l past).conn.origins_length
  have hcount' := (pgAfter l (.msg dir m :: past)).conn.origins_length
  have hunbroken : (pgAfter l (.msg dir m :: past)).unitView.parseErrors =
      (pgAfter l past).unitView.parseErrors → ¬ Breaks l (.msg dir m) past := by
    rintro hparsed (hr | hp)
    · cases hr
    · exact hp hparsed
  cases pgEvent_move (pgAfter l past) dir m with
  | keep cancels cancel obs origins degraded parsed =>
    change (pgAfter l (.msg dir m :: past)).conn.origins = _ at origins
    refine ⟨?_, fun hd => origins.trans (h.degraded (degraded.symm.trans hd)), ?_⟩
    · rw [← hcount', origins]
      exact Nat.le_trans (Nat.le_of_eq hcount) h.fits
    · intro i x hx
      rw [origins] at hx
      obtain ⟨o, ho, hts⟩ := h.openers i x hx
      exact ⟨o, .kept ho (hunbroken parsed) (congrArg (·[i]?) origins), hts⟩
  | opened kind obs inStep fits origins degraded parsed =>
    change (pgAfter l (.msg dir m :: past)).conn.origins = (pgAfter l past).conn.origins ++ _ at origins
    have hlen : (pgAfter l (.msg dir m :: past)).conn.ring.count = (pgAfter l past).conn.ring.count + 1 := by
      rw [← hcount', origins, List.length_append, hcount]
      rfl
    refine ⟨Nat.le_trans (Nat.le_of_eq hlen) fits, fun hd => ?_, ?_⟩
    · exact absurd (hd.symm.trans degraded) nofun
    · intro i x hx
      rw [origins] at hx
      by_cases hi : i < (pgAfter l past).conn.origins.length
      · have hsame : ((pgAfter l past).conn.origins ++ [(kind, m.ts)])[i]? =
            (pgAfter l past).conn.origins[i]? := List.getElem?_append_left hi
        rw [hsame] at hx
        obtain ⟨o, ho, hts⟩ := h.openers i x hx
        refine ⟨o, .kept ho (hunbroken parsed) ?_, hts⟩
        rw [origins, hsame]
      · rw [List.getElem?_append_right (Nat.le_of_not_lt hi), List.getElem?_singleton] at hx
        split at hx
        · next hz =>
          have hi' : (pgAfter l past).conn.ring.count = i := by omega
          cases hx
          exact ⟨.msg dir m, .opened hi' (by rw [hlen, hi']), rfl⟩
        · cases hx
  | lost obs ring => exact .ofEmpty ring
  | ready obs ring => exact .ofEmpty ring

theorem InFlight.step {l : PgLink} (h : InFlight l past) (e : PgEvent) : InFlight l (e :: past) := by
  cases e with
  | msg dir m => exact h.msg dir m
  | resync => exact .ofEmpty (pgEvent_drops _ .resync (.inl rfl)).2
  | close => exact .ofEmpty (pgEvent_drops _ .close (.inr rfl)).2

theorem inFlight (p : LkProto) (flags : ConnFlags) (past : List PgEvent) : InFlight { p, flags } past := by
  induction past with
  | nil => exact .nil p flags
  | cons e past ih => exact ih.step e

def OfUnit (l : PgLink) (past : List PgEvent) (ob : QueryObs) : Prop :=
  ∃ (i : Nat) (u : PgUnit) (o : PgEvent) (ts ready : Nat) (prep : Option PgPrepCache) (status : Byte),
    (pgAfter l past).conn.ring.all[i]? = some u ∧ ob = (u.ready ts).obs prep ready status ∧
      OpenedBy l o i past ∧ ob.tsStart = o.ts

theorem InFlight.readyObs {l : PgLink} (h : InFlight l past) (m : Msg)
    (hob : ob ∈ readyObs (pgAfter l past).conn m) : OfUnit l past ob := by
  rw [Latkit.readyObs] at hob
  split at hob
  · cases hob
  · obtain ⟨u', hu', rfl⟩ := List.mem_map.mp hob
    obtain ⟨u, hu, rfl⟩ := List.mem_map.mp hu'
    have hall : u ∈ (pgAfter l past).conn.ring.all := by
      obtain hc | ho := List.mem_append.mp hu
      · exact List.mem_append_left _ hc
      · exact List.mem_append_right _ (List.mem_filter.mp ho).1
    obtain ⟨i, hi⟩ := List.mem_iff_getElem?.mp hall
    obtain ⟨o, ho, hts⟩ := h.openers i u.origin (by rw [PgConn.origins, List.getElem?_map, hi]; rfl)
    refine ⟨i, u, o, m.ts, _, _, _, hi, rfl, ho, ?_⟩
    rw [hts]
    exact congrArg Prod.snd (ready_origin m.ts u)

theorem InFlight.observed {l : PgLink} (h : InFlight l past) (e : PgEvent) :
    ∃ obs, queries (pgAfter l (e :: past)).p.out = queries (pgAfter l past).p.out ++ obs ∧
      ∀ ob ∈ obs, ob = { kind := .cancel } ∨ OfUnit l past ob := by
  have hquiet : (pgEvent (pgAfter l past) e).unitView.obs = (pgAfter l past).unitView.obs →
      ∃ obs, queries (pgAfter l (e :: past)).p.out = queries (pgAfter l past).p.out ++ obs ∧
        ∀ ob ∈ obs, ob = { kind := .cancel } ∨ OfUnit l past ob :=
    fun hobs => ⟨[], hobs.trans (List.append_nil _).symm, nofun⟩
  cases e with
  | msg dir m =>
    cases pgEvent_move (pgAfter l past) dir m with
    | keep cancels cancel obs => exact ⟨cancels, obs, fun ob hob => .inl (cancel ob hob)⟩
    | opened kind obs => exact hquiet obs
    | lost obs => exact hquiet obs
    | ready obs => exact ⟨_, obs, fun ob hob => .inr (h.readyObs m hob)⟩
  | resync => exact hquiet (pgEvent_drops _ .resync (.inl rfl)).1
  | close => exact hquiet (pgEvent_drops _ .close (.inr rfl)).1

theorem InFlight.closed {l : PgLink} (h : InFlight l past) (e : PgEvent)
    (hd : (pgAfter l past).conn.degraded = true) : (pgAfter l (e :: past)).conn.ring.count = 0 := by
  have hempty := h.degraded hd
  rw [← PgConn.origins_length, List.length_eq_zero_iff]
  cases e with
  | msg dir m =>
    cases pgEvent_move (pgAfter l past) dir m with
    | keep cancels cancel obs origins => exact origins.trans hempty
    | opened kind obs inStep => exact absurd (hd.symm.trans inStep) nofun
    | lost obs ring => exact origins_empty ring
    | ready obs ring => exact origins_empty ring
  | resync => exact origins_empty (pgEvent_drops _ .resync (.inl rfl)).2
  | close => exact origins_empty (pgEvent_drops _ .close (.inr rfl)).2

theorem ready_lossy {l : PgLink} {m : Msg} (hz : m.type = 'Z'.toUInt8) (hl : l.conn.lossy = true) :
    queries (pgEvent l (.msg .send m)).p.out = queries l.p.out := by
  have hpc : (countMsgs m (pgConnGet l.p l.flags l.pc)).pc = l.conn := pgConnGet_pc l
  have hout : queries (countMsgs m (pgConnGet l.p l.flags l.pc)).p.out = queries l.p.out :=
    congrArg UnitView.obs (pgConnGet_unitView l)
  change queries (pgBackendMsg (countMsgs m (pgConnGet l.p l.flags l.pc)) m).p.out = _
  rw [pgBackendMsg, ready_type hz]
  split
  · exact hout
  · change queries (pgQueryReady _ m).p.out = _
    rw [pgQueryReady_lossy _ m (by rw [hpc, hl]), trackTxn_queries]
    exact hout

def sinceResync (past : List PgEvent) : List PgEvent := past.takeWhile (· ≠ .resync)

def StartsSince (past : List PgEvent) (start : Nat) : Prop :=
  .resync ∈ past → ∃ o ∈ sinceResync past, o.status = some 'T'.toUInt8 ∧ o.ts = start

theorem StartsSince.cons (h : StartsSince past start) (dir : Dir) (m : Msg) :
    StartsSince (.msg dir m :: past) start := by
  intro hr
  obtain ⟨o, ho, hstart⟩ := h ((List.mem_cons.mp hr).resolve_left nofun)
  refine ⟨o, ?_, hstart⟩
  rw [sinceResync, List.takeWhile_cons_of_pos (by simp)]
  exact List.mem_cons_of_mem _ ho

theorem ready_of_beKind {m : Msg} (h : beKind m.type = .ready) : m.type = 'Z'.toUInt8 := by
  have hall : ∀ n : Fin 256, beKind (UInt8.ofFin n) = .ready → UInt8.ofFin n = 'Z'.toUInt8 := by
    decide +kernel
  exact hall m.type.toFin h

theorem status_of_isReady {e : PgEvent} {c : PgConn} (h : e.isReady c = true) :
    ∃ m, e = .msg .send m ∧ readyStatus m = e.status.getD 0 := by
  match e with
  | .msg .send m =>
    simp only [PgEvent.isReady, Bool.and_eq_true, beq_iff_eq] at h
    refine ⟨m, rfl, ?_⟩
    rw [status_ready (ready_of_beKind h.2), readyStatus_eq]

def TxnSince (l : PgLink) (past : List PgEvent) : Prop :=
  inTxn (pgAfter l past).conn.txnStatus = true → StartsSince past (pgAfter l past).conn.txnStartNs

/-- Behind a resync an E is reported in a transaction that is on record. -/
def FailsInside (l : PgLink) (e : PgEvent) (past : List PgEvent) : Prop :=
  e.status = some 'E'.toUInt8 → .resync ∈ past → inTxn (pgAfter l past).conn.txnStatus = true

theorem TxnSince.ready {l : PgLink} (h : TxnSince l past) {m : Msg}
    (hm : readyStatus m = (PgEvent.msg .send m).status.getD 0)
    (hE : FailsInside l (.msg .send m) past)
    (hview : (pgAfter l (.msg .send m :: past)).txnView =
      (pgAfter l past).txnView.ready m.ts (readyStatus m)) :
    TxnSince l (.msg .send m :: past) := by
  have hstatus := congrArg TxnView.status hview
  have hstart := congrArg TxnView.start hview
  change (pgAfter l (.msg .send m :: past)).conn.txnStatus = _ at hstatus
  change (pgAfter l (.msg .send m :: past)).conn.txnStartNs = _ at hstart
  rw [TxnSince, hstatus, hstart, TxnView.ready]
  by_cases h0 : readyStatus m = 0
  · rw [if_pos h0]
    intro hb
    exact (h hb).cons .send m
  have hsome : (PgEvent.msg .send m).status = some (readyStatus m) := by
    cases hs : (PgEvent.msg .send m).status with
    | none =>
      rw [hs] at hm
      exact absurd hm h0
    | some b =>
      rw [hs] at hm
      rw [hm]
      rfl
  rw [if_neg h0]
  by_cases hT : readyStatus m = 'T'.toUInt8 ∧ inTxn (pgAfter l past).txnView.status = false
  · rw [if_pos hT]
    intro _ _
    refine ⟨.msg .send m, ?_, hsome.trans (congrArg some hT.1), rfl⟩
    rw [sinceResync, List.takeWhile_cons_of_pos (by simp)]
    exact List.mem_cons_self
  · rw [if_neg hT]
    intro hb
    by_cases hbusy : inTxn (pgAfter l past).conn.txnStatus = true
    · exact (h hbusy).cons .send m
    · obtain hT' | hE' := inTxn_iff.mp hb
      · exact absurd ⟨hT', Bool.eq_false_iff.mpr hbusy⟩ hT
      · intro hr
        exact absurd (hE (hsome.trans (congrArg some hE')) ((List.mem_cons.mp hr).resolve_left (by rintro ⟨⟩))) hbusy

theorem TxnSince.step {l : PgLink} (h : TxnSince l past) (hE : FailsInside l e past) :
    TxnSince l (e :: past) := by
  have hview := pgEvent_txnView (pgAfter l past) e
  cases e with
  | msg dir m =>
    cases hready : PgEvent.isReady (pgAfter l past).conn (.msg dir m) with
    | true =>
      obtain ⟨_, he, hm⟩ := status_of_isReady hready
      cases he
      rw [TxnView.next, if_pos hready] at hview
      exact h.ready hm hE hview
    | false =>
      rw [TxnView.next, if_neg (by simp [hready])] at hview
      have hstatus := congrArg TxnView.status hview
      have hstart := congrArg TxnView.start hview
      intro hb
      refine StartsSince.cons ?_ dir m
      rw [show (pgAfter l (.msg dir m :: past)).conn.txnStartNs = _ from hstart]
      exact h ((congrArg inTxn hstatus).symm.trans hb)
  | resync =>
    intro hb
    exact absurd ((congrArg (fun v => inTxn v.status) hview).symm.trans hb)
      (show ¬ inTxn 0 = true by decide)
  | close =>
    intro hb
    exact absurd ((congrArg (fun v => inTxn v.status) hview).symm.trans hb)
      (show ¬ inTxn 0 = true by decide)

theorem txnSince (p : LkProto) (flags : ConnFlags) {past : List PgEvent}
    (hE : ∀ e older, e :: older <:+ past → FailsInside { p, flags } e older) :
    TxnSince { p, flags } past := by
  induction past with
  | nil => exact fun _ hr => nomatch hr
  | cons e past ih =>
    refine (ih fun e' older hs => hE e' older (hs.trans (List.suffix_cons e past))).step ?_
    exact hE e past (List.suffix_refl _)

theorem txns_step (l : PgLink) (e : PgEvent) :
    ∃ calls, txns (pgEvent l e).p.out = txns l.p.out ++ calls ∧
      ∀ start stop status, .txn start stop status ∈ calls →
        inTxn l.conn.txnStatus = true ∧ start = l.conn.txnStartNs := by
  have hcalls : txns (pgEvent l e).p.out = (l.txnView.next l.conn e).calls :=
    congrArg TxnView.calls (pgEvent_txnView l e)
  have hquiet : (l.txnView.next l.conn e).calls = txns l.p.out →
      ∃ calls, txns (pgEvent l e).p.out = txns l.p.out ++ calls ∧
        ∀ start stop status, .txn start stop status ∈ calls →
          inTxn l.conn.txnStatus = true ∧ start = l.conn.txnStartNs :=
    fun h => ⟨[], by rw [hcalls, h, List.append_nil], nofun⟩
  cases e with
  | resync => exact hquiet rfl
  | close => exact hquiet rfl
  | msg dir m =>
    rw [TxnView.next] at hcalls hquiet
    split at hcalls
    · next hready =>
      rw [if_pos hready] at hquiet
      by_cases hI : readyStatus m = 'I'.toUInt8 ∧ inTxn l.txnView.status = true
      · refine ⟨[.txn l.txnView.start m.ts l.txnView.status], ?_, ?_⟩
        · rw [hcalls, TxnView.ready, hI.1, if_neg (by decide), if_neg (fun hT => absurd hT.1 (by decide)),
            if_pos ⟨rfl, hI.2⟩]
          rfl
        · intro start stop status hmem
          cases List.mem_singleton.mp hmem
          exact ⟨hI.2, rfl⟩
      · exact hquiet (TxnView.ready_calls hI)
    · next hready =>
      rw [if_neg hready] at hquiet
      exact hquiet rfl

structure PgHonest (l : PgLink) (e : PgEvent) (past : List PgEvent) : Prop where
  observed : ∃ obs, queries (pgAfter l (e :: past)).p.out = queries (pgAfter l past).p.out ++ obs ∧
    ∀ ob ∈ obs, ob = { kind := .cancel } ∨ OfUnit l past ob
  degraded : (pgAfter l past).conn.degraded = true → (pgAfter l (e :: past)).conn.ring.count = 0
  lossy : ∀ m, e = .msg .send m → m.type = 'Z'.toUInt8 → (pgAfter l past).conn.lossy = true →
    queries (pgAfter l (e :: past)).p.out = queries (pgAfter l past).p.out
  txn : ∃ calls, txns (pgAfter l (e :: past)).p.out = txns (pgAfter l past).p.out ++ calls ∧
    ∀ start stop status, .txn start stop status ∈ calls → StartsSince past start
  bounds : (pgAfter l (e :: past)).conn.ring.closed.length ≤ (pgAfter l (e :: past)).conn.ring.count ∧
    (pgAfter l (e :: past)).conn.ring.count ≤ lkPgMaxInflight

/-- A connection is reported honestly as long as no transaction is first seen failed behind a
resync. -/
theorem pgEvents_honest (p : LkProto) (flags : ConnFlags) (h : List PgEvent)
    (hE : ∀ e past, e :: past <:+ h → FailsInside { p, flags } e past) :
    ∀ e past, e :: past <:+ h → PgHonest { p, flags } e past := by
  intro e past hs
  have hin := inFlight p flags past
  have hpast : past <:+ h := (List.suffix_cons e past).trans hs
  have hsince : TxnSince { p, flags } past :=
    txnSince p flags fun e' older hs' => hE e' older (hs'.trans hpast)
  refine ⟨hin.observed e, hin.closed e, ?_, ?_, ?_⟩
  · rintro m rfl hz hl
    exact ready_lossy hz hl
  · obtain ⟨calls, hcalls, hstart⟩ := txns_step (pgAfter { p, flags } past) e
    refine ⟨calls, hcalls, fun start stop status hmem => ?_⟩
    obtain ⟨hbusy, rfl⟩ := hstart start stop status hmem
    exact hsince hbusy
  · exact ⟨Nat.le_add_right _ _, (hin.step e).fits⟩

theorem pgEvents_honest_begin : PgHonest {} (zAt 30 'I') [zAt 20 'T', .resync] := by
  refine pgEvents_honest {} {} [zAt 30 'I', zAt 20 'T', .resync] ?_ _ _ List.suffix_rfl
  intro e past hs hE
  have hnone : ∀ e ∈ [zAt 30 'I', zAt 20 'T', .resync], e.status ≠ some 'E'.toUInt8 := by decide
  exact absurd hE (hnone e (hs.subset List.mem_cons_self))

/-- A Z that fails a transaction behind a resync ends up with the start of an earlier one. -/
theorem pgEvents_spans_resync :
    ¬ PgHonest {} (zAt 30 'I') [zAt 20 'E', .resync, zAt 10 'T'] := by
  intro h
  obtain ⟨calls, hcalls, hstart⟩ := h.txn
  have hcall : calls = [.txn 10 30 'E'.toUInt8] := by
    rw [show txns (pgAfter {} [zAt 30 'I', zAt 20 'E', .resync, zAt 10 'T']).p.out =
        [.txn 10 30 'E'.toUInt8] by decide,
      show txns (pgAfter {} [zAt 20 'E', .resync, zAt 10 'T']).p.out = [] by decide] at hcalls
    exact hcalls.symm
  rw [hcall] at hstart
  obtain ⟨o, ho, hT, _⟩ := hstart 10 30 'E'.toUInt8 List.mem_cons_self (by decide)
  revert o
  decide

end Latkit
