import Latkit.PgBatch

namespace Latkit
open Inflight (UnitRing)

def unitReply (m : Msg) (u : PgUnit) : PgUnit :=
  match beKind m.type with
  | .dataRow => u.dataRow m.ts
  | .complete => u.complete (tagCount m) m.ts
  | .empty => u.empty m.ts
  | .suspended => u.suspended m.ts
  | .error => u.error (errorState m) m.ts
  | .funcResponse => u.funcResponse m.ts
  | _ => u

def unitReplies (ms : List Msg) (u : PgUnit) : PgUnit := ms.foldl (fun u m => unitReply m u) u

/-- How far the messages `ms` have brought the unit `u`. -/
structure Since (u : PgUnit) (ms : List Msg) (u' : PgUnit) : Prop where
  start : u'.tsStart = u.tsStart
  kind : u'.kind = u.kind
  firstRow : u'.tsFirstRow = if u.tsFirstRow = 0 then firstRow ms else u.tsFirstRow
  rows : u'.rows = u.rows + rowCount ms
  sqlstate : u'.sqlstate = u.sqlstate
  error : u'.flags.error = u.flags.error
  aborted : u'.flags.aborted = u.flags.aborted

theorem Since.nil (u : PgUnit) : Since u [] u :=
  ⟨rfl, rfl, by simp [Latkit.firstRow], by simp [rowCount], rfl, rfl, rfl⟩

theorem firstRow_cons (m : Msg) (ms : List Msg) :
    firstRow (m :: ms) = if beKind m.type = .dataRow then m.ts else firstRow ms := by
  by_cases h : beKind m.type = .dataRow
  · simp [firstRow, h]
  · simp [firstRow, h]

theorem rowCount_cons (m : Msg) (ms : List Msg) :
    rowCount (m :: ms) = (if beKind m.type = .complete then tagCount m else 0) + rowCount ms := by
  by_cases h : beKind m.type = .complete
  · simp [rowCount, h]
  · simp [rowCount, h]

theorem Since.other (hrow : beKind m.type ≠ .dataRow) (hcomplete : beKind m.type ≠ .complete)
    (h : Since u [] u') : Since u [m] u' := by
  refine ⟨h.start, h.kind, ?_, ?_, h.sqlstate, h.error, h.aborted⟩
  · rw [firstRow_cons, if_neg hrow]
    exact h.firstRow
  · rw [rowCount_cons, if_neg hcomplete, UInt64.zero_add]
    exact h.rows

theorem unitReply_since (u : PgUnit) (h : beKind m.type ≠ .error) : Since u [m] (unitReply m u) := by
  have hnil := Since.nil u
  cases hk : beKind m.type with
  | dataRow =>
    simp only [unitReply, hk, PgUnit.dataRow]
    split
    · next h0 => exact ⟨rfl, rfl, by simp [firstRow_cons, hk, h0], by simp [hk, rowCount],
        rfl, rfl, rfl⟩
    · next h0 => exact ⟨rfl, rfl, by simp [h0], by simp [hk, rowCount], rfl, rfl, rfl⟩
  | complete =>
    simp only [unitReply, hk]
    refine ⟨rfl, rfl, ?_, ?_, rfl, rfl, rfl⟩
    · have hrow : beKind m.type ≠ .dataRow := by simp [hk]
      rw [firstRow_cons, if_neg hrow]
      exact hnil.firstRow
    · rw [rowCount_cons, if_pos hk]
      simp [PgUnit.complete, rowCount]
  | error => exact absurd hk h
  | _ =>
    simp only [unitReply, hk]
    exact .other (by simp [hk]) (by simp [hk]) ⟨rfl, rfl, hnil.firstRow, hnil.rows, rfl, rfl, rfl⟩

theorem Since.cons (hm : 0 < m.ts) (h : Since u [m] u') (h' : Since u' ms u'') : Since u (m :: ms) u'' := by
  refine ⟨h'.start.trans h.start, h'.kind.trans h.kind, ?_, ?_, h'.sqlstate.trans h.sqlstate,
    h'.error.trans h.error, h'.aborted.trans h.aborted⟩
  · rw [h'.firstRow, h.firstRow, firstRow_cons, firstRow_cons]
    by_cases h0 : u.tsFirstRow = 0
    · by_cases hk : beKind m.type = .dataRow
      · simp [h0, hk, Nat.ne_of_gt hm]
      · simp [h0, hk, Latkit.firstRow]
    · simp [h0]
  · rw [h'.rows, h.rows, rowCount_cons, rowCount_cons, UInt64.add_assoc]
    simp [rowCount]

theorem unitReplies_since {ms : List Msg} (u : PgUnit) (h : ∀ m ∈ ms, beKind m.type ≠ .error)
    (hs : ∀ m ∈ ms, Sound m) : Since u ms (unitReplies ms u) := by
  induction ms generalizing u with
  | nil => exact .nil u
  | cons m ms ih =>
    rw [List.forall_mem_cons] at h hs
    exact .cons hs.1.stamped (unitReply_since u h.1) (ih (unitReply m u) h.2 hs.2)

structure Fresh (m : Msg) (u : PgUnit) : Prop where
  start : u.tsStart = m.ts
  waits : u.zClosed = untilReady m
  firstRow : u.tsFirstRow = 0
  rows : u.rows = 0
  sqlstate : u.sqlstate = []
  error : u.flags.error = false
  aborted : u.flags.aborted = false

theorem feUnit_fresh (prep : Option PgPrepCache) (hm : opens m = true) : Fresh m (feUnit prep m) := by
  cases hk : feKind m.type with
  | query =>
    simp only [feUnit, hk]
    exact ⟨rfl, by simp [untilReady, hk, PgUnit.zClosed], rfl, rfl, rfl, rfl, rfl⟩
  | function =>
    simp only [feUnit, hk]
    exact ⟨rfl, by simp [untilReady, hk, PgUnit.zClosed], rfl, rfl, rfl, rfl, rfl⟩
  | bind =>
    simp only [feUnit, hk, boundUnit]
    have hz : untilReady m = false := by simp [untilReady, hk]
    repeat' split
    all_goals exact ⟨rfl, hz.symm, rfl, rfl, rfl, rfl, rfl⟩
  | _ => simp [opens, hk] at hm

theorem feUnits_fresh (prep : Option PgPrepCache) (ms : List Msg) :
    List.Forall₂ Fresh (ms.filter opens) (feUnits prep ms) := by
  induction ms generalizing prep with
  | nil => exact .nil
  | cons m ms ih =>
    by_cases hm : opens m = true
    · rw [List.filter_cons_of_pos hm, feUnits, if_pos hm]
      exact .cons (feUnit_fresh prep hm) (ih _)
    · rw [List.filter_cons_of_neg hm, feUnits, if_neg hm]
      exact ih _

def PgUnit.outcomeAt (z : Msg) (u : PgUnit) : Outcome := ((u.ready z.ts).reported z).outcome

theorem outcomeAt_eq (z : Msg) (u : PgUnit) (h : u.zClosed = true → 0 < u.tsComplete) :
    u.outcomeAt z =
      { tsStart := u.tsStart
        tsFirstRow := u.tsFirstRow
        tsComplete := u.tsComplete
        tsReady := if u.flags.aborted then 0 else z.ts
        rows := u.rows
        sqlstate := if u.flags.error then u.sqlstate else []
        error := u.flags.error
        aborted := u.flags.aborted } := by
  have hready : u.ready z.ts = u := by
    rw [PgUnit.ready, if_neg]
    intro hz
    rw [Bool.and_eq_true, beq_iff_eq] at hz
    have hpos := h hz.1
    omega
  rw [PgUnit.outcomeAt, hready]
  rfl

theorem Since.waits (h : Since u ms u') : u'.zClosed = u.zClosed := by
  rw [PgUnit.zClosed, PgUnit.zClosed, h.kind]

theorem BeKind.stays_not_error (h : BeKind.stays z k = true) : k ≠ .error := by
  rintro rfl
  cases h

theorem BeKind.finishes_not_error (h : BeKind.finishes z k = true) : k ≠ .error := by
  rintro rfl
  cases h

theorem BeKind.finishes_stays {k : BeKind} (h : k.finishes true = true) (hk : k ≠ .suspended) :
    k.stays true = true := by
  cases k with
  | suspended => exact absurd rfl hk
  | complete => rfl
  | empty => rfl
  | funcResponse => rfl
  | _ => cases h

theorem ringReply_stays {u : PgUnit} (h : (beKind m.type).stays u.zClosed = true) (cl us : List PgUnit) :
    ringReply m ⟨cl, u :: us⟩ = ⟨cl, unitReply m u :: us⟩ := by
  cases hk : beKind m.type with
  | complete =>
    rw [hk] at h
    have hz : u.zClosed = true := h
    simp [ringReply, unitReply, hk, closeReply, UnitRing.current, hz, UnitRing.modify]
  | empty =>
    rw [hk] at h
    have hz : u.zClosed = true := h
    simp [ringReply, unitReply, hk, closeReply, UnitRing.current, hz, UnitRing.modify]
  | dataRow => simp [ringReply, unitReply, hk, UnitRing.modify]
  | funcResponse => simp [ringReply, unitReply, hk, UnitRing.modify]
  | auth => simp [ringReply, unitReply, hk]
  | paramStatus => simp [ringReply, unitReply, hk]
  | neutral => simp [ringReply, unitReply, hk]
  | unknown => simp [ringReply, unitReply, hk]
  | _ =>
    rw [hk] at h
    cases h

theorem unitReplies_waits {ms : List Msg} {u : PgUnit} (h : ∀ m ∈ ms, (beKind m.type).stays z = true) :
    (unitReplies ms u).zClosed = u.zClosed := by
  induction ms generalizing u with
  | nil => rfl
  | cons m ms ih =>
    rw [List.forall_mem_cons] at h
    exact (ih h.2).trans (unitReply_since u (BeKind.stays_not_error h.1)).waits

theorem ringReplies_stay {ms : List Msg} {u : PgUnit}
    (h : ∀ m ∈ ms, (beKind m.type).stays u.zClosed = true) (cl us : List PgUnit) :
    ringReplies ms ⟨cl, u :: us⟩ = ⟨cl, unitReplies ms u :: us⟩ := by
  induction ms generalizing u with
  | nil => rfl
  | cons m ms ih =>
    rw [List.forall_mem_cons] at h
    have hz := (unitReply_since u (BeKind.stays_not_error h.1)).waits
    rw [← hz] at h
    have hrest := ih h.2
    rw [hz] at h
    rw [ringReplies, List.foldl_cons, ringReply_stays h.1]
    exact hrest

theorem ringReply_finishes {u : PgUnit} (hz : u.zClosed = false)
    (h : (beKind m.type).finishes false = true) (cl us : List PgUnit) :
    ringReply m ⟨cl, u :: us⟩ = ⟨cl ++ [unitReply m u], us⟩ := by
  cases hk : beKind m.type with
  | complete => simp [ringReply, unitReply, hk, closeReply, UnitRing.current, hz, UnitRing.close]
  | empty => simp [ringReply, unitReply, hk, closeReply, UnitRing.current, hz, UnitRing.close]
  | suspended => simp [ringReply, unitReply, hk, UnitRing.close]
  | _ =>
    rw [hk] at h
    cases h

/-- The error of an extended unit closes it and aborts the ones behind it. -/
theorem ringReply_fails {u : PgUnit} (hz : u.zClosed = false) (hk : beKind m.type = .error)
    (cl us : List PgUnit) :
    ringReply m ⟨cl, u :: us⟩ = ⟨cl ++ unitReply m u :: us.map PgUnit.aborted, []⟩ := by
  simp [ringReply, unitReply, hk, errorReply, UnitRing.current, hz, UnitRing.abort]

theorem unitReply_finishes (u : PgUnit) (h : (beKind m.type).finishes z = true) :
    (unitReply m u).tsComplete = m.ts := by
  cases hk : beKind m.type with
  | complete => simp [unitReply, hk, PgUnit.complete]
  | empty => simp [unitReply, hk, PgUnit.empty]
  | suspended => simp [unitReply, hk, PgUnit.suspended]
  | funcResponse => simp [unitReply, hk, PgUnit.funcResponse]
  | _ =>
    rw [hk] at h
    cases h

section
variable {u : PgUnit} {m : Msg} (hfresh : Fresh m u)
include hfresh

theorem fresh_finished {a : Answer} (h : a.Finishes u.zClosed) (z : Msg) :
    (unitReplies a.msgs u).outcomeAt z = finished z m a := by
  have hnot : ∀ k ∈ a.msgs, beKind k.type ≠ .error := by
    intro k hk
    rw [Answer.msgs, List.mem_append, List.mem_singleton] at hk
    obtain hk | rfl := hk
    · exact BeKind.stays_not_error (h.body k hk)
    · exact BeKind.finishes_not_error h.last
  have hsince := unitReplies_since u hnot h.sound
  have hcomplete : (unitReplies a.msgs u).tsComplete = a.last.ts := by
    rw [unitReplies, Answer.msgs, List.foldl_append]
    exact unitReply_finishes _ h.last
  have hpos := (h.sound a.last (by simp [Answer.msgs])).stamped
  rw [outcomeAt_eq z _ (by rw [hcomplete]; exact fun _ => hpos), hcomplete, hsince.start, hsince.firstRow,
    hsince.rows, hsince.error, hsince.aborted, hfresh.start, hfresh.firstRow, hfresh.rows, hfresh.error,
    hfresh.aborted]
  simp [finished]

theorem fresh_failed {a : Answer} (h : a.Fails u.zClosed) (z : Msg) :
    (unitReplies a.msgs u).outcomeAt z = failed z m a := by
  have hsince : Since u a.body (unitReplies a.body u) :=
    unitReplies_since u (fun k hk => BeKind.stays_not_error (h.body k hk))
      fun k hk => h.sound k (by simp [Answer.msgs, hk])
  have hlast : unitReplies a.msgs u = (unitReplies a.body u).error (errorState a.last) a.last.ts := by
    rw [unitReplies, Answer.msgs, List.foldl_append]
    simp [unitReply, h.last, unitReplies]
  have hpos := (h.sound a.last (by simp [Answer.msgs])).stamped
  have hrow : firstRow a.msgs = firstRow a.body := by
    simp [firstRow, Answer.msgs, List.find?_append, h.last]
  have hcount : rowCount a.msgs = rowCount a.body := by
    simp [rowCount, Answer.msgs, h.last]
  rw [hlast, outcomeAt_eq z _ fun _ => hpos]
  simp only [PgUnit.error, failed, hrow, hcount, hsince.start, hsince.firstRow, hsince.rows,
    hsince.sqlstate, hsince.aborted, hfresh.start, hfresh.firstRow, hfresh.rows, hfresh.sqlstate,
    hfresh.aborted]
  simp

theorem fresh_aborted (hz : u.zClosed = false) (z : Msg) :
    u.aborted.outcomeAt z = givenUp m := by
  have hwaits : u.aborted.zClosed = true → 0 < u.aborted.tsComplete := by
    intro h
    cases hz.symm.trans h
  rw [outcomeAt_eq z _ hwaits]
  simp [PgUnit.aborted, givenUp, hfresh.start, hfresh.rows, hfresh.error]

end

theorem aborted_outcomes (hfresh : List.Forall₂ Fresh ms us) (hms : ∀ m ∈ ms, untilReady m = false)
    (z : Msg) : us.map (PgUnit.outcomeAt z ∘ PgUnit.aborted) = ms.map givenUp := by
  induction hfresh with
  | nil => rfl
  | cons hu _ ih =>
    rw [List.forall_mem_cons] at hms
    rw [List.map_cons, List.map_cons, ih hms.2, Function.comp_apply,
      fresh_aborted hu (hu.waits.trans hms.1)]

theorem ringReplies_append (ms ms' : List Msg) (r : UnitRing PgUnit) :
    ringReplies (ms ++ ms') r = ringReplies ms' (ringReplies ms r) :=
  List.foldl_append

theorem ringReplies_answer {a : Answer} {u : PgUnit}
    (h : ∀ m ∈ a.body, (beKind m.type).stays u.zClosed = true) (cl us : List PgUnit) :
    ringReplies a.msgs ⟨cl, u :: us⟩ = ringReply a.last ⟨cl, unitReplies a.body u :: us⟩ := by
  rw [Answer.msgs, ringReplies_append, ringReplies_stay h]
  rfl

theorem unitReplies_answer (a : Answer) (u : PgUnit) :
    unitReplies a.msgs u = unitReply a.last (unitReplies a.body u) :=
  List.foldl_append

end Latkit
