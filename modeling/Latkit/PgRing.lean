import Latkit.PgRefs

namespace Latkit
open Inflight (UnitRing)

def tagCount (m : Msg) : UInt64 :=
  let (haveTag, tag, _) := pgWireCstring m.body
  if haveTag then tagRows tag else 0

def errorState (m : Msg) (sqlstate : List Byte) : List Byte :=
  errorFields m.body.length m.body sqlstate

def ringReply (m : Msg) (r : UnitRing PgUnit) : UnitRing PgUnit :=
  match beKind m.type with
  | .dataRow => r.modify (PgUnit.dataRow m.ts)
  | .complete => closeReply (PgUnit.complete (tagCount m) m.ts) r
  | .empty => closeReply (PgUnit.empty m.ts) r
  | .suspended => r.close (PgUnit.suspended m.ts)
  | .error => errorReply (PgUnit.error (errorState m) m.ts) r
  | .funcResponse => r.modify (PgUnit.funcResponse m.ts)
  | .copyIn => r.modify (PgUnit.copyBegin .copyIn)
  | .copyOut => r.modify (PgUnit.copyBegin .copyOut)
  | _ => r

/-- A backend message of a query, up to its Z. The tag of a CommandComplete is terminated unless the
capture cut it. -/
structure Reply (m : Msg) : Prop where
  notReady : beKind m.type ≠ .ready
  notCopyBoth : beKind m.type ≠ .copyBoth
  readable : beKind m.type = .complete → (pgWireCstring m.body).1 = true ∨ m.flags.bodyTrunc = true

def shuts (m : Msg) : Bool :=
  beKind m.type == .error || beKind m.type == .copyIn || beKind m.type == .copyOut

def PgPhase.live : PgPhase → Bool
  | .ready => true
  | .copyIn => true
  | .copyOut => true
  | .skipToSync => true
  | _ => false

structure PgConn.Live (pc : PgConn) : Prop where
  phase : pc.phase.live = true
  lossy : pc.lossy = false
  degraded : pc.degraded = false
  refs : pc.RefsOk

theorem PgConn.Live.not_ignore {pc : PgConn} (h : pc.Live) : pc.phase ≠ .ignore := by
  intro hp
  have hl := h.phase
  rw [hp] at hl
  cases hl

/-- A step that reports nothing and leaves the units `v` in flight and the cache `prep`. Unless it is
one that `shut` the batch, the phase stays. -/
structure Stepped (s s' : PgState) (prep : Option PgPrepCache) (v : UnitRing PgUnit) (shut : Bool) :
    Prop where
  live : s'.pc.Live
  view : s'.pc.view = v
  prep : s'.pc.prep = prep
  out : s'.p.out = s.p.out
  phase : shut = false → s'.pc.phase = s.pc.phase

@[simp] theorem PgUnit.zClosed_view (prep : Option PgPrepCache) (u : PgUnit) :
    (u.view prep).zClosed = u.zClosed := rfl

theorem current_map (f : α → β) (r : UnitRing α) : (r.map f).current = r.current.map f := by
  simp [UnitRing.current, UnitRing.map]

theorem any_zClosed_view (prep : Option PgPrepCache) (r : UnitRing PgUnit) :
    (r.map (PgUnit.view prep)).current.any PgUnit.zClosed = r.current.any PgUnit.zClosed := by
  rw [current_map, Option.any_map]
  rfl

structure PgUnit.Apart (g : PgUnit → PgUnit) : Prop where
  view : ∀ prep u, (g u).view prep = g (u.view prep)
  prepIdx : ∀ u, (g u).prepIdx = u.prepIdx
  prepGen : ∀ u, (g u).prepGen = u.prepGen

theorem PgUnit.Apart.ref {g : PgUnit → PgUnit} (hg : PgUnit.Apart g) {u : PgUnit} (h : RefOk prep u) :
    RefOk prep (g u) := by
  intro i hi
  rw [hg.prepIdx] at hi
  rw [hg.prepGen]
  exact h i hi

namespace PgUnit

theorem dataRow_apart (ts : Nat) : Apart (dataRow ts) where
  view prep u := by
    by_cases h : u.tsFirstRow = 0
    · rw [dataRow, dataRow, if_pos h, if_pos (by exact h)]
      rfl
    · rw [dataRow, dataRow, if_neg h, if_neg (by exact h)]
  prepIdx u := by
    rw [dataRow]
    split <;> rfl
  prepGen u := by
    rw [dataRow]
    split <;> rfl

theorem complete_apart (rows : UInt64) (ts : Nat) : Apart (complete rows ts) :=
  ⟨fun _ _ => rfl, fun _ => rfl, fun _ => rfl⟩

theorem empty_apart (ts : Nat) : Apart (empty ts) := ⟨fun _ _ => rfl, fun _ => rfl, fun _ => rfl⟩

theorem suspended_apart (ts : Nat) : Apart (suspended ts) := ⟨fun _ _ => rfl, fun _ => rfl, fun _ => rfl⟩

theorem error_apart (f : List Byte → List Byte) (ts : Nat) : Apart (error f ts) :=
  ⟨fun _ _ => rfl, fun _ => rfl, fun _ => rfl⟩

theorem aborted_apart : Apart aborted := ⟨fun _ _ => rfl, fun _ => rfl, fun _ => rfl⟩

theorem funcResponse_apart (ts : Nat) : Apart (funcResponse ts) :=
  ⟨fun _ _ => rfl, fun _ => rfl, fun _ => rfl⟩

theorem copyBegin_apart (k : QueryKind) : Apart (copyBegin k) :=
  ⟨fun _ _ => rfl, fun _ => rfl, fun _ => rfl⟩

theorem copyData_view (len : Nat) (prep : Option PgPrepCache) (u : PgUnit) :
    (u.copyData len).view prep = u.view prep := rfl

theorem pipelined_view (prep : Option PgPrepCache) (u : PgUnit) :
    u.pipelined.view prep = u.view prep := rfl

end PgUnit

theorem closeReply_view {g : PgUnit → PgUnit} (hg : PgUnit.Apart g) (prep : Option PgPrepCache)
    (r : UnitRing PgUnit) :
    (closeReply g r).map (PgUnit.view prep) = closeReply g (r.map (PgUnit.view prep)) := by
  rw [closeReply, closeReply, any_zClosed_view]
  split
  · exact UnitRing.map_modify (hg.view prep) r
  · exact UnitRing.map_close (hg.view prep) r

theorem errorReply_view {g : PgUnit → PgUnit} (hg : PgUnit.Apart g) (prep : Option PgPrepCache)
    (r : UnitRing PgUnit) :
    (errorReply g r).map (PgUnit.view prep) = errorReply g (r.map (PgUnit.view prep)) := by
  rw [errorReply, errorReply, any_zClosed_view]
  split
  · exact UnitRing.map_modify (hg.view prep) r
  · exact UnitRing.map_abort (hg.view prep) (PgUnit.aborted_apart.view prep) r

theorem closeReply_refs {g : PgUnit → PgUnit} (hg : PgUnit.Apart g) {r : UnitRing PgUnit}
    (h : r.Forall (RefOk prep)) : (closeReply g r).Forall (RefOk prep) := by
  rw [closeReply]
  split
  · exact h.modify fun _ => hg.ref
  · exact h.close fun _ => hg.ref

theorem errorReply_refs {g : PgUnit → PgUnit} (hg : PgUnit.Apart g) {r : UnitRing PgUnit}
    (h : r.Forall (RefOk prep)) : (errorReply g r).Forall (RefOk prep) := by
  rw [errorReply]
  split
  · exact h.modify fun _ => hg.ref
  · exact h.abort (fun _ => hg.ref) fun _ => PgUnit.aborted_apart.ref

theorem ringReply_view (m : Msg) (prep : Option PgPrepCache) (r : UnitRing PgUnit) :
    (ringReply m r).map (PgUnit.view prep) = ringReply m (r.map (PgUnit.view prep)) := by
  simp only [ringReply]
  split
  · exact UnitRing.map_modify ((PgUnit.dataRow_apart m.ts).view prep) r
  · exact closeReply_view (PgUnit.complete_apart _ _) prep r
  · exact closeReply_view (PgUnit.empty_apart _) prep r
  · exact UnitRing.map_close ((PgUnit.suspended_apart m.ts).view prep) r
  · exact errorReply_view (PgUnit.error_apart _ _) prep r
  · exact UnitRing.map_modify ((PgUnit.funcResponse_apart m.ts).view prep) r
  · exact UnitRing.map_modify ((PgUnit.copyBegin_apart .copyIn).view prep) r
  · exact UnitRing.map_modify ((PgUnit.copyBegin_apart .copyOut).view prep) r
  · rfl

theorem ringReply_refs (m : Msg) {r : UnitRing PgUnit} (h : r.Forall (RefOk prep)) :
    (ringReply m r).Forall (RefOk prep) := by
  simp only [ringReply]
  split
  · exact h.modify fun _ => (PgUnit.dataRow_apart m.ts).ref
  · exact closeReply_refs (PgUnit.complete_apart _ _) h
  · exact closeReply_refs (PgUnit.empty_apart _) h
  · exact h.close fun _ => (PgUnit.suspended_apart m.ts).ref
  · exact errorReply_refs (PgUnit.error_apart _ _) h
  · exact h.modify fun _ => (PgUnit.funcResponse_apart m.ts).ref
  · exact h.modify fun _ => (PgUnit.copyBegin_apart .copyIn).ref
  · exact h.modify fun _ => (PgUnit.copyBegin_apart .copyOut).ref
  · exact h

section
variable {s : PgState}

theorem Stepped.ofRing (h : s.pc.Live) {r : UnitRing PgUnit} {session : Session}
    (hrefs : r.Forall (RefOk s.pc.prep)) (hview : r.map (PgUnit.view s.pc.prep) = v) (shut : Bool) :
    Stepped s (s.withPc { s.pc with ring := r, session }) s.pc.prep v shut :=
  ⟨⟨h.phase, h.lossy, h.degraded, hrefs⟩, hview, rfl, rfl, fun _ => rfl⟩

theorem Stepped.ofPhase (h : s.pc.Live) {r : UnitRing PgUnit} {phase : PgPhase}
    (hphase : phase.live = true) (hrefs : r.Forall (RefOk s.pc.prep))
    (hview : r.map (PgUnit.view s.pc.prep) = v) :
    Stepped s (s.withPc { s.pc with ring := r, phase }) s.pc.prep v true :=
  ⟨⟨hphase, h.lossy, h.degraded, hrefs⟩, hview, rfl, rfl, (fun h => nomatch h)⟩

theorem pgQueryComplete_eq (s : PgState) (hm : Reply m) (hk : beKind m.type = .complete) :
    pgQueryComplete s m = s.withPc { s.pc with ring := ringReply m s.pc.ring } := by
  simp only [pgQueryComplete]
  split
  · next hnone =>
    have hopened : s.pc.ring.opened = [] := by simpa [UnitRing.current] using hnone
    have hempty : ringReply m s.pc.ring = s.pc.ring := by
      simp [ringReply, hk, closeReply, hnone, UnitRing.close, hopened]
    rw [hempty]
    rfl
  · have hread := hm.readable hk
    simp only [ringReply, hk, tagCount]
    cases htag : (pgWireCstring m.body).1 with
    | true => rfl
    | false =>
      rw [htag] at hread
      rw [if_neg (by simp), if_pos (hread.resolve_left (by simp)), if_neg (by simp)]
      rfl

/-- A reply acts on the units in flight alone; only an ErrorResponse or a Copy response changes the
phase. -/
theorem pgBackendMsg_reply (h : s.pc.Live) (hm : Reply m) :
    Stepped s (pgBackendMsg s m) s.pc.prep (ringReply m s.pc.view) (shuts m) := by
  have hview := ringReply_view m s.pc.prep s.pc.ring
  have hrefs := ringReply_refs m h.refs
  rw [pgBackendMsg, if_neg h.not_ignore]
  cases hk : beKind m.type with
  | auth =>
    have hphase : s.pc.phase ≠ .auth := by
      intro hp
      have hl := h.phase
      rw [hp] at hl
      cases hl
    simp only [ringReply, hk, pgSessionAuth, if_pos hphase]
    exact .ofRing h h.refs rfl _
  | paramStatus =>
    simp only [ringReply, hk, pgSessionParamStatus]
    split
    · exact .ofRing h h.refs rfl _
    · exact .ofRing h h.refs rfl _
  | complete =>
    simp only
    rw [pgQueryComplete_eq s hm hk]
    exact .ofRing h hrefs hview _
  | copyData =>
    simp only [ringReply, hk, pgQueryCopyData]
    exact .ofRing h (h.refs.modify (g := PgUnit.copyData m.len) fun _ hu => hu)
      (UnitRing.map_modify_self (PgUnit.copyData_view m.len s.pc.prep) _) _
  | error =>
    have hphase : (pgQueryError s.pc m).phase.live = true := by
      simp only [pgQueryError]
      split
      · rfl
      · exact h.phase
    simp only [ringReply, hk] at hview hrefs
    simp only [ringReply, hk, shuts]
    exact .ofPhase h hphase hrefs hview
  | ready => exact absurd hk hm.notReady
  | copyBoth => exact absurd hk hm.notCopyBoth
  | neutral =>
    simp only [ringReply, hk]
    exact .ofRing h h.refs rfl _
  | unknown =>
    simp only [ringReply, hk]
    exact ⟨h, rfl, rfl, rfl, fun _ => rfl⟩
  | copyIn =>
    simp only [ringReply, hk] at hview hrefs
    simp only [ringReply, hk, shuts]
    exact .ofPhase h rfl hrefs hview
  | copyOut =>
    simp only [ringReply, hk] at hview hrefs
    simp only [ringReply, hk, shuts]
    exact .ofPhase h rfl hrefs hview
  | _ =>
    simp only [ringReply, hk] at hview hrefs ⊢
    exact .ofRing h hrefs hview _

def opens (m : Msg) : Bool :=
  feKind m.type == .query || feKind m.type == .bind || feKind m.type == .function

def fePrep (prep : Option PgPrepCache) (m : Msg) : Option PgPrepCache :=
  match feKind m.type with
  | .parse => match parseReuse prep m with
    | some r => some r.after
    | none => prep
  | .close => match closeReuse prep m with
    | some r => some r.after
    | none => prep
  | .bind => (boundUnit prep m).1
  | _ => prep

theorem pgFrontendMsg_quiet (h : s.pc.Live) (hs : m.flags.startup = false) (hm : opens m = false) :
    Stepped s (pgFrontendMsg s m) (fePrep s.pc.prep m) s.pc.view false := by
  rw [pgFrontendMsg, if_neg h.not_ignore, if_neg (by simp [hs])]
  cases hk : feKind m.type with
  | query => simp [opens, hk] at hm
  | bind => simp [opens, hk] at hm
  | function => simp [opens, hk] at hm
  | parse =>
    simp only [pgPrepParse, fePrep, hk]
    cases hr : parseReuse s.pc.prep m with
    | none => exact .ofRing h h.refs rfl _
    | some r =>
      obtain ⟨hrefs, hview⟩ := reuse_view h.refs (parseReuse_of hr)
      refine ⟨⟨h.phase, h.lossy, h.degraded, hrefs⟩, hview, rfl, ?_, fun _ => rfl⟩
      simp only
      split <;> rfl
  | close =>
    simp only [pgPrepClose, fePrep, hk]
    cases hr : closeReuse s.pc.prep m with
    | none => exact .ofRing h h.refs rfl _
    | some r =>
      obtain ⟨hrefs, hview⟩ := reuse_view h.refs (closeReuse_of hr)
      exact ⟨⟨h.phase, h.lossy, h.degraded, hrefs⟩, hview, rfl, rfl, fun _ => rfl⟩
  | copyData =>
    simp only [fePrep, hk, pgQueryCopyData]
    exact .ofRing h (h.refs.modify (g := PgUnit.copyData m.len) fun _ hu => hu)
      (UnitRing.map_modify_self (PgUnit.copyData_view m.len s.pc.prep) _) _
  | sync =>
    simp only [fePrep, hk]
    exact .ofRing h h.refs rfl _
  | neutral =>
    simp only [fePrep, hk]
    exact .ofRing h h.refs rfl _
  | unknown =>
    simp only [fePrep, hk]
    exact ⟨h, rfl, rfl, rfl, fun _ => rfl⟩

def feUnit (prep : Option PgPrepCache) (m : Msg) : PgUnit :=
  match feKind m.type with
  | .bind => (boundUnit prep m).2.view (boundUnit prep m).1
  | .function => { kind := .function, tsStart := m.ts, flags := { noText := true } }
  | _ => { kind := .simple, tsStart := m.ts, ownText := simpleText m,
           flags := { textTrunc := m.flags.bodyTrunc } }

theorem ringPush_view (pc : PgConn) (u : PgUnit) :
    (pc.ringPush u).view = pc.view.push (u.view pc.prep) := by
  have hpush := UnitRing.map_push (PgUnit.view pc.prep) pc.ring u
  simp only [PgConn.ringPush, PgConn.view]
  split
  · rw [← hpush]
    exact UnitRing.map_map_congr fun u _ => PgUnit.pipelined_view pc.prep u
  · exact hpush

theorem ringPush_refs {pc : PgConn} (h : pc.RefsOk) {u : PgUnit} (hu : RefOk pc.prep u) :
    (pc.ringPush u).RefsOk := by
  have hpush := h.push hu
  simp only [PgConn.ringPush, PgConn.RefsOk]
  split
  · exact hpush.map fun _ h => h
  · exact hpush

def boundName (m : Msg) : Option (List Byte) :=
  let (_, _, w) := pgWireCstring m.body
  let (haveStmt, stmt, _) := pgWireCstring w
  if haveStmt then some stmt else none

def PgPrepCache.touch (cache : PgPrepCache) (slot : Nat) : PgPrepCache :=
  { cache with
    clock := cache.clock + 1
    e := cache.e.modify slot fun e => { e with lru := cache.clock + 1 } }

theorem boundUnit_cases (prep : Option PgPrepCache) (m : Msg) :
    boundUnit prep m = (prep, { kind := .extended, tsStart := m.ts, flags := { noText := true } }) ∨
      ∃ cache name slot, prep = some cache ∧ boundName m = some name ∧
        cache.findByName name = some slot ∧
        boundUnit prep m = (some (cache.touch slot),
          { kind := .extended
            tsStart := m.ts
            prepIdx := some slot
            prepGen := (cache.slot slot).gen
            flags := { textTrunc := (cache.slot slot).trunc } }) := by
  simp only [boundUnit, boundName]
  cases hs : (pgWireCstring (pgWireCstring m.body).2.2).1 with
  | false => exact .inl rfl
  | true =>
    cases prep with
    | none => exact .inl rfl
    | some cache =>
      simp only [pgPrepLookup]
      cases hf : cache.findByName (pgWireCstring (pgWireCstring m.body).2.2).2.1 with
      | none => exact .inl rfl
      | some slot => exact .inr ⟨cache, _, slot, rfl, rfl, hf, rfl⟩

theorem boundUnit_refs (prep : Option PgPrepCache) (m : Msg) :
    RefOk (boundUnit prep m).1 (boundUnit prep m).2 ∧
      ∀ u, RefOk prep u → RefOk (boundUnit prep m).1 u ∧ u.view (boundUnit prep m).1 = u.view prep := by
  obtain h | ⟨cache, name, slot, rfl, _, hf, h⟩ := boundUnit_cases prep m
  · rw [h]
    exact ⟨nofun, fun u hu => ⟨hu, rfl⟩⟩
  · rw [h]
    obtain ⟨hlt, hused, _⟩ := PgPrepCache.findByName_some hf
    have hslot := cache.slot_modify slot slot (fun e => { e with lru := cache.clock + 1 }) hlt
    refine ⟨?_, fun u hu => touch_slot hu slot (cache.clock + 1) rfl⟩
    intro j hj
    cases hj
    refine ⟨_, rfl, by rw [PgPrepCache.touch, List.length_modify]; exact hlt, ?_, ?_⟩
    · rw [PgPrepCache.touch, PgPrepCache.slot, hslot, if_pos rfl]
      exact hused
    · rw [PgPrepCache.touch, PgPrepCache.slot, hslot, if_pos rfl]

theorem pgFrontendMsg_open (h : s.pc.Live) (hready : s.pc.phase = .ready)
    (hs : m.flags.startup = false) (hm : opens m = true) (hfit : s.pc.view.count < lkPgMaxInflight) :
    Stepped s (pgFrontendMsg s m) (fePrep s.pc.prep m) (s.pc.view.push (feUnit s.pc.prep m)) false := by
  have hopen : ¬ (s.pc.phase ≠ .ready ∨ s.pc.degraded = true) := by simp [hready, h.degraded]
  have hfull : s.pc.full ≠ true := by
    rw [PgConn.view, UnitRing.count_map] at hfit
    simp [PgConn.full, h.lossy, hfit]
  rw [pgFrontendMsg, if_neg h.not_ignore, if_neg (by simp [hs])]
  have hown (u : PgUnit) (hidx : u.prepIdx = none) : RefOk s.pc.prep u := by
    intro i hi
    rw [hidx] at hi
    cases hi
  cases hk : feKind m.type with
  | query =>
    simp only [pgQuerySimple, if_neg hopen, if_neg hfull, fePrep, feUnit, hk]
    exact ⟨⟨h.phase, h.lossy, h.degraded, ringPush_refs h.refs (hown _ rfl)⟩, ringPush_view _ _, rfl, rfl,
      fun _ => rfl⟩
  | function =>
    simp only [pgQueryFunction, if_neg hopen, if_neg hfull, fePrep, feUnit, hk]
    exact ⟨⟨h.phase, h.lossy, h.degraded, ringPush_refs h.refs (hown _ rfl)⟩, ringPush_view _ _, rfl, rfl,
      fun _ => rfl⟩
  | bind =>
    obtain ⟨hbound, hother⟩ := boundUnit_refs s.pc.prep m
    have hview : s.pc.ring.map (PgUnit.view (boundUnit s.pc.prep m).1) = s.pc.view := by
      exact UnitRing.map_congr fun u hu => (hother u (h.refs u hu)).2
    have hrefs : PgConn.RefsOk { s.pc with prep := (boundUnit s.pc.prep m).1 } :=
      fun u hu => (hother u (h.refs u hu)).1
    simp only [pgQueryBind, if_neg hopen, if_neg hfull, fePrep, feUnit, hk]
    refine ⟨⟨h.phase, h.lossy, h.degraded, ringPush_refs hrefs hbound⟩, ?_, rfl, rfl, fun _ => rfl⟩
    rw [← hview]
    exact ringPush_view _ _
  | _ => simp [opens, hk] at hm

end

end Latkit
