import Latkit.PgReady

namespace Latkit
open Inflight (UnitRing)

def pgStep (s : PgState) (e : Dir × Msg) : PgState := pgOnMsg s.p s.flags (some s.pc) e.1 e.2

def fromClient (es : List (Dir × Msg)) : List Msg :=
  es.filterMap fun
    | (.recv, m) => some m
    | (.send, _) => none

def fromServer (es : List (Dir × Msg)) : List Msg :=
  es.filterMap fun
    | (.recv, _) => none
    | (.send, m) => some m

def pgRun (s : PgState) (es : List (Dir × Msg)) : PgState := es.foldl pgStep s

def newQueries (s s' : PgState) : List QueryObs := (queries s'.p.out).drop (queries s.p.out).length

def pgEmits : PgState → List (Dir × Msg) → List (List QueryObs)
  | _, [] => []
  | s, e :: es => newQueries s (pgStep s e) :: pgEmits (pgStep s e) es

theorem pgRun_append (s : PgState) (es es' : List (Dir × Msg)) :
    pgRun s (es ++ es') = pgRun (pgRun s es) es' :=
  List.foldl_append

theorem pgEmits_append (s : PgState) (es es' : List (Dir × Msg)) :
    pgEmits s (es ++ es') = pgEmits s es ++ pgEmits (pgRun s es) es' := by
  induction es generalizing s with
  | nil => rfl
  | cons e es ih =>
    simp only [List.cons_append, pgEmits, ih]
    rfl

theorem pgStep_eq (s : PgState) (dir : Dir) (m : Msg) :
    pgStep s (dir, m) = pgDispatch (countMsgs m s) dir m := rfl

section
variable {s : PgState}

theorem pgStep_reply (h : s.pc.Live) (hm : Reply m) :
    Stepped s (pgStep s (.send, m)) s.pc.prep (ringReply m s.pc.view) (shuts m) := by
  obtain ⟨hlive, hview, hprep, hout, hphase⟩ := pgBackendMsg_reply (s := countMsgs m s) h hm
  exact ⟨hlive, hview, hprep, hout, hphase⟩

theorem pgStep_quiet (h : s.pc.Live) (hs : m.flags.startup = false) (hm : opens m = false) :
    Stepped s (pgStep s (.recv, m)) (fePrep s.pc.prep m) s.pc.view false := by
  obtain ⟨hlive, hview, hprep, hout, hphase⟩ := pgFrontendMsg_quiet (s := countMsgs m s) h hs hm
  exact ⟨hlive, hview, hprep, hout, hphase⟩

theorem pgStep_open (h : s.pc.Live) (hready : s.pc.phase = .ready) (hs : m.flags.startup = false)
    (hm : opens m = true) (hfit : s.pc.view.count < lkPgMaxInflight) :
    Stepped s (pgStep s (.recv, m)) (fePrep s.pc.prep m) (s.pc.view.push (feUnit s.pc.prep m))
      false := by
  obtain ⟨hlive, hview, hprep, hout, hphase⟩ :=
    pgFrontendMsg_open (s := countMsgs m s) h hready hs hm hfit
  exact ⟨hlive, hview, hprep, hout, hphase⟩

theorem pgStep_ready (h : s.pc.Live) (hk : beKind m.type = .ready) :
    (pgStep s (.send, m)).pc.Idle ∧ (pgStep s (.send, m)).pc.prep = s.pc.prep ∧
      (newQueries s (pgStep s (.send, m))).map QueryObs.view =
        (readyUnits s.pc.view m.ts).map (PgUnit.reported m) := by
  obtain ⟨hidle, hprep, obs, hobs, hview⟩ := pgBackendMsg_ready (s := countMsgs m s) h hk
  refine ⟨hidle, hprep, ?_⟩
  have hnew : newQueries s (pgStep s (.send, m)) = obs := by
    rw [newQueries, pgStep_eq, pgDispatch, hobs]
    exact List.drop_left
  rw [hnew]
  exact hview

theorem Stepped.newQueries {p : Option PgPrepCache} (h : Stepped s s' p v shut) : newQueries s s' = [] := by
  rw [Latkit.newQueries, h.out]
  exact List.drop_length

structure QuietRun (s : PgState) (es : List (Dir × Msg)) (prep : Option PgPrepCache) (v : UnitRing PgUnit)
    (shut : Bool) : Prop extends Stepped s (pgRun s es) prep v shut where
  emits : pgEmits s es = es.map fun _ => []

theorem QuietRun.nil (h : s.pc.Live) : QuietRun s [] s.pc.prep s.pc.view false :=
  ⟨⟨h, rfl, rfl, rfl, fun _ => rfl⟩, rfl⟩

theorem QuietRun.cons (h : Stepped s (pgStep s e) prep v shut)
    (hes : QuietRun (pgStep s e) es prep' v' shut') :
    QuietRun s (e :: es) prep' v' (shut || shut') := by
  refine ⟨⟨hes.live, hes.view, hes.prep, hes.out.trans h.out, ?_⟩, ?_⟩
  · intro hshut
    rw [Bool.or_eq_false_iff] at hshut
    exact (hes.phase hshut.2).trans (h.phase hshut.1)
  · rw [pgEmits, h.newQueries, hes.emits]
    rfl

theorem QuietRun.append (h : QuietRun s es prep v shut)
    (hes : QuietRun (pgRun s es) es' prep' v' shut') :
    QuietRun s (es ++ es') prep' v' (shut || shut') := by
  obtain ⟨⟨hlive, hview, hprep, hout, hphase⟩, hemits⟩ := hes
  rw [← pgRun_append] at hlive hview hprep hout hphase
  refine ⟨⟨hlive, hview, hprep, hout.trans h.out, ?_⟩, ?_⟩
  · intro hshut
    rw [Bool.or_eq_false_iff] at hshut
    exact (hphase hshut.2).trans (h.phase hshut.1)
  · rw [pgEmits_append, h.emits, hemits, List.map_append]

def feUnits : Option PgPrepCache → List Msg → List PgUnit
  | _, [] => []
  | prep, m :: ms =>
    if opens m then feUnit prep m :: feUnits (fePrep prep m) ms else feUnits (fePrep prep m) ms

theorem pgRun_requests (h : s.pc.Live) (hready : s.pc.phase = .ready) {ms : List Msg}
    (hs : ∀ m ∈ ms, m.flags.startup = false)
    (hfit : s.pc.view.count + ms.countP opens ≤ lkPgMaxInflight) :
    QuietRun s (ms.map fun m => (.recv, m)) (ms.foldl fePrep s.pc.prep)
      (s.pc.view.pushAll (feUnits s.pc.prep ms)) false := by
  induction ms generalizing s with
  | nil =>
    rw [feUnits, UnitRing.pushAll_nil]
    exact .nil h
  | cons m ms ih =>
    rw [List.forall_mem_cons] at hs
    cases hm : opens m with
    | true =>
      rw [List.countP_cons_of_pos hm] at hfit
      have hstep := pgStep_open h hready hs.1 hm (by omega)
      have hrest := ih hstep.live ((hstep.phase rfl).trans hready) hs.2
        (by rw [hstep.view, UnitRing.count_push]; omega)
      rw [hstep.view, hstep.prep, UnitRing.push_pushAll] at hrest
      rw [feUnits, if_pos hm]
      exact .cons hstep hrest
    | false =>
      rw [List.countP_cons_of_neg (by simp [hm])] at hfit
      have hstep := pgStep_quiet h hs.1 hm
      have hrest := ih hstep.live ((hstep.phase rfl).trans hready) hs.2 (by rw [hstep.view]; exact hfit)
      rw [hstep.view, hstep.prep] at hrest
      rw [feUnits, if_neg (by simp [hm])]
      exact .cons hstep hrest

def ringReplies (ms : List Msg) (r : UnitRing PgUnit) : UnitRing PgUnit := ms.foldl (fun r m => ringReply m r) r

theorem pgRun_replies (h : s.pc.Live) {ms : List Msg} (hm : ∀ m ∈ ms, Reply m) :
    QuietRun s (ms.map fun m => (.send, m)) s.pc.prep (ringReplies ms s.pc.view) (ms.any shuts) := by
  induction ms generalizing s with
  | nil => exact .nil h
  | cons m ms ih =>
    rw [List.forall_mem_cons] at hm
    have hstep := pgStep_reply h hm.1
    have hrest := ih hstep.live hm.2
    rw [hstep.view, hstep.prep] at hrest
    exact .cons hstep hrest

end

end Latkit
