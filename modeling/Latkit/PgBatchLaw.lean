import Latkit.PgCourse

namespace Latkit
open Inflight (UnitRing)

theorem ringReplies_extended (h : Answered ms as f) (hfresh : List.Forall₂ Fresh ms us)
    (hms : ∀ m ∈ ms, untilReady m = false) (cl : List PgUnit) (z : Msg) :
    ∃ done, ringReplies (replyMsgs as f) ⟨cl, us⟩ = ⟨cl ++ done, []⟩ ∧
      done.map (PgUnit.outcomeAt z) = outcomes z ms as f := by
  induction h generalizing us cl with
  | done =>
    cases hfresh with
    | nil => exact ⟨[], by simp [replyMsgs, ringReplies], rfl⟩
  | @finished m ms a as f ha hrest ih =>
    cases hfresh with
    | @cons _ u _ us hu hus =>
      rw [List.forall_mem_cons] at hms
      rw [← hu.waits] at ha
      have hz : u.zClosed = false := hu.waits.trans hms.1
      have hbody := (unitReplies_waits ha.body).trans hz
      have hlast := ha.last
      rw [hz] at hlast
      obtain ⟨done, hdone, hout⟩ := ih hus hms.2 (cl ++ [unitReplies a.msgs u])
      refine ⟨unitReplies a.msgs u :: done, ?_, ?_⟩
      · have hmsgs : replyMsgs (a :: as) f = a.msgs ++ replyMsgs as f := by simp [replyMsgs]
        rw [hmsgs, ringReplies_append, ringReplies_answer ha.body,
          ringReply_finishes hbody hlast, ← unitReplies_answer, hdone]
        simp
      · rw [List.map_cons, hout, fresh_finished hu ha]
        rfl
  | @failed m ms a ha =>
    cases hfresh with
    | @cons _ u _ us hu hus =>
      rw [List.forall_mem_cons] at hms
      rw [← hu.waits] at ha
      have hz : u.zClosed = false := hu.waits.trans hms.1
      have hbody := (unitReplies_waits ha.body).trans hz
      refine ⟨unitReplies a.msgs u :: us.map PgUnit.aborted, ?_, ?_⟩
      · have hmsgs : replyMsgs [] (some a) = a.msgs := by simp [replyMsgs]
        rw [hmsgs, ringReplies_answer ha.body, ringReply_fails hbody ha.last,
          ← unitReplies_answer]
      · rw [List.map_cons, fresh_failed hu ha, outcomes, List.map_map]
        congr 1
        exact aborted_outcomes hus hms.2 z

def settled (z : Msg) (r : UnitRing PgUnit) : List Outcome :=
  (r.closed ++ r.opened.filter PgUnit.zClosed).map (PgUnit.outcomeAt z)

theorem settled_finishes {u : PgUnit} (hz : u.zClosed = true) (h : (beKind m.type).finishes true = true)
    (z : Msg) : settled z (ringReply m ⟨[], [u]⟩) = [(unitReply m u).outcomeAt z] := by
  have hwaits := (unitReply_since u (BeKind.finishes_not_error h)).waits.trans hz
  by_cases hk : beKind m.type = .suspended
  · have hring : ringReply m ⟨[], [u]⟩ = ⟨[unitReply m u], []⟩ := by
      simp [ringReply, unitReply, hk, UnitRing.close]
    rw [hring]
    rfl
  · have hstays : (beKind m.type).stays u.zClosed = true := by
      rw [hz]
      exact BeKind.finishes_stays h hk
    rw [ringReply_stays hstays]
    simp [settled, hwaits]

theorem settled_fails {u : PgUnit} (hz : u.zClosed = true) (hk : beKind m.type = .error) (z : Msg) :
    settled z (ringReply m ⟨[], [u]⟩) = [(unitReply m u).outcomeAt z] := by
  have hwaits : (unitReply m u).zClosed = true := by
    simp only [unitReply, hk]
    exact hz
  have hring : ringReply m ⟨[], [u]⟩ = ⟨[], [unitReply m u]⟩ := by
    simp [ringReply, unitReply, hk, errorReply, UnitRing.current, hz, UnitRing.modify]
  rw [hring]
  simp [settled, hwaits]

theorem settled_single (h : Answered [m] as f) (hu : Fresh m u) (hm : untilReady m = true) (z : Msg) :
    settled z (ringReplies (replyMsgs as f) ⟨[], [u]⟩) = outcomes z [m] as f := by
  have hz : u.zClosed = true := hu.waits.trans hm
  cases h with
  | @finished _ _ a as _ ha hrest =>
    cases hrest
    rw [← hu.waits] at ha
    have hmsgs : replyMsgs [a] none = a.msgs := by simp [replyMsgs]
    have hlast := ha.last
    rw [hz] at hlast
    rw [hmsgs, ringReplies_answer ha.body, settled_finishes ((unitReplies_waits ha.body).trans hz) hlast,
      ← unitReplies_answer, fresh_finished hu ha]
    rfl
  | @failed _ _ a ha =>
    rw [← hu.waits] at ha
    have hmsgs : replyMsgs [] (some a) = a.msgs := by simp [replyMsgs]
    rw [hmsgs, ringReplies_answer ha.body, settled_fails ((unitReplies_waits ha.body).trans hz) ha.last,
      ← unitReplies_answer, fresh_failed hu ha]
    rfl

theorem settled_extended (h : Answered ms as f) (hfresh : List.Forall₂ Fresh ms us)
    (hms : ∀ m ∈ ms, untilReady m = false) (z : Msg) :
    settled z (ringReplies (replyMsgs as f) ⟨[], us⟩) = outcomes z ms as f := by
  obtain ⟨done, hring, hout⟩ := ringReplies_extended h hfresh hms [] z
  rw [hring, ← hout]
  simp [settled]

theorem settled_batch {b : Batch} (h : b.Conforms) (hfresh : List.Forall₂ Fresh b.units us) :
    settled b.ready (ringReplies b.replies ⟨[], us⟩) = b.outcomes := by
  have hanswered := h.answered
  rw [Batch.outcomes]
  obtain ⟨m, hm, hz⟩ | hz := h.requests.units.2
  · change b.units = [m] at hm
    rw [hm] at hanswered hfresh ⊢
    cases hfresh with
    | cons hu hus =>
      cases hus
      exact settled_single hanswered hu hz b.ready
  · exact settled_extended hanswered hfresh hz b.ready

theorem outcome_view (obs : List QueryObs) :
    obs.map QueryObs.outcome = (obs.map QueryObs.view).map QueryObs.outcome := by
  rw [List.map_map]
  rfl

theorem settled_eq (z : Msg) (r : UnitRing PgUnit) :
    ((readyUnits r z.ts).map (PgUnit.reported z)).map QueryObs.outcome = settled z r := by
  rw [readyUnits, List.map_map, List.map_map]
  rfl

theorem pgRun_batch {s : PgState} (hidle : s.pc.Idle) {b : Batch} (h : b.Conforms) :
    (pgRun s b.messages).pc.Idle ∧
      (pgEmits s b.messages).map (List.map QueryObs.outcome) =
        (b.exchange.map fun _ => []) ++ [b.outcomes] := by
  have hfit : s.pc.view.count + b.requests.countP opens ≤ lkPgMaxInflight := by
    rw [hidle.view]
    simpa [UnitRing.count] using h.requests.units.1
  have hreq := pgRun_requests hidle.live hidle.phase h.begun hfit
  have hrun := hreq.append (pgRun_replies hreq.live h.answered.reply)
  rw [hreq.view, hidle.view] at hrun
  change QuietRun s b.exchange _ _ _ at hrun
  obtain ⟨hidle', _, hnew⟩ := pgStep_ready hrun.live h.ready
  constructor
  · rw [Batch.messages, pgRun_append]
    exact hidle'
  · have hlast : (newQueries (pgRun s b.exchange) (pgStep (pgRun s b.exchange) (.send, b.ready))).map
        QueryObs.outcome = b.outcomes := by
      rw [outcome_view, hnew, settled_eq, hrun.view]
      exact settled_batch h (feUnits_fresh s.pc.prep b.requests)
    rw [Batch.messages, pgEmits_append, hrun.emits]
    simp [pgEmits, hlast]

/-- Batches one after the other, each started after the Z of the one before: nothing is reported before
a Z, and a Z reports every unit of its batch, in order and with the outcome its own replies give it. -/
theorem pg_batch_law (s : PgState) (hidle : s.pc.Idle) (bs : List Batch) (h : ∀ b ∈ bs, b.Conforms) :
    (pgRun s (bs.flatMap Batch.messages)).pc.Idle ∧
      (pgEmits s (bs.flatMap Batch.messages)).map (List.map QueryObs.outcome) =
        (bs.flatMap fun b => (b.exchange.map fun _ => []) ++ [b.outcomes]) ∧
      ∀ b ∈ bs, b.outcomes.length = b.units.length := by
  induction bs generalizing s with
  | nil => exact ⟨hidle, rfl, fun b hb => nomatch hb⟩
  | cons b bs ih =>
    rw [List.forall_mem_cons] at h
    obtain ⟨hidle', hemits⟩ := pgRun_batch hidle h.1
    obtain ⟨hlast, hrest, hlength⟩ := ih _ hidle' h.2
    refine ⟨?_, ?_, ?_⟩
    · rw [List.flatMap_cons, pgRun_append]
      exact hlast
    · rw [List.flatMap_cons, List.flatMap_cons, pgEmits_append, List.map_append, hemits, hrest]
    · rw [List.forall_mem_cons]
      exact ⟨outcomes_length h.1.answered b.ready, hlength⟩

def failingBatch : Batch where
  requests :=
    [{ ts := 1, type := 'B'.toUInt8 }, { ts := 1, type := 'E'.toUInt8 },
      { ts := 2, type := 'B'.toUInt8 }, { ts := 2, type := 'E'.toUInt8 },
      { ts := 3, type := 'B'.toUInt8 }, { ts := 3, type := 'E'.toUInt8 }, { ts := 4, type := 'S'.toUInt8 }]
  answers :=
    [{ body := [{ ts := 5, type := 'D'.toUInt8 }, { ts := 6, type := 'D'.toUInt8 }]
       last := { ts := 7, type := 'C'.toUInt8, body := "SELECT 2".toUTF8.toList ++ [0] } }]
  failure := some
    { body := []
      last := { ts := 8, type := 'E'.toUInt8, body := "C22012".toUTF8.toList ++ [0, 0] } }
  ready := { ts := 9, type := 'Z'.toUInt8, body := "I".toUTF8.toList }

theorem failingBatch_conforms : failingBatch.Conforms where
  requests := @Requests.extended failingBatch.requests.dropLast _ (by decide) (by decide) rfl
  begun := by decide
  answered := .finished ⟨by decide, rfl, by decide +kernel⟩ (.failed ⟨by decide, rfl, by decide +kernel⟩)
  ready := rfl

theorem pg_batch_law_failing :
    (pgEmits { p := {}, flags := {}, pc := { phase := .ready } } failingBatch.messages).map
        (List.map QueryObs.outcome) =
      [[], [], [], [], [], [], [], [], [], [], [],
        [{ tsStart := 1, tsFirstRow := 5, tsComplete := 7, tsReady := 9, rows := 2 },
          { tsStart := 2, tsComplete := 8, tsReady := 9, sqlstate := "22012".toUTF8.toList, error := true },
          { tsStart := 3, aborted := true }]] := by
  have h := (pg_batch_law { p := {}, flags := {}, pc := { phase := .ready } } ⟨rfl, rfl, rfl, rfl⟩
    [failingBatch] (by simpa using failingBatch_conforms)).2.1
  simp only [List.flatMap_cons, List.flatMap_nil, List.append_nil] at h
  rw [h]
  decide +kernel

end Latkit
