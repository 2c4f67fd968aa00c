import Latkit.FrameHoles

namespace Latkit
open Chunked (Turn)
open Wire (Reader)

section
variable {env : Env φ} {ops : ProtoOps φ} {Settled : Dir → ConnFlags → Prop}

theorem InChunk.updFrame (h : InChunk ops Settled dir s₀ (r, c)) (g : Frame → Frame)
    (hw : FrameWf ops dir (g (c.frame dir))) : InChunk ops Settled dir s₀ (r, c.updFrame dir g) :=
  ⟨by rw [updFrame_frame]; exact hw, h.slabOk, by rw [updFrame_flags]; exact h.settled,
    h.grows.updFrame dir g⟩

theorem holeBody_inChunk (he : SinkOk env) (hops : LawfulOps ops Settled) (ef : ConnFlags)
    (hin : InChunk ops Settled dir s₀ (r, c)) (rem take : Nat) :
    InChunk ops Settled dir s₀ (turnState (holeBody env ops ef dir r c rem take)) := by
  simp only [holeBody]
  split
  · exact hin.updFrame _ (closePrefix_wf hops dir _ _ _ _)
  · have hok : TurnOk ops Settled dir (r, c) [0] (afterEmit ef
        ((emit env ops r c dir (c.frame dir).buf).1,
          (emit env ops r c dir (c.frame dir).buf).2.updFrame dir fun f =>
            skipOver (rem - take) (msgReset f)) []) :=
      afterEmit_ok he hops ef _ (fun f => skipOver_wf (msgReset_wf hops dir f) rfl (.inr rfl) _)
        (fun f => skipOver_st rfl _) _ (Grows.refl _) rfl id (Nat.lt_add_right _ (by decide))
    exact hin.turn hok

theorem holeLoop_inChunk (he : SinkOk env) (hops : LawfulOps ops Settled) (ef : ConnFlags)
    (fuel : Nat) (hin : InChunk ops Settled dir s₀ s) (n : Nat) :
    InChunk ops Settled dir s₀ (holeLoop env ops ef dir fuel s n) := by
  induction fuel generalizing s n with
  | zero => exact hin
  | succ fuel ih =>
    cases n with
    | zero => exact hin
    | succ n =>
      obtain ⟨r, c⟩ := s
      cases hin.wf with
      | header hst hh hb =>
        simp only [holeLoop, hst, goDirty]
        have h := hin.updFrame dirtied (.dirty rfl)
        exact ⟨h.wf, h.slabOk, h.settled, h.grows.ops, h.grows.badLen, h.grows.tlsConns, h.grows.flags⟩
      | body hst hl hb =>
        simp only [holeLoop, hst]
        generalize (c.frame dir).bodyLen - _ = rem
        have hbody := holeBody_inChunk he hops ef hin rem (min rem (n + 1))
        cases ht : holeBody env ops ef dir r c rem (min rem (n + 1)) with
        | ret s' =>
          rw [ht] at hbody
          exact hbody
        | next s' rest =>
          rw [ht] at hbody
          exact ih hbody _
      | skip hst hl hh hb =>
        simp only [holeLoop, hst]
        have hok := skipTurn_ok (r := r) (p := List.replicate (n + 1) 0) hops hst hl hh hb (by simp)
        have hin' := hin.turn hok
        simp only [skipTurn, turnState, List.length_replicate] at hin'
        exact ih hin' _
      | dirty hst =>
        simp only [holeLoop, hst]
        exact hin

end

def Prim.seen : Prim → List (Option Byte)
  | .bytes p _ => p.map some
  | .hole n => List.replicate n none

/-- A pinned connection framed by `ops`, on a direction that expects no special byte. -/
structure Settles (env : Env φ) (ops : ProtoOps φ) (Settled : Dir → ConnFlags → Prop) (dir : Dir)
    (s : Reasm × FConn φ) : Prop where
  vtable : connOps env s.2 = ops
  pin : ∃ proto, s.2.ops = some proto
  wf : FrameWf ops dir (s.2.frame dir)
  slabOk : s.1.slabOk = true
  settled : Settled dir s.2.flags

section
variable {env : Env φ} {ops : ProtoOps φ} {Settled : Dir → ConnFlags → Prop} {rd : Reader χ Byte}
  {view : Head → χ} {note : χ → List Byte → Note}

theorem Settles.inChunk (h : Settles env ops Settled dir s) : InChunk ops Settled dir s s :=
  ⟨h.wf, h.slabOk, h.settled, Grows.refl s⟩

theorem Settles.ofInChunk (h : Settles env ops Settled dir s) (hin : InChunk ops Settled dir s s') :
    Settles env ops Settled dir s' := by
  obtain ⟨proto, hp⟩ := h.pin
  refine ⟨?_, ⟨proto, hin.grows.ops.trans hp⟩, hin.wf, hin.slabOk, hin.settled⟩
  rw [← h.vtable, connOps, connOps, hin.grows.ops]

theorem Settles.pin_eq (h : Settles env ops Settled dir s) : s.2.pin = s.2 := by
  obtain ⟨proto, hp⟩ := h.pin
  exact FConn.pin_of_some hp

theorem Settles.bytes_eq (hops : LawfulOps ops Settled) (h : Settles env ops Settled dir s)
    (p : List Byte) (ts : Nat) :
    lkFrameBytes env s.1 s.2 dir p ts = frameChunk env ops s.1 s.2 dir p ts := by
  rw [lkFrameBytes_eq (h.vtable ▸ hops), h.pin_eq, h.vtable]

theorem Settles.hole_zero (h : Settles env ops Settled dir s) :
    lkFrameHole env s.1 s.2 dir 0 = s := by
  simp only [lkFrameHole, h.pin_eq, if_true]

theorem Settles.hole_eq (hops : LawfulOps ops Settled) (h : Settles env ops Settled dir s)
    (hhole : ∀ c, Settled dir c.flags → ops.interceptHole c dir = none) (hn : n ≠ 0)
    (hst : (s.2.frame dir).st ≠ .dirty) :
    lkFrameHole env s.1 s.2 dir n =
      holeLoop env ops s.2.flags dir (n + 1) (s.1.bump (countHole n), s.2) n := by
  simp only [lkFrameHole, h.vtable, h.pin_eq, hn, if_false, hops.stream, Bool.false_eq_true,
    hhole _ h.settled, hst]

theorem Settles.hole_dirty (hops : LawfulOps ops Settled) (h : Settles env ops Settled dir s)
    (hhole : ∀ c, Settled dir c.flags → ops.interceptHole c dir = none) (hn : n ≠ 0)
    (hst : (s.2.frame dir).st = .dirty) :
    lkFrameHole env s.1 s.2 dir n =
      (s.1, s.2.updFrame dir fun f => { f with resyncMatched := 0 }) := by
  simp only [lkFrameHole, h.vtable, h.pin_eq, hn, if_false, hops.stream, Bool.false_eq_true,
    hhole _ h.settled, hst, if_true]

theorem framePrim_inChunk (he : SinkOk env) (hops : LawfulOps ops Settled)
    (hhole : ∀ c, Settled dir c.flags → ops.interceptHole c dir = none)
    (h : Settles env ops Settled dir s) (x : Prim) :
    InChunk ops Settled dir s (framePrim env dir s x) := by
  cases x with
  | bytes p ts =>
    simp only [framePrim, h.bytes_eq hops]
    cases p with
    | nil =>
      rw [frameChunk_nil]
      exact h.inChunk
    | cons b p => exact frameChunk_inChunk he hops ⟨h.wf, h.slabOk⟩ b p ts
  | hole n =>
    simp only [framePrim]
    by_cases hn : n = 0
    · rw [hn, h.hole_zero]
      exact h.inChunk
    by_cases hst : (s.2.frame dir).st = .dirty
    · rw [h.hole_dirty hops hhole hn hst]
      exact h.inChunk.updFrame _ (.dirty hst)
    · rw [h.hole_eq hops hhole hn hst]
      apply holeLoop_inChunk he hops
      exact ⟨h.wf, h.slabOk, h.settled, rfl, Nat.le_refl _, Nat.le_refl _, ConnFlags.le_refl _⟩

theorem framePrims_settles (he : SinkOk env) (hops : LawfulOps ops Settled)
    (hhole : ∀ c, Settled dir c.flags → ops.interceptHole c dir = none)
    (h : Settles env ops Settled dir s) (ps : List Prim) :
    Settles env ops Settled dir (framePrims env dir s ps) ∧ Grows s (framePrims env dir s ps) := by
  induction ps generalizing s with
  | nil => exact ⟨h, Grows.refl s⟩
  | cons x ps ih =>
    have hin := framePrim_inChunk he hops hhole h x
    obtain ⟨hs, hg⟩ := ih (h.ofInChunk hin)
    exact ⟨hs, hin.grows.trans hg⟩

theorem framePrim_owes (he : SinkOk env) (hops : LawfulOps ops Settled)
    (hhole : ∀ c, Settled dir c.flags → ops.interceptHole c dir = none)
    (hrd : ReadsAs ops dir rd view note) (hs : Settles env ops Settled dir s) (x : Prim)
    (h : Owes rd view note dir s (x.seen ++ y) total) :
    wentBlind s.2.flags (framePrim env dir s x).2 = true ∨
      Owes rd view note dir (framePrim env dir s x) y total := by
  cases x with
  | bytes p ts =>
    simp only [framePrim, hs.bytes_eq hops]
    exact frameChunk_owes he hops hrd hs.slabOk hs.settled p ts h
  | hole n =>
    simp only [framePrim]
    by_cases hn : n = 0
    · subst hn
      rw [hs.hole_zero]
      exact .inr h
    · obtain ⟨-, _, ht, -⟩ := id h
      rw [hs.hole_eq hops hhole hn ht.not_dirty]
      exact holeLoop_owes env hrd s.2.flags (n + 1) (Nat.le_succ n) hs.slabOk h

theorem ConnFlags.le.blind {fl fl' : ConnFlags} (h : fl.le fl') (hb : fl.blind = true) :
    fl'.blind = true := by
  simp only [ConnFlags.blind, Bool.or_eq_true] at hb ⊢
  exact hb.imp h.1 h.2

theorem framePrims_owes (he : SinkOk env) (hops : LawfulOps ops Settled)
    (hhole : ∀ c, Settled dir c.flags → ops.interceptHole c dir = none)
    (hrd : ReadsAs ops dir rd view note) (hs : Settles env ops Settled dir s) (ps : List Prim)
    (hb : (framePrims env dir s ps).2.flags.blind = true → s.2.flags.blind = true)
    (h : Owes rd view note dir s (ps.flatMap Prim.seen ++ y) total) :
    Owes rd view note dir (framePrims env dir s ps) y total := by
  induction ps generalizing s with
  | nil => exact h
  | cons x ps ih =>
    have hin := framePrim_inChunk he hops hhole hs x
    have hs' := hs.ofInChunk hin
    obtain ⟨-, hg⟩ := framePrims_settles he hops hhole hs' ps
    rw [List.flatMap_cons, List.append_assoc] at h
    apply ih hs'
    · intro hend
      exact hin.grows.flags.blind (hb hend)
    · apply (framePrim_owes he hops hhole hrd hs x h).resolve_left
      intro hw
      simp only [wentBlind, Bool.and_eq_true, Bool.not_eq_true'] at hw
      have hend := hb (hg.flags.blind hw.2)
      rw [hw.1] at hend
      cases hend

end

end Latkit
