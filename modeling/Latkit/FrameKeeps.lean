import Latkit.FramePrims

namespace Latkit
open Chunked (Turn)

def Frame.call (f : Frame) : Nat × Nat := (f.callPos, f.callTotal)

/-- A relation between a connection before and after that the framer's surroundings respect; the
framer itself changes the direction's frame and leaves its call counters alone. -/
structure Keeps (env : Env φ) (ops : ProtoOps φ) (dir : Dir) (R : FConn φ → FConn φ → Prop) :
    Prop where
  refl : ∀ c, R c c
  trans : ∀ a b c, R a b → R b c → R a c
  frame : ∀ c f, f.call = (c.frame dir).call → R c (c.setFrame dir f)
  react : ∀ c t, R c (c.mapFlags (env.react t))
  parseHdr : ∀ f g, ops.parseHdr dir f = some g → g.call = f.call
  resyncScan : ∀ f p, (ops.resyncScan dir f p).1.call = f.call
  preEmit : ∀ c m, R c (ops.preEmit c dir m).1
  interceptBytes : ∀ r c p ts, R c (ops.interceptBytes r c dir p ts).2.1
  interceptHole : ∀ c c', ops.interceptHole c dir = some c' → R c c'
  streamBytes : ∀ r c p ts, R c (ops.streamBytes r c dir p ts).2
  streamHole : ∀ r c n, R c (ops.streamHole r c dir n).2

section
variable {env : Env φ} {ops : ProtoOps φ} {R : FConn φ → FConn φ → Prop}

theorem Keeps.upd (hk : Keeps env ops dir R) (h : R c₀ c) (g : Frame → Frame)
    (hg : ∀ f, (g f).call = f.call) : R c₀ (c.updFrame dir g) :=
  hk.trans _ _ _ h (hk.frame c _ (hg _))

theorem skipOver_call (n : Nat) (f : Frame) : (skipOver n f).call = f.call := by
  simp only [skipOver]
  split <;> rfl

theorem closePrefix_call (slab : Bool) (p : List Byte) (n : Nat) (f : Frame) :
    (closePrefix slab p n f).call = f.call := by
  rw [closePrefix, skipOver_call]
  rfl

theorem Keeps.deliver (hk : Keeps env ops dir R) (h : R c₀ c) (r : Reasm) (e : SinkEvent) :
    R c₀ (deliver env r c e).2 :=
  hk.trans _ _ _ h (hk.react c _)

theorem Keeps.emit (hk : Keeps env ops dir R) (h : R c₀ c) (r : Reasm) (body : List Byte) :
    R c₀ (emit env ops r c dir body).2 := by
  rw [emit_eq]
  apply hk.deliver
  apply hk.trans _ _ _ (hk.trans _ _ _ h (hk.preEmit c _))
  exact hk.frame _ _ rfl

theorem Keeps.doResync (hk : Keeps env ops dir R) (h : R c₀ c) (r : Reasm) :
    R c₀ (doResync env r c dir).2 :=
  hk.deliver (hk.upd h resynced fun _ => rfl) _ _

theorem Keeps.afterEmit (hk : Keeps env ops dir R) (h : R c₀ c) (ef : ConnFlags) (r : Reasm)
    (body : List Byte) {g : Frame → Frame} (hg : ∀ f, (g f).call = f.call) (rest : List Byte) :
    R c₀ (turnState (afterEmit ef ((Latkit.emit env ops r c dir body).1,
      (Latkit.emit env ops r c dir body).2.updFrame dir g) rest)).2 := by
  rw [(afterEmit_state _ _ _).1]
  exact hk.upd (hk.emit h r body) g hg

theorem Keeps.bodyEnd (hk : Keeps env ops dir R) (h : R c₀ c) (ef : ConnFlags) (r : Reasm)
    (rem : Nat) (p : List Byte) : R c₀ (turnState (bodyEnd env ops ef dir r c rem p)).2 := by
  simp only [Latkit.bodyEnd]
  split
  · exact hk.upd h _ (closePrefix_call _ _ _)
  · exact hk.afterEmit h ef r _ (fun f => skipOver_call _ (msgReset f)) _

theorem Keeps.headerEnd (hk : Keeps env ops dir R) (h : R c₀ c) (ef : ConnFlags) (r : Reasm)
    (hf : f.call = (c.frame dir).call) (rest : List Byte) :
    R c₀ (turnState (headerEnd env ops ef dir r c f rest)).2 := by
  simp only [Latkit.headerEnd]
  split
  · have hset : R c₀ (c.setFrame dir f) := hk.trans _ _ _ h (hk.frame c f hf)
    exact hk.upd hset dirtied fun _ => rfl
  · next g hparse =>
    have hg : g.call = (c.frame dir).call := (hk.parseHdr _ _ hparse).trans hf
    split
    · exact hk.afterEmit (hk.trans _ _ _ h (hk.frame c g hg)) ef r _ (g := msgReset) (fun _ => rfl) _
    · exact hk.trans _ _ _ h (hk.frame c _ hg)

theorem Keeps.frameTurn (hk : Keeps env ops dir R) (h : R c₀ c) (ef : ConnFlags) (ts : Nat)
    (r : Reasm) (p : List Byte) : R c₀ (turnState (frameTurn env ops ef dir ts (r, c) p)).2 := by
  cases hst : (c.frame dir).st with
  | header =>
    simp only [Latkit.frameTurn, hst, headerTurn]
    split
    · exact hk.trans _ _ _ h (hk.frame c _ rfl)
    · apply hk.headerEnd h ef r
      rfl
  | body =>
    simp only [Latkit.frameTurn, hst, bodyTurn]
    repeat' split
    · exact hk.upd h (spill p) fun _ => rfl
    · exact hk.bodyEnd h ef r _ p
    · exact hk.bodyEnd h ef r _ p
  | skip =>
    simp only [Latkit.frameTurn, hst, skipTurn]
    exact hk.upd h (skipped p.length) fun _ => rfl
  | dirty =>
    have hset : R c₀ (c.setFrame dir (ops.resyncScan dir (c.frame dir) p).1) :=
      hk.trans _ _ _ h (hk.frame c _ (hk.resyncScan _ _))
    simp only [Latkit.frameTurn, hst, dirtyTurn]
    split
    · exact hk.doResync hset r
    · exact hset

theorem Keeps.frameChunk (hk : Keeps env ops dir R) (r : Reasm) (c : FConn φ) (p : List Byte)
    (ts : Nat) : R c (frameChunk env ops r c dir p ts).2 := by
  have hi := hk.interceptBytes r c p ts
  simp only [Latkit.frameChunk]
  split
  · exact hk.refl c
  · rcases h : ops.interceptBytes r c dir p ts with ⟨r', c', _ | p'⟩
    · rw [h] at hi
      exact hi
    · rw [h] at hi
      refine Chunked.run_keeps (I := fun s : Reasm × FConn φ => R c s.2) ?_ ?_ hi p'
      · intro s q s' hs ht
        have hturn := hk.frameTurn hs c.flags ts s.1 q
        rw [ht] at hturn
        exact hturn
      · intro s q s' rest hs ht
        have hturn := hk.frameTurn hs c.flags ts s.1 q
        rw [ht] at hturn
        exact hturn

theorem Keeps.holeLoop (hk : Keeps env ops dir R) (ef : ConnFlags) (fuel : Nat)
    (s : Reasm × FConn φ) (h : R c₀ s.2) (n : Nat) :
    R c₀ (holeLoop env ops ef dir fuel s n).2 := by
  induction fuel generalizing s n with
  | zero => exact h
  | succ fuel ih =>
    obtain ⟨r, c⟩ := s
    cases n with
    | zero => exact h
    | succ n =>
      cases hst : (c.frame dir).st with
      | header =>
        simp only [Latkit.holeLoop, hst]
        exact hk.upd h dirtied fun _ => rfl
      | body =>
        simp only [Latkit.holeLoop, hst]
        generalize (c.frame dir).bodyLen - _ = rem
        have hbody : R c₀ (turnState (holeBody env ops ef dir r c rem (min rem (n + 1)))).2 := by
          simp only [holeBody]
          split
          · exact hk.upd h _ (closePrefix_call _ _ _)
          · exact hk.afterEmit h ef r _ (fun f => skipOver_call _ (msgReset f)) _
        cases ht : holeBody env ops ef dir r c rem (min rem (n + 1)) with
        | ret s' =>
          rw [ht] at hbody
          exact hbody
        | next s' rest =>
          rw [ht] at hbody
          exact ih s' hbody _
      | skip =>
        simp only [Latkit.holeLoop, hst]
        exact ih _ (hk.upd h (skipped (n + 1)) fun _ => rfl) _
      | dirty =>
        simp only [Latkit.holeLoop, hst]
        exact h

theorem framePrim_keeps {s : Reasm × FConn φ} (hk : Keeps env (connOps env s.2) dir R)
    (hpin : R s.2 s.2.pin) (x : Prim) : R s.2 (framePrim env dir s x).2 := by
  obtain ⟨r, c⟩ := s
  apply hk.trans _ _ _ hpin
  cases x with
  | bytes p ts =>
    simp only [framePrim, lkFrameBytes]
    repeat' split
    · exact hk.refl _
    · exact hk.streamBytes _ _ _ _
    · exact hk.frameChunk _ _ _ _
  | hole n =>
    simp only [framePrim, lkFrameHole]
    split
    · exact hk.refl _
    split
    · exact hk.streamHole _ _ _
    split
    · next c' h => exact hk.upd (hk.interceptHole _ _ h) dirtied fun _ => rfl
    split
    · exact hk.upd (hk.refl _) (fun f => { f with resyncMatched := 0 }) fun _ => rfl
    · apply hk.holeLoop
      exact hk.refl _

theorem framePrims_keeps (hk : ∀ proto, Keeps env (protoOps env proto) dir R)
    (hpin : ∀ c, R c c.pin) (s : Reasm × FConn φ) (ps : List Prim) :
    R s.2 (framePrims env dir s ps).2 := by
  induction ps generalizing s with
  | nil => exact (hk .pg).refl _
  | cons x ps ih => exact (hk .pg).trans _ _ _ (framePrim_keeps (hk _) (hpin _) x) (ih _)

end

theorem pgParseHdr_call (h : pgParseHdr dir f = some g) : g.call = f.call := by
  simp only [pgParseHdr] at h
  split at h <;> cases h
  rfl

theorem pgResyncScan_call (dir : Dir) (f : Frame) (p : List Byte) :
    (pgResyncScan dir f p).1.call = f.call := by
  simp only [pgResyncScan]
  split <;> rfl

theorem myParseHdr_call (dir : Dir) (h : myParseHdr dir f = some g) : g.call = f.call := by
  simp only [myParseHdr] at h
  repeat' split at h
  all_goals cases h
  all_goals rfl

end Latkit
