import Latkit.FrameLaws

namespace Latkit
open Chunked (Turn)

inductive FrameWf (ops : ProtoOps φ) (dir : Dir) (f : Frame) : Prop
  | header (hst : f.st = .header) (hh : f.hdr.length < ops.hdrSize dir f)
      (hb : f.prefixClosed = true ∨ f.buf = [])
  | body (hst : f.st = .body) (hl : 0 < f.bodyLen)
      (hb : f.prefixClosed = false → f.buf.length < bodyTarget f)
  | skip (hst : f.st = .skip) (hl : 0 < f.skipLeft) (hh : f.hdr = [])
      (hb : f.prefixClosed = true ∨ f.buf = [])
  | dirty (hst : f.st = .dirty)

/-- What only ever grows while a direction is framed: the counters and flags of an irregular end. -/
structure Grows (s s' : Reasm × FConn φ) : Prop where
  ops : s'.2.ops = s.2.ops
  badLen : s.1.st.badLen ≤ s'.1.st.badLen
  tlsConns : s.1.st.tlsConns ≤ s'.1.st.tlsConns
  flags : s.2.flags.le s'.2.flags

def flaws (s : Reasm × FConn φ) : Nat :=
  s.1.st.badLen + s.1.st.tlsConns + s.2.flags.tls.toNat + s.2.flags.ignore.toNat

theorem Grows.refl (s : Reasm × FConn φ) : Grows s s :=
  ⟨rfl, Nat.le_refl _, Nat.le_refl _, ConnFlags.le_refl _⟩

theorem Grows.trans (h : Grows s s') (h' : Grows s' s'') : Grows s s'' :=
  ⟨h'.ops.trans h.ops, Nat.le_trans h.badLen h'.badLen, Nat.le_trans h.tlsConns h'.tlsConns,
    h.flags.trans h'.flags⟩

@[simp] theorem updFrame_frame (c : FConn φ) (dir : Dir) (g : Frame → Frame) :
    (c.updFrame dir g).frame dir = g (c.frame dir) := by
  simp [FConn.updFrame]

@[simp] theorem updFrame_ops (c : FConn φ) (dir : Dir) (g : Frame → Frame) :
    (c.updFrame dir g).ops = c.ops := by
  simp [FConn.updFrame]

@[simp] theorem updFrame_flags (c : FConn φ) (dir : Dir) (g : Frame → Frame) :
    (c.updFrame dir g).flags = c.flags := by
  simp [FConn.updFrame]

theorem Grows.updFrame (h : Grows s (r, c)) (dir : Dir) (g : Frame → Frame) :
    Grows s (r, c.updFrame dir g) :=
  ⟨by simpa using h.ops, h.badLen, h.tlsConns, by simpa using h.flags⟩

theorem toNat_le_of_imp {a b : Bool} (h : a = true → b = true) : a.toNat ≤ b.toNat := by
  cases a <;> cases b <;> simp_all

theorem Grows.flaws_le (h : Grows s s') : flaws s ≤ flaws s' := by
  have hb := h.badLen
  have ht := h.tlsConns
  have hf := toNat_le_of_imp h.flags.1
  have hi := toNat_le_of_imp h.flags.2
  simp only [flaws]
  omega

theorem Grows.blind_eq (h : Grows s s') (he : flaws s' = flaws s) :
    s'.2.flags.blind = s.2.flags.blind := by
  have hb := h.badLen
  have ht := h.tlsConns
  have hf := toNat_le_of_imp h.flags.1
  have hi := toNat_le_of_imp h.flags.2
  have hinj {a b : Bool} : a.toNat = b.toNat → a = b := by cases a <;> cases b <;> simp
  simp only [flaws] at he
  have htls := hinj (show s'.2.flags.tls.toNat = s.2.flags.tls.toNat by omega)
  have hig := hinj (show s'.2.flags.ignore.toNat = s.2.flags.ignore.toNat by omega)
  simp only [ConnFlags.blind, htls, hig]

def turnState : Turn σ α → σ
  | .ret s => s
  | .next s _ => s

/-- A direction may stall once: in the body of a fragment that adds nothing to a closed prefix. -/
def stallCost (dir : Dir) (s : Reasm × FConn φ) : Nat :=
  if (s.2.frame dir).st = .body ∧ (s.2.frame dir).prefixClosed = true then 1 else 0

theorem stallCost_le (dir : Dir) (s : Reasm × FConn φ) : stallCost dir s ≤ 1 := by
  simp only [stallCost]
  split <;> omega

theorem stallCost_header (h : (s.2.frame dir).st ≠ .body) : stallCost dir s = 0 := by
  simp [stallCost, h]

structure TurnOk (ops : ProtoOps φ) (Settled : Dir → ConnFlags → Prop) (dir : Dir)
    (s : Reasm × FConn φ) (p : List Byte) (t : Turn (Reasm × FConn φ) Byte) : Prop where
  wf : FrameWf ops dir ((turnState t).2.frame dir)
  slabOk : (turnState t).1.slabOk = s.1.slabOk
  settled : Settled dir s.2.flags → Settled dir (turnState t).2.flags
  grows : Grows s (turnState t)
  less : ∀ s' rest, t = .next s' rest →
    2 * rest.length + stallCost dir s' < 2 * p.length + stallCost dir s

theorem Grows.setFrame (h : Grows s (r, c)) (dir : Dir) (f : Frame) :
    Grows s (r, c.setFrame dir f) :=
  ⟨by simpa using h.ops, h.badLen, h.tlsConns, by simpa using h.flags⟩

section
variable {env : Env φ} {ops : ProtoOps φ} {Settled : Dir → ConnFlags → Prop}

theorem emit_eq (env : Env φ) (ops : ProtoOps φ) (r : Reasm) (c : FConn φ) (dir : Dir)
    (body : List Byte) :
    emit env ops r c dir body =
      let c' := (ops.preEmit c dir ((c.frame dir).msg body)).1
      let f := c'.frame dir
      deliver env (r.bump (countMsg (body.length < f.bodyTotal)))
        (c'.setFrame dir { f with afterResync := false })
        (.msg c'.cookie dir c'.flags
          (stampMsg f body (ops.preEmit c dir ((c.frame dir).msg body)).2)) := by
  simp only [emit, FConn.setFrame_cookie, FConn.setFrame_flags]

theorem emit_grows (he : SinkOk env) (hops : LawfulOps ops Settled) (r : Reasm) (c : FConn φ)
    (dir : Dir) (body : List Byte) : Grows (r, c) (emit env ops r c dir body) := by
  have hp := hops.preEmit_flags c dir ((c.frame dir).msg body)
  have ho := hops.preEmit_ops c dir ((c.frame dir).msg body)
  rw [emit_eq]
  refine ⟨?_, Nat.le_refl _, Nat.le_refl _, ?_⟩
  · simpa only [deliver, FConn.mapFlags_ops, FConn.setFrame_ops] using ho
  · simp only [deliver, FConn.mapFlags_flags, FConn.setFrame_flags]
    exact hp.trans (he.le _ _)

theorem emit_settled (he : SinkOk env) (hops : LawfulOps ops Settled) (r : Reasm) (c : FConn φ)
    (dir : Dir) (body : List Byte) (h : Settled dir c.flags) :
    Settled dir (emit env ops r c dir body).2.flags := by
  have hp := hops.preEmit_settled c dir ((c.frame dir).msg body) h
  rw [emit_eq]
  simp only [deliver, FConn.mapFlags_flags, FConn.setFrame_flags]
  exact hops.settled_congr _ _ _ (he.sslReply _ _) hp

@[simp] theorem emit_slabOk (env : Env φ) (ops : ProtoOps φ) (r : Reasm) (c : FConn φ) (dir : Dir)
    (body : List Byte) : (emit env ops r c dir body).1.slabOk = r.slabOk := rfl

theorem doResync_grows (he : SinkOk env) (r : Reasm) (c : FConn φ) (dir : Dir) :
    Grows (r, c) (doResync env r c dir) := by
  refine ⟨by simp [doResync, deliver], Nat.le_refl _, Nat.le_refl _, ?_⟩
  simp only [doResync, deliver, FConn.mapFlags_flags, updFrame_flags]
  exact he.le _ _

theorem afterEmit_state (ef : ConnFlags) (s : Reasm × FConn φ) (rest : List Byte) :
    (turnState (afterEmit ef s rest)).2 = s.2 ∧
      (turnState (afterEmit ef s rest)).1.slabOk = s.1.slabOk ∧
      Grows s (turnState (afterEmit ef s rest)) := by
  simp only [afterEmit]
  split
  · exact ⟨rfl, rfl, rfl, Nat.le_refl _, Nat.le_add_right _ _, ConnFlags.le_refl _⟩
  · exact ⟨rfl, rfl, Grows.refl s⟩

theorem afterEmit_next (h : afterEmit ef s rest = .next s' rest') : s' = s ∧ rest' = rest := by
  simp only [afterEmit] at h
  split at h <;> cases h
  exact ⟨rfl, rfl⟩

theorem afterEmit_ok (he : SinkOk env) (hops : LawfulOps ops Settled) (ef : ConnFlags)
    (g : Frame → Frame) (hg : ∀ f, FrameWf ops dir (g f)) (hst : ∀ f, (g f).st ≠ .body)
    (body : List Byte) (hs : Grows s (r, c)) (hslab : r.slabOk = s.1.slabOk)
    (hset : Settled dir s.2.flags → Settled dir c.flags)
    (hless : 2 * rest.length < 2 * p.length + stallCost dir s) :
    TurnOk ops Settled dir s p (afterEmit ef ((emit env ops r c dir body).1,
      (emit env ops r c dir body).2.updFrame dir g) rest) := by
  obtain ⟨hc, hsl, hgr⟩ := afterEmit_state ef ((emit env ops r c dir body).1,
    (emit env ops r c dir body).2.updFrame dir g) rest
  refine ⟨?_, ?_, fun h => ?_, ?_, fun s' rest' h => ?_⟩
  · rw [hc, updFrame_frame]
    exact hg _
  · rw [hsl]
    exact hslab
  · rw [hc, updFrame_flags]
    exact emit_settled he hops r c dir body (hset h)
  · exact ((hs.trans (emit_grows he hops r c dir body)).updFrame dir g).trans hgr
  · obtain ⟨rfl, rfl⟩ := afterEmit_next h
    rw [stallCost_header (by simpa using hst _)]
    exact hless

theorem TurnOk.ofRet (hw : FrameWf ops dir (s'.2.frame dir)) (hsl : s'.1.slabOk = s.1.slabOk)
    (hset : Settled dir s.2.flags → Settled dir s'.2.flags) (hg : Grows s s') :
    TurnOk ops Settled dir s p (.ret s') :=
  ⟨hw, hsl, hset, hg, fun _ _ h => nomatch h⟩

theorem TurnOk.ofNext (hw : FrameWf ops dir (s'.2.frame dir)) (hsl : s'.1.slabOk = s.1.slabOk)
    (hset : Settled dir s.2.flags → Settled dir s'.2.flags) (hg : Grows s s')
    (hless : 2 * rest.length + stallCost dir s' < 2 * p.length + stallCost dir s) :
    TurnOk ops Settled dir s p (.next s' rest) :=
  ⟨hw, hsl, hset, hg, fun _ _ h => by cases h; exact hless⟩

theorem msgReset_wf (hops : LawfulOps ops Settled) (dir : Dir) (f : Frame) :
    FrameWf ops dir (msgReset f) :=
  .header rfl (hops.hdrSize_pos dir _) (.inr rfl)

theorem skipOver_wf (hf : FrameWf ops dir f) (hh : f.hdr = [])
    (hb : f.prefixClosed = true ∨ f.buf = []) (skip : Nat) : FrameWf ops dir (skipOver skip f) := by
  simp only [skipOver]
  split
  · exact hf
  · next h => exact .skip rfl (Nat.pos_of_ne_zero h) hh hb

theorem skipOver_st (hst : f.st = .header) (skip : Nat) : (skipOver skip f).st ≠ .body := by
  simp only [skipOver]
  split <;> simp [hst]

theorem closePrefix_wf (hops : LawfulOps ops Settled) (dir : Dir) (slab : Bool) (p : List Byte)
    (skip : Nat) (f : Frame) : FrameWf ops dir (closePrefix slab p skip f) :=
  skipOver_wf (.header rfl (by exact hops.hdrSize_pos dir _) (.inl rfl)) rfl (.inl rfl) skip

theorem headerEnd_ok (he : SinkOk env) (hops : LawfulOps ops Settled) (ef : ConnFlags)
    (hb : f.prefixClosed = true ∨ f.buf = [])
    (hless : 2 * rest.length + 1 < 2 * p.length + stallCost dir (r, c)) :
    TurnOk ops Settled dir (r, c) p (headerEnd env ops ef dir r c f rest) := by
  simp only [headerEnd]
  cases hparse : ops.parseHdr dir f with
  | none =>
    refine .ofRet (.dirty ?_) rfl ?_ ⟨?_, Nat.le_succ _, Nat.le_refl _, ?_⟩
    all_goals simp [goDirty, dirtied]
  | some g =>
    obtain ⟨-, hbuf, hpc⟩ := hops.parseHdr_keeps _ _ _ hparse
    dsimp only
    split
    · exact afterEmit_ok he hops ef msgReset (msgReset_wf hops dir) (by simp [msgReset]) g.buf
        ((Grows.refl _).setFrame dir g) rfl (by simp) (by omega)
    · next hl =>
      refine .ofNext ?_ rfl (by simp) ((Grows.refl _).setFrame dir _) ?_
      · rw [FConn.frame_setFrame]
        refine .body rfl (Nat.pos_of_ne_zero hl) fun h => ?_
        have hopen : f.prefixClosed = false := hpc.symm.trans h
        have hnil : g.buf = [] := hbuf.trans (hb.resolve_left (by simp [hopen]))
        simp only [hnil, bodyTarget, lkMsgBodyMax, List.length_nil]
        omega
      · have hc := stallCost_le dir (r, c.setFrame dir { g with st := .body })
        omega

theorem headerTurn_ok (he : SinkOk env) (hops : LawfulOps ops Settled) (ef : ConnFlags) (ts : Nat)
    (hst : (c.frame dir).st = .header) (hh : (c.frame dir).hdr.length < ops.hdrSize dir (c.frame dir))
    (hb : (c.frame dir).prefixClosed = true ∨ (c.frame dir).buf = []) (hp : p ≠ []) :
    TurnOk ops Settled dir (r, c) p (headerTurn env ops ef dir ts r c p) := by
  have hpos := List.length_pos_iff.2 hp
  simp only [headerTurn]
  split
  · next hlt =>
    refine .ofRet ?_ rfl (by simp) ((Grows.refl _).setFrame dir _)
    rw [FConn.frame_setFrame]
    refine .header hst ?_ hb
    rw [hops.hdrSize_congr dir (takeHdr ts (c.frame dir) p) (c.frame dir) rfl]
    simp only [takeHdr, List.length_append, hdrRem] at hlt ⊢
    omega
  · refine headerEnd_ok he hops ef hb ?_
    simp only [List.length_drop, hdrRem]
    omega

theorem bodyEnd_ok (he : SinkOk env) (hops : LawfulOps ops Settled) (ef : ConnFlags)
    (hless : 2 * (p.drop rem).length < 2 * p.length + stallCost dir (r, c)) :
    TurnOk ops Settled dir (r, c) p (bodyEnd env ops ef dir r c rem p) := by
  simp only [bodyEnd]
  generalize (c.frame dir).bodyLen - _ = skip
  split
  · refine .ofNext ?_ rfl (by simp) ((Grows.refl _).updFrame dir _) ?_
    · rw [updFrame_frame]
      exact closePrefix_wf hops dir _ _ _ _
    · rw [stallCost_header (by rw [updFrame_frame]; exact skipOver_st rfl _)]
      exact hless
  · exact afterEmit_ok he hops ef (fun f => skipOver skip (msgReset f))
      (fun f => skipOver_wf (msgReset_wf hops dir f) rfl (.inr rfl) _)
      (fun f => skipOver_st rfl _) _ (Grows.refl _) rfl id hless

theorem bodyTurn_ok (he : SinkOk env) (hops : LawfulOps ops Settled) (ef : ConnFlags)
    (hst : (c.frame dir).st = .body) (hl : 0 < (c.frame dir).bodyLen)
    (hb : (c.frame dir).prefixClosed = false → (c.frame dir).buf.length < bodyTarget (c.frame dir))
    (hp : p ≠ []) (hslab : r.slabOk = true) :
    TurnOk ops Settled dir (r, c) p (bodyTurn env ops ef dir r c p) := by
  have hpos := List.length_pos_iff.2 hp
  simp only [bodyTurn, hslab, true_or, if_true]
  split
  · next hlt =>
    refine .ofRet ?_ rfl (by simp) ((Grows.refl _).updFrame dir _)
    rw [updFrame_frame]
    refine .body hst hl fun hpc => ?_
    have hpc' : (c.frame dir).prefixClosed = false := hpc
    simp only [bodyRem, hpc', bodyTarget, spill, List.length_append] at hlt ⊢
    simp only [Bool.false_eq_true, if_false] at hlt
    omega
  · refine bodyEnd_ok he hops ef ?_
    simp only [stallCost, hst, true_and, List.length_drop, bodyRem]
    split
    · omega
    · next hpc =>
      have hlt := hb (by simpa using hpc)
      omega

theorem skipTurn_ok (hops : LawfulOps ops Settled) (hst : (c.frame dir).st = .skip)
    (hl : 0 < (c.frame dir).skipLeft) (hh : (c.frame dir).hdr = [])
    (hb : (c.frame dir).prefixClosed = true ∨ (c.frame dir).buf = []) (hp : p ≠ []) :
    TurnOk ops Settled dir (r, c) p (skipTurn dir r c p) := by
  have hpos := List.length_pos_iff.2 hp
  have hst' : (skipped p.length (c.frame dir)).st ≠ .body := by
    simp only [skipped]
    split <;> simp [hst]
  refine .ofNext ?_ rfl (by simp) ((Grows.refl _).updFrame dir _) ?_
  · rw [updFrame_frame]
    simp only [skipped]
    split
    · exact .header rfl (by simpa [hh] using hops.hdrSize_pos dir _) hb
    · exact .skip hst (by simp; omega) hh hb
  · rw [stallCost_header (by simpa using hst')]
    simp only [List.length_drop]
    omega

theorem dirtyTurn_ok (he : SinkOk env) (hops : LawfulOps ops Settled)
    (hst : (c.frame dir).st = .dirty) :
    TurnOk ops Settled dir (r, c) p (dirtyTurn env ops dir r c p) := by
  have hscan := hops.scan_st dir (c.frame dir) p
  rcases hs : ops.resyncScan dir (c.frame dir) p with ⟨f, used, found⟩
  rw [hs] at hscan
  simp only [dirtyTurn, hs]
  cases found with
  | false =>
    refine .ofRet (s := (r, c)) (.dirty ?_) rfl (by simp) ((Grows.refl _).setFrame dir f)
    simpa using hscan.trans hst
  | true =>
    obtain ⟨-, hpos, hle⟩ := hops.scan_hit _ _ _ [] _ _ hs
    have hg := ((Grows.refl (r, c)).setFrame dir f).trans (doResync_grows he r _ dir)
    refine .ofNext (s := (r, c)) ?_ rfl (fun h => ?_) hg ?_
    · simp only [doResync, deliver, FConn.frame_mapFlags, updFrame_frame]
      exact .header rfl (hops.hdrSize_pos dir _) (.inr rfl)
    · simp only [doResync, deliver, FConn.mapFlags_flags, updFrame_flags]
      exact hops.settled_congr _ _ _ (he.sslReply _ _) (by simpa using h)
    · rw [stallCost_header (by simp [doResync, deliver, resynced, msgReset])]
      simp only [List.length_drop]
      omega

theorem frameTurn_ok (he : SinkOk env) (hops : LawfulOps ops Settled) (ef : ConnFlags) (ts : Nat)
    (hw : FrameWf ops dir (s.2.frame dir)) (hslab : s.1.slabOk = true) (hp : p ≠ []) :
    TurnOk ops Settled dir s p (frameTurn env ops ef dir ts s p) := by
  obtain ⟨r, c⟩ := s
  cases hw with
  | header hst hh hb =>
    simp only [frameTurn, hst]
    exact headerTurn_ok he hops ef ts hst hh hb hp
  | body hst hl hb =>
    simp only [frameTurn, hst]
    exact bodyTurn_ok he hops ef hst hl hb hp hslab
  | skip hst hl hh hb =>
    simp only [frameTurn, hst]
    exact skipTurn_ok hops hst hl hh hb hp
  | dirty hst =>
    simp only [frameTurn, hst]
    exact dirtyTurn_ok he hops hst

/-- The loop's invariant within one chunk, whose entry state is `s₀`. -/
structure InChunk (ops : ProtoOps φ) (Settled : Dir → ConnFlags → Prop) (dir : Dir)
    (s₀ s : Reasm × FConn φ) : Prop where
  wf : FrameWf ops dir (s.2.frame dir)
  slabOk : s.1.slabOk = true
  settled : Settled dir s.2.flags
  grows : Grows s₀ s

theorem InChunk.turn (h : InChunk ops Settled dir s₀ s) (ht : TurnOk ops Settled dir s p t) :
    InChunk ops Settled dir s₀ (turnState t) :=
  ⟨ht.wf, ht.slabOk.trans h.slabOk, ht.settled h.settled, h.grows.trans ht.grows⟩

theorem frameTurn_progress (he : SinkOk env) (hops : LawfulOps ops Settled) (ef : ConnFlags)
    (dir : Dir) (ts : Nat) (s₀ : Reasm × FConn φ) :
    Chunked.Progress (frameTurn env ops ef dir ts) (InChunk ops Settled dir s₀) (stallCost dir) where
  cost_le := stallCost_le dir
  ret s p s' hs hp ht := by
    have hok := frameTurn_ok he hops ef ts hs.wf hs.slabOk hp
    rw [ht] at hok
    exact hs.turn hok
  next s p s' rest hs hp ht := by
    have hok := frameTurn_ok he hops ef ts hs.wf hs.slabOk hp
    rw [ht] at hok
    exact ⟨hs.turn hok, hok.less s' rest rfl⟩

end

end Latkit
