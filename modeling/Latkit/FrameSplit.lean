import Latkit.FrameWf

namespace Latkit
open Chunked (Turn Splits)

def Flawed (s₀ s : Reasm × FConn φ) : Prop := flaws s₀ < flaws s

def onSlab (dir : Dir) (b : List Byte) (d : Dir) (old : List Byte) : List Byte :=
  if d = dir then b else old

theorem spill_eq_edit (c : FConn φ) (dir : Dir) (p : List Byte) :
    c.updFrame dir (spill p) = c.edit id (onSlab dir ((c.frame dir).buf ++ p)) := by
  cases dir <;> rfl

section
variable {env : Env φ} {ops : ProtoOps φ} {Settled : Dir → ConnFlags → Prop}

theorem emit_onSlab (hops : LawfulOps ops Settled) (r : Reasm) (c : FConn φ) (dir : Dir)
    (b body : List Byte) :
    emit env ops r (c.edit id (onSlab dir b)) dir body =
      ((emit env ops r c dir body).1, (emit env ops r c dir body).2.edit id (onSlab dir b)) := by
  have hm : ((c.edit id (onSlab dir b)).frame dir).msg body = ((c.frame dir).msg body).edit id := by
    cases dir <;> rfl
  rw [emit_eq, emit_eq, hm, hops.preEmit_edit]
  generalize ops.preEmit c dir ((c.frame dir).msg body) = cm
  cases dir <;> rfl

theorem updFrame_onSlab (c : FConn φ) (dir : Dir) (b : List Byte) (g : Frame → Frame) :
    (c.edit id (onSlab dir b)).updFrame dir (fun f => g (msgReset f)) =
      c.updFrame dir fun f => g (msgReset f) := by
  cases dir <;> rfl

theorem Flawed.of_badLen (hs : Grows s₀ s) (hg : Grows s s') (h : s.1.st.badLen < s'.1.st.badLen) :
    Flawed s₀ s' := by
  have hle := hs.flaws_le
  have ht := hg.tlsConns
  have hf := toNat_le_of_imp hg.flags.1
  have hi := toNat_le_of_imp hg.flags.2
  simp only [Flawed, flaws] at hle ⊢
  omega

theorem Flawed.of_wentBlind (hs : Grows s₀ s) (hw : wentBlind s₀.2.flags s.2 = true) :
    Flawed s₀ s := by
  have hb := hs.badLen
  have ht := hs.tlsConns
  simp only [wentBlind, ConnFlags.blind, Bool.and_eq_true, Bool.not_eq_true', Bool.or_eq_false_iff,
    Bool.or_eq_true] at hw
  obtain ⟨⟨h1, h2⟩, h3⟩ := hw
  simp only [Flawed, flaws, h1, h2, Bool.toNat_false]
  rcases h3 with h3 | h3 <;> rw [h3] <;> simp only [Bool.toNat_true] <;> omega

theorem afterEmit_cases (hg : Grows s₀ s) :
    (∃ t, Flawed s₀ t ∧ ∀ rest, afterEmit s₀.2.flags s rest = .ret t) ∨
      ∀ rest, afterEmit s₀.2.flags s rest = .next s rest := by
  by_cases hw : wentBlind s₀.2.flags s.2 = true
  · refine .inl ⟨(s.1.bump (countTls s.2.flags.tls), s.2), ?_, fun rest => ?_⟩
    · exact Nat.lt_of_lt_of_le (Flawed.of_wentBlind hg hw)
        (Grows.flaws_le ⟨rfl, Nat.le_refl _, Nat.le_add_right _ _, ConnFlags.le_refl _⟩)
    · simp only [afterEmit, hw, if_true]
  · refine .inr fun rest => ?_
    simp only [afterEmit, hw]
    rfl

theorem afterEmit_splits {turn : Reasm × FConn φ → List Byte → Turn (Reasm × FConn φ) Byte}
    (hp : turn s p = afterEmit s₀.2.flags s' rest)
    (hpq : turn s (p ++ q) = afterEmit s₀.2.flags s' (rest ++ q)) (hg : Grows s₀ s') :
    Splits turn (Flawed s₀) s p q := by
  obtain ⟨t, hf, ht⟩ | ht := afterEmit_cases hg
  · exact .stop t (hp.trans (ht _)) (hpq.trans (ht _)) hf
  · exact .within s' rest (hp.trans (ht _)) (hpq.trans (ht _))

theorem headerEnd_splits (he : SinkOk env) (hops : LawfulOps ops Settled) (dir : Dir) (f : Frame)
    {turn : Reasm × FConn φ → List Byte → Turn (Reasm × FConn φ) Byte} (hs : Grows s₀ (r, c))
    (hp : turn (r, c) p = headerEnd env ops s₀.2.flags dir r c f rest)
    (hpq : turn (r, c) (p ++ q) = headerEnd env ops s₀.2.flags dir r c f (rest ++ q)) :
    Splits turn (Flawed s₀) (r, c) p q := by
  simp only [headerEnd] at hp hpq
  cases hparse : ops.parseHdr dir f with
  | none =>
    simp only [hparse] at hp hpq
    refine .stop _ hp hpq
      (Flawed.of_badLen hs ⟨?_, Nat.le_succ _, Nat.le_refl _, ?_⟩ (Nat.lt_succ_self _))
    all_goals simp [goDirty]
  | some g =>
    simp only [hparse] at hp hpq
    by_cases hl : g.bodyLen = 0
    · simp only [hl, if_true] at hp hpq
      exact afterEmit_splits hp hpq
        ((hs.setFrame dir g).trans (emit_grows he hops r _ dir g.buf) |>.updFrame dir msgReset)
    · simp only [hl, if_false] at hp hpq
      exact .within _ _ hp hpq

theorem headerEnd_setFrame (ef : ConnFlags) (r : Reasm) (c : FConn φ) (f g : Frame)
    (rest : List Byte) :
    headerEnd env ops ef dir r (c.setFrame dir g) f rest = headerEnd env ops ef dir r c f rest := by
  simp only [headerEnd, FConn.setFrame_setFrame]

theorem takeHdr_append (ts : Nat) (f : Frame) (hp : p ≠ []) (q : List Byte) :
    takeHdr ts (takeHdr ts f p) q = takeHdr ts f (p ++ q) := by
  simp [takeHdr, hp]

theorem hdrRem_takeHdr (hops : LawfulOps ops Settled) (dir : Dir) (ts : Nat) (f : Frame)
    (p : List Byte) :
    hdrRem ops dir (takeHdr ts f p) = hdrRem ops dir f - p.length := by
  rw [hdrRem, hops.hdrSize_congr dir (takeHdr ts f p) f rfl]
  simp only [takeHdr, List.length_append, hdrRem]
  omega

theorem headerTurn_splits (he : SinkOk env) (hops : LawfulOps ops Settled) (ts : Nat)
    (hs : Grows s₀ (r, c)) (hst : (c.frame dir).st = .header) (hp : p ≠ []) (q : List Byte) :
    Splits (frameTurn env ops s₀.2.flags dir ts) (Flawed s₀) (r, c) p q := by
  have hturn (p : List Byte) : frameTurn env ops s₀.2.flags dir ts (r, c) p =
      headerTurn env ops s₀.2.flags dir ts r c p := by simp only [frameTurn, hst]
  have hrem := hdrRem_takeHdr hops dir ts (c.frame dir) p
  by_cases hlt : p.length < hdrRem ops dir (c.frame dir)
  · refine .cutRet (r, c.setFrame dir (takeHdr ts (c.frame dir) p)) ?_ ?_
    · rw [hturn]
      simp only [headerTurn, hlt, if_true]
    · have hst' : (takeHdr ts (c.frame dir) p).st = .header := hst
      rw [hturn]
      simp only [frameTurn, FConn.frame_setFrame, hst', headerTurn, hrem, headerEnd_setFrame,
        FConn.setFrame_setFrame, takeHdr_append ts _ hp, List.length_append, List.take_append,
        List.drop_append, List.take_of_length_le (Nat.le_of_lt hlt),
        List.drop_of_length_le (Nat.le_of_lt hlt), List.nil_append]
      have hiff : p.length + q.length < hdrRem ops dir (c.frame dir) ↔
          q.length < hdrRem ops dir (c.frame dir) - p.length := by omega
      simp only [hiff]
  · have hlt' : ¬ p.length + q.length < hdrRem ops dir (c.frame dir) := by omega
    apply headerEnd_splits he hops dir
      (takeHdr ts (c.frame dir) (p.take (hdrRem ops dir (c.frame dir)))) hs
    · rw [hturn]
      simp only [headerTurn, hlt, if_false]
      rfl
    · rw [hturn]
      simp only [headerTurn, List.length_append, hlt', if_false,
        List.take_append_of_le_length (Nat.le_of_not_lt hlt),
        List.drop_append_of_le_length (Nat.le_of_not_lt hlt)]

theorem bodyEnd_splits (he : SinkOk env) (hops : LawfulOps ops Settled) (dir : Dir)
    {turn : Reasm × FConn φ → List Byte → Turn (Reasm × FConn φ) Byte} (hs : Grows s₀ (r, c))
    (hle : rem ≤ p.length) (hp : turn (r, c) p = bodyEnd env ops s₀.2.flags dir r c rem p)
    (hpq : turn (r, c) (p ++ q) = bodyEnd env ops s₀.2.flags dir r c rem (p ++ q)) :
    Splits turn (Flawed s₀) (r, c) p q := by
  simp only [bodyEnd, List.take_append_of_le_length hle, List.drop_append_of_le_length hle] at hp hpq
  by_cases hc : (c.frame dir).msgCont = true
  · simp only [hc, if_true] at hp hpq
    exact .within _ _ hp hpq
  · simp only [hc] at hp hpq
    exact afterEmit_splits hp hpq ((hs.trans (emit_grows he hops r c dir _)).updFrame dir _)

theorem updFrame_updFrame (c : FConn φ) (dir : Dir) (g h : Frame → Frame) :
    (c.updFrame dir g).updFrame dir h = c.updFrame dir (h ∘ g) := by
  simp [FConn.updFrame]

theorem bodyEnd_spill (hops : LawfulOps ops Settled) (ef : ConnFlags) (hslab : r.slabOk = true)
    (hpc : (c.frame dir).prefixClosed = false) (hle : p.length ≤ rem) (q : List Byte) :
    bodyEnd env ops ef dir r (c.updFrame dir (spill p)) (rem - p.length) q =
      bodyEnd env ops ef dir r c rem (p ++ q) := by
  have htake : (c.frame dir).buf ++ p ++ q.take (rem - p.length) =
      (c.frame dir).buf ++ (p ++ q).take rem := by
    rw [List.take_append, List.take_of_length_le hle, List.append_assoc]
  have hdrop : (p ++ q).drop rem = q.drop (rem - p.length) := by
    rw [List.drop_append, List.drop_of_length_le hle, List.nil_append]
  have hskip : ((c.frame dir).buf ++ p).length + (rem - p.length) =
      (c.frame dir).buf.length + rem := by
    rw [List.length_append]
    omega
  simp only [bodyEnd, updFrame_frame, spill, hpc, htake, hdrop, hskip]
  split
  · simp only [FConn.updFrame, FConn.frame_setFrame, FConn.setFrame_setFrame, closePrefix, hslab,
      Bool.true_or, if_true, spill, htake]
  · simp only [spill_eq_edit c dir p, emit_onSlab hops]
    rw [updFrame_onSlab _ _ _ (skipOver _)]

theorem bodyRem_spill (f : Frame) (hpc : f.prefixClosed = false) (p : List Byte) :
    bodyRem (spill p f) = bodyRem f - p.length := by
  simp only [bodyRem, spill, hpc, bodyTarget, List.length_append, Bool.false_eq_true, if_false]
  omega

theorem spill_spill (p q : List Byte) : spill q ∘ spill p = spill (p ++ q) := by
  funext f
  simp [spill]

theorem prefixClosed_of_bodyRem (h : n < bodyRem f) : f.prefixClosed = false := by
  by_contra hc
  simp only [bodyRem, eq_true_of_ne_false hc, if_true] at h
  omega

theorem frameTurn_body (env : Env φ) (ops : ProtoOps φ) (hst : (c.frame dir).st = .body)
    (hslab : r.slabOk = true) (ef : ConnFlags) (ts : Nat) (p : List Byte) :
    frameTurn env ops ef dir ts (r, c) p =
      if p.length < bodyRem (c.frame dir) then .ret (r, c.updFrame dir (spill p))
      else bodyEnd env ops ef dir r c (bodyRem (c.frame dir)) p := by
  simp only [frameTurn, hst, bodyTurn, hslab, true_or, if_true]

theorem bodyTurn_splits (he : SinkOk env) (hops : LawfulOps ops Settled) (ts : Nat)
    (hs : Grows s₀ (r, c)) (hst : (c.frame dir).st = .body) (hslab : r.slabOk = true)
    (p q : List Byte) :
    Splits (frameTurn env ops s₀.2.flags dir ts) (Flawed s₀) (r, c) p q := by
  have hturn := frameTurn_body env ops hst hslab s₀.2.flags ts
  by_cases hlt : p.length < bodyRem (c.frame dir)
  · have hpc := prefixClosed_of_bodyRem hlt
    refine .cutRet (r, c.updFrame dir (spill p)) ?_ ?_
    · rw [hturn, if_pos hlt]
    · have hiff : p.length + q.length < bodyRem (c.frame dir) ↔
          q.length < bodyRem (c.frame dir) - p.length := by omega
      have hst' : (spill p (c.frame dir)).st = .body := hst
      rw [hturn, ← bodyEnd_spill hops _ hslab hpc (Nat.le_of_lt hlt)]
      simp only [frameTurn, updFrame_frame, hst', bodyTurn, hslab, true_or, if_true,
        bodyRem_spill _ hpc, List.length_append, hiff, updFrame_updFrame, spill_spill]
  · apply bodyEnd_splits he hops dir hs (Nat.le_of_not_lt hlt)
    · rw [hturn, if_neg hlt]
    · rw [hturn, if_neg (by rw [List.length_append]; omega)]

theorem skipped_skipped (f : Frame) (hlt : n < f.skipLeft) (m : Nat) :
    skipped m (skipped n f) = skipped (n + m) f := by
  have hn : ¬ f.skipLeft ≤ n := Nat.not_le_of_lt hlt
  have hiff : f.skipLeft - n ≤ m ↔ f.skipLeft ≤ n + m := by omega
  simp only [skipped, hn, if_false, hiff, Nat.sub_sub]

theorem skipTurn_splits (ef : ConnFlags) (ts : Nat) (hst : (c.frame dir).st = .skip)
    (p q : List Byte) :
    Splits (frameTurn env ops ef dir ts) (Flawed s₀) (r, c) p q := by
  have hturn (p : List Byte) : frameTurn env ops ef dir ts (r, c) p = skipTurn dir r c p := by
    simp only [frameTurn, hst]
  by_cases hlt : p.length < (c.frame dir).skipLeft
  · have hst' : (skipped p.length (c.frame dir)).st = .skip := by
      simp [skipped, Nat.not_le_of_lt hlt, hst]
    have hl : (skipped p.length (c.frame dir)).skipLeft = (c.frame dir).skipLeft - p.length := rfl
    refine .cutNext (r, c.updFrame dir (skipped p.length)) ?_ ?_
    · rw [hturn, skipTurn, List.drop_of_length_le (Nat.le_of_lt hlt)]
    · rw [hturn]
      simp only [frameTurn, updFrame_frame, hst', skipTurn, hl, List.drop_append,
        List.drop_of_length_le (Nat.le_of_lt hlt), List.nil_append, List.length_append]
      simp only [FConn.updFrame, FConn.frame_setFrame, FConn.setFrame_setFrame,
        skipped_skipped _ hlt]
  · have hle := Nat.le_of_not_lt hlt
    refine .within (r, c.updFrame dir (skipped p.length)) (p.drop (c.frame dir).skipLeft) ?_ ?_
    · rw [hturn, skipTurn]
    · have hle' : (c.frame dir).skipLeft ≤ p.length + q.length := by omega
      rw [hturn, skipTurn, List.drop_append_of_le_length hle]
      simp only [FConn.updFrame, skipped, List.length_append, hle, hle', if_true,
        Nat.sub_eq_zero_of_le]

theorem dirtyTurn_splits (hops : LawfulOps ops Settled) (ef : ConnFlags) (ts : Nat)
    (hst : (c.frame dir).st = .dirty) (p q : List Byte) :
    Splits (frameTurn env ops ef dir ts) (Flawed s₀) (r, c) p q := by
  have hturn (p : List Byte) : frameTurn env ops ef dir ts (r, c) p =
      dirtyTurn env ops dir r c p := by simp only [frameTurn, hst]
  have hscan := hops.scan_st dir (c.frame dir) p
  rcases hs : ops.resyncScan dir (c.frame dir) p with ⟨f, used, found⟩
  rw [hs] at hscan
  cases found with
  | false =>
    have hmiss := hops.scan_miss _ _ _ q _ _ hs
    refine .cutRet (r, c.setFrame dir f) ?_ ?_
    · simp [hturn, dirtyTurn, hs]
    · have hst' : f.st = .dirty := hscan.trans hst
      rw [hturn]
      simp only [frameTurn, FConn.frame_setFrame, hst', dirtyTurn, hmiss, FConn.setFrame_setFrame,
        List.drop_append, Nat.add_sub_cancel_left, Nat.le_add_right, List.drop_of_length_le,
        List.nil_append]
  | true =>
    obtain ⟨hhit, -, hle⟩ := hops.scan_hit _ _ _ q _ _ hs
    refine .within (doResync env r (c.setFrame dir f) dir) (p.drop used) ?_ ?_
    · simp [hturn, dirtyTurn, hs]
    · rw [hturn]
      simp only [dirtyTurn, hhit, if_true, List.drop_append_of_le_length hle]

theorem frameTurn_splits (he : SinkOk env) (hops : LawfulOps ops Settled) (ts : Nat)
    (hs : InChunk ops Settled dir s₀ s) (hp : p ≠ []) (q : List Byte) :
    Splits (frameTurn env ops s₀.2.flags dir ts) (Flawed s₀) s p q := by
  obtain ⟨r, c⟩ := s
  cases hst : (c.frame dir).st with
  | header => exact headerTurn_splits he hops ts hs.grows hst hp q
  | body => exact bodyTurn_splits he hops ts hs.grows hst hs.slabOk p q
  | skip => exact skipTurn_splits _ ts hst p q
  | dirty => exact dirtyTurn_splits hops _ ts hst p q

theorem frameTurn_run_grows (he : SinkOk env) (hops : LawfulOps ops Settled) (ef : ConnFlags)
    (ts : Nat) (hs : InChunk ops Settled dir s₀ s) (p : List Byte) :
    InChunk ops Settled dir s (Chunked.run (frameTurn env ops ef dir ts) s p) :=
  (frameTurn_progress he hops ef dir ts s).run_ok ⟨hs.wf, hs.slabOk, hs.settled, Grows.refl s⟩ p

theorem frameTurn_run_append (he : SinkOk env) (hops : LawfulOps ops Settled) (ts : Nat)
    (hs : InChunk ops Settled dir s₀ s) (p q : List Byte) :
    let run := Chunked.run (frameTurn env ops s₀.2.flags dir ts)
    run s (p ++ q) = run (run s p) q ∨ Flawed s₀ (run s (p ++ q)) ∧ Flawed s₀ (run (run s p) q) :=
  (frameTurn_progress he hops s₀.2.flags dir ts s₀).run_append
    (fun _ _ q hs hp _ => frameTurn_splits he hops ts hs hp q)
    (fun _ p hs hb => Nat.lt_of_lt_of_le hb (frameTurn_run_grows he hops _ ts hs p).grows.flaws_le)
    hs p q

end

end Latkit
