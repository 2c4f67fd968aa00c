import Latkit.FrameSplit

namespace Latkit
open Chunked (Turn)

def eraseTs (s : Reasm × FConn φ) : Reasm × FConn φ := (s.1.eraseTs, s.2.eraseTs)

structure Framed (ops : ProtoOps φ) (dir : Dir) (s : Reasm × FConn φ) : Prop where
  wf : FrameWf ops dir (s.2.frame dir)
  slabOk : s.1.slabOk = true

section
variable {env : Env φ} {ops : ProtoOps φ} {Settled : Dir → ConnFlags → Prop}

theorem frameTurn_congr (h : ef.blind = ef'.blind) :
    frameTurn env ops ef = frameTurn env ops ef' := by
  have hw (c : FConn φ) : wentBlind ef c = wentBlind ef' c := by simp only [wentBlind, h]
  funext dir ts s p
  simp only [frameTurn, headerTurn, headerEnd, bodyTurn, bodyEnd, afterEmit, hw]

theorem frameChunk_nil (env : Env φ) (ops : ProtoOps φ) (r : Reasm) (c : FConn φ) (dir : Dir)
    (ts : Nat) : frameChunk env ops r c dir [] ts = (r, c) := by
  simp only [frameChunk, if_true]

theorem frameChunk_settled (hops : LawfulOps ops Settled) (h : Settled dir s.2.flags) (p : List Byte)
    (ts : Nat) : frameChunk env ops s.1 s.2 dir p ts =
      Chunked.run (frameTurn env ops s.2.flags dir ts) s p := by
  by_cases hp : p = []
  · rw [hp, frameChunk_nil, Chunked.run_nil]
  · simp only [frameChunk, hp, if_false, hops.intercept_settled _ _ _ _ _ h]

theorem frameChunk_drop (hi : Intercepts ops Settled r c dir b ts r' c' none) (p : List Byte) :
    frameChunk env ops r c dir (b :: p) ts = (r', c') := by
  simp only [frameChunk, List.cons_ne_nil, if_false, hi.eq, Option.map_none]

theorem frameChunk_keep (hi : Intercepts ops Settled r c dir b ts r' c' (some k)) (p : List Byte) :
    frameChunk env ops r c dir (b :: p) ts =
      Chunked.run (frameTurn env ops c.flags dir ts) (r', c') (k ++ p) := by
  simp only [frameChunk, List.cons_ne_nil, if_false, hi.eq, Option.map_some]

theorem Intercepts.inChunk (hi : Intercepts ops Settled r c dir b ts r' c' kept)
    (hs : Framed ops dir (r, c)) : InChunk ops Settled dir (r, c) (r', c') where
  wf := by rw [hi.frame]; exact hs.wf
  slabOk := hi.slabOk.trans hs.slabOk
  settled := hi.settled
  grows := ⟨hi.ops, Nat.le_of_eq hi.badLen.symm, hi.tlsConns, hi.flags⟩

theorem frameChunk_inChunk (he : SinkOk env) (hops : LawfulOps ops Settled)
    (hs : Framed ops dir s) (b : Byte) (p : List Byte) (ts : Nat) :
    InChunk ops Settled dir s (frameChunk env ops s.1 s.2 dir (b :: p) ts) := by
  obtain ⟨r', c', kept, hi⟩ := hops.intercept_cases s.1 s.2 dir b ts
  have hin := hi.inChunk hs
  cases kept with
  | none =>
    rw [frameChunk_drop hi]
    exact hin
  | some k =>
    rw [frameChunk_keep hi]
    have hrun := frameTurn_run_grows he hops s.2.flags ts hin (k ++ p)
    exact ⟨hrun.wf, hrun.slabOk, hrun.settled, hin.grows.trans hrun.grows⟩

theorem Intercepts.flawed (hi : Intercepts ops Settled r c dir b ts r' c' none) :
    Flawed (r, c) (r', c') := by
  have ht := hi.dropped rfl
  have hb := hi.badLen
  have htls := toNat_le_of_imp hi.flags.1
  have hig := toNat_le_of_imp hi.flags.2
  simp only [Flawed, flaws]
  omega

theorem frameChunk_framed (he : SinkOk env) (hops : LawfulOps ops Settled) (hs : Framed ops dir s)
    (p : List Byte) (ts : Nat) :
    Framed ops dir (frameChunk env ops s.1 s.2 dir p ts) ∧
      Grows s (frameChunk env ops s.1 s.2 dir p ts) := by
  cases p with
  | nil =>
    rw [frameChunk_nil]
    exact ⟨hs, Grows.refl s⟩
  | cons b p =>
    have h := frameChunk_inChunk he hops hs b p ts
    exact ⟨⟨h.wf, h.slabOk⟩, h.grows⟩

theorem frameChunk_append (he : SinkOk env) (hops : LawfulOps ops Settled) (hs : Framed ops dir s)
    (p q : List Byte) (ts : Nat) :
    let s₁ := frameChunk env ops s.1 s.2 dir p ts
    let s₂ := frameChunk env ops s₁.1 s₁.2 dir q ts
    let s₃ := frameChunk env ops s.1 s.2 dir (p ++ q) ts
    s₃ = s₂ ∨ Flawed s s₃ ∧ Flawed s s₂ := by
  intro s₁ s₂ s₃
  cases p with
  | nil =>
    left
    simp only [s₂, s₁, s₃, frameChunk_nil, List.nil_append]
  | cons b p =>
    have h₁ : InChunk ops Settled dir s s₁ := frameChunk_inChunk he hops hs b p ts
    have h₂ := frameChunk_framed he hops ⟨h₁.wf, h₁.slabOk⟩ q ts
    have hlater : Flawed s s₁ → Flawed s s₂ := fun h => Nat.lt_of_lt_of_le h h₂.2.flaws_le
    obtain ⟨r', c', kept, hi⟩ := hops.intercept_cases s.1 s.2 dir b ts
    have hin := hi.inChunk hs
    cases kept with
    | none =>
      have hs₁ : s₁ = (r', c') := frameChunk_drop hi p
      have hs₃ : s₃ = (r', c') := frameChunk_drop hi (p ++ q)
      have hf : Flawed s s₁ := hs₁ ▸ hi.flawed
      exact .inr ⟨hs₃ ▸ hi.flawed, hlater hf⟩
    | some k =>
      have hs₁ : s₁ = _ := frameChunk_keep hi p
      have hs₂ : s₂ = _ := frameChunk_settled hops h₁.settled q ts
      have hs₃ : s₃ = _ := frameChunk_keep hi (p ++ q)
      have happ := frameTurn_run_append he hops ts hin (k ++ p) q
      rw [← List.append_assoc] at hs₃
      dsimp only at happ
      rw [← hs₃, ← hs₁] at happ
      by_cases hf : flaws s₁ = flaws s
      · rw [hs₂, frameTurn_congr (h₁.grows.blind_eq hf)]
        exact happ
      · have hle := h₁.grows.flaws_le
        have hfl : Flawed s s₁ := Nat.lt_of_le_of_ne hle (Ne.symm hf)
        refine .inr ⟨?_, hlater hfl⟩
        rcases happ with happ | happ
        · rw [happ]
          have hrun := frameTurn_run_grows he hops s.2.flags ts h₁ q
          exact Nat.lt_of_lt_of_le hfl hrun.grows.flaws_le
        · exact happ.1

theorem updFrame_erase (c : FConn φ) (dir : Dir) {g : Frame → Frame}
    (hg : ∀ f, g f.eraseTs = (g f).eraseTs) :
    c.eraseTs.updFrame dir g = (c.updFrame dir g).eraseTs := by
  simp only [FConn.updFrame, FConn.eraseTs_frame, hg, FConn.eraseTs_setFrame]

theorem emit_erase (he : SinkOk env) (hops : LawfulOps ops Settled) (r : Reasm) (c : FConn φ)
    (dir : Dir) (body : List Byte) :
    emit env ops r.eraseTs c.eraseTs dir body = eraseTs (emit env ops r c dir body) := by
  have hm : (c.eraseTs.frame dir).msg body = ((c.frame dir).msg body).edit fun _ => 0 := by
    cases dir <;> rfl
  have hp := hops.preEmit_edit (fun _ => 0) (fun _ => id) c dir ((c.frame dir).msg body)
  change ops.preEmit c.eraseTs dir _ = _ at hp
  rw [emit_eq, emit_eq, hm, hp]
  generalize ops.preEmit c dir ((c.frame dir).msg body) = cm
  have hd := he.deliver_erase (r.bump (countMsg (body.length < (cm.1.frame dir).bodyTotal)))
    (cm.1.setFrame dir { cm.1.frame dir with afterResync := false })
    (.msg cm.1.cookie dir cm.1.flags (stampMsg (cm.1.frame dir) body cm.2))
  rw [eraseTs, ← hd]
  cases dir <;> rfl

theorem afterEmit_erase (ef : ConnFlags) (s : Reasm × FConn φ) (rest : List Byte) :
    afterEmit ef (eraseTs s) rest = (afterEmit ef s rest).map eraseTs := by
  have hw : wentBlind ef s.2.eraseTs = wentBlind ef s.2 := rfl
  simp only [afterEmit, eraseTs, hw, FConn.eraseTs_flags]
  split <;> rfl

theorem headerEnd_erase (he : SinkOk env) (hops : LawfulOps ops Settled) (ef : ConnFlags) (dir : Dir)
    (r : Reasm) (c : FConn φ) (f : Frame) (rest : List Byte) :
    headerEnd env ops ef dir r.eraseTs c.eraseTs f.eraseTs rest =
      (headerEnd env ops ef dir r c f rest).map eraseTs := by
  simp only [headerEnd, hops.parseHdr_erase]
  cases ops.parseHdr dir f with
  | none =>
    simp only [Option.map_none, goDirty, FConn.eraseTs_setFrame]
    rw [updFrame_erase _ dir (g := dirtied) (fun _ => rfl)]
    rfl
  | some g =>
    have hl : g.eraseTs.bodyLen = g.bodyLen := rfl
    have hb : g.eraseTs.buf = g.buf := rfl
    simp only [Option.map_some, hl, hb]
    split
    · simp only [FConn.eraseTs_setFrame, emit_erase he hops, eraseTs]
      rw [updFrame_erase _ dir (g := msgReset) (fun _ => rfl)]
      exact afterEmit_erase ef (_, _) rest
    · cases dir <;> rfl

theorem headerTurn_erase (he : SinkOk env) (hops : LawfulOps ops Settled) (ef : ConnFlags)
    (dir : Dir) (ts : Nat) (r : Reasm) (c : FConn φ) (p : List Byte) :
    headerTurn env ops ef dir 0 r.eraseTs c.eraseTs p =
      (headerTurn env ops ef dir ts r c p).map eraseTs := by
  have htake (f : Frame) (p : List Byte) : takeHdr 0 f.eraseTs p = (takeHdr ts f p).eraseTs := by
    simp [takeHdr, Frame.eraseTs]
  have hrem : hdrRem ops dir (c.frame dir).eraseTs = hdrRem ops dir (c.frame dir) := by
    rw [hdrRem, hops.hdrSize_congr dir (c.frame dir).eraseTs (c.frame dir) rfl]
    rfl
  simp only [headerTurn, FConn.eraseTs_frame, hrem, htake, FConn.eraseTs_setFrame,
    headerEnd_erase he hops]
  split <;> rfl

theorem closePrefix_erase (slab : Bool) (p : List Byte) (skip : Nat) (f : Frame) :
    closePrefix slab p skip f.eraseTs = (closePrefix slab p skip f).eraseTs := by
  simp only [closePrefix, skipOver]
  split <;> rfl

theorem skipReset_erase (skip : Nat) (f : Frame) :
    skipOver skip (msgReset f.eraseTs) = (skipOver skip (msgReset f)).eraseTs := by
  simp only [skipOver]
  split <;> rfl

theorem bodyEnd_erase (he : SinkOk env) (hops : LawfulOps ops Settled) (ef : ConnFlags) (dir : Dir)
    (r : Reasm) (c : FConn φ) (rem : Nat) (p : List Byte) :
    bodyEnd env ops ef dir r.eraseTs c.eraseTs rem p =
      (bodyEnd env ops ef dir r c rem p).map eraseTs := by
  have hpc : (c.frame dir).eraseTs.prefixClosed = (c.frame dir).prefixClosed := rfl
  have hb : (c.frame dir).eraseTs.buf = (c.frame dir).buf := rfl
  have hl : (c.frame dir).eraseTs.bodyLen = (c.frame dir).bodyLen := rfl
  have hc : (c.frame dir).eraseTs.msgCont = (c.frame dir).msgCont := rfl
  simp only [bodyEnd, FConn.eraseTs_frame, hpc, hb, hl, hc, Reasm.eraseTs_slabOk]
  split
  · rw [updFrame_erase _ _ (closePrefix_erase _ _ _)]
    rfl
  · simp only [emit_erase he hops, eraseTs]
    rw [updFrame_erase _ _ (skipReset_erase _)]
    exact afterEmit_erase ef (_, _) _

theorem doResync_erase (he : SinkOk env) (r : Reasm) (c : FConn φ) (dir : Dir) :
    doResync env r.eraseTs c.eraseTs dir = eraseTs (doResync env r c dir) := by
  simp only [doResync]
  rw [updFrame_erase _ dir (g := resynced) (fun _ => rfl)]
  exact he.deliver_erase (r.bump fun s => { s with resyncs := s.resyncs + 1 })
    (c.updFrame dir resynced) (.resync _ dir _)

theorem frameTurn_erase (he : SinkOk env) (hops : LawfulOps ops Settled) (ef : ConnFlags)
    (dir : Dir) (ts : Nat) (s : Reasm × FConn φ) (p : List Byte) :
    frameTurn env ops ef dir 0 (eraseTs s) p = (frameTurn env ops ef dir ts s p).map eraseTs := by
  obtain ⟨r, c⟩ := s
  have hst : (c.frame dir).eraseTs.st = (c.frame dir).st := rfl
  simp only [frameTurn, eraseTs, FConn.eraseTs_frame, hst]
  cases (c.frame dir).st with
  | header => exact headerTurn_erase he hops ef dir ts r c p
  | body =>
    have hrem : bodyRem (c.frame dir).eraseTs = bodyRem (c.frame dir) := rfl
    have hb : (c.frame dir).eraseTs.buf = (c.frame dir).buf := rfl
    simp only [bodyTurn, FConn.eraseTs_frame, hrem, hb, Reasm.eraseTs_slabOk, bodyEnd_erase he hops]
    rw [updFrame_erase c dir (g := spill p) (fun _ => rfl)]
    split
    · split <;> rfl
    · rfl
  | skip =>
    have hl : (c.frame dir).eraseTs.skipLeft = (c.frame dir).skipLeft := rfl
    simp only [skipTurn, FConn.eraseTs_frame, hl]
    rw [updFrame_erase _ dir (g := skipped p.length) (fun _ => rfl)]
    rfl
  | dirty =>
    simp only [dirtyTurn, FConn.eraseTs_frame, hops.scan_erase, FConn.eraseTs_setFrame]
    split
    · rw [doResync_erase he]
      rfl
    · rfl

theorem frameChunk_erase (he : SinkOk env) (hops : LawfulOps ops Settled) (dir : Dir)
    (s : Reasm × FConn φ) (p : List Byte) (ts : Nat) :
    frameChunk env ops s.1.eraseTs s.2.eraseTs dir p 0 =
      eraseTs (frameChunk env ops s.1 s.2 dir p ts) := by
  have herase := hops.intercept_erase s.1 s.2 dir p ts
  by_cases hp : p = []
  · rw [hp, frameChunk_nil, frameChunk_nil]
    rfl
  · simp only [frameChunk, hp, if_false, herase]
    rcases ops.interceptBytes s.1 s.2 dir p ts with ⟨r, c, _ | p'⟩
    · rfl
    · exact Chunked.run_map (frameTurn_erase he hops s.2.flags dir ts) (r, c) p'

theorem FrameWf.eraseTs (hops : LawfulOps ops Settled) (h : FrameWf ops dir f) :
    FrameWf ops dir f.eraseTs := by
  cases h with
  | header hst hh hb => exact .header hst (hops.hdrSize_congr dir f.eraseTs f rfl ▸ hh) hb
  | body hst hl hb => exact .body hst hl hb
  | skip hst hl hh hb => exact .skip hst hl hh hb
  | dirty hst => exact .dirty hst

theorem Framed.eraseTs (hops : LawfulOps ops Settled) (h : Framed ops dir s) :
    Framed ops dir (eraseTs s) :=
  ⟨by rw [Latkit.eraseTs, FConn.eraseTs_frame]; exact h.wf.eraseTs hops, h.slabOk⟩

end

def feedBytes (env : Env φ) (dir : Dir) (s : Reasm × FConn φ) :
    List (List Byte × Nat) → Reasm × FConn φ
  | [] => s
  | (p, ts) :: xs => feedBytes env dir (lkFrameBytes env s.1 s.2 dir p ts) xs

/-- The connection is framed by message: PG, which is also the default, or MySQL. -/
def FConn.MsgFramed (c : FConn φ) : Prop := c.ops.getD .pg = .pg ∨ c.ops.getD .pg = .mysql

theorem connOps_lawful {env : Env φ} (he : SinkOk env) {c : FConn φ} (hc : c.MsgFramed) :
    ∃ Settled, LawfulOps (connOps env c) Settled := by
  rcases hc with hc | hc
  · exact ⟨PgSettled, by rw [connOps, hc]; exact lkProtoPgOps_lawful he⟩
  · exact ⟨fun _ _ => True, by rw [connOps, hc]; exact lkProtoMyOps_lawful⟩

@[simp] theorem FConn.pin_frame (c : FConn φ) (dir : Dir) : c.pin.frame dir = c.frame dir := by
  cases dir <;> rfl

@[simp] theorem FConn.pin_flags (c : FConn φ) : c.pin.flags = c.flags := rfl

theorem FConn.pin_of_some {c : FConn φ} (h : c.ops = some proto) : c.pin = c := by
  cases c
  cases h
  rfl

section
variable {env : Env φ} {Settled : Dir → ConnFlags → Prop}

theorem lkFrameBytes_eq (hops : LawfulOps (connOps env c) Settled) (r : Reasm) (dir : Dir)
    (p : List Byte) (ts : Nat) :
    lkFrameBytes env r c dir p ts = frameChunk env (connOps env c) r c.pin dir p ts := by
  simp only [lkFrameBytes, hops.stream, Bool.false_eq_true, if_false]

theorem Flawed.mono (h : Flawed s₁ t) (hg : Grows s s₁) : Flawed s t :=
  Nat.lt_of_le_of_lt hg.flaws_le h

/-- Any split of a stream frames as the stream in one chunk, timestamps aside, unless both show a
flaw. -/
theorem feedBytes_concat (he : SinkOk env) (hops : LawfulOps (connOps env s.2) Settled)
    (hs : Framed (connOps env s.2) dir s) (hpin : s.2.ops = some proto)
    (xs : List (List Byte × Nat)) :
    let whole := frameChunk env (connOps env s.2) s.1.eraseTs s.2.eraseTs dir (xs.flatMap Prod.fst) 0
    eraseTs (feedBytes env dir s xs) = whole ∨
      Flawed s (feedBytes env dir s xs) ∧ Flawed s whole := by
  induction xs generalizing s with
  | nil =>
    left
    simp only [List.flatMap_nil, frameChunk_nil, feedBytes]
    rfl
  | cons x xs ih =>
    obtain ⟨p, ts⟩ := x
    obtain ⟨hs₁, hg⟩ := frameChunk_framed he hops hs p ts
    have herase := frameChunk_erase he hops dir s p ts
    have happ := frameChunk_append he hops (hs.eraseTs hops) p (xs.flatMap Prod.fst) 0
    have hstep : lkFrameBytes env s.1 s.2 dir p ts =
        frameChunk env (connOps env s.2) s.1 s.2 dir p ts := by
      rw [lkFrameBytes_eq hops, FConn.pin_of_some hpin]
    simp only [feedBytes, List.flatMap_cons, hstep]
    generalize frameChunk env (connOps env s.2) s.1 s.2 dir p ts = s₁ at hs₁ hg herase
    have hops₁ : connOps env s₁.2 = connOps env s.2 := by simp only [connOps, hg.ops]
    have hih := ih (hops₁ ▸ hops) (hops₁ ▸ hs₁) (hg.ops.trans hpin)
    simp only [eraseTs, herase, hops₁] at happ hih ⊢
    rcases hih with hih | ⟨hf, hf'⟩
    · rcases happ with happ | ⟨hf, hf'⟩
      · exact .inl (hih.trans happ.symm)
      · refine .inr ⟨?_, hf⟩
        rw [← hih] at hf'
        exact hf'
    · refine .inr ⟨hf.mono hg, ?_⟩
      rcases happ with happ | ⟨hf, -⟩
      · rw [happ]
        exact hf'.mono hg
      · exact hf

theorem feedBytes_congr (he : SinkOk env) (hops : LawfulOps (connOps env s.2) Settled)
    (hs : Framed (connOps env s.2) dir s) (hpin : s.2.ops = some proto)
    (heq : xs.flatMap Prod.fst = ys.flatMap Prod.fst)
    (hclean : flaws (feedBytes env dir s xs) = flaws s) :
    eraseTs (feedBytes env dir s xs) = eraseTs (feedBytes env dir s ys) := by
  have hx := feedBytes_concat he hops hs hpin xs
  have hy := feedBytes_concat he hops hs hpin ys
  have hn : ¬ Flawed s (feedBytes env dir s xs) := Nat.not_lt_of_le (Nat.le_of_eq hclean)
  have hx' := hx.resolve_right fun h => hn h.1
  rw [← heq] at hy
  refine hx'.trans (hy.resolve_right fun h => hn ?_).symm
  have hf := h.2
  rw [← hx'] at hf
  exact hf

end

end Latkit
