import Latkit.FrameSlab

namespace Latkit
open Checked (Turn Goes)

/-- What the framer relies on in a message-framed protocol's hooks: they leave the kept bytes alone, and the header size
of the other direction. -/
structure FrameHooks (ops : ProtoOps φ) : Prop where
  hdrSize_pos : ∀ dir f, 0 < ops.hdrSize dir f
  hdrSize_congr : ∀ dir f g, f.startupDone = g.startupDone → ops.hdrSize dir f = ops.hdrSize dir g
  parseHdr_keeps : ∀ dir f g, ops.parseHdr dir f = some g → g.buf = f.buf ∧ g.prefixClosed = f.prefixClosed
  preEmit_other : ∀ (c : FConn φ) dir m d, d ≠ dir → ∃ b,
    (ops.preEmit c dir m).1.frame d = { c.frame d with startupDone := b } ∧
      ops.hdrSize d { c.frame d with startupDone := b } = ops.hdrSize d (c.frame d)
  scan_keeps : ∀ dir f p, ∃ m, (ops.resyncScan dir f p).1 = { f with resyncMatched := m }
  scan_used : ∀ dir f p, (ops.resyncScan dir f p).2.1 ≤ p.length
  scan_found : ∀ dir f p, (ops.resyncScan dir f p).2.2 = true → 0 < (ops.resyncScan dir f p).2.1
  intercept_frame : ∀ r (c : FConn φ) dir p ts d, (ops.interceptBytes r c dir p ts).2.1.frame d = c.frame d
  interceptHole_frame : ∀ (c c' : FConn φ) dir d, ops.interceptHole c dir = some c' → c'.frame d = c.frame d

theorem lkProtoMyOps_hooks : FrameHooks (lkProtoMyOps : ProtoOps φ) where
  hdrSize_pos _ _ := Nat.succ_pos 3
  hdrSize_congr _ _ _ _ := rfl
  parseHdr_keeps dir f g h := (lkProtoMyOps_lawful (φ := φ)).parseHdr_keeps dir f g h |>.2
  preEmit_other c dir m d hd := by
    refine ⟨((lkProtoMyOps (φ := φ)).preEmit c dir m).1.frame d |>.startupDone, ?_, rfl⟩
    cases dir <;> cases d <;> try exact absurd rfl hd
    · simp only [lkProtoMyOps, myPreEmit, myNoteCommand, myPacket, myAuthDone]
      split_ifs <;> rfl
    · simp only [lkProtoMyOps, myPreEmit, myNoteCommand, myPacket, myAuthDone, myFirstPacket]
      split_ifs <;> rfl
  scan_keeps _ f _ := ⟨f.resyncMatched, rfl⟩
  scan_used _ _ _ := Nat.le_refl _
  scan_found _ _ _ h := absurd h (by simp [lkProtoMyOps, myResyncScan])
  intercept_frame _ _ _ _ _ _ := rfl
  interceptHole_frame _ _ _ _ h := nomatch h

theorem lkProtoPgOps_hooks (env : Env φ) : FrameHooks (lkProtoPgOps env) where
  hdrSize_pos dir f := by
    simp only [lkProtoPgOps, pgHdrSize]
    split <;> decide
  hdrSize_congr dir f g h := by
    have hs : inStartup f dir = inStartup g dir := by simp only [inStartup, h]
    simp only [lkProtoPgOps, pgHdrSize, hs]
  parseHdr_keeps dir f g h := by
    simp only [lkProtoPgOps, pgParseHdr] at h
    split at h
    · cases h
      exact ⟨rfl, rfl⟩
    · cases h
  preEmit_other c dir m d hd := by
    refine ⟨(c.frame d).startupDone, ?_, rfl⟩
    have hset : ∀ f, (c.setFrame dir f).frame d = c.frame d := by
      cases dir <;> cases d <;> first | exact absurd rfl hd | exact fun _ => rfl
    simp only [lkProtoPgOps, pgPreEmit]
    split_ifs <;> simp only [hset, FConn.frame_mapFlags]
  scan_keeps dir f p := by
    simp only [lkProtoPgOps, pgResyncScan]
    split
    · exact ⟨f.resyncMatched, rfl⟩
    · exact ⟨_, rfl⟩
  scan_used dir f p := by
    simp only [lkProtoPgOps, pgResyncScan]
    split
    · exact Nat.le_refl _
    · exact pgScan_used_le _ p
  scan_found dir f p := by
    simp only [lkProtoPgOps, pgResyncScan]
    split
    · intro h
      cases h
    · cases p with
      | nil => intro h; cases h
      | cons b p =>
        intro _
        simp only [pgScan]
        split <;> exact Nat.succ_pos _
  intercept_frame r c dir p ts d := by
    simp only [lkProtoPgOps, pgInterceptBytes]
    split
    · split
      · simp only [pgSslReply, deliver]
        split <;> simp only [FConn.frame_mapFlags]
      · rfl
    · rfl
  interceptHole_frame c c' dir d h := by
    simp only [lkProtoPgOps, pgInterceptHole] at h
    split at h
    · cases h
      exact FConn.frame_mapFlags ..
    · cases h

/-- A frame and its slab between two turns: the machine's own states, and what is kept of a body, which the connection
table's dirtying leaves behind as it is. -/
structure FrameInv (ops : ProtoOps φ) (dir : Dir) (f : Frame) (slab : Bool) : Prop where
  wf : FrameWf ops dir f
  max : f.buf.length ≤ lkMsgBodyMax
  target : f.prefixClosed = false → f.buf.length ≤ bodyTarget f
  held : f.buf ≠ [] → slab = true

namespace SlabState
variable {env : Env φ} {ops : ProtoOps φ} {s : SlabState φ} {dir : Dir}

def Inv (ops : ProtoOps φ) (s : SlabState φ) : Prop := ∀ d, FrameInv ops d (s.c.frame d) (s.slab d)

def Others (ops : ProtoOps φ) (dir : Dir) (s : SlabState φ) : Prop := ∀ d, d ≠ dir → FrameInv ops d (s.c.frame d) (s.slab d)

theorem Inv.others (h : s.Inv ops) (dir : Dir) : s.Others ops dir := fun d _ => h d

theorem Others.inv (h : s.Others ops dir) (hf : FrameInv ops dir (s.c.frame dir) (s.slab dir)) : s.Inv ops := by
  intro d
  by_cases hd : d = dir
  · rw [hd]
    exact hf
  · exact h d hd

theorem frame_setFrame_ne (c : FConn φ) (f : Frame) (hd : d ≠ dir) : (c.setFrame dir f).frame d = c.frame d := by
  cases dir <;> cases d <;> first | exact absurd rfl hd | rfl

@[simp] theorem put_frame (s : SlabState φ) (dir : Dir) (f : Frame) (b : Bool) : (s.put dir f b).c.frame dir = f :=
  FConn.frame_setFrame ..

@[simp] theorem put_slab (s : SlabState φ) (dir : Dir) (f : Frame) (b : Bool) : (s.put dir f b).slab dir = b :=
  Function.update_self ..

theorem Others.put (h : s.Others ops dir) (f : Frame) (b : Bool) : (s.put dir f b).Others ops dir := by
  intro d hd
  have hold := h d hd
  rwa [← frame_setFrame_ne s.c f hd, ← Function.update_of_ne hd b s.slab] at hold

theorem Others.inv_put (h : s.Others ops dir) (hf : FrameInv ops dir f b) : (s.put dir f b).Inv ops :=
  (h.put f b).inv (by rwa [put_frame, put_slab])

theorem Others.inv_upd (h : s.Others ops dir) (hf : FrameInv ops dir (g (s.c.frame dir)) (s.slab dir)) : (s.upd dir g).Inv ops :=
  h.inv_put hf

@[simp] theorem upd_frame (s : SlabState φ) (dir : Dir) (g : Frame → Frame) : (s.upd dir g).c.frame dir = g (s.c.frame dir) :=
  put_frame ..

theorem Others.bufGet (h : s.Others ops dir) (grant : Nat → Bool) : (s.bufGet grant dir).Others ops dir := by
  rw [SlabState.bufGet]
  split
  · exact h
  · intro d hd
    have hold := h d hd
    rwa [← Function.update_of_ne hd (grant s.asked) s.slab] at hold

@[simp] theorem bufGet_c (s : SlabState φ) (grant : Nat → Bool) (dir : Dir) : (s.bufGet grant dir).c = s.c := by
  rw [SlabState.bufGet]
  split <;> rfl

theorem bufGet_slab (grant : Nat → Bool) (h : s.slab dir = true) : s.bufGet grant dir = s := if_pos h

theorem Others.emit (hops : FrameHooks ops) (h : s.Others ops dir) (body : List Byte) : (s.emit env ops dir body).Others ops dir := by
  intro d hd
  obtain ⟨b, hframe, hsize⟩ := hops.preEmit_other s.c dir ((s.c.frame dir).msg body) d hd
  have hafter : (s.emit env ops dir body).c.frame d = { s.c.frame d with startupDone := b } := by
    rw [SlabState.emit, emit_eq]
    simp only [deliver, FConn.frame_mapFlags, frame_setFrame_ne _ _ hd, hframe]
  obtain ⟨hwf, hmax, htarget, hheld⟩ := h d hd
  rw [hafter]
  refine ⟨?_, hmax, htarget, hheld⟩
  cases hwf with
  | header hst hh hb => exact .header hst (by rw [hsize]; exact hh) hb
  | body hst hl hb => exact .body hst hl hb
  | skip hst hl hh hb => exact .skip hst hl hh hb
  | dirty hst => exact .dirty hst

end SlabState

section
variable {env : Env φ} {ops : ProtoOps φ} {grant : Nat → Bool} {s : SlabState φ} {dir : Dir}
open SlabState

theorem FrameInv.msgReset (hops : FrameHooks ops) (dir : Dir) (f : Frame) : FrameInv ops dir (msgReset f) false :=
  ⟨.header rfl (hops.hdrSize_pos dir _) (.inr rfl), Nat.zero_le _, fun _ => Nat.zero_le _, fun h => absurd rfl h⟩

theorem FrameInv.skipOver (h : FrameInv ops dir f b) (hh : f.hdr = [])
    (hb : f.prefixClosed = true ∨ f.buf = []) (skip : Nat) : FrameInv ops dir (skipOver skip f) b := by
  refine ⟨skipOver_wf h.wf hh hb skip, ?_, ?_, ?_⟩ <;> rw [Latkit.skipOver] <;> split
  · exact h.max
  · exact h.max
  · exact h.target
  · exact h.target
  · exact h.held
  · exact h.held

theorem FrameInv.endFragment (hops : FrameHooks ops) (dir : Dir) (hmax : f.buf.length ≤ lkMsgBodyMax)
    (hheld : f.buf ≠ [] → b = true) (skip : Nat) : FrameInv ops dir (endFragment skip f) b := by
  have hclosed : FrameInv ops dir { f with prefixClosed := true, hdr := [], st := .header } b :=
    ⟨.header rfl (by exact hops.hdrSize_pos dir _) (.inl rfl), hmax, fun h => Bool.noConfusion h, hheld⟩
  exact hclosed.skipOver rfl (.inl rfl) skip

theorem FrameInv.dirtied (ops : ProtoOps φ) (dir : Dir) (f : Frame) : FrameInv ops dir (dirtied f) false :=
  ⟨.dirty rfl, Nat.zero_le _, fun _ => Nat.zero_le _, fun h => absurd rfl h⟩

theorem FrameInv.markDirty (h : FrameInv ops dir f b) : FrameInv ops dir { f with st := .dirty, resyncMatched := 0 } b :=
  ⟨.dirty rfl, h.max, h.target, h.held⟩

def bytesRank (dir : Dir) (s : SlabState φ) (p : List Byte) : Nat := 2 * p.length + stallCost dir (s.r, s.c)

theorem bytesRank_of (h : (s.c.frame dir).st ≠ .body) (p : List Byte) : bytesRank dir s p = 2 * p.length := by
  rw [bytesRank, stallCost_header h, Nat.add_zero]

theorem bytesRank_le (dir : Dir) (s : SlabState φ) (p : List Byte) : bytesRank dir s p ≤ 2 * p.length + 1 :=
  Nat.add_le_add_left (stallCost_le dir (s.r, s.c)) _

theorem SlabState.Inv.ending {rank : SlabState φ → ι → Nat} (h : s.Inv ops) (ef : ConnFlags) (hless : rank s rest < n) :
    Goes (Inv ops) rank n (some (s.ending ef rest)) := by
  rw [SlabState.ending]
  split
  · exact .ret h
  · exact .next h hless

theorem SlabState.Others.emitted (hops : FrameHooks ops) (h : s.Others ops dir) (body : List Byte) :
    ((s.emit env ops dir body).msgReset dir).Inv ops :=
  (h.emit hops body).inv_put (.msgReset hops dir _)

theorem SlabState.Others.skipped (hops : FrameHooks ops) (h : s.Others ops dir) (body : List Byte) (skip : Nat) :
    (((s.emit env ops dir body).msgReset dir).upd dir (skipOver skip)).Inv ops := by
  refine ((h.emitted hops body).others dir).inv_put ?_
  rw [SlabState.msgReset, put_frame, put_slab]
  exact (FrameInv.msgReset hops dir _).skipOver rfl (.inr rfl) skip

theorem headerStep_goes (hops : FrameHooks ops) (ef : ConnFlags) (ts : Nat) (h : s.Inv ops) (hst : (s.c.frame dir).st = .header)
    (hh : (s.c.frame dir).hdr.length < ops.hdrSize dir (s.c.frame dir))
    (hb : (s.c.frame dir).prefixClosed = true ∨ (s.c.frame dir).buf = []) (hp : 0 < p.length) :
    Goes (Inv ops) (bytesRank dir) (bytesRank dir s p) (headerStep env ops ef dir ts s p) := by
  have hother := h.others dir
  obtain ⟨-, hmax, htarget, hheld⟩ := h dir
  have hrank : bytesRank dir s p = 2 * p.length := bytesRank_of (by rw [hst]; rintro ⟨⟩) p
  have htake : min (ops.hdrSize dir (s.c.frame dir) - (s.c.frame dir).hdr.length) p.length ≤ p.length := Nat.min_le_right ..
  simp only [headerStep, Checked.sub_eq (Nat.le_of_lt hh), Checked.advance_eq htake, Option.bind_eq_bind, Option.bind_some, put_frame,
    put_slab]
  generalize hn : min (ops.hdrSize dir (s.c.frame dir) - (s.c.frame dir).hdr.length) p.length = take
  have hless : 2 * (p.drop take).length + 1 < 2 * p.length := by
    rw [List.length_drop]
    omega
  split
  · next hlt =>
    refine .ret (hother.inv_put ⟨.header hst ?_ hb, hmax, htarget, hheld⟩)
    rw [hops.hdrSize_congr dir (takeHdr ts (s.c.frame dir) (p.take take)) (s.c.frame dir) rfl]
    simp only [takeHdr, List.length_append, List.length_take]
    omega
  · have hput := hother.put (takeHdr ts (s.c.frame dir) (p.take take)) (s.slab dir)
    split
    · exact .ret (hput.inv_put (.dirtied ops dir _))
    · next g hg =>
      obtain ⟨hbuf, hclosed⟩ := hops.parseHdr_keeps dir _ g hg
      have hparsed := hput.put g (s.slab dir)
      split
      · refine Inv.ending (hparsed.emitted hops g.buf) ef ?_
        rw [bytesRank_of (by rw [SlabState.msgReset, put_frame]; rintro ⟨⟩)]
        omega
      · next hlen =>
        have hbuf' : g.buf = (s.c.frame dir).buf := hbuf
        have hclosed' : g.prefixClosed = (s.c.frame dir).prefixClosed := hclosed
        have hopen : g.prefixClosed = false → g.buf = [] := by
          intro hpc
          rw [hbuf']
          exact hb.resolve_left (by rw [← hclosed', hpc]; rintro ⟨⟩)
        have hroom : 0 < bodyTarget g := by
          rw [bodyTarget, lkMsgBodyMax]
          omega
        have hbody : FrameInv ops dir { g with st := .body } (s.slab dir) := by
          refine ⟨.body rfl (Nat.pos_of_ne_zero hlen) fun hpc => ?_, by rw [hbuf']; exact hmax, fun hpc => ?_, by rw [hbuf']; exact hheld⟩
          · show g.buf.length < bodyTarget g
            rw [hopen hpc]
            exact hroom
          · show g.buf.length ≤ bodyTarget g
            rw [hopen hpc]
            exact Nat.zero_le _
        refine .next (hparsed.inv_upd (by simpa only [put_frame, put_slab] using hbody)) ?_
        exact Nat.lt_of_le_of_lt (bytesRank_le ..) (by omega)

theorem bodyFinish_goes (hops : FrameHooks ops) (ef : ConnFlags) (hother : s.Others ops dir)
    (hmax : (s.c.frame dir).buf.length ≤ lkMsgBodyMax) (hheld : (s.c.frame dir).buf ≠ [] → s.slab dir = true)
    (hrem : rem ≤ p.length) (htarget : target = (s.c.frame dir).buf.length + rem) (hroom : target ≤ lkMsgBodyMax)
    (hopen : (s.c.frame dir).prefixClosed = false → target ≤ (s.c.frame dir).bodyLen)
    (hless : 2 * (p.drop rem).length < n) :
    Goes (Inv ops) (bytesRank dir) n (bodyFinish env ops grant ef dir s rem target p) := by
  have hskip : (if (s.c.frame dir).prefixClosed then 0 else target) ≤ (s.c.frame dir).bodyLen := by
    split
    · exact Nat.zero_le _
    · next hpc => exact hopen (by simpa using hpc)
  have hlen : (s.c.frame dir).buf.length + (p.take rem).length ≤ lkMsgBodyMax := by
    rw [List.length_take, Nat.min_eq_left hrem, ← htarget]
    exact hroom
  simp only [bodyFinish, Checked.sub_eq hskip, Checked.advance_eq hrem, Option.bind_eq_bind, Option.bind_some]
  generalize (s.c.frame dir).bodyLen - _ = skip
  have hnotBody : ∀ f : Frame, (endFragment skip f).st ≠ .body := fun f => skipOver_st rfl skip
  split
  · -- a fragment that does not end its message pins the prefix
    generalize hs' : (if rem = 0 then s else s.bufGet grant dir) = s'
    have hc : s'.c = s.c := by
      rw [← hs']
      split
      · rfl
      · exact bufGet_c ..
    have hother' : s'.Others ops dir := by
      rw [← hs']
      split
      · exact hother
      · exact hother.bufGet grant
    have hheld' : (s.c.frame dir).buf ≠ [] → s'.slab dir = true := by
      intro hbuf
      have hslab := hheld hbuf
      rw [← hs', bufGet_slab grant hslab, ite_self]
      exact hslab
    split
    · next hslab =>
      rw [writable, if_pos ⟨hslab.2, by rw [hc]; exact hlen⟩, Option.bind_some]
      have hspill := hother'.put (spill (p.take rem) (s'.c.frame dir)) (s'.slab dir)
      refine .next (hspill.inv_upd ?_) ?_
      · rw [put_frame, put_slab]
        refine .endFragment hops dir ?_ (fun _ => hslab.2) skip
        rw [hc, spill, List.length_append]
        exact hlen
      · rw [bytesRank_of (by rw [upd_frame]; exact hnotBody _)]
        exact hless
    · refine .next (hother'.inv_upd (.endFragment hops dir (by rw [hc]; exact hmax) (by rw [hc]; exact hheld') skip)) ?_
      rw [bytesRank_of (by rw [upd_frame]; exact hnotBody _)]
      exact hless
  · -- the message ends here, and the slab is written before it goes out
    have hend : ∀ body, Goes (Inv ops) (bytesRank dir) n
        (some ((((s.emit env ops dir body).msgReset dir).upd dir (skipOver skip)).ending ef (p.drop rem))) := by
      intro body
      refine Inv.ending (hother.skipped hops body skip) ef ?_
      rw [bytesRank_of (by rw [upd_frame, SlabState.msgReset, put_frame]; exact skipOver_st rfl skip)]
      exact hless
    split
    · next hslab =>
      rw [writable, if_pos ⟨hslab.1, hlen⟩, Option.bind_some]
      exact hend _
    · exact hend _

theorem bodyStep_goes (hops : FrameHooks ops) (ef : ConnFlags) (h : s.Inv ops) (hst : (s.c.frame dir).st = .body)
    (hl : 0 < (s.c.frame dir).bodyLen)
    (hb : (s.c.frame dir).prefixClosed = false → (s.c.frame dir).buf.length < bodyTarget (s.c.frame dir)) (hp : 0 < p.length) :
    Goes (Inv ops) (bytesRank dir) (bytesRank dir s p) (bodyStep env ops grant ef dir s p) := by
  have hother := h.others dir
  obtain ⟨-, hmax, -, hheld⟩ := h dir
  have hbound : bodyTarget (s.c.frame dir) ≤ (s.c.frame dir).bodyLen ∧ bodyTarget (s.c.frame dir) ≤ lkMsgBodyMax :=
    ⟨Nat.min_le_left .., Nat.min_le_right ..⟩
  generalize htarget : (if (s.c.frame dir).prefixClosed then (s.c.frame dir).buf.length else bodyTarget (s.c.frame dir)) = target
  have hle : (s.c.frame dir).buf.length ≤ target := by
    rw [← htarget]
    split
    · exact Nat.le_refl _
    · next hpc => exact Nat.le_of_lt (hb (by simpa using hpc))
  have hroom : target ≤ lkMsgBodyMax := by
    rw [← htarget]
    split
    · exact hmax
    · exact hbound.2
  have hopen : (s.c.frame dir).prefixClosed = false → target = bodyTarget (s.c.frame dir) := by
    intro hpc
    rw [← htarget, hpc]
    rfl
  simp only [bodyStep, htarget, Checked.sub_eq hle, Option.bind_eq_bind, Option.bind_some]
  split
  · next hlt =>
    have hpc : (s.c.frame dir).prefixClosed = false := by
      by_contra hpc
      rw [if_pos (by simpa using hpc)] at htarget
      omega
    have hbody := hopen hpc
    split
    · next hslab =>
      rw [writable, if_pos ⟨hslab, by rw [bufGet_c]; omega⟩, Option.bind_some]
      refine .ret ((hother.bufGet grant).inv_upd ?_)
      rw [bufGet_c]
      have hlen : (spill p (s.c.frame dir)).buf.length = (s.c.frame dir).buf.length + p.length := List.length_append
      refine ⟨.body hst hl fun _ => ?_, ?_, fun _ => ?_, fun _ => hslab⟩
      · rw [hlen]
        show _ < bodyTarget (s.c.frame dir)
        omega
      · omega
      · rw [hlen]
        show _ ≤ bodyTarget (s.c.frame dir)
        omega
    · next hslab =>
      -- without a slab nothing was kept, and the chunk is all there is
      have hfree : s.slab dir ≠ true := by
        intro hs
        rw [bufGet_slab grant hs] at hslab
        exact hslab hs
      have hnil : (s.c.frame dir).buf = [] := by
        by_contra hbuf
        exact hfree (hheld hbuf)
      refine bodyFinish_goes hops ef (hother.bufGet grant) (by rw [bufGet_c]; exact hmax)
        (fun hbuf => absurd hnil (by rw [bufGet_c] at hbuf; exact hbuf)) (Nat.le_refl _) (by rw [bufGet_c]) (by omega)
        (fun _ => by rw [bufGet_c]; omega) ?_
      rw [List.drop_length, bytesRank]
      exact Nat.lt_of_lt_of_le (by simpa using hp) (Nat.le_add_right _ _)
  · next hge =>
    refine bodyFinish_goes hops ef hother hmax hheld (by omega) (by omega) hroom
      (fun hpc => by rw [hopen hpc]; exact hbound.1) ?_
    rw [bytesRank, List.length_drop]
    by_cases hpc : (s.c.frame dir).prefixClosed = true
    · have hcost : stallCost dir (s.r, s.c) = 1 := if_pos ⟨hst, hpc⟩
      omega
    · have hlt := hb (by simpa using hpc)
      rw [← hopen (by simpa using hpc)] at hlt
      omega

theorem skipTake_inv (hops : FrameHooks ops) (h : FrameInv ops dir f b) (hst : f.st = .skip) (hh : f.hdr = [])
    (hb : f.prefixClosed = true ∨ f.buf = []) (htake : take ≤ f.skipLeft) :
    ∃ f', skipTake f take = some f' ∧ FrameInv ops dir f' b ∧ f'.st ≠ .body := by
  rw [skipTake, Checked.sub_eq htake]
  refine ⟨_, rfl, ⟨?_, h.max, h.target, h.held⟩, ?_⟩
  · by_cases hzero : f.skipLeft - take = 0
    · exact .header (if_pos hzero) (by rw [hh]; exact hops.hdrSize_pos dir _) hb
    · exact .skip ((if_neg hzero).trans hst) (Nat.pos_of_ne_zero hzero) hh hb
  · show (if f.skipLeft - take = 0 then FrameState.header else f.st) ≠ .body
    split
    · nofun
    · rw [hst]
      nofun

theorem SlabState.Others.doResync (hops : FrameHooks ops) (h : s.Others ops dir) : (s.doResync env dir).Inv ops := by
  have hframe : (Latkit.doResync env s.r s.c dir).2 =
      (s.c.setFrame dir (resynced (s.c.frame dir))).mapFlags (env.react ((Latkit.doResync env s.r s.c dir).1.trace)) := rfl
  intro d
  have hput := (h.put (resynced (s.c.frame dir)) false).inv
    (by
      rw [put_frame, put_slab]
      exact ⟨.header rfl (hops.hdrSize_pos dir _) (.inr rfl), Nat.zero_le _, fun _ => Nat.zero_le _, fun hne => absurd rfl hne⟩)
  have hd := hput d
  rw [← FConn.frame_mapFlags _ d (env.react ((Latkit.doResync env s.r s.c dir).1.trace))] at hd
  exact hd

theorem bytesStep_goes (hops : FrameHooks ops) (ef : ConnFlags) (ts : Nat) (h : s.Inv ops) (hp : 0 < p.length) :
    Goes (Inv ops) (bytesRank dir) (bytesRank dir s p) (bytesStep env ops grant ef dir ts s p) := by
  cases (h dir).wf with
  | header hst hh hb =>
    simp only [bytesStep, hst]
    exact headerStep_goes hops ef ts h hst hh hb hp
  | body hst hl hb =>
    simp only [bytesStep, hst]
    exact bodyStep_goes hops ef h hst hl hb hp
  | skip hst hl hh hb =>
    have htake := Nat.min_le_left (s.c.frame dir).skipLeft p.length
    obtain ⟨f, hf, hinv, hstf⟩ := skipTake_inv hops (h dir) hst hh hb htake
    simp only [bytesStep, hst, Checked.advance_eq (Nat.min_le_right ..), hf, Option.bind_eq_bind, Option.bind_some]
    refine .next ((h.others dir).inv_put hinv) ?_
    rw [bytesRank_of (by rw [put_frame]; exact hstf), bytesRank_of (by rw [hst]; rintro ⟨⟩), List.length_drop]
    omega
  | dirty hst =>
    obtain ⟨m, hm⟩ := hops.scan_keeps dir (s.c.frame dir) p
    have hused := hops.scan_used dir (s.c.frame dir) p
    have hfound := hops.scan_found dir (s.c.frame dir) p
    rcases hscan : ops.resyncScan dir (s.c.frame dir) p with ⟨f, used, found⟩
    rw [hscan] at hm hused hfound
    simp only [bytesStep, hst, hscan, Checked.advance_eq hused, Option.bind_eq_bind, Option.bind_some]
    have hother := (h.others dir).put f (s.slab dir)
    split
    · next hyes =>
      refine .next (hother.doResync hops) ?_
      have hnot : (((s.put dir f (s.slab dir)).doResync env dir).c.frame dir).st ≠ .body := by
        simp [SlabState.doResync, Latkit.doResync, deliver, resynced, Latkit.msgReset]
      have hpos := hfound hyes
      dsimp only at hpos hused
      rw [bytesRank_of hnot, bytesRank_of (by rw [hst]; rintro ⟨⟩), List.length_drop]
      omega
    · refine .ret ((h.others dir).inv_put ?_)
      dsimp only at hm
      rw [hm]
      exact ⟨.dirty hst, (h dir).max, (h dir).target, (h dir).held⟩

theorem holeStep_goes (hops : FrameHooks ops) (ef : ConnFlags) (h : s.Inv ops) (hn : 0 < n) :
    Goes (Inv ops) (fun _ n => n) n (holeStep env ops ef dir s n) := by
  have hother := h.others dir
  obtain ⟨hwf, hmax, -, hheld⟩ := h dir
  cases hwf with
  | header hst hh hb =>
    simp only [holeStep, hst]
    exact .ret (hother.inv_put (.dirtied ops dir _))
  | body hst hl hb =>
    have hkept : (if (s.c.frame dir).prefixClosed then 0 else (s.c.frame dir).buf.length) < (s.c.frame dir).bodyLen := by
      split
      · exact hl
      · next hpc => exact Nat.lt_of_lt_of_le (hb (by simpa using hpc)) (Nat.min_le_left ..)
    simp only [holeStep, hst, Checked.sub_eq (Nat.le_of_lt hkept), Checked.sub_eq (Nat.min_le_right ..),
      Checked.sub_eq (Nat.min_le_left ..), Option.bind_eq_bind, Option.bind_some]
    generalize hrem : (s.c.frame dir).bodyLen - _ = rem
    split
    · exact .next (hother.inv_upd (.endFragment hops dir hmax hheld _)) (by omega)
    · exact Inv.ending (hother.skipped hops _ _) ef (by omega)
  | skip hst hl hh hb =>
    obtain ⟨f, hf, hinv, -⟩ := skipTake_inv hops (h dir) hst hh hb (Nat.min_le_left (s.c.frame dir).skipLeft n)
    simp only [holeStep, hst, Checked.sub_eq (Nat.min_le_right ..), hf, Option.bind_eq_bind, Option.bind_some]
    exact .next (hother.inv_put hinv) (by omega)
  | dirty hst =>
    simp only [holeStep, hst]
    exact .ret h

theorem slabBytes_inv (hops : FrameHooks ops) (h : s.Inv ops) (dir : Dir) (p : List Byte) (ts : Nat) :
    ∃ s', slabBytes env ops grant s dir p ts = some s' ∧ s'.Inv ops := by
  rw [slabBytes]
  split
  · exact ⟨s, rfl, h⟩
  have hframe := hops.intercept_frame s.r s.c dir p ts
  split
  · next r c hcut =>
    rw [hcut] at hframe
    exact ⟨_, rfl, fun d => by rw [show c.frame d = s.c.frame d from hframe d]; exact h d⟩
  · next r c q hcut =>
    rw [hcut] at hframe
    refine Checked.loop_goes (fun s' q' hs' hq' => bytesStep_goes hops s.c.flags ts hs' hq') (fun s' q' => ?_)
      (fun d => by rw [show c.frame d = s.c.frame d from hframe d]; exact h d) (bytesRank_le ..)
    rw [bytesRank]
    omega

theorem slabHole_inv (hops : FrameHooks ops) (h : s.Inv ops) (dir : Dir) (n : Nat) :
    ∃ s', slabHole env ops s dir n = some s' ∧ s'.Inv ops := by
  rw [slabHole]
  split
  · exact ⟨s, rfl, h⟩
  split
  · next c hcut =>
    have hother : { s with c := c }.Others ops dir := fun d _ => by
      rw [show c.frame d = s.c.frame d from hops.interceptHole_frame s.c c dir d hcut]
      exact h d
    exact ⟨_, rfl, hother.inv_put (.dirtied ops dir _)⟩
  · split
    · next hst => exact ⟨_, rfl, (h.others dir).inv_upd ⟨.dirty hst, (h dir).max, (h dir).target, (h dir).held⟩⟩
    · exact Checked.loop_goes (fun s' n' hs' hn' => holeStep_goes hops s.c.flags hs' hn') (fun _ _ => Nat.le_refl _) h
        (Nat.le_refl _)

theorem SlabState.Inv.markDirty (h : s.Inv ops) : s.markDirty.Inv ops := by
  have hsend : (s.upd .send fun f => { f with st := .dirty, resyncMatched := 0 }).Inv ops :=
    (h.others .send).inv_upd (h .send).markDirty
  exact (hsend.others .recv).inv_upd (hsend .recv).markDirty

theorem FrameInv.zeroed (hops : FrameHooks ops) (dir : Dir) : FrameInv ops dir {} false :=
  ⟨.header rfl (hops.hdrSize_pos dir _) (.inr rfl), Nat.zero_le _, fun _ => Nat.zero_le _, fun h => absurd rfl h⟩

theorem SlabState.Inv.tlsReset (hops : FrameHooks ops) (h : s.Inv ops) (midstream : Bool) : (s.tlsReset midstream).Inv ops := by
  have hsend := (h.others .send).inv_put (.zeroed hops .send)
  have hboth := (hsend.others .recv).inv_put (.zeroed hops .recv)
  have hreset : SlabState.Inv ops { (s.put .send {} false).put .recv {} false with c.frameState := none } := by
    intro d
    have hd := hboth d
    cases d <;> exact hd
  rw [SlabState.tlsReset]
  cases midstream with
  | false => exact hreset
  | true => exact hreset.markDirty

theorem slabAct_inv (hops : FrameHooks ops) (h : s.Inv ops) (a : FrameAct) :
    ∃ s', slabAct env ops grant s a = some s' ∧ s'.Inv ops := by
  cases a with
  | bytes dir p ts => exact slabBytes_inv hops h dir p ts
  | hole dir n => exact slabHole_inv hops h dir n
  | offAnomaly dir => exact ⟨_, rfl, (h.others dir).inv_put (.dirtied ops dir _)⟩
  | resync dir => exact ⟨_, rfl, (h.others dir).doResync hops⟩
  | markDirty => exact ⟨_, rfl, h.markDirty⟩
  | tlsReset midstream => exact ⟨_, rfl, h.tlsReset hops midstream⟩
  | setFlags fl => exact ⟨_, rfl, fun d => by rw [FConn.frame_mapFlags]; exact h d⟩

theorem slabActs_inv (hops : FrameHooks ops) (h : s.Inv ops) (acts : List FrameAct) :
    ∃ s', slabActs env ops grant s acts = some s' ∧ s'.Inv ops := by
  induction acts generalizing s with
  | nil => exact ⟨s, rfl, h⟩
  | cons a acts ih =>
    obtain ⟨s₁, hact, hinv⟩ := slabAct_inv hops h a
    obtain ⟨s₂, hrest, hinv'⟩ := ih hinv
    refine ⟨s₂, ?_, hinv'⟩
    rw [slabActs, List.foldlM_cons, hact]
    exact hrest

end

structure FrameSafe (ops : ProtoOps φ) (dir : Dir) (f : Frame) (slab : Bool) : Prop where
  header : f.st = .header → f.hdr.length < ops.hdrSize dir f
  skip : f.st = .skip → 0 < f.skipLeft
  max : f.buf.length ≤ lkMsgBodyMax
  target : f.prefixClosed = false → f.buf.length ≤ bodyTarget f
  held : f.buf.length ≠ 0 → slab = true

theorem FrameInv.safe {ops : ProtoOps φ} (h : FrameInv ops dir f b) : FrameSafe ops dir f b := by
  refine ⟨fun hst => ?_, fun hst => ?_, h.max, h.target, fun hlen => h.held fun hnil => hlen (by rw [hnil]; rfl)⟩
  · cases h.wf with
    | header _ hh _ => exact hh
    | body h' _ _ => rw [h'] at hst; cases hst
    | skip h' _ _ _ => rw [h'] at hst; cases hst
    | dirty h' => rw [h'] at hst; cases hst
  · cases h.wf with
    | header h' _ _ => rw [h'] at hst; cases hst
    | body h' _ _ => rw [h'] at hst; cases hst
    | skip _ hl _ _ => exact hl
    | dirty h' => rw [h'] at hst; cases hst

/-- Whatever happens to a connection's frames, no checked step of the framer fails and both frames stay well formed. -/
theorem lkFrame_safe (env : Env φ) (grant : Nat → Bool) (cookie : UInt64) (acts : List FrameAct) :
    (∃ s, slabActs env (lkProtoPgOps env) grant { c := { cookie } } acts = some s ∧
      ∀ dir, FrameSafe (lkProtoPgOps env) dir (s.c.frame dir) (s.slab dir)) ∧
    ∃ s, slabActs env lkProtoMyOps grant { c := { cookie } } acts = some s ∧
      ∀ dir, FrameSafe (lkProtoMyOps : ProtoOps φ) dir (s.c.frame dir) (s.slab dir) := by
  have hsafe : ∀ ops : ProtoOps φ, FrameHooks ops → ∃ s, slabActs env ops grant { c := { cookie } } acts = some s ∧
      ∀ dir, FrameSafe ops dir (s.c.frame dir) (s.slab dir) := by
    intro ops hops
    have hzero : SlabState.Inv ops { c := { cookie } } := fun d => by
      cases d <;> exact .zeroed hops _
    obtain ⟨s, hs, hinv⟩ := slabActs_inv hops hzero acts
    exact ⟨s, hs, fun dir => (hinv dir).safe⟩
  exact ⟨hsafe _ (lkProtoPgOps_hooks env), hsafe _ lkProtoMyOps_hooks⟩

end Latkit
