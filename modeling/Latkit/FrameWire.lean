import Latkit.FrameChunking
import Latkit.Wire

namespace Latkit
open Wire (Grammar Packet)

/-- PG on the wire, one phase for startup framing (`true`) and one for typed messages. -/
def pgGrammar : Grammar Bool Byte where
  hdrSize := fun startup => if startup then 4 else 5
  read := fun startup h =>
    if pgLenOk startup (pgHdrLen startup h) then some (pgHdrLen startup h - 4, false) else none
  next := fun startup body => startup && !(4 ≤ body.length && be32 body == lkPgProtoV3)

def myGrammar : Grammar Unit Byte where
  hdrSize := fun _ => 4
  read := fun _ h => some (le24 h, le24 h == myPktMax)
  next := fun _ _ => ()

/-- The vtable reads the format `g`; `Phase` says which phase a frame is in. -/
structure Speaks (ops : ProtoOps φ) (dir : Dir) (g : Grammar π Byte) (Phase : π → Frame → Prop) :
    Prop where
  hdrSize : ∀ ph f, Phase ph f → ops.hdrSize dir f = g.hdrSize ph
  parse : ∀ ph f f', Phase ph f → ops.parseHdr dir f = some f' →
    g.read ph f.hdr = some (f'.bodyLen, f'.msgCont) ∧ f'.startupDone = f.startupDone ∧ Phase ph f'
  pos : ∀ ph, 0 < g.hdrSize ph
  body : ∀ c m, (ops.preEmit c dir m).2.body = m.body
  long : ∀ ph h len, g.read ph h = some (len, true) → lkMsgBodyMax ≤ len
  congr : ∀ ph f f', f'.startupDone = f.startupDone → f'.msgCont = f.msgCont → Phase ph f → Phase ph f'
  emit : ∀ ph (c : FConn φ) body, Phase ph (c.frame dir) →
    ∀ f', f'.startupDone = ((ops.preEmit c dir ((c.frame dir).msg body)).1.frame dir).startupDone →
      f'.msgCont = false → Phase (g.next ph body) f'

theorem pgPreEmit_startup (c : FConn φ) (dir : Dir) (m : Msg) :
    inStartup ((pgPreEmit c dir m).1.frame dir) dir = pgGrammar.next (inStartup (c.frame dir) dir) m.body := by
  cases hs : inStartup (c.frame dir) dir with
  | false => simp [pgPreEmit, hs, pgGrammar]
  | true =>
    simp only [pgPreEmit, hs, pgGrammar, Bool.not_true, Bool.false_eq_true, if_false, Bool.true_and]
    by_cases hl : m.body.length < 4
    · simp [hl, hs, Nat.not_le_of_lt hl]
    · by_cases hv : be32 m.body = lkPgProtoV3
      · simp [hl, hv, inStartup, Nat.le_of_not_lt hl]
      · simp only [hl, hv, if_false]
        repeat' split
        all_goals simp [hs, hv]

theorem pg_speaks (env : Env φ) (dir : Dir) :
    Speaks (lkProtoPgOps env) dir pgGrammar fun ph f => inStartup f dir = ph ∧ f.msgCont = false where
  hdrSize ph f h := by simp only [lkProtoPgOps, pgHdrSize, pgGrammar, h.1]
  parse ph f f' h hp := by
    simp only [lkProtoPgOps, pgParseHdr, h.1] at hp
    split at hp <;> cases hp
    next hok =>
      simp only [pgGrammar, hok, if_true]
      exact ⟨by rw [h.2], trivial, h.1, h.2⟩
  pos ph := by cases ph <;> decide
  body c m := by
    simp only [lkProtoPgOps, pgPreEmit]
    repeat' split
    all_goals rfl
  long ph h len hr := by
    simp only [pgGrammar] at hr
    split at hr <;> simp at hr
  congr ph f f' hs hc h := by
    refine ⟨?_, hc.trans h.2⟩
    simp only [inStartup, hs]
    exact h.1
  emit ph c body h f' hs hc := by
    refine ⟨?_, hc⟩
    obtain ⟨rfl, -⟩ := h
    have hn := pgPreEmit_startup c dir ((c.frame dir).msg body)
    simp only [inStartup, lkProtoPgOps] at hn hs ⊢
    rw [hs, hn]
    rfl

theorem my_speaks (dir : Dir) :
    Speaks (lkProtoMyOps : ProtoOps φ) dir myGrammar fun _ _ => True where
  hdrSize _ _ _ := rfl
  parse ph f f' _ hp := by
    simp only [lkProtoMyOps, myParseHdr] at hp
    repeat' split at hp
    all_goals cases hp
    all_goals exact ⟨rfl, rfl, trivial⟩
  pos _ := Nat.succ_pos 3
  body c m := by
    cases dir <;> simp only [lkProtoMyOps, myPreEmit, myPacket, myStampStartup] <;> repeat' split
    all_goals rfl
  long ph h len hr := by
    simp only [myGrammar, Option.some.injEq, Prod.mk.injEq, beq_iff_eq] at hr
    obtain ⟨rfl, hl⟩ := hr
    rw [hl]
    decide
  congr _ _ _ _ _ _ := trivial
  emit _ _ _ _ _ _ _ := trivial

def traceBodies (t : List SinkEvent) : List (List Byte) :=
  t.filterMap fun
    | .msg _ _ _ m => some m.body
    | _ => none

structure Glued (f : Frame) (m : Packet Byte) : Prop where
  buf : f.buf = m.body.take lkMsgBodyMax
  fresh : f.prefixClosed = false → m.size = 0 ∧ m.body = []
  closed : f.prefixClosed = true → lkMsgBodyMax ≤ m.body.length
  le : m.body.length ≤ m.size

structure AtHeader (f : Frame) (m : Packet Byte) : Prop extends Glued f m where
  st : f.st = .header
  hdr : f.hdr = []
  cont : f.msgCont = f.prefixClosed

section
variable {env : Env φ} {ops : ProtoOps φ} {Settled : Dir → ConnFlags → Prop} {g : Grammar π Byte}
  {Phase : π → Frame → Prop}

theorem emit_bodies (env : Env φ) (hsp : Speaks ops dir g Phase) (r : Reasm) (c : FConn φ) (body : List Byte) :
    traceBodies (emit env ops r c dir body).1.trace = traceBodies r.trace ++ [body] := by
  rw [emit_eq]
  simp only [deliver, traceBodies, List.filterMap_append, Reasm.bump, stampMsg, hsp.body, Frame.msg]
  rfl

theorem emit_frame (env : Env φ) (ops : ProtoOps φ) (r : Reasm) (c : FConn φ) (dir : Dir) (body : List Byte) :
    (emit env ops r c dir body).2.frame dir =
      { (ops.preEmit c dir ((c.frame dir).msg body)).1.frame dir with afterResync := false } := by
  rw [emit_eq]
  simp [deliver]

theorem run_skipOver (he : SinkOk env) (hops : LawfulOps ops Settled) (ts : Nat)
    (hin : InChunk ops Settled dir s₀ (r, c)) (hf : c.frame dir = skipOver k f) (y : List Byte) :
    ∃ c', Chunked.run (frameTurn env ops s₀.2.flags dir ts) (r, c) y =
        Chunked.run (frameTurn env ops s₀.2.flags dir ts) (r, c') (y.drop k) ∧
      InChunk ops Settled dir s₀ (r, c') ∧
      (k ≤ y.length → f.st = .header → ∃ n, c'.frame dir = { f with skipLeft := n }) := by
  by_cases hk : k = 0
  · subst hk
    exact ⟨c, rfl, hin, fun _ _ => ⟨f.skipLeft, hf⟩⟩
  have hst : (c.frame dir).st = .skip := by simp [hf, skipOver, hk]
  have hleft : (c.frame dir).skipLeft = k := by simp [hf, skipOver, hk]
  by_cases hy : y = []
  · subst hy
    exact ⟨c, by simp, hin, fun h => absurd (Nat.le_zero.1 h) hk⟩
  have hprog := frameTurn_progress he hops s₀.2.flags dir ts s₀
  have hturn : frameTurn env ops s₀.2.flags dir ts (r, c) y =
      .next (r, c.updFrame dir (skipped y.length)) (y.drop k) := by
    simp only [frameTurn, hst, skipTurn, hleft]
  refine ⟨_, hprog.run_next hin hy hturn, (hprog.next _ _ _ _ hin hy hturn).1, fun hle hst => ?_⟩
  refine ⟨k - y.length, ?_⟩
  rw [updFrame_frame, hf]
  simp only [skipOver, hk, if_false, skipped, hle, if_true, ← hst]

/-- `s'`, reached from the chunk's entry state `s₀`, has handed over `bodies` since `s`. -/
def Reports (s₀ s s' : Reasm × FConn φ) (bodies : List (List Byte)) : Prop :=
  Flawed s₀ s' ∨ traceBodies s'.1.trace = traceBodies s.1.trace ++ bodies

theorem Reports.trans (bs : List (List Byte))
    (h : traceBodies s.1.trace = traceBodies t.1.trace ++ bs) (h' : Reports s₀ s s' bs') : Reports s₀ t s' (bs ++ bs') := by
  refine h'.imp_right fun h' => ?_
  rw [h', h, List.append_assoc]

theorem AtHeader.skipLeft (h : AtHeader f m) (n : Nat) : AtHeader { f with skipLeft := n } m :=
  ⟨⟨h.buf, h.fresh, h.closed, h.le⟩, h.st, h.hdr, h.cont⟩

/-- What the loop does from every header, for inputs of at most `fuel` bytes. -/
def WireUpTo (env : Env φ) (ops : ProtoOps φ) (Settled : Dir → ConnFlags → Prop) (dir : Dir) (ts : Nat)
    (g : Grammar π Byte) (Phase : π → Frame → Prop) (s₀ : Reasm × FConn φ) (fuel : Nat) : Prop :=
  ∀ s ph m x, x.length ≤ fuel → InChunk ops Settled dir s₀ s → AtHeader (s.2.frame dir) m →
    Phase ph (s.2.frame dir) →
    Reports s₀ s (Chunked.run (frameTurn env ops s₀.2.flags dir ts) s x)
      (g.bodies lkMsgBodyMax fuel ph m x)

theorem WireUpTo.resume (hih : WireUpTo env ops Settled dir ts g Phase s₀ fuel) (he : SinkOk env)
    (hops : LawfulOps ops Settled) (hsp : Speaks ops dir g Phase)
    (hin : InChunk ops Settled dir s₀ (r, c)) (hf : c.frame dir = skipOver k f) (hat : AtHeader f m)
    (hph : Phase ph f) (hy : y.length ≤ fuel) :
    Reports s₀ (r, c) (Chunked.run (frameTurn env ops s₀.2.flags dir ts) (r, c) y)
      (g.bodies lkMsgBodyMax fuel ph m (y.drop k)) := by
  obtain ⟨c', hrun, hin', hc'⟩ := run_skipOver he hops ts hin hf y
  rw [hrun]
  by_cases hk : k ≤ y.length
  · obtain ⟨n, hn⟩ := hc' hk hat.st
    refine hih (r, c') ph m _ ?_ hin' ?_ ?_
    · rw [List.length_drop]
      omega
    · rw [hn]
      exact hat.skipLeft n
    · rw [hn]
      exact hsp.congr ph f _ rfl rfl hph
  · rw [List.drop_of_length_le (Nat.le_of_not_le hk), Chunked.run_nil,
      g.bodies_short (by simpa using hsp.pos ph), Reports, List.append_nil]
    exact .inr rfl

theorem WireUpTo.last (hih : WireUpTo env ops Settled dir ts g Phase s₀ fuel) (he : SinkOk env)
    (hops : LawfulOps ops Settled) (hsp : Speaks ops dir g Phase)
    (hin : InChunk ops Settled dir s₀ s) (hx : x ≠ []) (hy : y.length ≤ fuel)
    (hturn : frameTurn env ops s₀.2.flags dir ts s x =
      afterEmit s₀.2.flags ((emit env ops s.1 c dir body).1,
        (emit env ops s.1 c dir body).2.updFrame dir fun f => skipOver k (msgReset f)) y)
    (hg : Grows s₀ (s.1, c)) (hph : Phase ph (c.frame dir)) :
    Reports s₀ s (Chunked.run (frameTurn env ops s₀.2.flags dir ts) s x)
      (body :: g.bodies lkMsgBodyMax fuel (g.next ph body) {} (y.drop k)) := by
  have hprog := frameTurn_progress he hops s₀.2.flags dir ts s₀
  have hgrow := hg.trans (emit_grows he hops s.1 c dir body)
  have hbody := emit_bodies env hsp s.1 c body
  have hframe := emit_frame env ops s.1 c dir body
  generalize emit env ops s.1 c dir body = e at hturn hgrow hbody hframe
  obtain ⟨t, hf, ht⟩ | ht := afterEmit_cases (hgrow.updFrame dir fun f => skipOver k (msgReset f))
  · rw [hprog.run_ret hin hx (hturn.trans (ht y))]
    exact .inl hf
  · have hnext := hturn.trans (ht y)
    rw [hprog.run_next hin hx hnext]
    refine Reports.trans [body] hbody
      (hih.resume he hops hsp (hprog.next _ _ _ _ hin hx hnext).1 (updFrame_frame _ _ _) ?_ ?_ hy)
    · exact ⟨⟨rfl, fun _ => ⟨rfl, rfl⟩, nofun, Nat.le_refl _⟩, rfl, rfl, rfl⟩
    · refine hsp.emit ph c body hph _ ?_ rfl
      rw [hframe]
      rfl

theorem Glued.kept {x : List Byte} (hm : Glued f m) (hx : bodyRem f ≤ x.length) (hx0 : x ≠ [])
    (hl : 0 < f.bodyLen) (hlong : f.msgCont = true → lkMsgBodyMax ≤ f.bodyLen) :
    let m' := m.add lkMsgBodyMax f.bodyLen (x.take f.bodyLen)
    let k := f.bodyLen - (if f.prefixClosed then 0 else f.buf.length + bodyRem f)
    f.buf ++ x.take (bodyRem f) = m'.body.take lkMsgBodyMax ∧ bodyRem f + k = f.bodyLen ∧
      m'.due = true ∧ (f.msgCont = true → lkMsgBodyMax ≤ m'.body.length) := by
  have hfrag : (x.take f.bodyLen).isEmpty = false := by
    rw [List.isEmpty_eq_false_iff, ne_eq, List.take_eq_nil_iff, not_or]
    exact ⟨Nat.ne_of_gt hl, hx0⟩
  cases hpc : f.prefixClosed with
  | true =>
    have hle := hm.closed hpc
    simp only [bodyRem, hpc, if_true, Packet.add, List.take_zero, List.append_nil, hm.buf,
      List.take_append_of_le_length hle, List.length_append, Nat.sub_zero, Nat.zero_add, true_and,
      hfrag, Bool.not_false, Bool.or_true, Bool.and_true, decide_eq_true_eq]
    exact ⟨by omega, fun _ => by omega⟩
  | false =>
    obtain ⟨hsize, hbody⟩ := hm.fresh hpc
    have hbuf : f.buf = [] := by rw [hm.buf, hbody, List.take_nil]
    simp only [bodyRem, hpc, Bool.false_eq_true, if_false, hbuf, List.length_nil, bodyTarget,
      Nat.sub_zero] at hx ⊢
    simp only [Packet.add, hsize, hbody, List.nil_append, List.take_take, List.length_take,
      Nat.zero_add, hfrag, Bool.not_false, Bool.or_true, Bool.and_true, decide_eq_true_eq]
    exact ⟨by rw [Nat.min_comm], by omega, by omega, fun h => by have := hlong h; omega⟩

theorem Glued.not_due {x : List Byte} (hm : Glued f m) (hx : x.length < bodyRem f) :
    (m.add lkMsgBodyMax f.bodyLen (x.take f.bodyLen)).due = false ∧ x.length ≤ f.bodyLen := by
  have hpc := prefixClosed_of_bodyRem hx
  obtain ⟨hsize, hbody⟩ := hm.fresh hpc
  have hbuf : f.buf = [] := by rw [hm.buf, hbody, List.take_nil]
  simp only [bodyRem, hpc, Bool.false_eq_true, if_false, hbuf, List.length_nil, bodyTarget,
    Nat.sub_zero] at hx
  refine ⟨?_, by omega⟩
  simp only [Packet.add, hsize, hbody, List.nil_append, Nat.zero_add, Bool.and_eq_false_iff,
    decide_eq_false_iff_not, List.length_take]
  exact .inl (by omega)

theorem fragBodies_nothing (hnil : ∀ ph m, g.bodies keep fuel ph m [] = [])
    (hdue : more = false → (m.add keep len (x.take len)).due = false) (hx : x.length ≤ len) :
    g.fragBodies keep fuel ph m len more x = [] := by
  simp only [Grammar.fragBodies, List.drop_of_length_le hx, hnil]
  cases more with
  | true => rfl
  | false => simp [hdue rfl]

theorem WireUpTo.body (hih : WireUpTo env ops Settled dir ts g Phase s₀ fuel) (he : SinkOk env)
    (hops : LawfulOps ops Settled) (hsp : Speaks ops dir g Phase)
    (hin : InChunk ops Settled dir s₀ (r, c)) (hst : (c.frame dir).st = .body)
    (hl : 0 < (c.frame dir).bodyLen) (hm : Glued (c.frame dir) m) (hph : Phase ph (c.frame dir))
    (hlong : (c.frame dir).msgCont = true → lkMsgBodyMax ≤ (c.frame dir).bodyLen)
    (hx : x.length ≤ fuel) :
    Reports s₀ (r, c) (Chunked.run (frameTurn env ops s₀.2.flags dir ts) (r, c) x)
      (g.fragBodies lkMsgBodyMax fuel ph m (c.frame dir).bodyLen (c.frame dir).msgCont x) := by
  have hprog := frameTurn_progress he hops s₀.2.flags dir ts s₀
  have hnil (ph : π) (m : Packet Byte) : g.bodies lkMsgBodyMax fuel ph m [] = [] :=
    g.bodies_short (by simpa using hsp.pos ph) fuel m
  have hturn := frameTurn_body env ops hst hin.slabOk s₀.2.flags ts x
  by_cases hx0 : x = []
  · subst hx0
    rw [Chunked.run_nil, fragBodies_nothing hnil (fun _ => by simp [Packet.add]; omega) (Nat.zero_le _)]
    exact .inr (List.append_nil _).symm
  by_cases hshort : x.length < bodyRem (c.frame dir)
  · obtain ⟨hdue, hle⟩ := hm.not_due hshort
    rw [hprog.run_ret hin hx0 (by rw [hturn, if_pos hshort]),
      fragBodies_nothing hnil (fun _ => hdue) hle]
    exact .inr (List.append_nil _).symm
  obtain ⟨hkept, hsum, hdue, hcl⟩ := hm.kept (Nat.le_of_not_lt hshort) hx0 hl hlong
  have hle := Packet.add_body_le hm.le lkMsgBodyMax (c.frame dir).bodyLen x
  have hdrop : (x.drop (bodyRem (c.frame dir))).length ≤ fuel := by
    rw [List.length_drop]
    omega
  rw [if_neg hshort] at hturn
  generalize bodyRem (c.frame dir) = rem at *
  simp only [bodyEnd] at hturn
  generalize (c.frame dir).bodyLen - _ = k at hturn hsum
  rw [Grammar.fragBodies, ← hsum, ← List.drop_drop, hsum]
  generalize m.add lkMsgBodyMax (c.frame dir).bodyLen (x.take (c.frame dir).bodyLen) = m' at *
  cases hc : (c.frame dir).msgCont with
  | true =>
    simp only [hc, if_true] at hturn
    rw [hprog.run_next hin hx0 hturn]
    refine hih.resume he hops hsp (hprog.next _ _ _ _ hin hx0 hturn).1 (updFrame_frame _ _ _) ?_ ?_
      hdrop
    · refine ⟨⟨?_, by rintro ⟨⟩, fun _ => hcl hc, hle⟩, rfl, rfl, hc⟩
      have hslab : r.slabOk = true := hin.slabOk
      simp only [hslab, Bool.true_or, if_true, hkept]
    · exact hsp.congr ph (c.frame dir) _ rfl rfl hph
  | false =>
    simp only [hc, Bool.false_eq_true, if_false] at hturn
    have hlast := hih.last he hops hsp hin hx0 hdrop hturn hin.grows hph
    simpa only [Bool.false_eq_true, if_false, hdue, if_true, Packet.kept_eq hle, ← hkept,
      List.singleton_append] using hlast

theorem headerTurn_at (env : Env φ) (hsp : Speaks ops dir g Phase)
    (hat : AtHeader (c.frame dir) m) (hph : Phase ph (c.frame dir)) (ef : ConnFlags) (ts : Nat)
    (r : Reasm) (x : List Byte) :
    frameTurn env ops ef dir ts (r, c) x =
      if x.length < g.hdrSize ph then .ret (r, c.setFrame dir (takeHdr ts (c.frame dir) x))
      else headerEnd env ops ef dir r c (takeHdr ts (c.frame dir) (x.take (g.hdrSize ph)))
        (x.drop (g.hdrSize ph)) := by
  have hrem : hdrRem ops dir (c.frame dir) = g.hdrSize ph := by
    rw [hdrRem, hsp.hdrSize ph _ hph, hat.hdr]
    rfl
  simp only [frameTurn, hat.st, headerTurn, hrem]

theorem Glued.empty_due (hm : Glued f m) :
    (m.add lkMsgBodyMax 0 []).due = true ∧ (m.add lkMsgBodyMax 0 []).kept lkMsgBodyMax = f.buf := by
  constructor
  · simp only [Packet.add, List.append_nil, Nat.add_zero, BEq.rfl, Bool.true_or, Bool.and_true,
      decide_eq_true_eq]
    cases hpc : f.prefixClosed with
    | true => exact Nat.le_trans (Nat.min_le_right _ _) (hm.closed hpc)
    | false => exact Nat.le_trans (Nat.min_le_left _ _) (by simp [(hm.fresh hpc).1])
  · rw [Packet.kept_eq (by simpa [Packet.add] using hm.le), hm.buf]
    simp [Packet.add]

theorem frameRun_bodies (he : SinkOk env) (hops : LawfulOps ops Settled) (hsp : Speaks ops dir g Phase)
    (ts : Nat) (s₀ : Reasm × FConn φ) (fuel : Nat) :
    WireUpTo env ops Settled dir ts g Phase s₀ fuel := by
  induction fuel with
  | zero =>
    intro s ph m x hx _ _ _
    obtain rfl : x = [] := List.length_eq_zero_iff.1 (Nat.le_zero.1 hx)
    exact .inr (List.append_nil _).symm
  | succ fuel ih =>
    intro s ph m x hx hin hat hph
    obtain ⟨r, c⟩ := s
    have hprog := frameTurn_progress he hops s₀.2.flags dir ts s₀
    have hturn := headerTurn_at env hsp hat hph s₀.2.flags ts r x
    by_cases hshort : x.length < g.hdrSize ph
    · rw [g.bodies_short hshort]
      by_cases hx0 : x = []
      · subst hx0
        exact .inr (List.append_nil _).symm
      · rw [hprog.run_ret hin hx0 (by rw [hturn, if_pos hshort])]
        exact .inr (List.append_nil _).symm
    have hpos := hsp.pos ph
    have hx0 : x ≠ [] := by
      rintro rfl
      exact hshort hpos
    rw [if_neg hshort] at hturn
    simp only [headerEnd] at hturn
    have hph₁ := hsp.congr ph (c.frame dir) (takeHdr ts (c.frame dir) (x.take (g.hdrSize ph))) rfl rfl hph
    cases hparse : ops.parseHdr dir (takeHdr ts (c.frame dir) (x.take (g.hdrSize ph))) with
    | none =>
      simp only [hparse] at hturn
      rw [hprog.run_ret hin hx0 hturn]
      refine .inl (Flawed.of_badLen hin.grows ⟨?_, Nat.le_succ _, Nat.le_refl _, ?_⟩
        (Nat.lt_succ_self _))
      all_goals simp [goDirty]
    | some f =>
      obtain ⟨-, hbuf, hpc⟩ := hops.parseHdr_keeps _ _ _ hparse
      obtain ⟨hread, -, hph₂⟩ := hsp.parse ph _ f hph₁ hparse
      have hhdr : (takeHdr ts (c.frame dir) (x.take (g.hdrSize ph))).hdr = x.take (g.hdrSize ph) := by
        simp [takeHdr, hat.hdr]
      rw [hhdr] at hread
      have hrest : (x.drop (g.hdrSize ph)).length ≤ fuel := by
        rw [List.length_drop]
        omega
      rw [g.bodies_read hshort hread]
      have hm : Glued f m := by
        refine ⟨hbuf.trans hat.buf, fun h => hat.fresh (hpc.symm.trans h),
          fun h => hat.closed (hpc.symm.trans h), hat.le⟩
      have hlong (h : f.msgCont = true) : lkMsgBodyMax ≤ f.bodyLen :=
        hsp.long ph _ _ (h ▸ hread)
      simp only [hparse] at hturn
      by_cases hl : f.bodyLen = 0
      · have hcont : f.msgCont = false := by
          by_contra h
          have := hlong (eq_true_of_ne_false h)
          simp only [hl, lkMsgBodyMax] at this
          omega
        have hreset : msgReset = fun f => skipOver 0 (msgReset f) := by
          funext f
          simp [skipOver]
        rw [if_pos hl, hreset] at hturn
        have hph₃ : Phase ph ((c.setFrame dir f).frame dir) := by
          rw [FConn.frame_setFrame]
          exact hph₂
        have hlast := ih.last he hops hsp hin hx0 hrest hturn (hin.grows.setFrame dir f) hph₃
        obtain ⟨hdue, hkept⟩ := hm.empty_due
        have htake : (m.add lkMsgBodyMax 0 []).body.take lkMsgBodyMax = f.buf := by
          rw [← hkept, Packet.kept_eq (by simpa [Packet.add] using hm.le)]
        simpa only [Grammar.fragBodies, hl, hcont, List.take_zero, hdue, hkept, htake, if_true,
          Bool.false_eq_true, if_false, List.singleton_append] using hlast
      · rw [if_neg hl] at hturn
        rw [hprog.run_next hin hx0 hturn]
        have hf := c.frame_setFrame dir { f with st := .body }
        have hm' : Glued ((c.setFrame dir { f with st := .body }).frame dir) m := by
          rw [hf]
          exact ⟨hm.buf, hm.fresh, hm.closed, hm.le⟩
        have hph₃ : Phase ph ((c.setFrame dir { f with st := .body }).frame dir) := by
          rw [hf]
          exact hsp.congr ph f _ rfl rfl hph₂
        have hbody := ih.body he hops hsp (hprog.next _ _ _ _ hin hx0 hturn).1 (by rw [hf])
          (by rw [hf]; exact Nat.pos_of_ne_zero hl) hm' hph₃ (by rw [hf]; exact hlong) hrest
        rw [hf] at hbody
        exact hbody

end

def AtBoundary (f : Frame) : Prop := AtHeader f {}

/-- The kept bodies of the messages of a stream: the first `min size LK_MSG_BODY_MAX` bytes of every
message of which the stream holds that much. A pending one-byte reply is a message without a body. -/
def streamBodies (c : FConn φ) (dir : Dir) (x : List Byte) : List (List Byte) :=
  match c.ops.getD .pg with
  | .mysql => myGrammar.bodies lkMsgBodyMax x.length () {} x
  | _ =>
    if dir = .send ∧ c.flags.sslReply = true then
      match x with
      | [] => []
      | _ :: x => [] :: pgGrammar.bodies lkMsgBodyMax x.length false {} x
    else pgGrammar.bodies lkMsgBodyMax x.length (inStartup (c.frame dir) dir) {} x

section
variable {env : Env φ} {ops : ProtoOps φ} {Settled : Dir → ConnFlags → Prop} {g : Grammar π Byte}
  {Phase : π → Frame → Prop}

theorem frameChunk_bodies (he : SinkOk env) (hops : LawfulOps ops Settled)
    (hsp : Speaks ops dir g Phase) (hs : Framed ops dir s) (hset : Settled dir s.2.flags)
    (hat : AtBoundary (s.2.frame dir)) (hph : Phase ph (s.2.frame dir)) (x : List Byte) (ts : Nat) :
    Reports s s (frameChunk env ops s.1 s.2 dir x ts)
      (g.bodies lkMsgBodyMax x.length ph {} x) := by
  rw [frameChunk_settled hops hset]
  exact frameRun_bodies he hops hsp ts s x.length s ph {} x (Nat.le_refl _)
    ⟨hs.wf, hs.slabOk, hset, Grows.refl s⟩ hat hph

theorem pgSslReply_bodies (r : Reasm) (c : FConn φ) (b : Byte) (ts : Nat) :
    traceBodies (pgSslReply env r c b ts).1.trace = traceBodies r.trace ++ [[]] := by
  simp only [pgSslReply, deliver, traceBodies, List.filterMap_append, Reasm.bump]
  rfl

theorem pgChunk_reply_bodies (he : SinkOk env) (hs : Framed (lkProtoPgOps env) .send (r, c))
    (hreply : c.flags.sslReply = true) (hat : AtBoundary (c.frame .send)) (b : Byte) (x : List Byte)
    (ts : Nat) :
    Reports (r, c) (r, c) (frameChunk env (lkProtoPgOps env) r c .send (b :: x) ts)
      ([] :: pgGrammar.bodies lkMsgBodyMax x.length false {} x) := by
  have hops := lkProtoPgOps_lawful he
  obtain ⟨r', c', kept, hi⟩ := hops.intercept_cases r c .send b ts
  have hin := hi.inChunk hs
  have heq := hi.eq x
  simp only [lkProtoPgOps, pgInterceptBytes, hreply, if_true] at heq
  cases kept with
  | none =>
    rw [frameChunk_drop hi]
    exact .inl hi.flawed
  | some k =>
    split at heq
    · simp at heq
    · simp only [Option.map_some, Prod.mk.injEq, Option.some.injEq] at heq
      obtain ⟨rfl, rfl, hk⟩ := heq
      rw [frameChunk_keep hi, ← hk]
      have hf := hi.frame .send
      refine Reports.trans [[]] (pgSslReply_bodies r c b ts)
        (frameRun_bodies he hops (pg_speaks env .send) ts (r, c) x.length _ false {} x
          (Nat.le_refl _) hin ?_ ?_)
      · rw [hf]
        exact hat
      · rw [hf]
        exact ⟨rfl, hat.cont.trans (by cases h : (c.frame .send).prefixClosed with
          | false => rfl
          | true => simpa [lkMsgBodyMax] using hat.closed h)⟩

end

end Latkit
