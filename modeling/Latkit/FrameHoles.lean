import Latkit.FrameChunking
import Latkit.Masked

namespace Latkit
open Chunked (Turn)
open Wire (Reader Ahead Behind captured)

structure Head where
  type : Byte
  len : Nat
  total : Nat
  bodyLen : Nat
  cont : Bool
  seq : Byte
  seq0 : Bool

def Frame.head (f : Frame) : Head :=
  ⟨f.msgType, f.msgLen, f.bodyTotal, f.bodyLen, f.msgCont, f.msgSeq, f.msgSeq0⟩

structure Note where
  type : Byte
  len : Nat
  body : List Byte
  trunc : Bool
  deriving DecidableEq, Repr

def Msg.note (m : Msg) : Note := ⟨m.type, m.len, m.body, m.flags.bodyTrunc⟩

def traceNotes (t : List SinkEvent) : List Note :=
  t.filterMap fun
    | .msg _ _ _ m => some m.note
    | _ => none

/-- Behind the startup phase the vtable reads headers as `rd` does, `view` being what of a header a
continuation depends on, and reports a message that kept `k` as `note`. -/
structure ReadsAs (ops : ProtoOps φ) (dir : Dir) (rd : Reader χ Byte) (view : Head → χ)
    (note : χ → List Byte → Note) : Prop where
  pos : 0 < rd.size
  size : ∀ f, inStartup f dir = false → ops.hdrSize dir f = rd.size
  parse : ∀ f h, inStartup f dir = false →
    rd.read (if f.msgCont then some (view f.head) else none) f.hdr = some h →
    ∃ f', ops.parseHdr dir f = some f' ∧ view f'.head = h ∧ inStartup f' dir = false ∧
      (f'.msgCont = true → 0 < f'.bodyLen)
  len : ∀ f : Frame, rd.len (view f.head) = f.bodyLen
  more : ∀ f : Frame, rd.more (view f.head) = f.msgCont
  emit : ∀ (c : FConn φ) body, inStartup (c.frame dir) dir = false →
    let s := ops.preEmit c dir ((c.frame dir).msg body)
    inStartup (s.1.frame dir) dir = false ∧
      (stampMsg (s.1.frame dir) body s.2).note = note (view (c.frame dir).head) body

def Holds (view : Head → χ) (f : Frame) : Option (χ × List Byte) → Prop
  | none => f.msgCont = false ∧ f.prefixClosed = false ∧ f.buf = []
  | some (h, k) => f.msgCont = true ∧ f.prefixClosed = true ∧ f.buf = k ∧ view f.head = h

/-- The part of a body that is kept in the end, `body` being the cells still to come. -/
def keptBody (f : Frame) (body : List (Option Byte)) : List Byte :=
  if f.prefixClosed then f.buf else (f.buf ++ captured body).take lkMsgBodyMax

def bodyDone (f : Frame) : Nat := if f.prefixClosed then 0 else f.buf.length

/-- The direction is where it should be in a stream whose rest is `z`, and owes the notes `out`. -/
inductive Track (rd : Reader χ Byte) (view : Head → χ) (note : χ → List Byte → Note) (f : Frame) :
    List (Option Byte) → List Note → Prop
  | header (hst : f.st = .header) (hh : f.hdr.length < rd.size) (hK : Holds view f K)
      (hz : Ahead rd lkMsgBodyMax note K (f.hdr.map some ++ z) out) : Track rd view note f z out
  | body (hst : f.st = .body) (hne : body ≠ []) (hl : bodyDone f + body.length = f.bodyLen)
      (hb : f.prefixClosed = false → f.buf.length < lkMsgBodyMax)
      (hz : Behind rd lkMsgBodyMax note (view f.head) (keptBody f body) z out) :
      Track rd view note f (body ++ z) out
  | skip (hst : f.st = .skip) (hne : body ≠ []) (hl : f.skipLeft = body.length) (hh : f.hdr = [])
      (hK : Holds view f K) (hz : Ahead rd lkMsgBodyMax note K z out) :
      Track rd view note f (body ++ z) out

/-- With the cells `z` still to come, the direction will have reported `total`. -/
def Owes (rd : Reader χ Byte) (view : Head → χ) (note : χ → List Byte → Note) (dir : Dir)
    (s : Reasm × FConn φ) (z : List (Option Byte)) (total : List Note) : Prop :=
  inStartup (s.2.frame dir) dir = false ∧
    ∃ out, Track rd view note (s.2.frame dir) z out ∧ traceNotes s.1.trace ++ out = total

theorem Holds.closed_or (h : Holds view f K) : f.prefixClosed = true ∨ f.buf = [] := by
  cases K with
  | none => exact .inr h.2.2
  | some K => exact .inl h.2.1

theorem Holds.glue (h : Holds view f K) :
    (if f.msgCont then some (view f.head) else none) = K.map Prod.fst := by
  cases K with
  | none =>
    rw [h.1]
    rfl
  | some K =>
    obtain ⟨hc, -, -, hv⟩ := h
    rw [hc, hv]
    rfl

theorem Track.not_dirty (h : Track rd view note f z out) : f.st ≠ .dirty := by
  cases h with
  | header hst => simp [hst]
  | body hst => simp [hst]
  | skip hst => simp [hst]

theorem Track.done (h : Track rd view note f [] out) : out = [] := by
  generalize hz : ([] : List (Option Byte)) = z at h
  cases h with
  | header hst hh hK hz' =>
    subst hz
    obtain ⟨-, -, -, hout⟩ | ⟨h₁, _, _, _, hne, heq, -⟩ := hz'.cases_header hh
    · exact hout
    · obtain ⟨h, -⟩ := List.append_eq_nil_iff.1 heq.symm
      exact absurd (List.map_eq_nil_iff.1 h) hne
  | body hst hne => exact absurd (List.append_eq_nil_iff.1 hz.symm).1 hne
  | skip hst hne => exact absurd (List.append_eq_nil_iff.1 hz.symm).1 hne

section
variable {env : Env φ} {ops : ProtoOps φ} {Settled : Dir → ConnFlags → Prop} {rd : Reader χ Byte}
  {view : Head → χ} {note : χ → List Byte → Note}

theorem Track.wf (hrd : ReadsAs ops dir rd view note) (hs : inStartup f dir = false)
    (h : Track rd view note f z out) : FrameWf ops dir f := by
  cases h with
  | header hst hh hK hz => exact .header hst (by rw [hrd.size f hs]; exact hh) hK.closed_or
  | @body body z _ hst hne hl hb hz =>
    have hpos := List.length_pos_iff.2 hne
    refine .body hst (by omega) fun hpc => ?_
    have hlt := hb hpc
    simp only [bodyDone, hpc, Bool.false_eq_true, if_false, bodyTarget] at hl ⊢
    omega
  | @skip body K z _ hst hne hl hh hK hz =>
    exact .skip hst (hl ▸ List.length_pos_iff.2 hne) hh hK.closed_or

theorem Track.skipOver (hst : f.st = .header) (hh : f.hdr = []) (hpos : 0 < rd.size)
    (hK : Holds view f K) (hz : Ahead rd lkMsgBodyMax note K z out) (body : List (Option Byte)) :
    Track rd view note (skipOver body.length f) (body ++ z) out := by
  by_cases hne : body = []
  · subst hne
    exact .header hst (by simpa [Latkit.skipOver, hh] using hpos) hK (by simpa [Latkit.skipOver, hh] using hz)
  · have hlen : body.length ≠ 0 := by simpa using hne
    simp only [Latkit.skipOver, hlen, if_false]
    exact .skip rfl hne rfl hh (by cases K <;> exact hK) hz

theorem Track.closePrefix (hpos : 0 < rd.size) (hc : f.msgCont = true) (q : List Byte)
    (hz : Ahead rd lkMsgBodyMax note (some (view f.head, f.buf ++ q)) z out)
    (body : List (Option Byte)) :
    Track rd view note (closePrefix true q body.length f) (body ++ z) out := by
  apply Track.skipOver rfl rfl hpos (K := some (view f.head, f.buf ++ q)) _ hz
  exact ⟨hc, rfl, rfl, rfl⟩

@[simp] theorem traceNotes_msg (t : List SinkEvent) (cookie : UInt64) (dir : Dir) (fl : ConnFlags)
    (m : Msg) : traceNotes (t ++ [.msg cookie dir fl m]) = traceNotes t ++ [m.note] := by
  simp [traceNotes]

theorem emit_owes (env : Env φ) (hrd : ReadsAs ops dir rd view note) (r : Reasm) (b : List Byte)
    (hs : inStartup (c.frame dir) dir = false) (hz : Ahead rd lkMsgBodyMax note none z out)
    (body : List (Option Byte)) :
    Owes rd view note dir ((emit env ops r c dir b).1, (emit env ops r c dir b).2.updFrame dir
        fun f => skipOver body.length (msgReset f)) (body ++ z)
      (traceNotes r.trace ++ note (view (c.frame dir).head) b :: out) := by
  obtain ⟨hs', hn⟩ := hrd.emit c b hs
  rw [emit_eq]
  simp only [deliver, Owes, updFrame_frame, FConn.frame_mapFlags, FConn.frame_setFrame, Reasm.bump,
    traceNotes_msg, hn]
  refine ⟨?_, out, ?_, by simp⟩
  · simp only [Latkit.skipOver]
    split <;> exact hs'
  · apply Track.skipOver rfl rfl hrd.pos (K := none) _ hz
    exact ⟨rfl, rfl, rfl⟩

def TurnOwes (rd : Reader χ Byte) (view : Head → χ) (note : χ → List Byte → Note) (dir : Dir)
    (ef : ConnFlags) (y : List (Option Byte)) (total : List Note) :
    Turn (Reasm × FConn φ) Byte → Prop
  | .ret s => wentBlind ef s.2 = true ∨ Owes rd view note dir s y total
  | .next s rest => Owes rd view note dir s (rest.map some ++ y) total

theorem afterEmit_blind (ef : ConnFlags) (s : Reasm × FConn φ) (rest : List Byte) :
    (∃ t, afterEmit ef s rest = .ret t ∧ wentBlind ef t.2 = true) ∨
      afterEmit ef s rest = .next s rest := by
  by_cases hw : wentBlind ef s.2 = true
  · left
    simp only [afterEmit, hw, if_true]
    exact ⟨_, rfl, hw⟩
  · right
    simp only [afterEmit, hw]
    rfl

theorem afterEmit_owes (ef : ConnFlags) (h : Owes rd view note dir s (rest.map some ++ y) total) :
    TurnOwes rd view note dir ef y total (afterEmit ef s rest) := by
  obtain ⟨t, ht, hw⟩ | ht := afterEmit_blind ef s rest
  · rw [ht]
    exact .inl hw
  · rw [ht]
    exact h

theorem headerEnd_owes (env : Env φ) (hops : LawfulOps ops Settled) (hrd : ReadsAs ops dir rd view note)
    (ef : ConnFlags) (r : Reasm) (c : FConn φ) (hs : inStartup f dir = false)
    (hK : Holds view f K) (hread : rd.read (K.map Prod.fst) f.hdr = some h) (hl : body.length = rd.len h)
    (hz : Behind rd lkMsgBodyMax note h ((K.map Prod.snd).getD ((captured body).take lkMsgBodyMax)) z out)
    (heq : rest.map some ++ y = body ++ z) :
    TurnOwes rd view note dir ef y (traceNotes r.trace ++ out)
      (headerEnd env ops ef dir r c f rest) := by
  rw [← hK.glue] at hread
  obtain ⟨g, hparse, rfl, hs', hpos⟩ := hrd.parse f h hs hread
  obtain ⟨-, hbuf, hpc⟩ := hops.parseHdr_keeps _ _ _ hparse
  have hkept : (K.map Prod.snd).getD ((captured body).take lkMsgBodyMax) = keptBody g body := by
    cases K with
    | none =>
      obtain ⟨-, h₁, h₂⟩ := hK
      simp [keptBody, hpc, h₁, hbuf, h₂]
    | some K =>
      obtain ⟨-, h₁, h₂, -⟩ := hK
      simp [keptBody, hpc, h₁, hbuf, h₂]
  have hclosed : g.prefixClosed = true ∨ g.buf = [] := by
    rw [hpc, hbuf]
    exact hK.closed_or
  rw [hkept] at hz
  rw [hrd.len] at hl
  simp only [headerEnd, hparse]
  by_cases hb : g.bodyLen = 0
  · have hnil : body = [] := List.length_eq_zero_iff.1 (hl.trans hb)
    subst hnil
    have hbuf' : keptBody g [] = g.buf := by
      rcases hclosed with h | h
      · simp [keptBody, h]
      · simp [keptBody, h, captured]
    rw [hbuf'] at hz
    cases hz with
    | more hm hz =>
      rw [hrd.more] at hm
      exact absurd hb (Nat.ne_of_gt (hpos hm))
    | last hm hz =>
      rw [if_pos hb]
      have he := emit_owes (c := c.setFrame dir g) env hrd r g.buf (by simpa using hs') hz []
      apply afterEmit_owes
      rw [heq]
      simpa [Latkit.skipOver] using he
  · rw [if_neg hb]
    refine ⟨by simpa [inStartup] using hs', out, ?_, rfl⟩
    rw [FConn.frame_setFrame, heq]
    refine .body rfl (by rintro rfl; exact hb hl.symm) ?_ ?_ hz
    · have hdone : bodyDone g = 0 := by
        rcases hclosed with h | h <;> simp [bodyDone, h]
      change bodyDone g + body.length = g.bodyLen
      omega
    · intro hopen
      rw [show g.buf = [] from hclosed.resolve_left (by simpa using hopen)]
      decide

theorem takeHdr_holds (ts : Nat) (q : List Byte) (hK : Holds view f K) :
    Holds view (takeHdr ts f q) K := by
  cases K <;> exact hK

theorem headerTurn_owes (env : Env φ) (hops : LawfulOps ops Settled)
    (hrd : ReadsAs ops dir rd view note) (ef : ConnFlags) (ts : Nat) (r : Reasm)
    (hs : inStartup (c.frame dir) dir = false) (hst : (c.frame dir).st = .header)
    (hh : (c.frame dir).hdr.length < rd.size) (hK : Holds view (c.frame dir) K)
    (hz : Ahead rd lkMsgBodyMax note K ((c.frame dir).hdr.map some ++ (p.map some ++ y)) out)
    (hp : p ≠ []) :
    TurnOwes rd view note dir ef y (traceNotes r.trace ++ out)
      (headerTurn env ops ef dir ts r c p) := by
  have hrem : hdrRem ops dir (c.frame dir) = rd.size - (c.frame dir).hdr.length := by
    rw [hdrRem, hrd.size _ hs]
  simp only [headerTurn, hrem]
  by_cases hlt : p.length < rd.size - (c.frame dir).hdr.length
  · rw [if_pos hlt]
    refine .inr ⟨by simpa [inStartup, takeHdr] using hs, out, ?_, rfl⟩
    rw [FConn.frame_setFrame]
    refine .header hst ?_ (takeHdr_holds ts p hK) ?_
    · simp only [takeHdr, List.length_append]
      omega
    · simpa [takeHdr] using hz
  · rw [if_neg hlt]
    obtain ⟨-, hnil, -⟩ | ⟨h₁, hd, body, z, -, heq, hlen, hread, hl, hz⟩ := hz.cases_header hh
    · simp [hp] at hnil
    rw [List.length_append] at hlen
    have hh₁ : rd.size - (c.frame dir).hdr.length = h₁.length := by omega
    rw [hh₁] at hlt ⊢
    obtain ⟨he, hrest⟩ := Wire.take_of_append_eq heq h₁.length (by omega) (by simp)
    have htake : p.take h₁.length = h₁ := by
      rw [List.drop_of_length_le (by simp), List.append_nil] at he
      exact ((List.map_inj_right fun _ _ => Option.some.inj).1 he).symm
    rw [htake]
    apply headerEnd_owes env hops hrd ef r c _ (takeHdr_holds ts h₁ hK) hread hl hz
    · rw [hrest, List.drop_of_length_le (by simp)]
      rfl
    · simpa [inStartup, takeHdr] using hs

theorem keptBody_take {p : List Byte} {body : List (Option Byte)} (hne : body ≠ [])
    (hl : bodyDone f + body.length = f.bodyLen)
    (hb : f.prefixClosed = false → f.buf.length < lkMsgBodyMax)
    (heq : p.map some ++ y = body ++ z) (hp : bodyRem f ≤ p.length) :
    keptBody f body = f.buf ++ p.take (bodyRem f) ∧
      f.bodyLen - (if f.prefixClosed then 0 else f.buf.length + bodyRem f) =
        (body.drop (bodyRem f)).length ∧
      (p.drop (bodyRem f)).map some ++ y = body.drop (bodyRem f) ++ z := by
  have hpos := List.length_pos_iff.2 hne
  cases hpc : f.prefixClosed with
  | true =>
    simp only [bodyDone, bodyRem, hpc, keptBody, if_true] at hl ⊢
    exact ⟨by simp, by simpa using by omega, by simpa using heq⟩
  | false =>
    have hlt := hb hpc
    simp only [bodyDone, bodyRem, hpc, keptBody, Bool.false_eq_true, if_false, bodyTarget] at hl hp ⊢
    generalize hn : min f.bodyLen lkMsgBodyMax - f.buf.length = n at hp ⊢
    have hle : n ≤ body.length := by omega
    obtain ⟨he, hrest⟩ := Wire.take_of_append_eq heq n hp hle
    refine ⟨?_, by rw [List.length_drop]; omega, hrest⟩
    rw [he, Wire.captured_some_append, ← List.append_assoc]
    by_cases hlong : f.buf.length + n = lkMsgBodyMax
    · rw [List.take_append_of_le_length (by simp; omega), List.take_of_length_le (by simp; omega)]
    · rw [List.drop_of_length_le (by omega), Wire.captured_nil, List.append_nil,
        List.take_of_length_le (by simp; omega)]

theorem Track.spill {p : List Byte} {body : List (Option Byte)} (hst : f.st = .body)
    (hl : bodyDone f + body.length = f.bodyLen)
    (hz : Behind rd lkMsgBodyMax note (view f.head) (keptBody f body) z out)
    (heq : p.map some ++ y = body ++ z) (hp : p.length < bodyRem f) :
    Track rd view note (spill p f) y out := by
  have hpc := prefixClosed_of_bodyRem hp
  simp only [bodyRem, hpc, Bool.false_eq_true, if_false, bodyTarget, bodyDone] at hp hl
  obtain ⟨he, hrest⟩ := Wire.take_of_append_eq heq p.length (Nat.le_refl _) (by omega)
  rw [List.drop_length] at hrest
  rw [show y = body.drop p.length ++ z from hrest]
  refine .body hst ?_ ?_ ?_ ?_
  · intro hnil
    have := congrArg List.length hnil
    simp only [List.length_drop, List.length_nil] at this
    omega
  · simp only [bodyDone, Latkit.spill, hpc, Bool.false_eq_true, if_false, List.length_append,
      List.length_drop]
    omega
  · intro _
    simp only [Latkit.spill, List.length_append]
    omega
  · have hk : keptBody (Latkit.spill p f) (body.drop p.length) = keptBody f body := by
      simp only [keptBody, Latkit.spill, hpc, Bool.false_eq_true, if_false]
      rw [List.append_assoc, ← Wire.captured_some_append]
      rw [List.take_length] at he
      rw [← he]
    rw [hk]
    exact hz

theorem bodyTurn_owes (env : Env φ) (hrd : ReadsAs ops dir rd view note) (ef : ConnFlags)
    (hslab : r.slabOk = true) (hs : inStartup (c.frame dir) dir = false)
    (hst : (c.frame dir).st = .body) {body : List (Option Byte)} (hne : body ≠ [])
    (hl : bodyDone (c.frame dir) + body.length = (c.frame dir).bodyLen)
    (hb : (c.frame dir).prefixClosed = false → (c.frame dir).buf.length < lkMsgBodyMax)
    (hz : Behind rd lkMsgBodyMax note (view (c.frame dir).head) (keptBody (c.frame dir) body) z out)
    (heq : p.map some ++ y = body ++ z) :
    TurnOwes rd view note dir ef y (traceNotes r.trace ++ out)
      (bodyTurn env ops ef dir r c p) := by
  simp only [bodyTurn, hslab, true_or, if_true]
  by_cases hlt : p.length < bodyRem (c.frame dir)
  · rw [if_pos hlt]
    refine .inr ⟨by simpa [inStartup, spill] using hs, out, ?_, rfl⟩
    rw [updFrame_frame]
    exact Track.spill hst hl hz heq hlt
  · rw [if_neg hlt]
    obtain ⟨hkept, hskip, hrest⟩ := keptBody_take hne hl hb heq (Nat.le_of_not_lt hlt)
    rw [hkept] at hz
    simp only [bodyEnd, hskip]
    cases hz with
    | more hm hz =>
      rw [hrd.more] at hm
      rw [if_pos hm, hslab]
      refine ⟨?_, out, ?_, rfl⟩
      · rw [updFrame_frame]
        simp only [closePrefix, skipOver]
        split <;> exact hs
      · rw [updFrame_frame, hrest]
        exact Track.closePrefix hrd.pos hm _ hz _
    | last hm hz =>
      rw [hrd.more] at hm
      rw [if_neg (by simp [hm])]
      apply afterEmit_owes
      rw [hrest]
      exact emit_owes env hrd r _ hs hz _

theorem skipped_track {body : List (Option Byte)} (hpos : 0 < rd.size) (hst : f.st = .skip)
    (hl : f.skipLeft = body.length) (hh : f.hdr = [])
    (hK : Holds view f K) (hz : Ahead rd lkMsgBodyMax note K z out) (n : Nat) :
    Track rd view note (skipped n f) (body.drop n ++ z) out := by
  have hK' : Holds view (skipped n f) K := by cases K <;> exact hK
  by_cases hle : body.length ≤ n
  · rw [List.drop_of_length_le hle]
    apply Track.header _ _ hK'
    · simpa [skipped, hh] using hz
    · simp [skipped, hl, hle]
    · simpa [skipped, hh] using hpos
  · refine .skip ?_ ?_ ?_ hh hK' hz
    · simp [skipped, hl, hle, hst]
    · simpa using hle
    · simp [skipped, hl]

theorem frameTurn_owes (env : Env φ) (hops : LawfulOps ops Settled)
    (hrd : ReadsAs ops dir rd view note) (ef : ConnFlags) (ts : Nat) (hslab : s.1.slabOk = true)
    (h : Owes rd view note dir s (p.map some ++ y) total) (hp : p ≠ []) :
    TurnOwes rd view note dir ef y total (frameTurn env ops ef dir ts s p) := by
  obtain ⟨r, c⟩ := s
  obtain ⟨hs, out, ht, rfl⟩ := h
  generalize heq : p.map some ++ y = x at ht
  cases ht with
  | header hst hh hK hz =>
    subst heq
    simp only [frameTurn, hst]
    exact headerTurn_owes env hops hrd ef ts r hs hst hh hK hz hp
  | body hst hne hl hb hz =>
    simp only [frameTurn, hst]
    exact bodyTurn_owes env hrd ef hslab hs hst hne hl hb hz heq
  | @skip body K z _ hst hne hl hh hK hz =>
    simp only [frameTurn, hst, skipTurn]
    have hrest := Wire.drop_append_comm heq
    rw [List.length_map, ← List.map_drop, ← hl] at hrest
    refine ⟨?_, out, ?_, rfl⟩
    · rw [updFrame_frame]
      exact hs
    · rw [updFrame_frame, hrest]
      exact skipped_track hrd.pos hst hl hh hK hz p.length

theorem frameChunk_owes (he : SinkOk env) (hops : LawfulOps ops Settled)
    (hrd : ReadsAs ops dir rd view note) (hslab : s.1.slabOk = true) (hset : Settled dir s.2.flags)
    (p : List Byte) (ts : Nat) (h : Owes rd view note dir s (p.map some ++ y) total) :
    wentBlind s.2.flags (frameChunk env ops s.1 s.2 dir p ts).2 = true ∨
      Owes rd view note dir (frameChunk env ops s.1 s.2 dir p ts) y total := by
  rw [frameChunk_settled hops hset]
  have hprog := frameTurn_progress he hops s.2.flags dir ts s
  have hin : InChunk ops Settled dir s s := by
    obtain ⟨hs, out, ht, -⟩ := h
    exact ⟨ht.wf hrd hs, hslab, hset, Grows.refl s⟩
  refine hprog.run_induct (motive := fun s' p' t => Owes rd view note dir s' (p'.map some ++ y) total →
    wentBlind s.2.flags t.2 = true ∨ Owes rd view note dir t y total) ?_ ?_ ?_ hin p h
  · intro s' _ h'
    exact .inr h'
  · intro s' p' t hok hp ht h'
    have hturn := frameTurn_owes env hops hrd s.2.flags ts hok.slabOk h' hp
    rw [ht] at hturn
    exact hturn
  · intro s' p' t rest hok hp ht _ ih h'
    have hturn := frameTurn_owes env hops hrd s.2.flags ts hok.slabOk h' hp
    rw [ht] at hturn
    exact ih hturn

theorem keptBody_lost {body : List (Option Byte)} (hne : body ≠ [])
    (hb : f.prefixClosed = false → f.buf.length < lkMsgBodyMax) (heq : none :: x = body ++ z) :
    keptBody f body = f.buf := by
  have hnil := Wire.captured_lost heq.symm hne
  cases hpc : f.prefixClosed with
  | true => simp [keptBody, hpc]
  | false =>
    simp only [keptBody, hpc, hnil, List.append_nil, Bool.false_eq_true, if_false]
    exact List.take_of_length_le (Nat.le_of_lt (hb hpc))

theorem holeBody_owes (env : Env φ) (hrd : ReadsAs ops dir rd view note) (ef : ConnFlags)
    (hslab : r.slabOk = true) (hs : inStartup (c.frame dir) dir = false)
    {body : List (Option Byte)} (hne : body ≠ [])
    (hb : (c.frame dir).prefixClosed = false → (c.frame dir).buf.length < lkMsgBodyMax)
    (hz : Behind rd lkMsgBodyMax note (view (c.frame dir).head) (keptBody (c.frame dir) body) z out)
    (heq : List.replicate (n + 1) none ++ y = body ++ z) :
    let t := holeBody env ops ef dir r c body.length (min body.length (n + 1))
    (∃ s, t = .ret s ∧ wentBlind ef s.2 = true) ∨
      ∃ s, t = .next s [] ∧ s.1.slabOk = true ∧
        Owes rd view note dir s (List.replicate (n + 1 - body.length) none ++ y)
          (traceNotes r.trace ++ out) := by
  intro t
  rw [keptBody_lost hne hb heq] at hz
  have hrest := Wire.drop_append_comm heq
  rw [List.length_replicate, List.drop_replicate] at hrest
  have hskip : body.length - min body.length (n + 1) = (body.drop (n + 1)).length := by
    rw [List.length_drop]
    omega
  simp only [t, holeBody, hskip]
  cases hz with
  | more hm hz =>
    rw [hrd.more] at hm
    rw [if_pos hm, hslab]
    refine .inr ⟨_, rfl, hslab, ?_, out, ?_, rfl⟩
    · rw [updFrame_frame]
      simp only [closePrefix, skipOver]
      split <;> exact hs
    · rw [updFrame_frame, hrest]
      exact Track.closePrefix hrd.pos hm [] (by simpa using hz) _
  | last hm hz =>
    rw [hrd.more] at hm
    rw [if_neg (by simp [hm])]
    apply (afterEmit_blind ef _ []).imp_right
    intro ht
    refine ⟨_, ht, hslab, ?_⟩
    rw [hrest]
    exact emit_owes env hrd r _ hs hz _

theorem holeLoop_owes (env : Env φ) (hrd : ReadsAs ops dir rd view note) (ef : ConnFlags)
    (fuel : Nat) (hn : n ≤ fuel) (hslab : s.1.slabOk = true)
    (h : Owes rd view note dir s (List.replicate n none ++ y) total) :
    wentBlind ef (holeLoop env ops ef dir fuel s n).2 = true ∨
      Owes rd view note dir (holeLoop env ops ef dir fuel s n) y total := by
  induction fuel generalizing s n with
  | zero =>
    obtain rfl := Nat.le_zero.1 hn
    exact .inr h
  | succ fuel ih =>
    cases n with
    | zero => exact .inr h
    | succ n =>
      obtain ⟨r, c⟩ := s
      obtain ⟨hs, out, ht, rfl⟩ := h
      generalize heq : List.replicate (n + 1) none ++ y = x at ht
      cases ht with
      | header hst hh hK hz =>
        subst heq
        -- the next cell of a header is captured
        obtain ⟨-, hnil, -⟩ | ⟨h₁, _, _, _, hne, heq, -⟩ := hz.cases_header hh
        · cases hnil
        · cases h₁ with
          | nil => exact absurd rfl hne
          | cons b h₁ => cases heq
      | @body body z _ hst hne hl hb hz =>
        have hpos := List.length_pos_iff.2 hne
        have hrem : (c.frame dir).bodyLen -
            (if (c.frame dir).prefixClosed then 0 else (c.frame dir).buf.length) = body.length := by
          rw [← hl, bodyDone, Nat.add_sub_cancel_left]
        simp only [holeLoop, hst, hrem]
        obtain ⟨s', ht, hw⟩ | ⟨s', ht, hslab', ho⟩ := holeBody_owes env hrd ef hslab hs hne hb hz heq
        · rw [ht]
          exact .inl hw
        · rw [ht]
          have htake : n + 1 - min body.length (n + 1) = n + 1 - body.length := by omega
          rw [← htake] at ho
          exact ih (by omega) hslab' ho
      | @skip body K z _ hst hne hl hh hK hz =>
        have hpos := List.length_pos_iff.2 hne
        simp only [holeLoop, hst, hl]
        have hrest := Wire.drop_append_comm heq
        rw [List.length_replicate, List.drop_replicate] at hrest
        refine ih (s := (r, c.updFrame dir (skipped (n + 1)))) (by omega) hslab ⟨?_, out, ?_, rfl⟩
        · rw [updFrame_frame]
          exact hs
        · rw [updFrame_frame, hrest]
          exact skipped_track hrd.pos hst hl hh hK hz (n + 1)

end

end Latkit
