import Latkit.ChunkingInvariance
import Latkit.WireMsg

namespace Latkit
open Chunked (Turn)

/-! A MySQL payload of any length is one message, whatever the fragments it is sent in and the chunks they come in. -/

/-- A payload as it is sent: maximal fragments with consecutive sequence ids, and a shorter one. -/
def myPackets (seq : Byte) (payload : List Byte) : List Byte :=
  if payload.length < myPktMax then le24Bytes payload.length ++ [seq] ++ payload
  else
    le24Bytes myPktMax ++ [seq] ++
      (payload.take myPktMax ++ myPackets (seq + 1) (payload.drop myPktMax))
termination_by payload.length
decreasing_by
  simp only [List.length_drop, myPktMax] at *
  omega

/-- What follows a fragment of `len` bytes, `tail` being the payload behind it. -/
def FragmentTail (seq : Byte) (len : Nat) (tail more : List Byte) : Prop :=
  if len = myPktMax then more = myPackets (seq + 1) tail else tail = [] ∧ more = []

theorem myPackets_fragment (seq : Byte) (payload : List Byte) :
    ∃ frag tail more, payload = frag ++ tail ∧ frag.length ≤ myPktMax ∧
      myPackets seq payload = le24Bytes frag.length ++ [seq] ++ (frag ++ more) ∧
      FragmentTail seq frag.length tail more := by
  rw [myPackets]
  split
  · next hlt =>
    refine ⟨payload, [], [], by simp, Nat.le_of_lt hlt, by simp, ?_⟩
    rw [FragmentTail, if_neg (Nat.ne_of_lt hlt)]
    exact ⟨rfl, rfl⟩
  · next hge =>
    have hlen : (payload.take myPktMax).length = myPktMax := by
      rw [List.length_take, Nat.min_eq_left (Nat.le_of_not_lt hge)]
    refine ⟨payload.take myPktMax, payload.drop myPktMax, myPackets (seq + 1) (payload.drop myPktMax),
      by simp, Nat.le_of_eq hlen, by rw [hlen], ?_⟩
    rw [FragmentTail, hlen, if_pos rfl]

/-- The fragments in `done` are glued, and the next header has `seq`; `first` is the sequence id of
the message. -/
structure Gluing (f : Frame) (first seq : Byte) (done : List Byte) : Prop where
  cont : f.msgCont = !done.isEmpty
  closed : f.prefixClosed = f.msgCont
  buf : f.buf = done.take lkMsgBodyMax
  start : done = [] → seq = first
  long : done ≠ [] → lkMsgBodyMax ≤ done.length
  total : done ≠ [] → f.bodyTotal = min done.length (2 ^ 32 - 1)
  type : done ≠ [] → f.msgType = 0
  next : done ≠ [] → f.msgSeq = seq
  seq0 : done ≠ [] → f.msgSeq0 = (first == 0)

structure Opened (f : Frame) (first seq : Byte) (done : List Byte) (len : Nat) : Prop where
  cont : f.msgCont = (len == myPktMax)
  closed : f.prefixClosed = !done.isEmpty
  long : done ≠ [] → lkMsgBodyMax ≤ done.length
  bodyLen : f.bodyLen = len
  total : f.bodyTotal = min (done.length + len) (2 ^ 32 - 1)
  len : f.msgLen = f.bodyTotal
  type : f.msgType = 0
  next : f.msgSeq = seq + 1
  seq0 : f.msgSeq0 = (first == 0)

theorem satAdd32_min (a b : Nat) : satAdd32 (min a (2 ^ 32 - 1)) b = min (a + b) (2 ^ 32 - 1) := by
  simp only [satAdd32]
  omega

theorem Gluing.parse (h : Gluing f first seq done) (dir : Dir) (hlen : len ≤ myPktMax)
    (hdr : f.hdr = le24Bytes len ++ [seq]) :
    ∃ f', myParseHdr dir f = some f' ∧ Opened f' first seq done len ∧ f'.buf = f.buf ∧
      f'.startupDone = f.startupDone := by
  have hle : le24 f.hdr = len := by
    rw [hdr]
    exact le24_le24Bytes (by simp only [myPktMax] at hlen; omega) seq
  have hseq : f.hdr.getD 3 0 = seq := by rw [hdr]; rfl
  have hclosed := h.closed.trans h.cont
  by_cases hd : done = []
  · have hcont : f.msgCont = false := by rw [h.cont, hd]; rfl
    simp only [myParseHdr, hcont, hle, hseq, Bool.false_eq_true, if_false]
    refine ⟨_, rfl, ⟨rfl, hclosed, h.long, rfl, ?_, rfl, rfl, rfl, by rw [h.start hd]⟩, rfl, rfl⟩
    simp only [hd, List.length_nil, Nat.zero_add, myPktMax] at hlen ⊢
    omega
  · have hcont : f.msgCont = true := by rw [h.cont]; simp [hd]
    simp only [myParseHdr, hcont, hle, hseq, h.next hd, if_true, ne_eq, not_true, if_false, h.total hd,
      satAdd32_min]
    exact ⟨_, rfl, ⟨rfl, hclosed, h.long, rfl, rfl, rfl, h.type hd, rfl, h.seq0 hd⟩, rfl, rfl⟩

/-- Where the direction is in the message of `payload`, with `rest` still to come. -/
inductive Along (f : Frame) (first : Byte) (payload : List Byte) : List Byte → Prop
  | header (hst : f.st = .header) (hlt : f.hdr.length < 4) (hg : Gluing f first seq done)
      (hp : payload = done ++ todo) (hrest : f.hdr ++ rest = myPackets seq todo) :
      Along f first payload rest
  | body (hst : f.st = .body) (ho : Opened f first seq done (frag ++ ahead).length)
      (hp : payload = done ++ (frag ++ ahead) ++ tail) (hbuf : f.buf = (done ++ frag).take lkMsgBodyMax)
      (htaken : done ≠ [] → frag = []) (hkept : done = [] → frag.length < lkMsgBodyMax) (hne : ahead ≠ [])
      (hmore : FragmentTail seq (frag ++ ahead).length tail more) : Along f first payload (ahead ++ more)
  | skip (hst : f.st = .skip) (hhdr : f.hdr = []) (hg : Gluing f first seq done)
      (hp : payload = done ++ todo) (hleft : f.skipLeft = past.length) (hne : past ≠ []) :
      Along f first payload (past ++ myPackets seq todo)

structure Reported (r : Reasm) (c : FConn φ) (dir : Dir) (first : Byte) (payload : List Byte)
    (s : Reasm × FConn φ) : Prop where
  one : ∃ fl m, s.1.trace = r.trace ++ [.msg c.cookie dir fl m] ∧ m.len = min payload.length (2 ^ 32 - 1) ∧
    m.body = payload.take lkMsgBodyMax ∧
    m.type = if dir = .recv ∧ c.recv.startupDone = true ∧ first = 0 then payload.getD 0 0 else 0
  ops : s.2.ops = c.ops

def Ended (f : Frame) (rest : List Byte) : Prop :=
  f.st = .header ∧ rest = [] ∨ f.st = .skip ∧ rest.length ≤ f.skipLeft

theorem myPacket_keeps (c : FConn φ) (dir : Dir) (m : Msg) :
    let cm := myPacket c dir m
    cm.1.ops = c.ops ∧ cm.1.cookie = c.cookie ∧ cm.2.len = m.len ∧ cm.2.body = m.body ∧
      cm.2.type = if dir = .recv ∧ c.recv.startupDone = true ∧ c.recv.msgSeq0 = true ∧ m.body ≠ [] then
        m.body.getD 0 0 else m.type := by
  cases dir with
  | send =>
    simp only [myPacket, reduceCtorEq, false_and, if_false, and_self, and_true]
    split <;> exact ⟨rfl, rfl⟩
  | recv =>
    cases hs : c.recv.startupDone with
    | false =>
      simp only [myPacket, hs, Bool.not_false, if_true, myFirstPacket, Bool.false_eq_true, false_and,
        and_false, if_false, and_self, and_true]
      repeat' split
      all_goals exact ⟨rfl, rfl⟩
    | true =>
      simp only [myPacket, hs, Bool.not_true, Bool.false_eq_true, if_false, true_and]
      split <;> exact ⟨rfl, rfl, rfl⟩

theorem myNoteCommand_keeps (c : FConn φ) (dir : Dir) :
    (myNoteCommand c dir).ops = c.ops ∧ (myNoteCommand c dir).cookie = c.cookie ∧
      (myNoteCommand c dir).recv = c.recv := by
  simp only [myNoteCommand]
  split <;> exact ⟨rfl, rfl, rfl⟩

theorem myPreEmit_keeps (c : FConn φ) (dir : Dir) (f : Frame) (body : List Byte) :
    let cm := myPreEmit c dir (f.msg body)
    cm.1.ops = c.ops ∧ cm.1.cookie = c.cookie ∧ cm.2.len = f.msgLen ∧ cm.2.body = body ∧
      cm.2.type = if dir = .recv ∧ c.recv.startupDone = true ∧ c.recv.msgSeq0 = true ∧ body ≠ [] then
        body.getD 0 0 else f.msgType := by
  obtain ⟨hops, hcookie, hrecv⟩ := myNoteCommand_keeps c dir
  obtain ⟨htype, hlen, hbody, -⟩ := myStampStartup_keeps (myNoteCommand c dir) f body
  have h := myPacket_keeps (myNoteCommand c dir) dir (myStampStartup (myNoteCommand c dir) (f.msg body))
  rw [hops, hcookie, hrecv, hlen, hbody, htype] at h
  exact h

theorem emit_reported (env : Env φ) (r : Reasm) (hlen : f.msgLen = min payload.length (2 ^ 32 - 1))
    (htype : f.msgType = 0) (hseq0 : f.msgSeq0 = (first == 0))
    (hstart : f.startupDone = (c.frame dir).startupDone) (hbody : body = payload.take lkMsgBodyMax) :
    Reported r c dir first payload (emit env lkProtoMyOps r (c.setFrame dir f) dir body) := by
  obtain ⟨hops, hcookie, hl, hb, ht⟩ := myPreEmit_keeps (c.setFrame dir f) dir f body
  rw [FConn.setFrame_cookie] at hcookie
  rw [FConn.setFrame_ops] at hops
  rw [emit_eq, FConn.frame_setFrame]
  refine ⟨⟨(myPreEmit (c.setFrame dir f) dir (f.msg body)).1.flags,
    stampMsg ((myPreEmit (c.setFrame dir f) dir (f.msg body)).1.frame dir) body
      (myPreEmit (c.setFrame dir f) dir (f.msg body)).2, ?_, hl.trans hlen, hb.trans hbody, ?_⟩, ?_⟩
  · rw [← hcookie]
    rfl
  · refine ht.trans ?_
    cases dir with
    | send => simp [htype]
    | recv =>
      have hhead : body.getD 0 0 = payload.getD 0 0 := by
        rw [hbody]
        cases payload <;> rfl
      have hnil : body = [] → payload.getD 0 0 = 0 := by
        intro h
        rw [← hhead, h]
        rfl
      have hs : f.startupDone = c.recv.startupDone := hstart
      simp only [FConn.setFrame, hs, hseq0, htype, true_and, hhead, beq_iff_eq]
      by_cases hbn : body = []
      · simp only [hnil hbn, hbn, ne_eq, not_true, and_false, ite_self]
      · simp only [hbn, ne_eq, not_false_eq_true, and_true]
  · rw [← hops]
    simp only [deliver, FConn.mapFlags_ops, FConn.setFrame_ops]
    rfl

def Going (r : Reasm) (c : FConn φ) (dir : Dir) (first : Byte) (payload : List Byte) (s : Reasm × FConn φ)
    (rest : List Byte) : Prop :=
  (∃ f, s = (r, c.setFrame dir f) ∧ f.startupDone = (c.frame dir).startupDone ∧ Along f first payload rest) ∨
    Reported r c dir first payload s ∧ Ended (s.2.frame dir) rest

def turnCost (dir : Dir) (s : Reasm × FConn φ) : Nat := if (s.2.frame dir).st = .body then 1 else 0

theorem turnCost_le (dir : Dir) (s : Reasm × FConn φ) : turnCost dir s ≤ 1 := by
  rw [turnCost]
  split <;> omega

def TurnGoing (r : Reasm) (c : FConn φ) (dir : Dir) (first : Byte) (payload : List Byte) (cost : Nat)
    (q : List Byte) : Turn (Reasm × FConn φ) Byte → Prop
  | .ret s => Going r c dir first payload s q
  | .next s rest => Going r c dir first payload s (rest ++ q) ∧ 2 * rest.length + turnCost dir s < cost

theorem Ended.behind (h : Ended f (p ++ q)) : Ended f q := by
  obtain ⟨hst, hnil⟩ | ⟨hst, hle⟩ := h
  · exact .inl ⟨hst, (List.append_eq_nil_iff.mp hnil).2⟩
  · rw [List.length_append] at hle
    exact .inr ⟨hst, by omega⟩

theorem ended_skipOver (f : Frame) (rest : List Byte) : Ended (skipOver rest.length (msgReset f)) rest := by
  rw [skipOver]
  split
  · next h => exact .inl ⟨rfl, List.length_eq_zero_iff.mp h⟩
  · exact .inr ⟨rfl, Nat.le_refl _⟩

theorem afterEmit_going (ef : ConnFlags) {s : Reasm × FConn φ} (h : Reported r c dir first payload s)
    (hk : (rest ++ q).length = k) (hcost : 2 * rest.length < cost) :
    TurnGoing r c dir first payload cost q
      (afterEmit ef (s.1, s.2.updFrame dir fun f => skipOver k (msgReset f)) rest) := by
  have hended : Ended ((s.2.updFrame dir fun f => skipOver k (msgReset f)).frame dir) (rest ++ q) := by
    rw [updFrame_frame, ← hk]
    exact ended_skipOver _ _
  have hops : (s.2.updFrame dir fun f => skipOver k (msgReset f)).ops = c.ops := by
    rw [← h.ops]
    exact FConn.setFrame_ops ..
  rw [afterEmit]
  split
  · exact .inr ⟨⟨h.one, hops⟩, hended.behind⟩
  · refine ⟨.inr ⟨⟨h.one, hops⟩, hended⟩, ?_⟩
    have hbody : turnCost dir (s.1, s.2.updFrame dir fun f => skipOver k (msgReset f)) = 0 := by
      rw [turnCost, if_neg]
      intro hst
      obtain ⟨hst', -⟩ | ⟨hst', -⟩ := hended
      · cases hst.symm.trans hst'
      · cases hst.symm.trans hst'
    omega

theorem Gluing.takeHdr (h : Gluing f first seq done) (ts : Nat) (p : List Byte) :
    Gluing (takeHdr ts f p) first seq done :=
  ⟨h.cont, h.closed, h.buf, h.start, h.long, h.total, h.type, h.next, h.seq0⟩

theorem headerEnd_going (env : Env φ) (ef : ConnFlags) (r : Reasm) (c : FConn φ)
    (hs : f.startupDone = (c.frame dir).startupDone) (hg : Gluing f first seq done)
    (hlen : frag.length ≤ myPktMax) (hhdr : f.hdr = le24Bytes frag.length ++ [seq])
    (hmore : FragmentTail seq frag.length tail more) (hrest : rest ++ q = frag ++ more)
    (hcost : 2 * rest.length + 1 < cost) :
    TurnGoing r c dir first (done ++ (frag ++ tail)) cost q
      (headerEnd env lkProtoMyOps ef dir r (c.setFrame dir g) f rest) := by
  obtain ⟨f', hparse, ho, hbuf, hstart⟩ := hg.parse dir hlen hhdr
  have hparse' : (lkProtoMyOps : ProtoOps φ).parseHdr dir f = some f' := hparse
  simp only [headerEnd, hparse', FConn.setFrame_setFrame, ho.bodyLen]
  split
  · next hzero =>
    obtain rfl := List.length_eq_zero_iff.mp hzero
    obtain ⟨rfl, rfl⟩ : tail = [] ∧ more = [] := by simpa [FragmentTail, myPktMax] using hmore
    have htotal : f'.msgLen = min (done ++ ([] ++ [])).length (2 ^ 32 - 1) := by
      rw [ho.len, ho.total]
      simp
    have hbody : f'.buf = (done ++ ([] ++ [])).take lkMsgBodyMax := by
      rw [hbuf, hg.buf]
      simp
    have hrep := emit_reported env r htotal ho.type ho.seq0 (hstart.trans hs) hbody
    exact afterEmit_going (k := 0) ef hrep (congrArg List.length hrest) (by omega)
  · next hpos =>
    refine ⟨.inl ⟨_, rfl, hstart.trans hs, ?_⟩, ?_⟩
    · rw [hrest]
      have ho' : Opened { f' with st := .body, bodyLen := frag.length } first seq done (([] : List Byte) ++ frag).length :=
        ⟨ho.cont, ho.closed, ho.long, rfl, ho.total, ho.len, ho.type, ho.next, ho.seq0⟩
      refine .body rfl ho' (List.append_assoc ..).symm ?_ (fun _ => rfl) ?_ ?_ hmore
      · rw [List.append_nil, ← hg.buf]
        exact hbuf
      · intro _
        decide
      · exact fun h => hpos (congrArg List.length h)
    · rw [turnCost, FConn.frame_setFrame]
      exact hcost

theorem headerTurn_going (env : Env φ) (ef : ConnFlags) (ts : Nat) (r : Reasm) (c : FConn φ)
    (hs : f.startupDone = (c.frame dir).startupDone) (hst : f.st = .header) (hlt : f.hdr.length < 4)
    (hg : Gluing f first seq done) (hrest : f.hdr ++ (p ++ q) = myPackets seq todo) :
    TurnGoing r c dir first (done ++ todo) (2 * p.length) q
      (headerTurn env lkProtoMyOps ef dir ts r (c.setFrame dir f) p) := by
  have htake : hdrRem (lkProtoMyOps : ProtoOps φ) dir f = 4 - f.hdr.length := rfl
  simp only [headerTurn, FConn.frame_setFrame, htake, FConn.setFrame_setFrame]
  split
  · next hshort =>
    have htaken := hg.takeHdr ts p
    refine .inl ⟨_, rfl, hs, .header hst ?_ htaken rfl ?_⟩
    · simp only [takeHdr, List.length_append]
      omega
    · rw [← hrest]
      simp only [takeHdr, List.append_assoc]
  · next hlong =>
    obtain ⟨frag, tail, more, rfl, hlen, hpackets, hmore⟩ := myPackets_fragment seq todo
    have hsplit : (f.hdr ++ p.take (4 - f.hdr.length)) ++ (p.drop (4 - f.hdr.length) ++ q) =
        le24Bytes frag.length ++ [seq] ++ (frag ++ more) := by
      rw [← hpackets, ← hrest, List.append_assoc, ← List.append_assoc (p.take _), List.take_append_drop]
    have hfour : (f.hdr ++ p.take (4 - f.hdr.length)).length = (le24Bytes frag.length ++ [seq]).length := by
      rw [List.length_append, List.length_take]
      simp only [le24Bytes, List.length_append, List.length_map, List.length_cons, List.length_nil]
      omega
    obtain ⟨hhdr, hbehind⟩ := List.append_inj hsplit hfour
    refine headerEnd_going env ef r c hs (hg.takeHdr ts _) hlen hhdr hmore hbehind ?_
    rw [List.length_drop]
    omega

theorem Opened.rem (ho : Opened f first seq done (frag ++ ahead).length)
    (hbuf : f.buf = (done ++ frag).take lkMsgBodyMax) (htaken : done ≠ [] → frag = [])
    (hkept : done = [] → frag.length < lkMsgBodyMax) :
    bodyRem f ≤ ahead.length ∧ (bodyRem f ≠ 0 → done = []) ∧
      f.buf ++ ahead.take (bodyRem f) = (done ++ (frag ++ ahead)).take lkMsgBodyMax ∧
      f.bodyLen - (if f.prefixClosed then 0 else f.buf.length + bodyRem f) =
        (ahead.drop (bodyRem f)).length := by
  by_cases hd : done = []
  · subst hd
    have hfrag : f.buf = frag := by
      rw [hbuf, List.nil_append, List.take_of_length_le (Nat.le_of_lt (hkept rfl))]
    have hclosed : f.prefixClosed = false := ho.closed
    have hlt := hkept rfl
    simp only [bodyRem, hclosed, Bool.false_eq_true, if_false, bodyTarget, ho.bodyLen, hfrag,
      List.length_append, List.length_drop, List.nil_append, List.take_append,
      List.take_of_length_le (Nat.le_of_lt hlt), implies_true, true_and]
    refine ⟨by omega, ?_, by omega⟩
    rw [List.append_cancel_left_eq, List.take_eq_take_iff]
    omega
  · obtain rfl := htaken hd
    have hclosed : f.prefixClosed = true := by
      rw [ho.closed]
      simp [hd]
    simp only [bodyRem, hclosed, if_true, ho.bodyLen, hbuf, List.append_nil, List.take_zero, List.nil_append,
      List.drop_zero, Nat.zero_le, ne_eq, not_true, false_implies, Nat.sub_zero, true_and, and_true]
    rw [List.take_append_of_le_length (ho.long hd)]

theorem Opened.glued (ho : Opened f first seq done frag.length) (hmax : frag.length = myPktMax)
    (hbuf : buf = (done ++ frag).take lkMsgBodyMax) :
    Gluing { f with buf := buf, prefixClosed := true, hdr := [], st := .header } first (seq + 1)
      (done ++ frag) := by
  have hcont : f.msgCont = true := by rw [ho.cont, hmax]; rfl
  have hne : done ++ frag ≠ [] := by
    intro h
    rw [(List.append_eq_nil_iff.mp h).2] at hmax
    exact absurd hmax (by decide)
  refine ⟨?_, hcont.symm, hbuf, fun h => absurd h hne, fun _ => ?_, fun _ => ?_, fun _ => ho.type,
    fun _ => ho.next, fun _ => ho.seq0⟩
  · rw [List.isEmpty_eq_false_iff.mpr hne]
    exact hcont
  · rw [List.length_append, hmax]
    simp only [myPktMax, lkMsgBodyMax]
    omega
  · rw [List.length_append]
    exact ho.total

theorem skipOver_going (r : Reasm) (c : FConn φ) (hg : Gluing f first seq done) (hst : f.st = .header)
    (hhdr : f.hdr = []) (hs : f.startupDone = (c.frame dir).startupDone) (past todo : List Byte) :
    Going r c dir first (done ++ todo) (r, c.setFrame dir (skipOver past.length f)) (past ++ myPackets seq todo) ∧
      turnCost dir (r, c.setFrame dir (skipOver past.length f)) = 0 := by
  rw [turnCost, FConn.frame_setFrame, skipOver]
  split
  · next hzero =>
    obtain rfl := List.length_eq_zero_iff.mp hzero
    refine ⟨.inl ⟨f, rfl, hs, .header hst ?_ hg rfl ?_⟩, by rw [if_neg (by rw [hst]; rintro ⟨⟩)]⟩
    · rw [hhdr]
      decide
    · rw [hhdr]
      rfl
  · next hpos =>
    refine ⟨.inl ⟨_, rfl, hs, .skip rfl hhdr ?_ rfl rfl ?_⟩, rfl⟩
    · exact ⟨hg.cont, hg.closed, hg.buf, hg.start, hg.long, hg.total, hg.type, hg.next, hg.seq0⟩
    · exact fun h => hpos (congrArg List.length h)

theorem bodyTurn_going (env : Env φ) (ef : ConnFlags) (ts : Nat) (c : FConn φ) (hslab : r.slabOk = true)
    (hs : f.startupDone = (c.frame dir).startupDone) (hst : f.st = .body)
    (ho : Opened f first seq done (frag ++ ahead).length)
    (hbuf : f.buf = (done ++ frag).take lkMsgBodyMax) (htaken : done ≠ [] → frag = [])
    (hkept : done = [] → frag.length < lkMsgBodyMax)
    (hmore : FragmentTail seq (frag ++ ahead).length tail more) (hrest : p ++ q = ahead ++ more) :
    TurnGoing r c dir first (done ++ (frag ++ ahead) ++ tail) (2 * p.length + 1) q
      (frameTurn env lkProtoMyOps ef dir ts (r, c.setFrame dir f) p) := by
  obtain ⟨hle, hfresh, hbody, hskip⟩ := ho.rem hbuf htaken hkept
  rw [frameTurn_body env _ (by rw [FConn.frame_setFrame]; exact hst) hslab]
  simp only [FConn.frame_setFrame]
  split
  · next hshort =>
    obtain rfl := hfresh (by omega)
    obtain ⟨ahead, rfl⟩ : p <+: ahead :=
      List.prefix_of_prefix_length_le ⟨q, hrest⟩ (List.prefix_append ..) (by omega)
    rw [List.append_assoc, List.append_cancel_left_eq] at hrest
    subst hrest
    have hfrag : f.buf = frag := by
      rw [hbuf, List.nil_append, List.take_of_length_le (Nat.le_of_lt (hkept rfl))]
    have hlen := congrArg List.length hbody
    simp only [hfrag, List.length_append, List.length_take, List.nil_append] at hlen
    have hroom : (frag ++ p).length < lkMsgBodyMax := by
      rw [List.length_append] at hle ⊢
      omega
    simp only [FConn.updFrame, FConn.frame_setFrame, FConn.setFrame_setFrame]
    refine .inl ⟨_, rfl, hs, ?_⟩
    rw [← List.append_assoc] at ho hmore
    refine .body hst ⟨ho.cont, ho.closed, ho.long, ho.bodyLen, ho.total, ho.len, ho.type, ho.next, ho.seq0⟩
      (by simp) ?_ (fun h => absurd rfl h) (fun _ => hroom) ?_ hmore
    · rw [List.nil_append, List.take_of_length_le (Nat.le_of_lt hroom), ← hfrag]
      rfl
    · rintro rfl
      rw [List.append_nil] at hle
      omega
  · next hlong =>
    have htake : p.take (bodyRem f) = ahead.take (bodyRem f) := by
      have h := congrArg (List.take (bodyRem f)) hrest
      rwa [List.take_append_of_le_length (Nat.le_of_not_lt hlong), List.take_append_of_le_length hle] at h
    have hdrop : p.drop (bodyRem f) ++ q = ahead.drop (bodyRem f) ++ more := by
      have h := congrArg (List.drop (bodyRem f)) hrest
      rwa [List.drop_append_of_le_length (Nat.le_of_not_lt hlong), List.drop_append_of_le_length hle] at h
    have hcost : 2 * (p.drop (bodyRem f)).length < 2 * p.length + 1 := by
      rw [List.length_drop]
      omega
    simp only [bodyEnd, FConn.frame_setFrame, hskip, ho.cont, beq_iff_eq]
    split
    · next hmax =>
      rw [FragmentTail, if_pos hmax] at hmore
      subst hmore
      have hkept : f.buf ++ p.take (bodyRem f) = (done ++ (frag ++ ahead)).take lkMsgBodyMax := by rw [htake, hbody]
      have hg := ho.glued hmax hkept
      have hgoing := skipOver_going r c hg rfl rfl hs (ahead.drop (bodyRem f)) tail
      simp only [FConn.updFrame, FConn.frame_setFrame, FConn.setFrame_setFrame, closePrefix, hslab,
        Bool.true_or, if_true]
      refine ⟨by rw [hdrop]; exact hgoing.1, ?_⟩
      rw [hgoing.2]
      exact hcost
    · next hmax =>
      rw [FragmentTail, if_neg hmax] at hmore
      obtain ⟨rfl, rfl⟩ := hmore
      have htotal : f.msgLen = min (done ++ (frag ++ ahead) ++ []).length (2 ^ 32 - 1) := by
        rw [ho.len, ho.total, List.append_nil, ← List.length_append]
      have hkeeps : f.buf ++ p.take (bodyRem f) = (done ++ (frag ++ ahead) ++ []).take lkMsgBodyMax := by
        rw [htake, hbody, List.append_nil]
      have hrep := emit_reported env r htotal ho.type ho.seq0 hs hkeeps
      refine afterEmit_going ef hrep ?_ hcost
      rw [hdrop, List.append_nil]

theorem skipped_ended (hst : f.st = .skip) (h : (p ++ q).length ≤ f.skipLeft) :
    Ended (skipped p.length f) q := by
  rw [List.length_append] at h
  by_cases hle : f.skipLeft ≤ p.length
  · exact .inl ⟨if_pos hle, List.length_eq_zero_iff.mp (by omega)⟩
  · refine .inr ⟨(if_neg hle).trans hst, ?_⟩
    simp only [skipped]
    omega

theorem skipTurn_going (r : Reasm) (c : FConn φ) (hs : f.startupDone = (c.frame dir).startupDone)
    (hst : f.st = .skip) (hhdr : f.hdr = []) (hg : Gluing f first seq done) (hleft : f.skipLeft = past.length)
    (hne : past ≠ []) (hp : p ≠ []) (hrest : p ++ q = past ++ myPackets seq todo) :
    TurnGoing r c dir first (done ++ todo) (2 * p.length) q (skipTurn dir r (c.setFrame dir f) p) := by
  have hpos := List.length_pos_iff.mpr hne
  have hpos' := List.length_pos_iff.mpr hp
  simp only [skipTurn, FConn.updFrame, FConn.frame_setFrame, FConn.setFrame_setFrame, hleft]
  have hg' : Gluing (skipped p.length f) first seq done :=
    ⟨hg.cont, hg.closed, hg.buf, hg.start, hg.long, hg.total, hg.type, hg.next, hg.seq0⟩
  by_cases hle : past.length ≤ p.length
  · have hst' : (skipped p.length f).st = .header := by
      simp only [skipped, hleft, hle, if_true]
    refine ⟨.inl ⟨_, rfl, hs, .header hst' ?_ hg' rfl ?_⟩, ?_⟩
    · rw [show (skipped p.length f).hdr = [] from hhdr]
      decide
    · rw [show (skipped p.length f).hdr = [] from hhdr]
      have h := congrArg (List.drop past.length) hrest
      rwa [List.drop_left, List.drop_append_of_le_length hle] at h
    · rw [turnCost, FConn.frame_setFrame, hst', List.length_drop, if_neg (by decide)]
      omega
  · obtain ⟨past, rfl⟩ : p <+: past :=
      List.prefix_of_prefix_length_le ⟨q, hrest⟩ (List.prefix_append ..) (by omega)
    rw [List.append_assoc, List.append_cancel_left_eq] at hrest
    subst hrest
    have hst' : (skipped p.length f).st = .skip := by
      simp only [skipped, hleft, hle, if_false, hst]
    rw [List.drop_of_length_le (Nat.le_of_not_le hle)]
    refine ⟨.inl ⟨_, rfl, hs, .skip hst' hhdr hg' rfl ?_ ?_⟩, ?_⟩
    · simp only [skipped, hleft, List.length_append]
      omega
    · rintro rfl
      simp at hle
    · rw [turnCost, FConn.frame_setFrame, hst', if_neg (by decide)]
      simp only [List.length_nil]
      omega

theorem frameTurn_going (env : Env φ) (ef : ConnFlags) (ts : Nat) (c : FConn φ) (hslab : r.slabOk = true)
    (h : Going r c dir first payload s (p ++ q)) (hp : p ≠ []) :
    TurnGoing r c dir first payload (2 * p.length + turnCost dir s) q
      (frameTurn env lkProtoMyOps ef dir ts s p) := by
  obtain ⟨f, rfl, hs, halong⟩ | ⟨hrep, hended⟩ := h
  · generalize hrest : p ++ q = rest at halong
    cases halong with
    | header hst hlt hg hpay hpackets =>
      subst hpay hrest
      simp only [frameTurn, turnCost, FConn.frame_setFrame, hst, reduceCtorEq, if_false]
      exact headerTurn_going env ef ts r c hs hst hlt hg hpackets
    | body hst ho hpay hbuf htaken hkept hne hmore =>
      subst hpay
      simp only [turnCost, FConn.frame_setFrame, hst, if_true]
      exact bodyTurn_going env ef ts c hslab hs hst ho hbuf htaken hkept hmore hrest
    | skip hst hhdr hg hpay hleft hne =>
      subst hpay
      simp only [frameTurn, turnCost, FConn.frame_setFrame, hst, reduceCtorEq, if_false]
      exact skipTurn_going r c hs hst hhdr hg hleft hne hp hrest
  · obtain ⟨-, hnil⟩ | ⟨hst, hle⟩ := hended
    · exact absurd (List.append_eq_nil_iff.mp hnil).1 hp
    · have hended := skipped_ended hst hle
      have hops : (s.2.updFrame dir (skipped p.length)).ops = c.ops :=
        (FConn.setFrame_ops ..).trans hrep.ops
      simp only [frameTurn, turnCost, hst, skipTurn, reduceCtorEq, if_false]
      rw [List.length_append] at hle
      rw [List.drop_of_length_le (by omega)]
      refine ⟨.inr ⟨⟨hrep.one, hops⟩, by rw [updFrame_frame]; exact hended⟩, ?_⟩
      have hpos := List.length_pos_iff.mpr hp
      have hcost := turnCost_le dir (s.1, s.2.updFrame dir (skipped p.length))
      simp only [List.length_nil]
      omega

theorem Going.ops (h : Going r c dir first payload s rest) : s.2.ops = c.ops := by
  obtain ⟨f, rfl, -, -⟩ | ⟨hrep, -⟩ := h
  · exact FConn.setFrame_ops ..
  · exact hrep.ops

theorem lkFrameBytes_going (env : Env φ) (hmy : c.ops = some .mysql) (hslab : r.slabOk = true)
    (h : Going r c dir first payload s (p ++ q)) (ts : Nat) :
    Going r c dir first payload (lkFrameBytes env s.1 s.2 dir p ts) q := by
  have hops : s.2.ops = some .mysql := h.ops.trans hmy
  have hconn : connOps env s.2 = lkProtoMyOps := by
    rw [connOps, hops]
    rfl
  rw [lkFrameBytes, hconn, FConn.pin_of_some hops]
  simp only [lkProtoMyOps, Bool.false_eq_true, if_false, frameChunk]
  split
  · next hnil =>
    subst hnil
    exact h
  · refine Chunked.run_ahead (turnCost_le dir) ?_ ?_ p q h
    · intro s₁ p q s' hp h ht
      have hturn := frameTurn_going env s.2.flags ts c hslab h hp
      rw [show frameTurn env lkProtoMyOps s.2.flags dir ts s₁ p = .ret s' from ht] at hturn
      exact hturn
    · intro s₁ p q s' rest hp h ht
      have hturn := frameTurn_going env s.2.flags ts c hslab h hp
      rw [show frameTurn env lkProtoMyOps s.2.flags dir ts s₁ p = .next s' rest from ht] at hturn
      exact hturn

theorem feedBytes_going (env : Env φ) (hmy : c.ops = some .mysql) (hslab : r.slabOk = true)
    (xs : List (List Byte × Nat)) (h : Going r c dir first payload s (xs.flatMap Prod.fst)) :
    Going r c dir first payload (feedBytes env dir s xs) [] := by
  induction xs generalizing s with
  | nil => exact h
  | cons x xs ih => exact ih (lkFrameBytes_going env hmy hslab h x.2)

theorem AtBoundary.gluing (h : AtBoundary f) (seq : Byte) : Gluing f seq seq [] :=
  ⟨h.msgCont, h.cont.symm, h.buf, fun _ => rfl, fun h => absurd rfl h, fun h => absurd rfl h,
    fun h => absurd rfl h, fun h => absurd rfl h, fun h => absurd rfl h⟩

theorem Along.rest_ne_nil (h : Along f first payload rest) : rest ≠ [] := by
  cases h with
  | header hst hlt hg hp hrest =>
    rintro rfl
    obtain ⟨frag, tail, more, -, -, hpackets, -⟩ := myPackets_fragment _ _
    rw [hpackets, List.append_nil] at hrest
    rw [hrest] at hlt
    simp [le24Bytes] at hlt
    omega
  | body hst ho hp hbuf htaken hkept hne hmore => exact fun h => hne (List.append_eq_nil_iff.mp h).1
  | skip hst hhdr hg hp hleft hne => exact fun h => hne (List.append_eq_nil_iff.mp h).1

/-- A MySQL payload is one message with its length, its type and the captured part of its body,
whatever the chunks its fragments come in. -/
theorem myPackets_one (env : Env φ) (dir : Dir) (r : Reasm) (hslab : r.slabOk = true) (c : FConn φ)
    (hmy : c.ops = some .mysql) (hat : AtBoundary (c.frame dir)) (seq : Byte) (payload : List Byte)
    (xs : List (List Byte × Nat)) (hxs : xs.flatMap Prod.fst = myPackets seq payload) :
    Reported r c dir seq payload (feedBytes env dir (r, c) xs) := by
  have hstart : Along (c.frame dir) seq payload (xs.flatMap Prod.fst) := by
    refine .header hat.st ?_ (hat.gluing seq) rfl ?_
    · rw [hat.hdr]
      decide
    · rw [hat.hdr, hxs]
      rfl
  have hgoing : Going r c dir seq payload (r, c) (xs.flatMap Prod.fst) :=
    .inl ⟨c.frame dir, by rw [FConn.setFrame_frame], rfl, hstart⟩
  obtain ⟨f, -, -, halong⟩ | ⟨hrep, -⟩ := feedBytes_going env hmy hslab xs hgoing
  · exact absurd rfl halong.rest_ne_nil
  · exact hrep

/-- A COM_QUERY of three bytes, cut in its header and in its body. -/
theorem myPackets_one_query :
    Reported {} { cookie := 1, ops := some .mysql, recv := { startupDone := true } } .recv 0 [3, 0x53, 0x45]
      (feedBytes passiveEnv .recv ({}, { cookie := 1, ops := some .mysql, recv := { startupDone := true } })
        [([3, 0], 5), ([0, 0, 3], 6), ([0x53, 0x45], 7)]) := by
  refine myPackets_one passiveEnv .recv {} rfl _ rfl ?_ 0 [3, 0x53, 0x45] _ ?_
  · exact ⟨⟨rfl, fun _ => ⟨rfl, rfl⟩, nofun, Nat.le_refl _⟩, rfl, rfl, rfl⟩
  · rw [myPackets, if_pos (by decide)]
    decide

end Latkit
