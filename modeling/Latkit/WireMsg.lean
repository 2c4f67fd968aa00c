import Latkit.FrameHoles

namespace Latkit
open Wire (Reader Ahead captured Cell)

def pgReader : Reader Head Byte where
  size := 5
  read := fun K hdr =>
    let len := pgHdrLen false hdr
    if K.isNone && pgLenOk false len then
      some ⟨hdr.getD 0 0, len, len - 4, len - 4, false, 0, false⟩
    else none
  len := Head.bodyLen
  more := Head.cont

def pgView (h : Head) : Head := { h with seq := 0, seq0 := false }

def pgNote (h : Head) (k : List Byte) : Note := ⟨h.type, h.len, k, k.length < h.total⟩

theorem pg_readsAs (env : Env φ) (dir : Dir) :
    ReadsAs (lkProtoPgOps env) dir pgReader pgView pgNote where
  pos := by decide
  size f hs := by
    simp only [lkProtoPgOps, pgHdrSize, hs]
    rfl
  parse f h hs hr := by
    cases hc : f.msgCont with
    | true => simp [pgReader, hc] at hr
    | false =>
      simp only [pgReader, hc, Bool.false_eq_true, if_false, Option.isNone_none, Bool.true_and] at hr
      split at hr
      · next hok =>
        cases hr
        simp only [lkProtoPgOps, pgParseHdr, hs, hok, if_true]
        refine ⟨_, rfl, ?_, hs, ?_⟩
        · simp [Frame.head, pgView, hc]
        · simp [hc]
      · cases hr
  len _ := rfl
  more _ := rfl
  emit c body hs := by
    simp only [lkProtoPgOps, pgPreEmit, hs, Bool.not_false, if_true]
    exact ⟨trivial, rfl⟩

/-- A MySQL header: a continuation carries the next sequence id and adds to the length. -/
def myReader : Reader Head Byte where
  size := 4
  read := fun K hdr =>
    let len := le24 hdr
    let seq := hdr.getD 3 0
    match K with
    | none => some ⟨0, len, len, len, len == myPktMax, seq + 1, seq == 0⟩
    | some h =>
      let total := satAdd32 h.total len
      if seq ≠ h.seq then none else some ⟨h.type, total, total, len, len == myPktMax, seq + 1, h.seq0⟩
  len := Head.bodyLen
  more := Head.cont

def myNote (dir : Dir) (h : Head) (k : List Byte) : Note where
  type := if dir = .recv ∧ h.seq0 = true ∧ k ≠ [] then k.getD 0 0 else h.type
  len := h.len
  body := k
  trunc := k.length < h.total

theorem myNoteCommand_recv (c : FConn φ) : (myNoteCommand c .recv).recv = c.recv := by
  simp only [myNoteCommand]
  split <;> rfl

theorem myStampStartup_keeps (c : FConn φ) (f : Frame) (body : List Byte) :
    let m := myStampStartup c (f.msg body)
    m.type = f.msgType ∧ m.len = f.msgLen ∧ m.body = body ∧ m.flags.bodyTrunc = false := by
  simp only [myStampStartup]
  split <;> exact ⟨rfl, rfl, rfl, rfl⟩

theorem my_readsAs (dir : Dir) :
    ReadsAs (lkProtoMyOps : ProtoOps φ) dir myReader id (myNote dir) where
  pos := by decide
  size _ _ := rfl
  parse f h hs hr := by
    cases hc : f.msgCont with
    | false =>
      simp only [myReader, hc, Bool.false_eq_true, if_false, Option.some.injEq] at hr
      subst hr
      simp only [lkProtoMyOps, myParseHdr, hc, Bool.false_eq_true, if_false]
      refine ⟨_, rfl, rfl, hs, ?_⟩
      intro hm
      have hlen : le24 f.hdr = myPktMax := by simpa using hm
      simp [hlen, myPktMax]
    | true =>
      simp only [myReader, hc, if_true] at hr
      split at hr
      · cases hr
      · next hseq =>
        cases hr
        have hseq' : ¬ f.hdr.getD 3 0 ≠ f.msgSeq := hseq
        simp only [lkProtoMyOps, myParseHdr, hc, if_true, hseq', if_false]
        refine ⟨_, rfl, rfl, hs, ?_⟩
        intro hm
        have hlen : le24 f.hdr = myPktMax := by simpa using hm
        simp [hlen, myPktMax]
  len _ := rfl
  more _ := rfl
  emit c body hs := by
    cases dir with
    | recv =>
      have hdone : c.recv.startupDone = true := by simpa [inStartup, FConn.frame] using hs
      simp only [lkProtoMyOps, myPreEmit, myPacket, myNoteCommand_recv, hdone, Bool.not_true,
        Bool.false_eq_true, if_false, FConn.frame]
      refine ⟨hs, ?_⟩
      obtain ⟨ht, hl, hb, hf⟩ := myStampStartup_keeps (myNoteCommand c .recv) c.recv body
      generalize myStampStartup (myNoteCommand c .recv) (c.recv.msg body) = m at ht hl hb hf
      subst hb
      simp only [myNote, Frame.head, id, true_and]
      split <;> simp only [stampMsg, Msg.note, ht, hl, hf, Bool.false_or] <;> rfl
    | send =>
      have hcmd : myNoteCommand c .send = c := by simp [myNoteCommand]
      simp only [lkProtoMyOps, myPreEmit, hcmd, myPacket, FConn.frame]
      refine ⟨rfl, ?_⟩
      obtain ⟨ht, hl, hb, hf⟩ := myStampStartup_keeps c c.send body
      generalize myStampStartup c (c.send.msg body) = m at ht hl hb hf
      subst hb
      simp only [myNote, Frame.head, id]
      split <;> simp only [stampMsg, Msg.note, ht, hl, hf, Bool.false_or] <;> rfl

/-- A message on the wire. Its tag is PG's type byte, or the sequence id of MySQL's first packet. -/
structure WireMsg where
  tag : Byte
  body : List (Cell Byte)
  deriving DecidableEq, Repr

def be32Bytes (n : Nat) : List Byte := [n / 2 ^ 24, n / 2 ^ 16, n / 2 ^ 8, n].map UInt8.ofNat

def le24Bytes (n : Nat) : List Byte := [n, n / 2 ^ 8, n / 2 ^ 16].map UInt8.ofNat

def pgCells (m : WireMsg) : List (Option Byte) :=
  (m.tag :: be32Bytes (m.body.length + 4)).map some ++ m.body.map Cell.seen

def myCells (seq : Byte) (body : List (Cell Byte)) : List (Option Byte) :=
  if body.length < myPktMax then
    (le24Bytes body.length ++ [seq]).map some ++ body.map Cell.seen
  else
    (le24Bytes myPktMax ++ [seq]).map some ++
      ((body.take myPktMax).map Cell.seen ++ myCells (seq + 1) (body.drop myPktMax))
termination_by body.length
decreasing_by
  simp only [List.length_drop, myPktMax] at *
  omega

def WireMsg.cells (proto : Proto) (m : WireMsg) : List (Option Byte) :=
  match proto with
  | .mysql => myCells m.tag m.body
  | _ => pgCells m

/-- What the wire allows: PG bounds the length; MySQL does not, but the command byte must be there. -/
def WireMsg.Sound (proto : Proto) (m : WireMsg) : Prop :=
  match proto with
  | .mysql => ∀ x ∈ m.body.head?, x.lost = false
  | _ => m.body.length + 4 ≤ lkPgMsgLenMax

def WireMsg.bytes (m : WireMsg) : List Byte := m.body.map Cell.sym

def WireMsg.intact (m : WireMsg) : Nat := (m.body.takeWhile fun x => !x.lost).length

def WireMsg.whole (m : WireMsg) : WireMsg := { m with body := m.bytes.map (⟨·, false⟩) }

def WireMsg.type (proto : Proto) (dir : Dir) (m : WireMsg) : Byte :=
  match proto with
  | .mysql => if dir = .recv ∧ m.tag = 0 then m.bytes.getD 0 0 else 0
  | _ => m.tag

/-- The length a message announces: PG counts the length field, MySQL saturates. -/
def WireMsg.len (proto : Proto) (m : WireMsg) : Nat :=
  match proto with
  | .mysql => min m.bytes.length (2 ^ 32 - 1)
  | _ => m.bytes.length + 4

def WireMsg.report (proto : Proto) (dir : Dir) (m : WireMsg) : Note :=
  let body := m.bytes.take (min m.intact lkMsgBodyMax)
  ⟨m.type proto dir, m.len proto, body, body.length < m.bytes.length⟩

theorem be32_be32Bytes (h : n < 2 ^ 32) : be32 (be32Bytes n) = n := by
  simp [be32, be32Bytes]
  omega

theorem le24_le24Bytes (h : n < 2 ^ 24) (b : Byte) : le24 (le24Bytes n ++ [b]) = n := by
  simp [le24, le24Bytes]
  omega

theorem WireMsg.captured_eq (m : WireMsg) :
    (captured (m.body.map Cell.seen)).take lkMsgBodyMax = m.bytes.take (min m.intact lkMsgBodyMax) := by
  have h := List.prefix_iff_eq_take.1 (List.takeWhile_prefix (fun x : Cell Byte => !x.lost) (l := m.body))
  rw [Wire.captured_seen, h, bytes, intact, Nat.min_comm, ← List.take_take, List.map_take]

theorem pgCells_ahead (hm : m.Sound .pg) (hz : Ahead pgReader lkMsgBodyMax pgNote none z out) :
    Ahead pgReader lkMsgBodyMax pgNote none (pgCells m ++ z) (m.report .pg dir :: out) := by
  have hle : m.body.length + 4 ≤ lkPgMsgLenMax := hm
  have hlen : pgHdrLen false (m.tag :: be32Bytes (m.body.length + 4)) = m.body.length + 4 := by
    apply be32_be32Bytes
    simp only [lkPgMsgLenMax] at hle
    omega
  rw [pgCells, List.append_assoc]
  refine .frag (h := ⟨m.tag, m.body.length + 4, m.body.length, m.body.length, false, 0, false⟩)
    ?_ rfl ?_ ?_
  · simp only [pgReader, hlen, pgLenOk, hle]
    simp
  · simp [pgReader]
  · have hnote : m.report .pg dir = pgNote ⟨m.tag, m.body.length + 4, m.body.length, m.body.length,
        false, 0, false⟩ ((captured (m.body.map Cell.seen)).take lkMsgBodyMax) := by
      simp [WireMsg.report, WireMsg.type, WireMsg.len, pgNote, m.captured_eq, WireMsg.bytes]
    rw [hnote]
    exact .last rfl hz

theorem satAdd32_assoc (a b c : Nat) : satAdd32 (satAdd32 a b) c = satAdd32 a (b + c) := by
  simp only [satAdd32]
  omega

theorem myReader_read (hn : n < 2 ^ 24) (seq : Byte) :
    myReader.read none (le24Bytes n ++ [seq]) =
        some ⟨0, n, n, n, n == myPktMax, seq + 1, seq == 0⟩ ∧
      ∀ h : Head, h.seq = seq → myReader.read (some h) (le24Bytes n ++ [seq]) =
        some ⟨h.type, satAdd32 h.total n, satAdd32 h.total n, n, n == myPktMax, seq + 1, h.seq0⟩ := by
  have hlen := le24_le24Bytes hn seq
  have hseq : (le24Bytes n ++ [seq]).getD 3 0 = seq := rfl
  refine ⟨?_, ?_⟩
  · simp only [myReader, hlen, hseq]
  · rintro h rfl
    simp only [myReader, hlen, hseq, ne_eq, not_true, if_false]

theorem myCells_ahead (body : List (Cell Byte)) (h : Head) (k : List Byte)
    (hz : Ahead myReader lkMsgBodyMax (myNote dir) none z out) :
    Ahead myReader lkMsgBodyMax (myNote dir) (some (h, k)) (myCells h.seq body ++ z)
      (myNote dir { h with len := satAdd32 h.total body.length, total := satAdd32 h.total body.length } k
        :: out) := by
  induction hn : body.length using Nat.strongRecOn generalizing body h with
  | ind n ih =>
    subst hn
    rw [myCells]
    split
    · next hlt =>
      have hread := (myReader_read (n := body.length) (Nat.lt_trans hlt (by decide)) h.seq).2 h rfl
      rw [List.append_assoc]
      refine .frag hread rfl (by simp [myReader]) ?_
      exact .last (h := ⟨h.type, satAdd32 h.total body.length, satAdd32 h.total body.length, body.length,
        body.length == myPktMax, h.seq + 1, h.seq0⟩) (by simpa [myReader] using Nat.ne_of_lt hlt) hz
    · next hge =>
      have hread := (myReader_read (n := myPktMax) (by decide) h.seq).2 h rfl
      have hle := Nat.le_of_not_lt hge
      rw [List.append_assoc, List.append_assoc]
      refine .frag hread rfl (by simp [myReader, hle]) (.more (by simp [myReader]) ?_)
      have hrest := ih (body.drop myPktMax).length (by simp [myPktMax] at hle ⊢; omega)
        (body.drop myPktMax) ⟨h.type, satAdd32 h.total myPktMax, satAdd32 h.total myPktMax, myPktMax,
          true, h.seq + 1, h.seq0⟩ rfl
      rw [satAdd32_assoc, List.length_drop, Nat.add_sub_cancel' hle] at hrest
      exact hrest

theorem WireMsg.myNote_eq {m : WireMsg} (hm : m.Sound .mysql) {h : Head} (ht : h.type = 0)
    (hl : h.len = min m.bytes.length (2 ^ 32 - 1)) (htot : h.total = min m.bytes.length (2 ^ 32 - 1))
    (h0 : h.seq0 = (m.tag == 0)) :
    myNote dir h ((captured (m.body.map Cell.seen)).take lkMsgBodyMax) = m.report .mysql dir := by
  have hkept := m.captured_eq
  have hhead : (captured (m.body.map Cell.seen)).take lkMsgBodyMax ≠ [] ∧
      ((captured (m.body.map Cell.seen)).take lkMsgBodyMax).getD 0 0 = m.bytes.getD 0 0 ∨
      (captured (m.body.map Cell.seen)).take lkMsgBodyMax = [] ∧ m.bytes.getD 0 0 = 0 := by
    obtain ⟨tag, body⟩ := m
    cases body with
    | nil => exact .inr ⟨rfl, rfl⟩
    | cons x body =>
      have hx : x.lost = false := hm x rfl
      left
      simp [Cell.seen, hx, captured, WireMsg.bytes, lkMsgBodyMax]
  rw [hkept] at hhead ⊢
  have hle : (m.bytes.take (min m.intact lkMsgBodyMax)).length ≤ lkMsgBodyMax := by
    rw [List.length_take]
    omega
  simp only [report]
  generalize m.bytes.take (min m.intact lkMsgBodyMax) = k at hhead hle ⊢
  simp only [myNote, WireMsg.type, WireMsg.len, hl, htot, ht, h0, beq_iff_eq, Note.mk.injEq, true_and]
  refine ⟨?_, ?_⟩
  · rcases hhead with ⟨hne, hg⟩ | ⟨hnil, hg⟩
    · simp only [hne, not_false_eq_true, and_true, hg, ne_eq]
    · simp only [hnil, hg, ne_eq, not_true, and_false, if_false, ite_self]
  · simp only [lkMsgBodyMax] at hle
    rw [decide_eq_decide]
    omega

theorem myCells_report {m : WireMsg} (hm : m.Sound .mysql)
    (hz : Ahead myReader lkMsgBodyMax (myNote dir) none z out) :
    Ahead myReader lkMsgBodyMax (myNote dir) none (myCells m.tag m.body ++ z)
      (m.report .mysql dir :: out) := by
  have hbytes : m.bytes.length = m.body.length := List.length_map _
  rw [myCells]
  split
  · next hlt =>
    have hread := (myReader_read (n := m.body.length) (Nat.lt_trans hlt (by decide)) m.tag).1
    have hne := Nat.ne_of_lt hlt
    simp only [myPktMax] at hlt
    rw [List.append_assoc, ← WireMsg.myNote_eq hm (h := ⟨0, m.body.length, m.body.length, m.body.length,
      m.body.length == myPktMax, m.tag + 1, m.tag == 0⟩) rfl (by simp only; omega) (by simp only; omega) rfl]
    refine .frag hread rfl (by simp [myReader]) (.last ?_ hz)
    simpa [myReader] using hne
  · next hge =>
    have hread := (myReader_read (n := myPktMax) (by decide) m.tag).1
    have hle := Nat.le_of_not_lt hge
    have hrest := myCells_ahead (m.body.drop myPktMax) ⟨0, myPktMax, myPktMax, myPktMax, true,
      m.tag + 1, m.tag == 0⟩ ((captured (m.body.map Cell.seen)).take lkMsgBodyMax) hz
    rw [WireMsg.myNote_eq hm rfl] at hrest
    · rw [List.append_assoc, List.append_assoc]
      refine .frag hread rfl (by simp [myReader, hle]) (.more (by simp [myReader]) ?_)
      have hcap : (captured ((m.body.take myPktMax).map Cell.seen)).take lkMsgBodyMax =
          (captured (m.body.map Cell.seen)).take lkMsgBodyMax := by
        rw [List.map_take, Wire.captured_take, List.take_take]
        rfl
      rw [Option.map_none, Option.getD_none, hcap]
      exact hrest
    · simp only [satAdd32, List.length_drop]
      omega
    · simp only [satAdd32, List.length_drop]
      omega
    · rfl

end Latkit
