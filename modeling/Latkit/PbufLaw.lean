import Latkit.Pbuf

/-! What the protobuf writer writes is read back, message by message. -/

namespace Latkit
open Protobuf

theorem low_seven (v : UInt64) : (v &&& 0x7f).toUInt8.toNat = v.toNat % 128 := by
  rw [UInt64.toNat_toUInt8, UInt64.toNat_and, show (0x7f : UInt64).toNat = 2 ^ 7 - 1 from rfl,
    Nat.and_two_pow_sub_one_eq_mod]
  omega

theorem continued (b : Byte) (h : b.toNat < 128) : (b ||| 0x80).toNat = b.toNat + 128 := by
  have hor := Nat.two_pow_add_eq_or_of_lt (show b.toNat < 2 ^ 7 from h) 1
  rw [UInt8.toNat_or, Nat.or_comm, show (0x80 : Byte).toNat = 2 ^ 7 * 1 from rfl, ← hor]
  omega

theorem varintBytes_eq (v : UInt64) : varintBytes v = varint v.toNat := by
  fun_induction varintBytes v with
  | case1 v h ih =>
    have hlt := shiftRight_lt h
    have hne : (v >>> 7).toNat ≠ 0 := fun he => h (UInt64.toNat_inj.mp he)
    rw [shiftRight_seven] at hne ih
    rw [varint, if_neg (by omega), ih]
    congr 1
    apply UInt8.toNat_inj.mp
    rw [continued _ (by rw [low_seven]; omega), low_seven, UInt8.toNat_ofNat']
    omega
  | case2 v h =>
    have hz : (v >>> 7).toNat = 0 := congrArg UInt64.toNat (not_not.mp h)
    rw [shiftRight_seven] at hz
    rw [varint, if_pos (by omega)]
    congr 1
    apply UInt8.toNat_inj.mp
    rw [low_seven, UInt8.toNat_ofNat']
    omega

theorem varintLen_eq (v : UInt64) : varintLen v = (varintBytes v).length := by
  fun_induction varintBytes v with
  | case1 v h ih => rw [varintLen, if_pos h, ih, List.length_cons]
  | case2 v h => rw [varintLen, if_neg h, List.length_singleton]

def wireField (num : FieldNum) : UInt32 := UInt32.ofNat num.1

theorem pbTag_eq (p : Pbuf) (num : FieldNum) (hw : wire.toNat < 8) :
    pbTag p (wireField num) wire = p ++ varint (8 * num.1 + wire.toNat) := by
  have hnum : (wireField num).toUInt64.toNat = num.1 := by
    have hlt := num.2.2
    simp [wireField]
    omega
  have hor := Nat.two_pow_add_eq_or_of_lt (show wire.toNat < 2 ^ 3 from hw) num.1
  have hlt := num.2.2
  rw [pbTag, pbVarint, pbRaw, varintBytes_eq, UInt64.toNat_or, UInt64.toNat_shiftLeft, hnum, Nat.shiftLeft_eq,
    Nat.mod_eq_of_lt (show num.1 * 2 ^ ((3 : UInt64).toNat % 64) < 2 ^ 64 by simp; omega),
    show (3 : UInt64).toNat % 64 = 3 from rfl, Nat.mul_comm, ← hor]

theorem pbFixed64_eq (p : Pbuf) (v : UInt64) : pbFixed64 p v = p ++ fixed 8 v.toNat := by
  rw [pbFixed64, pbRaw, fixed_eq_map]
  congr 1
  apply List.map_congr_left
  intro i hi
  have hi : i < 8 := List.mem_range.mp hi
  have hshift : (UInt64.ofNat (8 * i)).toNat % 64 = 8 * i := by
    rw [UInt64.toNat_ofNat']
    omega
  apply UInt8.toNat_inj.mp
  rw [UInt64.toNat_toUInt8, UInt64.toNat_shiftRight, hshift, Nat.shiftRight_eq_div_pow, UInt8.toNat_ofNat',
    show 2 ^ (8 * i) = 256 ^ i by rw [Nat.pow_mul]]
  omega

theorem sign_fill (x : BitVec 32) : x.sshiftRight 31 = if 2 ^ 31 ≤ x.toNat then BitVec.allOnes 32 else 0#32 := by
  have hlt := x.isLt
  split
  · rename_i h
    have hmsb : x.msb = true := by rw [BitVec.msb_eq_decide]; simpa using h
    rw [BitVec.sshiftRight_eq_of_msb_true hmsb]
    apply BitVec.eq_of_toNat_eq
    rw [BitVec.toNat_not, BitVec.toNat_ushiftRight, BitVec.toNat_not, BitVec.toNat_allOnes, Nat.shiftRight_eq_div_pow]
    omega
  · rename_i h
    have hmsb : x.msb = false := by rw [BitVec.msb_eq_decide]; simpa using h
    rw [BitVec.sshiftRight_eq_of_msb_false hmsb]
    apply BitVec.eq_of_toNat_eq
    rw [BitVec.toNat_ushiftRight, Nat.shiftRight_eq_div_pow]
    show x.toNat / 2 ^ 31 = 0
    omega

theorem zigzag_eq (v : Int32) : ((v.toUInt32 <<< 1) ^^^ (v >>> 31).toUInt32).toUInt64.toNat = zigzag v.toInt := by
  have hlt := v.toBitVec.isLt
  have hv : v.toInt = v.toBitVec.toInt := rfl
  have hbits : ((v.toUInt32 <<< 1) ^^^ (v >>> 31).toUInt32).toBitVec = (v.toBitVec <<< 1) ^^^ v.toBitVec.sshiftRight 31 := rfl
  have hnat : ((v.toUInt32 <<< 1) ^^^ (v >>> 31).toUInt32).toUInt64.toNat =
      ((v.toBitVec <<< 1) ^^^ v.toBitVec.sshiftRight 31).toNat := by
    rw [← hbits]
    rfl
  rw [hnat, hv, sign_fill, BitVec.toInt_eq_toNat_cond, zigzag]
  split
  · rename_i h
    rw [BitVec.xor_allOnes, BitVec.toNat_not, BitVec.toNat_shiftLeft, Nat.shiftLeft_eq, if_neg (by omega), if_neg (by omega)]
    omega
  · rename_i h
    rw [BitVec.xor_zero, BitVec.toNat_shiftLeft, Nat.shiftLeft_eq, if_pos (by omega), if_pos (by omega)]
    omega

theorem putAt_append (hi : i = front.length) (rest data : List Byte) :
    putAt (front ++ rest) i data = front ++ (data ++ rest.drop data.length) := by
  rw [putAt, hi, List.take_left, ← List.drop_drop, List.drop_left]

theorem pbSubmsgEnd_eq (front body : Pbuf) (h : body.length < 2 ^ 64) :
    pbSubmsgEnd (front ++ body) front.length = front ++ (varint body.length ++ body) := by
  have hbody : (front ++ body).length - front.length = body.length := by simp
  have hlen : varintBytes (UInt64.ofNat body.length) = varint body.length := by
    rw [varintBytes_eq, UInt64.toNat_ofNat', Nat.mod_eq_of_lt h]
  have hvlen : varintLen (UInt64.ofNat body.length) = (varint body.length).length := by rw [varintLen_eq, hlen]
  rw [pbSubmsgEnd, hbody, List.drop_left, hvlen, hlen]
  generalize varint body.length = lead
  have hroom : lead.length ≤ (body ++ List.replicate lead.length 0).length := by simp
  have hsplit := List.take_append_drop lead.length (body ++ List.replicate lead.length 0)
  have hgap : (front ++ (body ++ List.replicate lead.length 0).take lead.length).length =
      front.length + lead.length := by
    rw [List.length_append, List.length_take_of_le hroom]
  have htail : ((body ++ List.replicate lead.length 0).drop lead.length).length ≤ body.length := by simp
  rw [List.append_assoc front, ← hsplit, ← List.append_assoc front, putAt_append hgap.symm, List.drop_of_length_le htail,
    List.append_nil, List.append_assoc front, putAt_append rfl, List.drop_left' (List.length_take_of_le hroom)]

/-- The calls of an encoder; it keeps the offsets of its open messages and ends the last one first. -/
inductive PbCall where
  | fieldVarint (num : FieldNum) (v : UInt64)
  | fieldSint32 (num : FieldNum) (v : Int32)
  | fieldBool (num : FieldNum) (v : Bool)
  | fieldFixed64 (num : FieldNum) (v : UInt64)
  | fieldDouble (num : FieldNum) (bits : UInt64)
  | fieldBytes (num : FieldNum) (data : List Byte)
  | fieldString (num : FieldNum) (s : CText)
  | submsgBegin (num : FieldNum)
  | submsgEnd

structure PbWriter where
  buf : Pbuf := []
  starts : List Nat := []

def pbCall (w : PbWriter) : PbCall → PbWriter
  | .fieldVarint num v => { w with buf := pbFieldVarint w.buf (wireField num) v }
  | .fieldSint32 num v => { w with buf := pbFieldSint32 w.buf (wireField num) v }
  | .fieldBool num v => { w with buf := pbFieldBool w.buf (wireField num) v }
  | .fieldFixed64 num v => { w with buf := pbFieldFixed64 w.buf (wireField num) v }
  | .fieldDouble num bits => { w with buf := pbFieldDouble w.buf (wireField num) bits }
  | .fieldBytes num data => { w with buf := pbFieldBytes w.buf (wireField num) data }
  | .fieldString num s => { w with buf := pbFieldString w.buf (wireField num) s }
  | .submsgBegin num =>
    let (buf, start) := pbSubmsgBegin w.buf (wireField num)
    ⟨buf, start :: w.starts⟩
  | .submsgEnd =>
    match w.starts with
    | [] => w
    | start :: starts => ⟨pbSubmsgEnd w.buf start, starts⟩

def pbCalls (calls : List PbCall) : PbWriter := calls.foldl pbCall {}

def PbCall.leaf : PbCall → Option (FieldNum × Scalar)
  | .fieldVarint num v => some (num, .uint64 v)
  | .fieldSint32 num v => some (num, .sint32 v)
  | .fieldBool num v => some (num, .bool v)
  | .fieldFixed64 num v => some (num, .fixed64 v)
  | .fieldDouble num bits => some (num, .double bits)
  | .fieldBytes num data => some (num, .bytes data)
  | .fieldString num s => some (num, .string s.1)
  | .submsgBegin _ => none
  | .submsgEnd => none

structure Assembly where
  outer : List (Message × FieldNum) := []
  inner : Message := .nil

def Assembly.call (a : Assembly) (c : PbCall) : Option Assembly :=
  match c with
  | .submsgBegin num => some ⟨(a.inner, num) :: a.outer, .nil⟩
  | .submsgEnd =>
    match a.outer with
    | [] => none
    | (before, num) :: outer => some ⟨outer, before.append (.sub num a.inner .nil)⟩
  | c => c.leaf.map fun (num, v) => { a with inner := a.inner.append (.leaf num v .nil) }

def Assembly.calls (a : Assembly) : List PbCall → Option Assembly
  | [] => some a
  | c :: cs => (a.call c).bind (·.calls cs)

def Assembles (calls : List PbCall) (m : Message) : Prop := Assembly.calls {} calls = some ⟨[], m⟩

theorem pbVarint_eq (p : Pbuf) (v : UInt64) : pbVarint p v = p ++ varint v.toNat := by
  rw [pbVarint, pbRaw, varintBytes_eq]

theorem pbFieldBytes_eq (p : Pbuf) (num : FieldNum) (h : data.length < 2 ^ 64) :
    pbFieldBytes p (wireField num) data = p ++ field num (.len data) := by
  rw [pbFieldBytes, pbTag_eq p num (by decide), pbVarint_eq, pbRaw, UInt64.toNat_ofNat', Nat.mod_eq_of_lt h, field,
    Payload.encode, List.append_assoc, List.append_assoc]
  rfl

theorem pbCall_leaf (h : PbCall.leaf c = some (num, v)) (hv : v.payload.Sized) (w : PbWriter) :
    pbCall w c = { w with buf := w.buf ++ field num v.payload } := by
  cases c with
  | fieldVarint num v =>
    cases h
    rw [pbCall, pbFieldVarint, pbTag_eq _ _ (by decide), pbVarint_eq, List.append_assoc]
    rfl
  | fieldSint32 num v =>
    cases h
    have hzz : (UInt64.ofNat (zigzag v.toInt)).toNat = zigzag v.toInt := by
      have hlt := zigzag_lt v
      rw [UInt64.toNat_ofNat']
      omega
    rw [pbCall, pbFieldSint32, pbTag_eq _ _ (by decide), pbVarint_eq, List.append_assoc, zigzag_eq, ← hzz]
    rfl
  | fieldBool num v =>
    cases h
    rw [pbCall, pbFieldBool, pbTag_eq _ _ (by decide), pbVarint_eq, List.append_assoc]
    rfl
  | fieldFixed64 num v =>
    cases h
    rw [pbCall, pbFieldFixed64, pbTag_eq _ _ (by decide), pbFixed64_eq, List.append_assoc]
    rfl
  | fieldDouble num bits =>
    cases h
    rw [pbCall, pbFieldDouble, pbDouble, pbTag_eq _ _ (by decide), pbFixed64_eq, List.append_assoc]
    rfl
  | fieldBytes num data =>
    cases h
    rw [pbCall, pbFieldBytes_eq _ _ hv]
    rfl
  | fieldString num s =>
    cases h
    rw [pbCall, pbFieldString, pbFieldBytes_eq _ _ hv]
    rfl
  | submsgBegin num => cases h
  | submsgEnd => cases h

def openBytes : List (Message × FieldNum) → List Byte
  | [] => []
  | (before, num) :: outer => openBytes outer ++ (before.encode ++ varint (8 * num.1 + 2))

def openStarts : List (Message × FieldNum) → List Nat
  | [] => []
  | top :: outer => (openBytes (top :: outer)).length :: openStarts outer

def Assembly.writer (a : Assembly) : PbWriter := ⟨openBytes a.outer ++ a.inner.encode, openStarts a.outer⟩

inductive Assembly.Does (a : Assembly) : PbCall → Assembly → Prop where
  | leaf : PbCall.leaf c = some (num, v) → a.Does c { a with inner := a.inner.append (.leaf num v .nil) }
  | opens : a.Does (.submsgBegin num) ⟨(a.inner, num) :: a.outer, .nil⟩
  | closes : a.outer = (before, num) :: under → a.Does .submsgEnd ⟨under, before.append (.sub num a.inner .nil)⟩

theorem Assembly.call_does (h : Assembly.call a c = some a') : a.Does c a' := by
  cases c with
  | submsgBegin num =>
    cases h
    exact .opens
  | submsgEnd =>
    rw [Assembly.call] at h
    cases houter : a.outer with
    | nil =>
      rw [houter] at h
      cases h
    | cons top outer =>
      rw [houter] at h
      cases h
      exact .closes houter
  | fieldVarint | fieldSint32 | fieldBool | fieldFixed64 | fieldDouble | fieldBytes | fieldString =>
    cases h
    exact .leaf rfl

theorem encode_leaf (m : Message) (num : FieldNum) (v : Scalar) :
    (m.append (.leaf num v .nil)).encode = m.encode ++ field num v.payload := by
  rw [Message.encode_append, Message.encode, Message.encode, List.append_nil]

theorem encode_sub (m body : Message) (num : FieldNum) :
    (m.append (.sub num body .nil)).encode = m.encode ++ field num (.len body.encode) := by
  rw [Message.encode_append, Message.encode, Message.encode, List.append_nil]

theorem pbCall_assembly (h : Assembly.Does a c a') (hlen : a'.writer.buf.length < 2 ^ 64) :
    pbCall a.writer c = a'.writer := by
  cases h with
  | leaf hleaf =>
    rename_i num v
    simp only [Assembly.writer, encode_leaf, List.length_append] at hlen
    have hsized : v.payload.Sized := Payload.sized (show (field num v.payload).length < 2 ^ 64 by omega)
    rw [pbCall_leaf hleaf hsized, Assembly.writer, Assembly.writer, encode_leaf, List.append_assoc]
  | opens =>
    rename_i num
    rw [pbCall, pbSubmsgBegin, Assembly.writer, pbTag_eq _ _ (by decide), Assembly.writer, openStarts, openBytes,
      Message.encode, List.append_nil, List.append_assoc]
    rfl
  | closes houter =>
    rename_i before num under
    simp only [Assembly.writer, encode_sub, List.length_append] at hlen
    have hsized : (Payload.len a.inner.encode).Sized :=
      Payload.sized (show (field num (.len a.inner.encode)).length < 2 ^ 64 by omega)
    have hwriter : a.writer = ⟨openBytes ((before, num) :: under) ++ a.inner.encode,
        (openBytes ((before, num) :: under)).length :: openStarts under⟩ := by
      rw [Assembly.writer, houter]
      rfl
    rw [hwriter, pbCall]
    dsimp only
    rw [pbSubmsgEnd_eq _ _ hsized, Assembly.writer, encode_sub, field, openBytes]
    simp only [List.append_assoc]
    rfl

theorem call_grows (h : Assembly.Does a c a') : a.writer.buf.length ≤ a'.writer.buf.length := by
  cases h with
  | leaf hleaf =>
    simp only [Assembly.writer, encode_leaf, List.length_append]
    omega
  | opens =>
    simp only [Assembly.writer, openBytes, Message.encode, List.length_append]
    omega
  | closes houter =>
    simp only [Assembly.writer, houter, encode_sub, openBytes, field, Payload.encode, Payload.wire, List.length_append]
    omega

theorem calls_grow (h : Assembly.calls a cs = some a') : a.writer.buf.length ≤ a'.writer.buf.length := by
  induction cs generalizing a with
  | nil =>
    cases h
    exact Nat.le_refl _
  | cons c cs ih =>
    obtain ⟨mid, hcall, hrest⟩ := Option.bind_eq_some_iff.mp h
    exact Nat.le_trans (call_grows (Assembly.call_does hcall)) (ih hrest)

theorem pbCalls_assembly (h : Assembly.calls a cs = some a') (hlen : a'.writer.buf.length < 2 ^ 64) :
    cs.foldl pbCall a.writer = a'.writer := by
  induction cs generalizing a with
  | nil =>
    cases h
    rfl
  | cons c cs ih =>
    obtain ⟨mid, hcall, hrest⟩ := Option.bind_eq_some_iff.mp h
    have hmid : mid.writer.buf.length < 2 ^ 64 := Nat.lt_of_le_of_lt (calls_grow hrest) hlen
    rw [List.foldl_cons, pbCall_assembly (Assembly.call_does hcall) hmid]
    exact ih hrest

theorem pbCalls_encode (h : Assembles calls m) (hlen : m.encode.length < 2 ^ 64) : (pbCalls calls).buf = m.encode :=
  congrArg PbWriter.buf (pbCalls_assembly h hlen)

/-- The buffer of well-nested calls is read back as their tree, by any kinds its fields have. -/
theorem pbuf_round_trip (calls : List PbCall) (m : Message) (h : Assembles calls m) (hlen : m.encode.length < 2 ^ 64) :
    (∃ fields, m.Conforms fields 0) ∧
      ∀ fields, m.Conforms fields 0 → decode fields 0 (pbCalls calls).buf = some m := by
  refine ⟨m.exists_conforms 0, fun fields hfields => ?_⟩
  rw [pbCalls_encode h hlen]
  exact decode_encode hfields hlen

theorem num_one : 1 ≤ 1 ∧ 1 < 2 ^ 29 := by decide

theorem num_two : 1 ≤ 2 ∧ 2 < 2 ^ 29 := by decide

theorem num_three : 1 ≤ 3 ∧ 3 < 2 ^ 29 := by decide

def nestedCalls : List PbCall :=
  [.submsgBegin ⟨1, num_one⟩, .fieldString ⟨2, num_two⟩ ⟨[0x78], by decide⟩, .fieldVarint ⟨3, num_three⟩ 300, .submsgEnd]

def nestedTree : Message :=
  .sub ⟨1, num_one⟩ (.leaf ⟨2, num_two⟩ (.string [0x78]) (.leaf ⟨3, num_three⟩ (.uint64 300) .nil)) .nil

theorem pbuf_round_trip_nested : Assembles nestedCalls nestedTree ∧ nestedTree.encode.length < 2 ^ 64 ∧
    (∃ fields, nestedTree.Conforms fields 0) ∧
      ∀ fields, nestedTree.Conforms fields 0 → decode fields 0 (pbCalls nestedCalls).buf = some nestedTree := by
  have hlen : nestedTree.encode.length < 2 ^ 64 := by decide +kernel
  exact ⟨rfl, hlen, pbuf_round_trip nestedCalls nestedTree rfl hlen⟩

example : (pbCalls nestedCalls).buf = [0x0a, 0x06, 0x12, 0x01, 0x78, 0x18, 0xac, 0x02] := by decide +kernel

end Latkit
