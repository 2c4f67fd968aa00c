import Mathlib

/-! The protobuf wire format: varints, fields, and messages read by the kinds of their fields. -/

namespace Protobuf

/-- Base 128, least significant group first, the high bit set on all but the last. -/
def varint (n : Nat) : List UInt8 :=
  if n < 128 then [UInt8.ofNat n] else UInt8.ofNat (n % 128 + 128) :: varint (n / 128)

def readVarint : Nat → List UInt8 → Option (Nat × List UInt8)
  | 0, _ => none
  | _ + 1, [] => none
  | k + 1, b :: bytes =>
    if b.toNat < 128 then some (b.toNat, bytes)
    else (readVarint k bytes).map fun (n, rest) => (b.toNat - 128 + 128 * n, rest)

theorem readVarint_varint (h : n < 128 ^ (k + 1)) (rest : List UInt8) :
    readVarint (k + 1) (varint n ++ rest) = some (n, rest) := by
  induction k generalizing n with
  | zero =>
    rw [varint, if_pos (by omega)]
    simp [readVarint, Nat.mod_eq_of_lt (show n < 256 by omega)]
    omega
  | succ k ih =>
    rw [varint]
    split
    · rename_i hn
      simp [readVarint, Nat.mod_eq_of_lt (show n < 256 by omega), hn]
    · have hlt : n / 128 < 128 ^ (k + 1) := Nat.div_lt_of_lt_mul (by rw [← Nat.pow_succ']; exact h)
      have hbyte : (UInt8.ofNat (n % 128 + 128)).toNat = n % 128 + 128 := by simp; omega
      rw [List.cons_append, readVarint, ih hlt, hbyte, if_neg (by omega)]
      simp only [Option.map_some]
      congr 2
      omega

theorem readVarint_shorter (h : readVarint k bytes = some (n, rest)) : rest.length < bytes.length := by
  induction k generalizing bytes n with
  | zero => cases h
  | succ k ih =>
    cases bytes with
    | nil => cases h
    | cons b bytes =>
      rw [readVarint] at h
      split at h
      · cases h
        exact Nat.lt_succ_self _
      · obtain ⟨⟨m, rest'⟩, hread, heq⟩ := Option.map_eq_some_iff.mp h
        cases heq
        exact Nat.lt_succ_of_lt (ih hread)

def fixed : Nat → Nat → List UInt8
  | 0, _ => []
  | k + 1, n => UInt8.ofNat (n % 256) :: fixed k (n / 256)

def fixedValue (bytes : List UInt8) : Nat := bytes.foldr (fun b n => b.toNat + 256 * n) 0

theorem length_fixed (k n : Nat) : (fixed k n).length = k := by
  induction k generalizing n with
  | zero => rfl
  | succ k ih => rw [fixed, List.length_cons, ih]

theorem fixed_eq_map (k n : Nat) : fixed k n = (List.range k).map fun i => UInt8.ofNat (n / 256 ^ i % 256) := by
  induction k generalizing n with
  | zero => rfl
  | succ k ih =>
    rw [fixed, ih, List.range_succ_eq_map, List.map_cons, List.map_map, Nat.pow_zero, Nat.div_one]
    congr 1
    apply List.map_congr_left
    intro i _
    rw [Function.comp, Nat.succ_eq_add_one, Nat.pow_succ', Nat.div_div_eq_div_mul]

theorem fixedValue_fixed (h : n < 256 ^ k) : fixedValue (fixed k n) = n := by
  induction k generalizing n with
  | zero =>
    rw [Nat.pow_zero] at h
    rw [Nat.lt_one_iff.mp h]
    rfl
  | succ k ih =>
    have hlt : n / 256 < 256 ^ k := Nat.div_lt_of_lt_mul (by rw [← Nat.pow_succ']; exact h)
    have hbyte : (UInt8.ofNat (n % 256)).toNat = n % 256 := by simp
    have hrest := ih hlt
    rw [fixedValue] at hrest
    rw [fixed, fixedValue, List.foldr_cons, hrest, hbyte]
    omega

def zigzag (v : Int) : Nat := if 0 ≤ v then (2 * v).toNat else (-2 * v - 1).toNat

def unzigzag (n : Nat) : Int := if n % 2 = 0 then (n / 2 : Nat) else -((n / 2 : Nat) + 1)

theorem unzigzag_zigzag (v : Int) : unzigzag (zigzag v) = v := by
  rw [zigzag]
  split
  · rw [unzigzag, if_pos (by omega)]
    omega
  · rw [unzigzag, if_neg (by omega)]
    omega

inductive Scalar where
  | uint64 (v : UInt64)
  | sint32 (v : Int32)
  | bool (v : Bool)
  | fixed64 (v : UInt64)
  | double (bits : UInt64)
  | bytes (v : List UInt8)
  | string (v : List UInt8)
  deriving DecidableEq, Repr

inductive ScalarKind where
  | uint64 | sint32 | bool | fixed64 | double | bytes | string
  deriving DecidableEq, Repr

def Scalar.kind : Scalar → ScalarKind
  | .uint64 _ => .uint64
  | .sint32 _ => .sint32
  | .bool _ => .bool
  | .fixed64 _ => .fixed64
  | .double _ => .double
  | .bytes _ => .bytes
  | .string _ => .string

inductive Payload where
  | varint (v : UInt64)
  | i64 (v : UInt64)
  | len (bytes : List UInt8)
  deriving DecidableEq, Repr

def Scalar.payload : Scalar → Payload
  | .uint64 v => .varint v
  | .sint32 v => .varint (UInt64.ofNat (zigzag v.toInt))
  | .bool v => .varint (if v then 1 else 0)
  | .fixed64 v => .i64 v
  | .double bits => .i64 bits
  | .bytes v => .len v
  | .string v => .len v

def ScalarKind.read : ScalarKind → Payload → Option Scalar
  | .uint64, .varint v => some (.uint64 v)
  | .sint32, .varint v => some (.sint32 (Int32.ofInt (unzigzag (v.toNat % 2 ^ 32))))
  | .bool, .varint v => some (.bool (v != 0))
  | .fixed64, .i64 v => some (.fixed64 v)
  | .double, .i64 v => some (.double v)
  | .bytes, .len v => some (.bytes v)
  | .string, .len v => some (.string v)
  | _, _ => none

theorem zigzag_lt (v : Int32) : zigzag v.toInt < 2 ^ 32 := by
  have hle := v.toInt_lt
  have hge := v.le_toInt
  rw [zigzag]
  split <;> omega

theorem ScalarKind.read_payload (v : Scalar) : v.kind.read v.payload = some v := by
  cases v with
  | sint32 v =>
    have hlt := zigzag_lt v
    simp only [Scalar.kind, Scalar.payload, ScalarKind.read, UInt64.toNat_ofNat']
    rw [Nat.mod_eq_of_lt (show zigzag v.toInt < 2 ^ 64 by omega), Nat.mod_eq_of_lt hlt, unzigzag_zigzag, Int32.ofInt_toInt]
  | bool v => cases v <;> rfl
  | uint64 | fixed64 | double | bytes | string => rfl

def FieldNum : Type := { n : Nat // 1 ≤ n ∧ n < 2 ^ 29 }

def Payload.wire : Payload → Nat
  | .varint _ => 0
  | .i64 _ => 1
  | .len _ => 2

def Payload.encode : Payload → List UInt8
  | .varint v => Protobuf.varint v.toNat
  | .i64 v => fixed 8 v.toNat
  | .len bytes => Protobuf.varint bytes.length ++ bytes

def field (num : FieldNum) (p : Payload) : List UInt8 := varint (8 * num.1 + p.wire) ++ p.encode

def readPayload (wire : Nat) (bytes : List UInt8) : Option (Payload × List UInt8) :=
  match wire with
  | 0 => (readVarint 10 bytes).map fun (n, rest) => (.varint (UInt64.ofNat n), rest)
  | 1 => if bytes.length < 8 then none else some (.i64 (UInt64.ofNat (fixedValue (bytes.take 8))), bytes.drop 8)
  | 2 => (readVarint 10 bytes).bind fun (n, rest) =>
      if rest.length < n then none else some (.len (rest.take n), rest.drop n)
  | _ => none

def readField (bytes : List UInt8) : Option (FieldNum × Payload × List UInt8) :=
  (readVarint 10 bytes).bind fun (tag, rest) =>
    if h : 1 ≤ tag / 8 ∧ tag / 8 < 2 ^ 29 then
      (readPayload (tag % 8) rest).map fun (p, rest) => (⟨tag / 8, h⟩, p, rest)
    else none

def Payload.Sized : Payload → Prop
  | .len bytes => bytes.length < 2 ^ 64
  | _ => True

theorem readPayload_encode (h : p.Sized) (rest : List UInt8) : readPayload p.wire (p.encode ++ rest) = some (p, rest) := by
  cases p with
  | varint v =>
    have hlt : v.toNat < 128 ^ 10 := Nat.lt_trans v.toNat_lt (by decide)
    simp [Payload.wire, Payload.encode, readPayload, readVarint_varint hlt]
  | i64 v =>
    have hlen := length_fixed 8 v.toNat
    have hvalue := fixedValue_fixed (show v.toNat < 256 ^ 8 from v.toNat_lt)
    simp [Payload.wire, Payload.encode, readPayload, hlen, List.take_left' hlen, List.drop_left' hlen, hvalue]
  | len bytes =>
    have hlt : bytes.length < 128 ^ 10 := Nat.lt_trans h (by decide)
    simp [Payload.wire, Payload.encode, readPayload, readVarint_varint hlt]

theorem readField_field (h : p.Sized) (num : FieldNum) (rest : List UInt8) :
    readField (field num p ++ rest) = some (num, p, rest) := by
  have hwire : p.wire < 8 := by cases p <;> simp [Payload.wire]
  have hnum := num.2
  have htag : 8 * num.1 + p.wire < 128 ^ 10 := by omega
  have hdiv : (8 * num.1 + p.wire) / 8 = num.1 := by omega
  have hmod : (8 * num.1 + p.wire) % 8 = p.wire := by omega
  rw [field, List.append_assoc, readField, readVarint_varint htag, Option.bind_some]
  simp only [hdiv, hmod, readPayload_encode h]
  rw [dif_pos num.2]
  rfl

theorem readPayload_shorter (h : readPayload wire bytes = some (p, rest)) :
    rest.length ≤ bytes.length ∧ ∀ body, p = .len body → body.length ≤ bytes.length := by
  unfold readPayload at h
  split at h
  · obtain ⟨⟨n, rest'⟩, hread, heq⟩ := Option.map_eq_some_iff.mp h
    cases heq
    exact ⟨Nat.le_of_lt (readVarint_shorter hread), nofun⟩
  · split at h
    · cases h
    · cases h
      exact ⟨List.length_drop ▸ Nat.sub_le _ _, nofun⟩
  · obtain ⟨⟨n, rest'⟩, hread, heq⟩ := Option.bind_eq_some_iff.mp h
    have hlt := readVarint_shorter hread
    dsimp only at heq
    split at heq
    · cases heq
    · cases heq
      constructor
      · rw [List.length_drop]
        omega
      · intro body hbody
        cases hbody
        rw [List.length_take]
        omega
  · cases h

theorem readField_shorter (h : readField bytes = some (num, p, rest)) :
    rest.length < bytes.length ∧ ∀ body, p = .len body → body.length < bytes.length := by
  obtain ⟨⟨tag, after⟩, hread, h⟩ := Option.bind_eq_some_iff.mp h
  dsimp only at h
  split at h
  · obtain ⟨⟨p', rest'⟩, hpayload, heq⟩ := Option.map_eq_some_iff.mp h
    cases heq
    have hlt := readVarint_shorter hread
    obtain ⟨hrest, hbody⟩ := readPayload_shorter hpayload
    exact ⟨Nat.lt_of_le_of_lt hrest hlt, fun body he => Nat.lt_of_le_of_lt (hbody body he) hlt⟩
  · cases h

inductive Message where
  | nil
  | leaf (num : FieldNum) (v : Scalar) (rest : Message)
  | sub (num : FieldNum) (body rest : Message)

namespace Message

def append : Message → Message → Message
  | .nil, m => m
  | .leaf num v rest, m => .leaf num v (rest.append m)
  | .sub num body rest, m => .sub num body (rest.append m)

def encode : Message → List UInt8
  | .nil => []
  | .leaf num v rest => field num v.payload ++ rest.encode
  | .sub num body rest => field num (.len body.encode) ++ rest.encode

theorem encode_append (a b : Message) : (a.append b).encode = a.encode ++ b.encode := by
  induction a with
  | nil => rfl
  | leaf num v rest ih => rw [append, encode, encode, ih, List.append_assoc]
  | sub num body rest _ ih => rw [append, encode, encode, ih, List.append_assoc]

end Message

/-- What a field is to be read as; in a message, by the field's place and number. -/
inductive Kind where
  | scalar (kind : ScalarKind)
  | message (fields : Nat → FieldNum → Kind)

def decode (fields : Nat → FieldNum → Kind) (i : Nat) (bytes : List UInt8) : Option Message :=
  if bytes = [] then some .nil
  else
    match _hread : readField bytes with
    | none => none
    | some (num, p, rest) =>
      match fields i num, p with
      | .scalar kind, p =>
        match kind.read p, decode fields (i + 1) rest with
        | some v, some more => some (.leaf num v more)
        | _, _ => none
      | .message inner, .len body =>
        match decode inner 0 body, decode fields (i + 1) rest with
        | some m, some more => some (.sub num m more)
        | _, _ => none
      | .message _, _ => none
termination_by bytes.length
decreasing_by
  · exact (readField_shorter _hread).1
  · exact (readField_shorter _hread).2 body rfl
  · exact (readField_shorter _hread).1

def Message.Conforms : (Nat → FieldNum → Kind) → Nat → Message → Prop
  | _, _, .nil => True
  | fields, i, .leaf num v rest => fields i num = .scalar v.kind ∧ Conforms fields (i + 1) rest
  | fields, i, .sub num body rest =>
    (∃ inner, fields i num = .message inner ∧ Conforms inner 0 body) ∧ Conforms fields (i + 1) rest

theorem field_ne_nil (num : FieldNum) (p : Payload) (rest : List UInt8) : field num p ++ rest ≠ [] := by
  rw [field, varint]
  split <;> exact List.cons_ne_nil _ _

theorem Payload.sized (h : (field num p).length < 2 ^ 64) : p.Sized := by
  cases p with
  | varint v => trivial
  | i64 v => trivial
  | len bytes =>
    simp only [field, Payload.encode, List.length_append] at h
    rw [Payload.Sized]
    omega

theorem decode_scalar (hread : readField bytes = some (num, p, rest)) (hne : bytes ≠ [])
    (hkind : fields i num = .scalar kind) (hv : kind.read p = some v) (hrest : decode fields (i + 1) rest = some more) :
    decode fields i bytes = some (.leaf num v more) := by
  rw [decode, if_neg hne]
  split
  · rename_i hnone
    rw [hread] at hnone
    cases hnone
  · rename_i hsome
    rw [hread] at hsome
    cases hsome
    simp only [hkind, hv, hrest]

theorem decode_message (hread : readField bytes = some (num, .len body, rest)) (hne : bytes ≠ [])
    {inner : Nat → FieldNum → Kind} (hkind : fields i num = .message inner) (hm : decode inner 0 body = some m)
    (hrest : decode fields (i + 1) rest = some more) : decode fields i bytes = some (.sub num m more) := by
  rw [decode, if_neg hne]
  split
  · rename_i hnone
    rw [hread] at hnone
    cases hnone
  · rename_i hsome
    rw [hread] at hsome
    cases hsome
    simp only [hkind, hm, hrest]

theorem decode_encode (h : m.Conforms fields i) (hlen : m.encode.length < 2 ^ 64) :
    decode fields i m.encode = some m := by
  induction m generalizing fields i with
  | nil =>
    rw [Message.encode, decode]
    rfl
  | leaf num v rest ih =>
    rw [Message.encode, List.length_append] at hlen
    have hsized : v.payload.Sized := Payload.sized (Nat.lt_of_le_of_lt (Nat.le_add_right _ _) hlen)
    have hrest := ih h.2 (Nat.lt_of_le_of_lt (Nat.le_add_left _ _) hlen)
    exact decode_scalar (readField_field hsized num _) (field_ne_nil _ _ _) h.1 (ScalarKind.read_payload v) hrest
  | sub num body rest ihbody ih =>
    rw [Message.encode, List.length_append] at hlen
    have hfield : (field num (.len body.encode)).length < 2 ^ 64 := Nat.lt_of_le_of_lt (Nat.le_add_right _ _) hlen
    have hsized : (Payload.len body.encode).Sized := Payload.sized hfield
    obtain ⟨⟨inner, hkind, hbody⟩, hconf⟩ := h
    have hrest := ih hconf (Nat.lt_of_le_of_lt (Nat.le_add_left _ _) hlen)
    exact decode_message (readField_field hsized num _) (field_ne_nil _ _ _) hkind (ihbody hbody hsized) hrest

theorem Message.Conforms.congr {m : Message} {fields fields' : Nat → FieldNum → Kind} (h : m.Conforms fields i)
    (heq : ∀ j, i ≤ j → fields' j = fields j) : m.Conforms fields' i := by
  induction m generalizing i with
  | nil => trivial
  | leaf num v rest ih => exact ⟨heq i (Nat.le_refl i) ▸ h.1, ih h.2 fun j hj => heq j (Nat.le_of_succ_le hj)⟩
  | sub num body rest _ ih => exact ⟨heq i (Nat.le_refl i) ▸ h.1, ih h.2 fun j hj => heq j (Nat.le_of_succ_le hj)⟩

theorem Message.exists_conforms (m : Message) (i : Nat) : ∃ fields, m.Conforms fields i := by
  induction m generalizing i with
  | nil => exact ⟨fun _ _ => .scalar .bool, trivial⟩
  | leaf num v rest ih =>
    obtain ⟨fields, hrest⟩ := ih (i + 1)
    refine ⟨Function.update fields i fun _ => .scalar v.kind, by simp, hrest.congr ?_⟩
    intro j hj
    exact Function.update_of_ne (Nat.ne_of_gt hj) _ _
  | sub num body rest ihbody ih =>
    obtain ⟨fields, hrest⟩ := ih (i + 1)
    obtain ⟨inner, hbody⟩ := ihbody 0
    refine ⟨Function.update fields i fun _ => .message inner, ⟨inner, by simp, hbody⟩, hrest.congr ?_⟩
    intro j hj
    exact Function.update_of_ne (Nat.ne_of_gt hj) _ _

end Protobuf
