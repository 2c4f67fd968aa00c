import Latkit.MyAuthLaw
import Latkit.MyQuery

namespace Latkit

/-! The query attributes of a COM_QUERY, as a client with CLIENT_QUERY_ATTRIBUTES sends them, are skipped
to the byte. -/

inductive MyType where
  | tiny | short | year | long | float | int24 | double | longlong | null
  | timestamp | date | time | datetime
  | decimal | varchar | bit | json | newdecimal | enum | set
  | tinyBlob | mediumBlob | longBlob | blob | varString | string | geometry
  deriving DecidableEq, Repr

def MyType.code : MyType → Byte
  | .decimal => 0x00 | .tiny => 0x01 | .short => 0x02 | .long => 0x03 | .float => 0x04
  | .double => 0x05 | .null => 0x06 | .timestamp => 0x07 | .longlong => 0x08 | .int24 => 0x09
  | .date => 0x0a | .time => 0x0b | .datetime => 0x0c | .year => 0x0d | .varchar => 0x0f | .bit => 0x10
  | .json => 0xf5 | .newdecimal => 0xf6 | .enum => 0xf7 | .set => 0xf8 | .tinyBlob => 0xf9
  | .mediumBlob => 0xfa | .longBlob => 0xfb | .blob => 0xfc | .varString => 0xfd | .string => 0xfe
  | .geometry => 0xff

inductive Delim where
  | fixed (n : Nat)
  | counted
  | lenenc
  deriving DecidableEq, Repr

def MyType.delim : MyType → Delim
  | .null => .fixed 0
  | .tiny => .fixed 1
  | .short | .year => .fixed 2
  | .long | .float | .int24 => .fixed 4
  | .double | .longlong => .fixed 8
  | .timestamp | .date | .time | .datetime => .counted
  | _ => .lenenc

/-- What a value may be: a fixed number of bytes, or as many as its length prefix can say. -/
def Delim.Fits (d : Delim) (v : List Byte) : Prop :=
  match d with
  | .fixed n => v.length = n
  | .counted => v.length < 2 ^ 8
  | .lenenc => v.length < 2 ^ 64

def Delim.encode (d : Delim) (v : List Byte) : List Byte :=
  match d with
  | .fixed _ => v
  | .counted => UInt8.ofNat v.length :: v
  | .lenenc => Latkit.lenenc v.length ++ v

structure QueryAttr where
  type : MyType
  flags : Byte
  name : List Byte
  value : Option (List Byte)
  nameFits : name.length < 2 ^ 64
  valueFits : ∀ v ∈ value, type.delim.Fits v

def QueryAttr.isNull (a : QueryAttr) : Bool := a.value.isNone

def QueryAttr.typeAndName (a : QueryAttr) : List Byte :=
  a.type.code :: a.flags :: (lenenc a.name.length ++ a.name)

def QueryAttr.valueBytes (a : QueryAttr) : List Byte :=
  match a.value with
  | none => []
  | some v => a.type.delim.encode v

def bitsOf (bs : List Bool) : Nat := bs.foldr (fun b n => b.toNat + 2 * n) 0

def nullBitmap (nulls : List Bool) : List Byte :=
  (List.range ((nulls.length + 7) / 8)).map fun k => UInt8.ofNat (bitsOf ((nulls.drop (8 * k)).take 8))

def paramBytes (attrs : List QueryAttr) : List Byte :=
  nullBitmap (attrs.map QueryAttr.isNull) ++
    1 :: (attrs.flatMap QueryAttr.typeAndName ++ attrs.flatMap QueryAttr.valueBytes)

def queryHeader (attrs : List QueryAttr) : List Byte :=
  0x03 :: (lenenc attrs.length ++ (lenenc 1 ++ if attrs.isEmpty then [] else paramBytes attrs))

theorem testBit_bitsOf (bs : List Bool) (j : Nat) : (bitsOf bs).testBit j = bs.getD j false := by
  induction bs generalizing j with
  | nil => simp [bitsOf]
  | cons b bs ih =>
    have hcons : bitsOf (b :: bs) = b.toNat + 2 * bitsOf bs := rfl
    cases j with
    | zero =>
      rw [hcons, Nat.testBit_zero, Nat.add_mul_mod_self_left]
      cases b <;> rfl
    | succ j =>
      have hhalf : (b.toNat + 2 * bitsOf bs) / 2 = bitsOf bs := by
        have := b.toNat_lt
        omega
      rw [hcons, Nat.testBit_succ, hhalf, ih, List.getD_cons_succ]

theorem bitsOf_lt (bs : List Bool) : bitsOf bs < 2 ^ bs.length := by
  induction bs with
  | nil => exact Nat.one_pos
  | cons b bs ih =>
    have hcons : bitsOf (b :: bs) = b.toNat + 2 * bitsOf bs := rfl
    have := b.toNat_lt
    rw [hcons, List.length_cons, Nat.pow_succ]
    omega

theorem nullBitmap_length (nulls : List Bool) : (nullBitmap nulls).length = (nulls.length + 7) / 8 := by
  rw [nullBitmap, List.length_map, List.length_range]

theorem nullBitmap_testBit (nulls : List Bool) (h : i < nulls.length) (w : List Byte) :
    (((nullBitmap nulls ++ w).getD (i / 8) 0).toNat.testBit (i % 8)) = nulls.getD i false := by
  have hlt : i / 8 < (nullBitmap nulls).length := by
    rw [nullBitmap_length]
    omega
  have hbyte : bitsOf ((nulls.drop (8 * (i / 8))).take 8) < 2 ^ 8 := by
    refine Nat.lt_of_lt_of_le (bitsOf_lt _) (Nat.pow_le_pow_right Nat.two_pos ?_)
    rw [List.length_take]
    omega
  rw [List.getD_eq_getElem?_getD, List.getElem?_append_left hlt, nullBitmap, List.getElem?_map,
    List.getElem?_range (by rw [nullBitmap_length] at hlt; exact hlt)]
  simp only [Option.map_some, Option.getD_some, UInt8.toNat_ofNat', Nat.mod_eq_of_lt hbyte, testBit_bitsOf]
  rw [List.getD_eq_getElem?_getD, List.getElem?_take_of_lt (Nat.mod_lt _ (by decide)), List.getElem?_drop,
    Nat.div_add_mod, List.getD_eq_getElem?_getD]

def Delim.skip (d : Delim) (w : List Byte) : Option (List Byte) :=
  match d with
  | .fixed n => myWireSkip w n
  | .counted =>
    match myWireGetU8 w with
    | none => none
    | some (l, w) => myWireSkip w l.toNat
  | .lenenc => (myWireGetLenencStr w).map Prod.snd

theorem skipBinaryValue_code (t : MyType) (w : List Byte) : skipBinaryValue w t.code = t.delim.skip w := by
  cases t with
  | null => simp [skipBinaryValue, MyType.code, MyType.delim, Delim.skip, myWireSkip]
  | _ => rfl

theorem Delim.skip_encode (d : Delim) (h : d.Fits v) (w : List Byte) : d.skip (d.encode v ++ w) = some w := by
  cases d with
  | fixed n =>
    obtain rfl : v.length = n := h
    exact myWireSkip_append v w
  | counted =>
    have hlen : (UInt8.ofNat v.length).toNat = v.length := by
      rw [UInt8.toNat_ofNat', Nat.mod_eq_of_lt h]
    rw [Delim.skip, Delim.encode, List.cons_append]
    simp only [myWireGetU8, hlen]
    exact myWireSkip_append v w
  | lenenc =>
    rw [Delim.skip, Delim.encode, List.append_assoc, myWireGetLenencStr_lenenc h]
    rfl

theorem attrTypes_encode (attrs : List QueryAttr) (w : List Byte) :
    attrTypes attrs.length (attrs.flatMap QueryAttr.typeAndName ++ w) =
      some (attrs.map fun a => a.type.code, w) := by
  induction attrs with
  | nil => rfl
  | cons a attrs ih =>
    have hskip (w : List Byte) : myWireSkip (a.flags :: w) 1 = some w := myWireSkip_append [a.flags] w
    have hshape : (a :: attrs).flatMap QueryAttr.typeAndName ++ w = a.type.code :: a.flags ::
        (lenenc a.name.length ++ (a.name ++ (attrs.flatMap QueryAttr.typeAndName ++ w))) := by
      simp [QueryAttr.typeAndName]
    rw [hshape, List.length_cons, attrTypes]
    simp only [myWireGetU8, hskip, Option.bind_eq_bind, Option.bind_some,
      myWireGetLenencStr_lenenc a.nameFits, ih, List.map_cons]

theorem QueryAttr.skip (a : QueryAttr) (h : a.isNull = false) (w : List Byte) :
    skipBinaryValue (a.valueBytes ++ w) a.type.code = some w := by
  cases hv : a.value with
  | none => simp [QueryAttr.isNull, hv] at h
  | some v =>
    rw [QueryAttr.valueBytes, hv, skipBinaryValue_code]
    exact Delim.skip_encode _ (a.valueFits v hv) w

theorem skipAttrValues_encode (done attrs : List QueryAttr) (w w' : List Byte) :
    skipAttrValues (nullBitmap ((done ++ attrs).map QueryAttr.isNull) ++ w') done.length
        (attrs.map fun a => a.type.code) (attrs.flatMap QueryAttr.valueBytes ++ w) = some w := by
  induction attrs generalizing done with
  | nil => rfl
  | cons a attrs ih =>
    have hbit := nullBitmap_testBit ((done ++ a :: attrs).map QueryAttr.isNull) (i := done.length)
      (by simp) w'
    have hnull : ((done ++ a :: attrs).map QueryAttr.isNull).getD done.length false = a.isNull := by
      simp [List.getD_eq_getElem?_getD]
    have hnext := ih (done ++ [a])
    rw [List.append_assoc, List.singleton_append, List.length_append] at hnext
    rw [List.map_cons, skipAttrValues, hbit, hnull]
    rw [List.flatMap_cons, List.append_assoc]
    cases hn : a.isNull with
    | true =>
      have hnone : a.valueBytes = [] := by
        rw [QueryAttr.valueBytes, Option.isNone_iff_eq_none.mp hn]
      rw [if_pos rfl, hnone]
      exact hnext
    | false =>
      rw [if_neg Bool.false_ne_true]
      simp only [a.skip hn, Option.bind_eq_bind, Option.bind_some]
      exact hnext

theorem skipAttrs_header (attrs : List QueryAttr) (hmax : attrs.length ≤ myAttrMax) (sql : List Byte) :
    skipAttrs (queryHeader attrs ++ sql) = some sql := by
  have hcount : attrs.length < 2 ^ 64 := by
    simp only [myAttrMax] at hmax
    omega
  have hskip (w : List Byte) : myWireSkip (0x03 :: w) 1 = some w := myWireSkip_append [0x03] w
  rw [queryHeader, List.cons_append, List.append_assoc, List.append_assoc, skipAttrs]
  simp only [hskip, Option.bind_eq_bind, Option.bind_some, myWireGetLenenc_lenenc hcount,
    myWireGetLenenc_lenenc (show 1 < 2 ^ 64 by decide), if_neg (Nat.not_lt.mpr hmax)]
  cases attrs with
  | nil => rfl
  | cons a attrs =>
    have hbitmap : ((a :: attrs).length + 7) / 8 = (nullBitmap ((a :: attrs).map QueryAttr.isNull)).length := by
      rw [nullBitmap_length, List.length_map]
    have hvalues := skipAttrValues_encode [] (a :: attrs) sql
      (1 :: ((a :: attrs).flatMap QueryAttr.typeAndName ++ (a :: attrs).flatMap QueryAttr.valueBytes) ++ sql)
    have htypes := attrTypes_encode (a :: attrs) ((a :: attrs).flatMap QueryAttr.valueBytes ++ sql)
    rw [List.nil_append, List.length_nil, List.cons_append, List.append_assoc] at hvalues
    simp only [List.isEmpty_cons, Bool.false_eq_true, if_false, paramBytes, List.append_assoc, List.cons_append,
      hbitmap, myWireSkip_append, Option.bind_some, myWireGetU8]
    rw [if_neg (by simp), if_neg (by decide), htypes]
    exact hvalues

/-- The text of a COM_QUERY with at most 64 attributes is found where it starts, if the client's
capabilities are known, or there are no attributes. -/
theorem queryTextOff_header (pc : MyConn) (m : Msg) (attrs : List QueryAttr) (hmax : attrs.length ≤ myAttrMax)
    (sql : List Byte) (hm : m.body = queryHeader attrs ++ sql)
    (hcaps : pc.capsKnown = true ∧ myCapQueryAttributes pc.caps = true ∨ pc.capsKnown = false ∧ attrs = []) :
    queryTextOff pc m = some (queryHeader attrs).length := by
  have hskip : (skipAttrs m.body).map (fun w => m.body.length - w.length) = some (queryHeader attrs).length := by
    rw [hm, skipAttrs_header attrs hmax, Option.map_some, List.length_append, Nat.add_sub_cancel]
  rw [queryTextOff]
  obtain ⟨hknown, hcap⟩ | ⟨hunknown, rfl⟩ := hcaps
  · simp only [hknown, hcap, if_true, Bool.not_true, Bool.false_eq_true, if_false]
    exact hskip
  · have hsniff : (decide (m.body.length ≥ 3) && m.body.getD 1 0 == 0 && m.body.getD 2 0 == 1) = true := by
      rw [hm]
      simp [queryHeader, lenenc]
    simp only [hunknown, Bool.false_eq_true, if_false, hsniff, Bool.not_true]
    exact hskip

def twoAttrs : List QueryAttr :=
  [⟨.varString, 0, [0x61, 0x31], some [0x61, 0x62, 0x63], by decide, by simp [MyType.delim, Delim.Fits]⟩,
    ⟨.null, 0, [], none, by decide, by simp⟩]

theorem queryTextOff_header_two :
    queryTextOff { capsKnown := true, caps := 2 ^ 27 }
      { ts := 0, type := 0x03, body := queryHeader twoAttrs ++ [0x53, 0x45, 0x4c] } = some 17 :=
  queryTextOff_header _ _ twoAttrs (by decide) [0x53, 0x45, 0x4c] rfl (.inl ⟨rfl, by decide⟩)

/-- With the capabilities unknown the first attribute is taken for the text. -/
theorem queryTextOff_unknown :
    let m : Msg := { ts := 0, type := 0x03, body := queryHeader twoAttrs ++ [0x53, 0x45, 0x4c] }
    queryTextOff {} m = some 1 ∧ queryTextOff {} m ≠ some (queryHeader twoAttrs).length := by
  decide

end Latkit
