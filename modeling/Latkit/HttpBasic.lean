import Latkit.HttpHandler
import Latkit.BitGroups

namespace Latkit

/-! The name half of a Basic credential: what the bit accumulator writes, for every password. -/

def b64Char (d : Nat) : Byte :=
  if d < 26 then UInt8.ofNat (65 + d)
  else if d < 52 then UInt8.ofNat (97 + (d - 26))
  else if d < 62 then UInt8.ofNat (48 + (d - 52))
  else if d = 62 then '+'.toUInt8
  else '/'.toUInt8

/-- Base64 without its padding: the bits in groups of six, the last one filled up with zeros. -/
def b64Encode (m : List Byte) : List Byte :=
  (groups 6 (m.flatMap (fun b => toBits 8 b.toNat) ++ List.replicate (4 * m.length % 6) false)).map b64Char

def sextets : List Byte → List Nat
  | [] => []
  | b :: v =>
    match httpB64Val b with
    | none => []
    | some d => d :: sextets v

def b64Decode (v : List Byte) : List Byte := (groups 8 ((sextets v).flatMap (toBits 6))).map UInt8.ofNat

theorem httpB64Val_char (h : d < 64) : httpB64Val (b64Char d) = some d := by
  have hall : ∀ d : Fin 64, httpB64Val (b64Char d) = some d.val := by decide
  exact hall ⟨d, h⟩

theorem httpB64Val_lt (h : httpB64Val b = some d) : d < 64 := by
  have hall : ∀ b : Fin 256, ∀ d ∈ httpB64Val (UInt8.ofNat b), d < 64 := by decide +kernel
  have := hall ⟨b.toNat, b.toNat_lt⟩ d
  rw [UInt8.ofNat_toNat] at this
  exact this h

theorem sextets_chars (h : ∀ d ∈ ds, d < 64) (pad : List Byte) :
    sextets (ds.map b64Char ++ pad) = ds ++ sextets pad := by
  induction ds with
  | nil => rfl
  | cons d ds ih =>
    rw [List.map_cons, List.cons_append, sextets, httpB64Val_char (h d List.mem_cons_self)]
    simp only
    rw [ih fun e he => h e (List.mem_cons_of_mem d he), List.cons_append]

theorem length_flatMap_bits (m : List Byte) : (m.flatMap fun b => toBits 8 b.toNat).length = 8 * m.length := by
  induction m with
  | nil => rfl
  | cons b m ih =>
    rw [List.flatMap_cons, List.length_append, length_toBits, ih, List.length_cons]
    omega

theorem b64Decode_encode (m pad : List Byte) : ∃ s, b64Decode (b64Encode m ++ pad) = m ++ s := by
  have hwhole : 6 ∣ (m.flatMap (fun b => toBits 8 b.toNat) ++ List.replicate (4 * m.length % 6) false).length := by
    rw [List.length_append, length_flatMap_bits, List.length_replicate]
    omega
  have hbits : (m.flatMap fun b => toBits 8 b.toNat) = (m.map UInt8.toNat).flatMap (toBits 8) :=
    (List.flatMap_map ..).symm
  have hbyte : ∀ n ∈ m.map UInt8.toNat, n < 2 ^ 8 := by
    intro n hn
    obtain ⟨b, -, rfl⟩ := List.mem_map.mp hn
    exact b.toNat_lt
  have hback : (m.map UInt8.toNat).map UInt8.ofNat = m := by
    rw [List.map_map]
    exact List.map_id'' (fun b => UInt8.ofNat_toNat) m
  rw [b64Decode, b64Encode, sextets_chars (fun d hd => groups_lt hd), List.flatMap_append,
    flatMap_groups (by decide) hwhole, List.append_assoc, hbits, groups_flatMap (by decide) hbyte, List.map_append,
    hback]
  exact ⟨_, rfl⟩

def takeName : List Byte → Nat → List Byte → Bool × List Byte
  | [], _, buf => (false, buf)
  | c :: s, n, buf =>
    if c = ':'.toUInt8 then (decide (0 < n), buf.set n 0)
    else if buf.length ≤ n + 1 then (false, buf)
    else if c < 0x20 ∨ 0x7f ≤ c then (false, buf)
    else takeName s (n + 1) (buf.set n c)

theorem httpBasicLoop_takeName (h : bits < 8) (v : List Byte) (acc n : Nat) (buf : List Byte) :
    httpBasicLoop v acc bits n buf =
      takeName ((groups 8 (toBits bits acc ++ (sextets v).flatMap (toBits 6))).map UInt8.ofNat) n buf := by
  induction v generalizing acc bits n buf with
  | nil =>
    rw [httpBasicLoop, sextets, List.flatMap_nil, List.append_nil, groups_short (by rwa [length_toBits])]
    rfl
  | cons b v ih =>
    have hstop : groups 8 (toBits bits acc ++ [].flatMap (toBits 6)) = [] :=
      groups_short (by rwa [List.flatMap_nil, List.append_nil, length_toBits])
    rw [httpBasicLoop, sextets]
    split
    · next heq =>
      rw [heq, show httpB64Val '='.toUInt8 = none by decide, hstop]
      rfl
    · cases hd : httpB64Val b with
      | none =>
        simp only
        rw [hstop]
        rfl
      | some d =>
        have hsix : toBits bits acc ++ toBits 6 d = toBits (bits + 6) ((acc * 64 + d) % 2 ^ 32) := by
          rw [toBits_append bits 6 acc (httpB64Val_lt hd), toBits_mod (by omega)]
          rfl
        simp only [List.flatMap_cons]
        rw [← List.append_assoc, hsix]
        generalize (acc * 64 + d) % 2 ^ 32 = acc'
        split
        · next hlt => exact ih hlt acc' n buf
        · next hge =>
          have hsplit : toBits (bits + 6) acc' = toBits 8 (acc' / 2 ^ (bits + 6 - 8)) ++ toBits (bits + 6 - 8) acc' := by
            rw [← toBits_split, show 8 + (bits + 6 - 8) = bits + 6 by omega]
          have hbyte : UInt8.ofNat (acc' / 2 ^ (bits + 6 - 8) % 2 ^ 8) = UInt8.ofNat (acc' / 2 ^ (bits + 6 - 8)) := by
            exact UInt8.ofNat_mod_size
          rw [hsplit, List.append_assoc, groups_cons (by decide) (length_toBits 8 _), ofBits_toBits, List.map_cons,
            hbyte, takeName, ih (by omega)]

theorem set_append_take {buf : List Byte} (h : n < buf.length) (c : Byte) :
    (buf.set n c).take (n + 1) = buf.take n ++ [c] := by
  rw [List.take_add_one, List.getElem?_set_self h, List.take_set_of_le (Nat.le_refl n)]
  rfl

theorem takeName_name (hu : ∀ c ∈ u, 0x20 ≤ c ∧ c < 0x7f ∧ c ≠ ':'.toUInt8) (h : n + u.length < buf.length)
    (s : List Byte) :
    takeName (u ++ ':'.toUInt8 :: s) n buf =
      (decide (0 < n + u.length), buf.take n ++ u ++ 0 :: buf.drop (n + u.length + 1)) := by
  induction u generalizing n buf with
  | nil =>
    rw [List.nil_append, takeName, if_pos rfl, List.length_nil, Nat.add_zero, List.append_nil,
      List.set_eq_take_append_cons_drop, if_pos (by simpa using h)]
  | cons c u ih =>
    obtain ⟨hlow, hhigh, hcolon⟩ := hu c List.mem_cons_self
    rw [List.length_cons] at h
    have hin : ¬ (c < 0x20 ∨ 0x7f ≤ c) := by
      rintro (hlt | hge)
      · exact absurd hlow (UInt8.not_le.mpr hlt)
      · exact absurd hhigh (UInt8.not_lt.mpr hge)
    rw [List.cons_append, takeName, if_neg hcolon, if_neg (by omega), if_neg hin,
      ih (fun d hd => hu d (List.mem_cons_of_mem c hd)) (by rw [List.length_set]; omega), set_append_take (by omega),
      List.drop_set_of_lt (by omega), List.length_cons, List.append_assoc, List.append_assoc, List.append_assoc]
    simp only [Nat.add_right_comm n 1, Nat.add_assoc, List.cons_append, List.nil_append]

theorem takeName_colon (hu : ':'.toUInt8 ∉ u) (s s' : List Byte) (n : Nat) (buf : List Byte) :
    takeName (u ++ ':'.toUInt8 :: s) n buf = takeName (u ++ ':'.toUInt8 :: s') n buf := by
  induction u generalizing n buf with
  | nil => rfl
  | cons c u ih =>
    simp only [List.cons_append, takeName, ih fun hmem => hu (List.mem_cons_of_mem c hmem)]

theorem takeName_source (s : List Byte) (n : Nat) (buf : List Byte) (h : (takeName s n buf).2[i]? = some c) :
    buf[i]? = some c ∨ c = 0 ∨ n ≤ i ∧ (s.takeWhile (· != ':'.toUInt8))[i - n]? = some c := by
  induction s generalizing n buf with
  | nil => exact .inl h
  | cons d s ih =>
    rw [takeName] at h
    split at h
    · rw [List.getElem?_set] at h
      split at h
      · split at h
        · exact .inr (.inl (Option.some.inj h).symm)
        · cases h
      · exact .inl h
    · next hcolon =>
      rw [List.takeWhile_cons_of_pos (by simpa using hcolon)]
      split at h
      · exact .inl h
      · split at h
        · exact .inl h
        · rcases ih _ _ h with hset | hzero | ⟨hle, hname⟩
          · rw [List.getElem?_set] at hset
            split at hset
            · next hni =>
              split at hset
              · subst hni
                rw [Nat.sub_self, List.getElem?_cons_zero]
                exact .inr (.inr ⟨Nat.le_refl n, hset⟩)
              · cases hset
            · exact .inl hset
          · exact .inr (.inl hzero)
          · rw [show i - n = (i - (n + 1)) + 1 by omega, List.getElem?_cons_succ]
            exact .inr (.inr ⟨by omega, hname⟩)

def basicPayload (v : List Byte) : List Byte := (v.drop 6).dropWhile httpIsOws

theorem httpBasicUser_cases (v buf : List Byte) :
    httpBasicUser v buf = (false, buf) ∨ httpBasicUser v buf = takeName (b64Decode (basicPayload v)) 0 buf := by
  rw [httpBasicUser]
  split
  · exact .inl rfl
  · rw [httpBasicLoop_takeName (by decide)]
    exact .inr rfl

def basicValue (u w pad : List Byte) : List Byte :=
  [66, 97, 115, 105, 99, 32] ++ (b64Encode (u ++ ':'.toUInt8 :: w) ++ pad)

theorem b64Encode_cons (b : Byte) (m : List Byte) : ∃ d ds, d < 64 ∧ b64Encode (b :: m) = b64Char d :: ds := by
  have hlen : 6 ≤ ((b :: m).flatMap (fun b => toBits 8 b.toNat) ++
      List.replicate (4 * (b :: m).length % 6) false).length := by
    rw [List.length_append, length_flatMap_bits, List.length_cons]
    omega
  rw [b64Encode]
  cases hg : groups 6 ((b :: m).flatMap (fun b => toBits 8 b.toNat) ++
      List.replicate (4 * (b :: m).length % 6) false) with
  | nil =>
    rw [groups, if_pos ⟨by decide, hlen⟩] at hg
    cases hg
  | cons d ds => exact ⟨d, _, groups_lt (by rw [hg]; exact List.mem_cons_self), rfl⟩

theorem basicPayload_value (u w pad : List Byte) :
    basicPayload (basicValue u w pad) = b64Encode (u ++ ':'.toUInt8 :: w) ++ pad := by
  have hows : ∀ d : Fin 64, httpIsOws (b64Char d) = false := by decide
  rw [basicPayload, basicValue, List.drop_left' (show List.length _ = 6 from rfl)]
  obtain ⟨b, m, hm⟩ := List.exists_cons_of_ne_nil (List.append_ne_nil_of_right_ne_nil u (List.cons_ne_nil ':'.toUInt8 w))
  obtain ⟨d, ds, hd, henc⟩ := b64Encode_cons b m
  rw [hm, henc, List.cons_append, List.dropWhile_cons_of_neg (by rw [hows ⟨d, hd⟩]; nofun)]

theorem httpBasicUser_value (u w pad buf : List Byte) :
    ∃ s, httpBasicUser (basicValue u w pad) buf = takeName (u ++ ':'.toUInt8 :: s) 0 buf := by
  have hscheme : ¬ ((basicValue u w pad).length < 6 ∨ ¬ spanEqCi ((basicValue u w pad).take 5) "basic" ∨
      (basicValue u w pad)[5]? ≠ some ' '.toUInt8) := by
    rw [basicValue]
    simp only [List.cons_append, List.nil_append, List.length_cons, List.take_succ_cons, List.take_zero,
      List.getElem?_cons_succ, List.getElem?_cons_zero]
    rintro (hlen | hname | hblank)
    · omega
    · exact hname (by decide +kernel)
    · exact hblank (by decide)
  obtain ⟨s, hs⟩ := b64Decode_encode (u ++ ':'.toUInt8 :: w) pad
  rw [httpBasicUser, if_neg hscheme, httpBasicLoop_takeName (by decide), toBits, List.nil_append, ← b64Decode,
    ← basicPayload, basicPayload_value, hs, List.append_assoc, List.cons_append]
  exact ⟨_, rfl⟩

/-- A credential gives exactly its name, whatever the password and the padding; and no value brings a byte
decoded behind its first colon into the buffer. -/
theorem httpBasicUser_name :
    (∀ u w pad buf : List Byte, u ≠ [] → (∀ c ∈ u, 0x20 ≤ c ∧ c < 0x7f ∧ c ≠ ':'.toUInt8) → u.length < buf.length →
      httpBasicUser (basicValue u w pad) buf = (true, u ++ 0 :: buf.drop (u.length + 1)) ∧
        cstr (httpBasicUser (basicValue u w pad) buf).2 = u) ∧
    (∀ u w w' pad pad' buf : List Byte, ':'.toUInt8 ∉ u →
      httpBasicUser (basicValue u w pad) buf = httpBasicUser (basicValue u w' pad') buf) ∧
    ∀ (v buf : List Byte) (i : Nat) (c : Byte), (httpBasicUser v buf).2[i]? = some c →
      buf[i]? = some c ∨ c = 0 ∨
        ((b64Decode (basicPayload v)).takeWhile (· != ':'.toUInt8))[i]? = some c := by
  refine ⟨?_, ?_, ?_⟩
  · intro u w pad buf hne hu hlen
    obtain ⟨s, hs⟩ := httpBasicUser_value u w pad buf
    have hpos : 0 < u.length := List.length_pos_iff.mpr hne
    have hzero : ∀ c ∈ u, (c != 0) = true := by
      intro c hc
      rw [bne_iff_ne]
      rintro rfl
      exact absurd (hu 0 hc).1 (by decide)
    rw [hs, takeName_name hu (by omega), Nat.zero_add, List.take_zero, List.nil_append, decide_eq_true hpos]
    refine ⟨rfl, ?_⟩
    rw [cstr, List.takeWhile_append_of_pos hzero, List.takeWhile_cons_of_neg (by decide), List.append_nil]
  · intro u w w' pad pad' buf hu
    obtain ⟨s, hs⟩ := httpBasicUser_value u w pad buf
    obtain ⟨s', hs'⟩ := httpBasicUser_value u w' pad' buf
    rw [hs, hs', takeName_colon hu s s']
  · intro v buf i c h
    rcases httpBasicUser_cases v buf with heq | heq
    · rw [heq] at h
      exact .inl h
    · rw [heq] at h
      rcases takeName_source _ 0 buf h with hold | hzero | ⟨-, hname⟩
      · exact .inl hold
      · exact .inr (.inl hzero)
      · exact .inr (.inr hname)

theorem httpBasicUser_name_al :
    httpBasicUser (basicValue [97, 108] [58, 255] [61]) [1, 2, 3, 4] = (true, [97, 108, 0, 4]) ∧
      httpBasicUser (basicValue [97, 108] [58, 255] [61]) [1, 2, 3, 4] =
        httpBasicUser (basicValue [97, 108] [] []) [1, 2, 3, 4] :=
  ⟨(httpBasicUser_name.1 [97, 108] [58, 255] [61] [1, 2, 3, 4] (by decide) (by decide +kernel) (by decide)).1,
    httpBasicUser_name.2.1 [97, 108] [58, 255] [] [61] [] [1, 2, 3, 4] (by decide)⟩

end Latkit
