import Mathlib

/-! The positive doubles are ordered as their bit patterns are. -/

namespace Binary64
open Float.Model

def word (x : Float) : Nat := x.toBits.toNat

theorem word_lt (x : Float) : word x < 2 ^ 64 := x.toBits.toNat_lt

theorem exponent_toNat (b : BitVec 64) :
    (@UnpackedFloat.unpackExponent Format.binary64 b).toNat = b.toNat / 2 ^ 52 % 2 ^ 11 := by
  simp [UnpackedFloat.unpackExponent, BitVec.extractLsb, Nat.shiftRight_eq_div_pow]

theorem mantissa_toNat (b : BitVec 64) :
    (@UnpackedFloat.unpackMantissa Format.binary64 b).toNat = b.toNat % 2 ^ 52 := by
  simp [UnpackedFloat.unpackMantissa, BitVec.extractLsb]

theorem sign_toNat (b : BitVec 64) :
    (@UnpackedFloat.unpackSign Format.binary64 b).toNat = b.toNat / 2 ^ 63 % 2 := by
  simp [UnpackedFloat.unpackSign, BitVec.extractLsb, Nat.shiftRight_eq_div_pow]

theorem sign_positive {b : BitVec 64} (h : b.toNat < 2 ^ 63) :
    UnpackedFloat.Sign.ofBitVec (@UnpackedFloat.unpackSign Format.binary64 b) = .positive := by
  have hbit : @UnpackedFloat.unpackSign Format.binary64 b = 0#1 := by
    apply BitVec.eq_of_toNat_eq
    rw [sign_toNat, Nat.div_eq_of_lt h]
    rfl
  rw [hbit]
  rfl

theorem sign_negative {b : BitVec 64} (h : 2 ^ 63 ≤ b.toNat) :
    UnpackedFloat.Sign.ofBitVec (@UnpackedFloat.unpackSign Format.binary64 b) = .negative := by
  have hbit : @UnpackedFloat.unpackSign Format.binary64 b = 1#1 := by
    have hlt := b.isLt
    apply BitVec.eq_of_toNat_eq
    rw [sign_toNat]
    simp
    omega
  rw [hbit]
  rfl

theorem zero_unpack : (0 : Float).toModel.unpack = .zero .positive := by
  rfl

theorem unpack_special {b : BitVec 64} (h : b.toNat / 2 ^ 52 % 2 ^ 11 = 2047) :
    (UnpackedFloat.unpack .binary64 b).isInf = true ∨ (UnpackedFloat.unpack .binary64 b).isNaN = true := by
  have hexp : @UnpackedFloat.unpackExponent Format.binary64 b = -1#11 := by
    apply BitVec.eq_of_toNat_eq
    rw [exponent_toNat, h]
    rfl
  rw [UnpackedFloat.unpack, if_pos hexp]
  split
  · exact .inl rfl
  · exact .inr rfl

theorem exponent_ne {b : BitVec 64} (h : b.toNat / 2 ^ 52 % 2 ^ 11 ≠ 2047) :
    @UnpackedFloat.unpackExponent Format.binary64 b ≠ -1#11 := by
  intro hexp
  rw [← exponent_toNat, hexp] at h
  exact h rfl

def significand (w : Nat) : Nat := if w / 2 ^ 52 % 2 ^ 11 = 0 then w % 2 ^ 52 else 2 ^ 52 + w % 2 ^ 52

def exponent (w : Nat) : Int := if w / 2 ^ 52 % 2 ^ 11 = 0 then -1074 else (w / 2 ^ 52 % 2 ^ 11 : Nat) - 1075

theorem unpack_finite {b : BitVec 64} (h : b.toNat / 2 ^ 52 % 2 ^ 11 ≠ 2047) :
    (∃ s, UnpackedFloat.unpack .binary64 b = .zero s ∧ b.toNat % 2 ^ 63 = 0) ∨
      ∃ m e hm, UnpackedFloat.unpack .binary64 b =
          .finite (UnpackedFloat.Sign.ofBitVec (@UnpackedFloat.unpackSign Format.binary64 b)) m e hm ∧
        m = significand b.toNat ∧ e = exponent b.toNat := by
  have hexp := exponent_toNat b
  have hmant := mantissa_toNat b
  rw [UnpackedFloat.unpack, if_neg (exponent_ne h)]
  by_cases h0 : @UnpackedFloat.unpackExponent Format.binary64 b = 0#11
  · rw [if_pos h0]
    rw [h0] at hexp
    have hz : b.toNat / 2 ^ 52 % 2 ^ 11 = 0 := hexp.symm
    by_cases hm : @UnpackedFloat.unpackMantissa Format.binary64 b = 0#52
    · rw [dif_pos hm]
      rw [hm] at hmant
      have hz' : b.toNat % 2 ^ 52 = 0 := hmant.symm
      exact .inl ⟨_, rfl, by omega⟩
    · rw [dif_neg hm]
      refine .inr ⟨_, _, _, rfl, ?_, ?_⟩
      · rw [significand, if_pos hz, hmant]
      · rw [exponent, if_pos hz, h0]
        rfl
  · rw [if_neg h0]
    have hz : b.toNat / 2 ^ 52 % 2 ^ 11 ≠ 0 := by
      intro hz
      exact h0 (BitVec.eq_of_toNat_eq (hexp.trans hz))
    have happ : (1#1 ++ @UnpackedFloat.unpackMantissa Format.binary64 b).toNat =
        2 ^ 52 + b.toNat % 2 ^ 52 := by
      rw [BitVec.toNat_append, hmant]
      have hor := Nat.two_pow_add_eq_or_of_lt (Nat.mod_lt b.toNat (Nat.two_pow_pos 52)) 1
      simpa [Nat.shiftLeft_eq] using hor.symm
    refine .inr ⟨_, _, _, rfl, ?_, ?_⟩
    · rw [significand, if_neg hz, happ]
    · rw [exponent, if_neg hz, ← hexp]
      rfl

/-- The words of the positive finite doubles. -/
structure Positive (x : Float) : Prop where
  pos : 0 < word x
  lt : word x < 2047 * 2 ^ 52

theorem le_iff (x y : Float) : x ≤ y ↔ (x.toModel.unpack.compare y.toModel.unpack).any (·.isLE) = true := by
  change decide (x.toModel ≤ y.toModel) = true ↔ _
  rw [decide_eq_true_eq]
  rfl

theorem lt_iff (x y : Float) : x < y ↔ x.toModel.unpack.compare y.toModel.unpack = some .lt := by
  change decide (x.toModel < y.toModel) = true ↔ _
  rw [decide_eq_true_eq]
  exact beq_iff_eq

theorem Positive.of (hx : ¬ (x.isNaN = true ∨ x ≤ 0)) (hinf : ¬ x.isInf = true) : Positive x := by
  rw [not_or] at hx
  obtain ⟨hnan, hle⟩ := hx
  rw [le_iff, zero_unpack] at hle
  have hword : word x = x.toModel.toBits.toBitVec.toNat := rfl
  have hlt := word_lt x
  by_cases hexp : x.toModel.toBits.toBitVec.toNat / 2 ^ 52 % 2 ^ 11 = 2047
  · obtain h | h := unpack_special hexp
    · exact absurd h hinf
    · exact absurd h hnan
  obtain ⟨s, hz, _⟩ | ⟨m, e, hm, hf, hsig, _⟩ := unpack_finite hexp
  · change x.toModel.unpack = _ at hz
    rw [hz] at hle
    exact absurd rfl hle
  · change x.toModel.unpack = _ at hf
    rw [hf] at hle
    have hpos : word x < 2 ^ 63 := by
      by_contra hneg
      rw [hword] at hneg
      rw [sign_negative (Nat.le_of_not_lt hneg)] at hle
      exact hle rfl
    constructor
    · by_contra h0
      have hw : word x = 0 := by omega
      rw [hw] at hword
      rw [hsig, ← hword] at hm
      exact absurd hm (by decide)
    · rw [← hword] at hexp
      omega

theorem Positive.unpack (h : Positive x) :
    ∃ hm, x.toModel.unpack = .finite .positive (significand (word x)) (exponent (word x)) hm := by
  have hlt := h.lt
  have hpos := h.pos
  have hexp : word x / 2 ^ 52 % 2 ^ 11 ≠ 2047 := by omega
  obtain ⟨s, _, hz⟩ | ⟨m, e, hm, hf, rfl, rfl⟩ := unpack_finite hexp
  · change word x % 2 ^ 63 = 0 at hz
    omega
  · rw [sign_positive (show word x < 2 ^ 63 by omega)] at hf
    exact ⟨hm, hf⟩

theorem Positive.lt_word_iff (hx : Positive x) (hy : Positive y) : x < y ↔ word x < word y := by
  obtain ⟨_, hux⟩ := hx.unpack
  obtain ⟨_, huy⟩ := hy.unpack
  have hxlt := hx.lt
  have hylt := hy.lt
  rw [lt_iff, hux, huy]
  simp only [UnpackedFloat.compare, Option.some.injEq, Ordering.then_eq_lt, Int.compare_eq_lt,
    Int.compare_eq_eq, Nat.compare_eq_lt]
  simp only [significand, exponent]
  split <;> split <;> omega

theorem Positive.not_inf_lt (hy : Positive y) (hinf : x.isInf = true) (hle : ¬ x ≤ 0) : ¬ x < y := by
  obtain ⟨_, huy⟩ := hy.unpack
  change x.toModel.unpack.isInf = true at hinf
  rw [le_iff, zero_unpack] at hle
  rw [lt_iff, huy]
  cases hux : x.toModel.unpack with
  | infinity s =>
    rw [hux] at hle
    cases s with
    | positive => exact nofun
    | negative => exact absurd rfl hle
  | notANumber | zero | finite =>
    rw [hux] at hinf
    cases hinf

theorem Positive.le_word_iff (hx : Positive x) (hy : Positive y) : x ≤ y ↔ word x ≤ word y := by
  obtain ⟨_, hux⟩ := hx.unpack
  obtain ⟨_, huy⟩ := hy.unpack
  have hxlt := hx.lt
  have hylt := hy.lt
  rw [le_iff, hux, huy]
  simp only [UnpackedFloat.compare, Option.any_some, Ordering.isLE_iff_ne_gt, Ordering.then_eq_gt,
    Int.compare_eq_gt, Int.compare_eq_eq, Nat.compare_eq_gt]
  simp only [significand, exponent]
  split <;> split <;> omega

theorem word_ofBits (hlo : 2 ^ 52 ≤ w) (hhi : w < 2047 * 2 ^ 52) : word (Float.ofBits (UInt64.ofNat w)) = w := by
  have hw : (UInt64.ofNat w).toBitVec.toNat = w := by
    apply Nat.mod_eq_of_lt
    omega
  have hexp : (UInt64.ofNat w).toBitVec.toNat / 2 ^ 52 % 2 ^ 11 ≠ 2047 := by
    rw [hw]
    omega
  obtain ⟨s, _, hz⟩ | ⟨m, e, hm, hf, hsig, he⟩ := unpack_finite hexp
  · rw [hw] at hz
    omega
  · rw [hw] at hsig he
    rw [sign_positive (by rw [hw]; omega)] at hf
    have hone : w / 2 ^ 52 % 2 ^ 11 ≠ 0 := by omega
    rw [significand, if_neg hone] at hsig
    rw [exponent, if_neg hone] at he
    have hbits : (Float.ofBits (UInt64.ofNat w)).toBits.toBitVec =
        UnpackedFloat.pack .binary64 (UnpackedFloat.unpack .binary64 (UInt64.ofNat w).toBitVec) := rfl
    have hlog : m.log2 = 52 := by
      rw [Nat.log2_eq_iff (by omega)]
      omega
    have hbiased : (e + (Format.binary64.exponentBias : Int) + (Format.binary64.mantissaBitsWithoutImplicit : Int)).toNat =
        w / 2 ^ 52 := by
      change (e + 1023 + 52).toNat = w / 2 ^ 52
      omega
    change (Float.ofBits (UInt64.ofNat w)).toBits.toBitVec.toNat = w
    rw [hbits, hf, UnpackedFloat.pack]
    dsimp only
    rw [hbiased, hlog, if_neg, if_pos (show 52 + 1 = Format.binary64.mantissaBits from rfl),
      UnpackedFloat.packComponents]
    · have hlow : w % 2 ^ 52 < 2 ^ 52 := Nat.mod_lt w (Nat.two_pow_pos 52)
      have hs : (UnpackedFloat.Sign.toBitVec .positive ++ BitVec.ofNat 11 (w / 2 ^ 52)).toNat = w / 2 ^ 52 := by
        rw [BitVec.toNat_append]
        simp [UnpackedFloat.Sign.toBitVec]
        omega
      rw [BitVec.toNat_append, hs, BitVec.toNat_ofNat, hsig, Nat.add_mod_left, Nat.mod_mod,
        ← Nat.shiftLeft_add_eq_or_of_lt hlow, Nat.shiftLeft_eq]
      omega
    · omega

theorem Positive.lt_inf (hx : Positive x) : x < Float.ofBits 0x7ff0000000000000 := by
  obtain ⟨_, hux⟩ := hx.unpack
  have hinf : (Float.ofBits 0x7ff0000000000000).toModel.unpack = .infinity .positive := rfl
  rw [lt_iff, hux, hinf]
  rfl

theorem Positive.not_le (hx : Positive x) (h : y.isNaN = true ∨ y ≤ 0) : ¬ x ≤ y := by
  obtain ⟨_, hux⟩ := hx.unpack
  rw [le_iff, zero_unpack] at h
  change y.toModel.unpack.isNaN = true ∨ _ at h
  rw [le_iff, hux]
  cases huy : y.toModel.unpack with
  | notANumber | zero s => exact nofun
  | infinity s =>
    rw [huy] at h
    cases s with
    | positive => simp [UnpackedFloat.isNaN, UnpackedFloat.compare] at h
    | negative => exact nofun
  | finite s m e hm =>
    rw [huy] at h
    cases s with
    | positive => simp [UnpackedFloat.isNaN, UnpackedFloat.compare] at h
    | negative => exact nofun

end Binary64
