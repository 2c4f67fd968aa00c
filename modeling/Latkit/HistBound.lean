import Latkit.HistWrite

/-! The boundaries of the quarter-octave grid, and that a value lies between those of its index. -/

namespace Latkit
open Binary64 (Positive word)

def quarterPow : Nat → Float
  | 0 => 1.0
  | 1 => 1.189207115002721
  | 2 => 1.4142135623730951
  | _ => 1.681792830507429

def divmod4 (k : Int) : Int × Nat :=
  if k.tmod 4 < 0 then (k.tdiv 4 - 1, (k.tmod 4 + 4).toNat) else (k.tdiv 4, (k.tmod 4).toNat)

theorem divmod4_eq (k : Int) : divmod4 k = (k / 4, (k % 4).toNat) := by
  have hdiv := Int.mul_tdiv_add_tmod k 4
  have hlt := Int.tmod_lt_of_pos k (show (0 : Int) < 4 by decide)
  have hgt := Int.lt_tmod_of_pos k (show (0 : Int) < 4 by decide)
  rw [divmod4]
  split
  · rw [Prod.mk.injEq]
    omega
  · rw [Prod.mk.injEq]
    omega

/-- A normal number times a power of two: to the nearest, ties to even, below the normal range. -/
def ldexp (v : Float) (q : Int) : Float :=
  let bits : Nat := v.toBits.toNat
  let frac : Nat := bits % 2 ^ 52
  let exp : Int := (bits / 2 ^ 52 % 2 ^ 11 : Nat) + q
  if 2047 ≤ exp then Float.ofBits 0x7ff0000000000000
  else if 1 ≤ exp then Float.ofBits (UInt64.ofNat (exp.toNat * 2 ^ 52 + frac))
  else
    let sig := 2 ^ 52 + frac
    let ulp := 2 ^ (1 - exp).toNat
    let down := sig / ulp
    let rest := sig % ulp
    Float.ofBits (UInt64.ofNat (if ulp < 2 * rest ∨ (2 * rest = ulp ∧ down % 2 = 1) then down + 1 else down))

def lkHistBound (k : Int) : Float :=
  let (q, r) := divmod4 k
  ldexp (quarterPow r) q

def quarterFrac : Nat → Nat
  | 0 => 0
  | 1 => 852113092622101
  | 2 => 1865452045155277
  | _ => 3070521937417133

theorem quarterPow_bits (r : Nat) : (quarterPow r).toBits.toNat = 1023 * 2 ^ 52 + quarterFrac r := by
  match r with
  | 0 | 1 | 2 => decide +kernel
  | _ + 3 => exact (by decide +kernel : (quarterPow 3).toBits.toNat = 1023 * 2 ^ 52 + quarterFrac 3)

theorem quarterFrac_lt (r : Nat) : quarterFrac r < 2 ^ 52 := by
  match r with
  | 0 | 1 | 2 => decide
  | _ + 3 => exact (by decide : quarterFrac 3 < 2 ^ 52)

def boundWord (k : Int) : Int := (1023 + k / 4) * 2 ^ 52 + quarterFrac (k % 4).toNat

theorem boundWord_quarter {r : Nat} (hr : r < 4) : boundWord (4 * q + r) = (1023 + q) * 2 ^ 52 + quarterFrac r := by
  rw [boundWord, show (4 * q + r) / 4 = q by omega, show ((4 * q + r) % 4).toNat = r by omega]

theorem lkHistBound_eq (k : Int) : lkHistBound k = ldexp (quarterPow (k % 4).toNat) (k / 4) := by
  rw [lkHistBound, divmod4_eq]

theorem lkHistBound_inf (h : 4096 ≤ k) : lkHistBound k = Float.ofBits 0x7ff0000000000000 := by
  have hfrac := quarterFrac_lt (k % 4).toNat
  rw [lkHistBound_eq]
  simp only [ldexp, quarterPow_bits]
  rw [if_pos (by omega)]

theorem lkHistBound_word (hlo : -4088 ≤ k) (hhi : k ≤ 4095) : (word (lkHistBound k) : Int) = boundWord k := by
  have hfrac := quarterFrac_lt (k % 4).toNat
  rw [lkHistBound_eq, boundWord]
  simp only [ldexp, quarterPow_bits]
  rw [if_neg (by omega), if_pos (by omega), Binary64.word_ofBits (by omega) (by omega)]
  omega

theorem lkHistBound_positive (hlo : -4088 ≤ k) (hhi : k ≤ 4095) : Positive (lkHistBound k) := by
  have hword := lkHistBound_word hlo hhi
  have hfrac := quarterFrac_lt (k % 4).toNat
  rw [boundWord] at hword
  constructor <;> omega

theorem frexp_normal (h : word v / 2 ^ 52 % 2 ^ 11 ≠ 0) : frexp v =
    (Float.ofBits (UInt64.ofNat (1022 * 2 ^ 52 + word v % 2 ^ 52)), ((word v / 2 ^ 52 % 2 ^ 11 : Nat) : Int) - 1022) :=
  if_neg h

theorem mantissa_le_iff (hlo : 2 ^ 52 ≤ word v) (hhi : word v < 2047 * 2 ^ 52)
    (hc : word c = 1022 * 2 ^ 52 + f) (hf : f < 2 ^ 52) : c ≤ (frexp v).1 ↔ f ≤ word v % 2 ^ 52 := by
  have hfrac : word v % 2 ^ 52 < 2 ^ 52 := Nat.mod_lt _ (Nat.two_pow_pos 52)
  have hm : word (frexp v).1 = 1022 * 2 ^ 52 + word v % 2 ^ 52 := by
    rw [frexp_normal (by omega)]
    exact Binary64.word_ofBits (by omega) (by omega)
  have hcpos : Positive c := ⟨by omega, by omega⟩
  have hmpos : Positive (frexp v).1 := ⟨by omega, by omega⟩
  rw [hcpos.le_word_iff hmpos]
  omega

theorem lkHistIndex_quarter (hlo : 2 ^ 52 ≤ word v) (hhi : word v < 2047 * 2 ^ 52) :
    ∃ q : Int, ∃ r : Nat, r < 4 ∧ lkHistIndex v = 4 * q + r ∧ ((word v / 2 ^ 52 : Nat) : Int) = q + 1023 ∧
      quarterFrac r ≤ word v % 2 ^ 52 ∧ (r < 3 → word v % 2 ^ 52 < quarterFrac (r + 1)) := by
  have he : (frexp v).2 = ((word v / 2 ^ 52 : Nat) : Int) - 1022 := by
    rw [frexp_normal (by omega)]
    dsimp only
    omega
  have h3 := mantissa_le_iff (c := 0.8408964152537145) (f := quarterFrac 3) hlo hhi (by decide +kernel) (by decide)
  have h2 := mantissa_le_iff (c := 0.7071067811865476) (f := quarterFrac 2) hlo hhi (by decide +kernel) (by decide)
  have h1 := mantissa_le_iff (c := 0.5946035575013605) (f := quarterFrac 1) hlo hhi (by decide +kernel) (by decide)
  have hidx : lkHistIndex v = 4 * (frexp v).2 +
      (if 0.8408964152537145 ≤ (frexp v).1 then -1 else if 0.7071067811865476 ≤ (frexp v).1 then -2
        else if 0.5946035575013605 ≤ (frexp v).1 then -3 else -4) := rfl
  rw [hidx, he]
  simp only [h1, h2, h3]
  refine ⟨((word v / 2 ^ 52 : Nat) : Int) - 1023, ?_⟩
  by_cases hq3 : quarterFrac 3 ≤ word v % 2 ^ 52
  · rw [if_pos hq3]
    exact ⟨3, by decide, by omega, by omega, hq3, fun h => absurd h (Nat.lt_irrefl 3)⟩
  rw [if_neg hq3]
  by_cases hq2 : quarterFrac 2 ≤ word v % 2 ^ 52
  · rw [if_pos hq2]
    exact ⟨2, by decide, by omega, by omega, hq2, fun _ => Nat.lt_of_not_le hq3⟩
  rw [if_neg hq2]
  by_cases hq1 : quarterFrac 1 ≤ word v % 2 ^ 52
  · rw [if_pos hq1]
    exact ⟨1, by decide, by omega, by omega, hq1, fun _ => Nat.lt_of_not_le hq2⟩
  rw [if_neg hq1]
  exact ⟨0, by decide, by omega, by omega, Nat.zero_le _, fun _ => Nat.lt_of_not_le hq1⟩

theorem lkHistIndex_words (hlo : 2 ^ 52 ≤ word v) (hhi : word v < 2047 * 2 ^ 52) :
    boundWord (lkHistIndex v) ≤ word v ∧ (word v : Int) < boundWord (lkHistIndex v + 1) ∧
      -4088 ≤ lkHistIndex v ∧ lkHistIndex v ≤ 4095 := by
  obtain ⟨q, r, hr, hidx, hq, hfrom, hto⟩ := lkHistIndex_quarter hlo hhi
  rw [hidx, boundWord_quarter hr]
  refine ⟨by omega, ?_, by omega, by omega⟩
  by_cases hr3 : r < 3
  · have hlt := hto hr3
    rw [show 4 * q + (r : Int) + 1 = 4 * q + (r + 1 : Nat) by omega, boundWord_quarter (by omega)]
    omega
  · have h0 : quarterFrac 0 = 0 := rfl
    rw [show 4 * q + (r : Int) + 1 = 4 * (q + 1) + (0 : Nat) by omega, boundWord_quarter (by decide), h0]
    omega

/-- A positive normal number is at least the boundary of its index and below the next one. -/
theorem lkHistIndex_bounds (v : Float) (hlo : 2 ^ 52 ≤ word v) (hhi : word v < 2047 * 2 ^ 52) :
    lkHistBound (lkHistIndex v) ≤ v ∧ v < lkHistBound (lkHistIndex v + 1) := by
  obtain ⟨hfrom, hto, hmin, hmax⟩ := lkHistIndex_words hlo hhi
  have hv : Positive v := ⟨by omega, hhi⟩
  constructor
  · rw [(lkHistBound_positive hmin hmax).le_word_iff hv]
    have hword := lkHistBound_word hmin hmax
    omega
  · by_cases htop : lkHistIndex v = 4095
    · rw [lkHistBound_inf (by omega)]
      exact hv.lt_inf
    · have hword := lkHistBound_word (k := lkHistIndex v + 1) (by omega) (by omega)
      rw [hv.lt_word_iff (lkHistBound_positive (by omega) (by omega))]
      omega

theorem lkHistIndex_bounds_milli : 2 ^ 52 ≤ word 0.001 ∧ word 0.001 < 2047 * 2 ^ 52 ∧
    lkHistBound (lkHistIndex 0.001) ≤ 0.001 ∧ 0.001 < lkHistBound (lkHistIndex 0.001 + 1) :=
  have hlo : 2 ^ 52 ≤ word 0.001 := by decide +kernel
  have hhi : word 0.001 < 2047 * 2 ^ 52 := by decide +kernel
  ⟨hlo, hhi, lkHistIndex_bounds 0.001 hlo hhi⟩

end Latkit
