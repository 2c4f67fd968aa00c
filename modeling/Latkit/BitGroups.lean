import Mathlib

namespace Latkit

/-! Numbers as bits, highest first, and bits read in groups. -/

def toBits : Nat → Nat → List Bool
  | 0, _ => []
  | w + 1, n => decide (n / 2 ^ w % 2 = 1) :: toBits w n

def ofBits (bs : List Bool) : Nat := bs.foldl (fun n b => 2 * n + b.toNat) 0

@[simp] theorem length_toBits (w n : Nat) : (toBits w n).length = w := by
  induction w with
  | zero => rfl
  | succ w ih => rw [toBits, List.length_cons, ih]

theorem foldl_bits (bs : List Bool) (n : Nat) :
    bs.foldl (fun n b => 2 * n + b.toNat) n = 2 ^ bs.length * n + ofBits bs := by
  induction bs generalizing n with
  | nil => simp [ofBits]
  | cons b bs ih =>
    rw [ofBits, List.foldl_cons, List.foldl_cons, ih, ih (2 * 0 + b.toNat), List.length_cons, Nat.pow_succ]
    ring

theorem ofBits_cons (b : Bool) (bs : List Bool) : ofBits (b :: bs) = 2 ^ bs.length * b.toNat + ofBits bs := by
  rw [ofBits, List.foldl_cons, foldl_bits]
  simp

theorem ofBits_lt (bs : List Bool) : ofBits bs < 2 ^ bs.length := by
  induction bs with
  | nil => exact Nat.one_pos
  | cons b bs ih =>
    rw [ofBits_cons, List.length_cons, Nat.pow_succ]
    cases b <;> simp only [Bool.toNat_true, Bool.toNat_false] <;> omega

theorem toNat_bit (n : Nat) : (decide (n % 2 = 1)).toNat = n % 2 := by
  rcases Nat.mod_two_eq_zero_or_one n with h | h <;> simp [h]

theorem ofBits_toBits (w n : Nat) : ofBits (toBits w n) = n % 2 ^ w := by
  induction w with
  | zero => simp [toBits, ofBits, Nat.mod_one]
  | succ w ih =>
    rw [toBits, ofBits_cons, length_toBits, ih, toNat_bit, Nat.mod_pow_succ]
    ring

theorem toBits_mod (h : w ≤ k) (n : Nat) : toBits w (n % 2 ^ k) = toBits w n := by
  induction w with
  | zero => rfl
  | succ w ih =>
    rw [toBits, toBits, ih (by omega)]
    have hk : 2 ^ k = 2 ^ w * (2 * 2 ^ (k - w - 1)) := by
      rw [← Nat.pow_succ', ← Nat.pow_add]
      congr 1
      omega
    rw [hk, Nat.mod_mul_right_div_self, Nat.mod_mul_right_mod]

theorem toBits_split (w k n : Nat) : toBits (w + k) n = toBits w (n / 2 ^ k) ++ toBits k n := by
  induction w with
  | zero => rw [Nat.zero_add, toBits, List.nil_append]
  | succ w ih =>
    rw [Nat.add_right_comm, toBits, toBits, List.cons_append, ← ih, Nat.div_div_eq_div_mul, ← Nat.pow_add,
      Nat.add_comm k w]

theorem toBits_append (w k a : Nat) (hd : d < 2 ^ k) :
    toBits w a ++ toBits k d = toBits (w + k) (a * 2 ^ k + d) := by
  have hhigh : (a * 2 ^ k + d) / 2 ^ k = a := by
    rw [Nat.mul_comm, Nat.mul_add_div (Nat.two_pow_pos k), Nat.div_eq_of_lt hd, Nat.add_zero]
  have hlow : (a * 2 ^ k + d) % 2 ^ k = d := by rw [Nat.mul_comm, Nat.mul_add_mod, Nat.mod_eq_of_lt hd]
  rw [toBits_split, hhigh, ← toBits_mod (Nat.le_refl k) (a * 2 ^ k + d), hlow]

theorem toBits_ofBits (bs : List Bool) : toBits bs.length (ofBits bs) = bs := by
  induction bs with
  | nil => rfl
  | cons b bs ih =>
    have hlt := ofBits_lt bs
    have hhigh : (2 ^ bs.length * b.toNat + ofBits bs) / 2 ^ bs.length = b.toNat := by
      rw [Nat.mul_add_div (Nat.two_pow_pos _), Nat.div_eq_of_lt hlt, Nat.add_zero]
    have hlow : (2 ^ bs.length * b.toNat + ofBits bs) % 2 ^ bs.length = ofBits bs := by
      rw [Nat.mul_add_mod, Nat.mod_eq_of_lt hlt]
    rw [List.length_cons, ofBits_cons, toBits, hhigh, ← toBits_mod (Nat.le_refl _), hlow, ih]
    cases b <;> rfl

/-- The complete groups of `w` bits; a remainder of fewer is dropped. -/
def groups (w : Nat) (bs : List Bool) : List Nat :=
  if 0 < w ∧ w ≤ bs.length then ofBits (bs.take w) :: groups w (bs.drop w) else []
  termination_by bs.length
  decreasing_by
    rw [List.length_drop]
    omega

theorem groups_cons (hw : 0 < w) (h : g.length = w) (bs : List Bool) :
    groups w (g ++ bs) = ofBits g :: groups w bs := by
  rw [groups, if_pos ⟨hw, by rw [List.length_append]; omega⟩, List.take_left' h, List.drop_left' h]

theorem groups_short (h : bs.length < w) : groups w bs = [] := by
  rw [groups, if_neg (by omega)]

theorem groups_flatMap (hw : 0 < w) (h : ∀ n ∈ ns, n < 2 ^ w) (bs : List Bool) :
    groups w (ns.flatMap (toBits w) ++ bs) = ns ++ groups w bs := by
  induction ns with
  | nil => rfl
  | cons n ns ih =>
    rw [List.flatMap_cons, List.append_assoc, groups_cons hw (length_toBits w n), ofBits_toBits,
      Nat.mod_eq_of_lt (h n List.mem_cons_self), ih fun m hm => h m (List.mem_cons_of_mem n hm), List.cons_append]

theorem flatMap_groups (hw : 0 < w) (h : w ∣ bs.length) : (groups w bs).flatMap (toBits w) = bs := by
  obtain ⟨k, hk⟩ := h
  induction k generalizing bs with
  | zero =>
    rw [List.eq_nil_of_length_eq_zero hk, groups_short hw]
    rfl
  | succ k ih =>
    have hle : w ≤ bs.length := by
      rw [hk]
      exact Nat.le_mul_of_pos_right w (Nat.succ_pos k)
    have hlen : (bs.take w).length = w := by rw [List.length_take, Nat.min_eq_left hle]
    rw [groups, if_pos ⟨hw, hle⟩, List.flatMap_cons, ih (by rw [List.length_drop, hk, Nat.mul_succ]; omega)]
    nth_rewrite 1 [← hlen]
    rw [toBits_ofBits, List.take_append_drop]

theorem groups_lt (h : n ∈ groups w bs) : n < 2 ^ w := by
  rw [groups] at h
  split at h
  · next hw =>
    rcases List.mem_cons.mp h with rfl | hmem
    · have := ofBits_lt (bs.take w)
      rwa [List.length_take, Nat.min_eq_left hw.2] at this
    · exact groups_lt hmem
  · cases h
  termination_by bs.length
  decreasing_by
    rw [List.length_drop]
    omega

end Latkit
