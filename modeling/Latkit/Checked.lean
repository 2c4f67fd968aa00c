import Mathlib

/-! Programs over unsigned numbers whose steps are checked: where the machine would wrap around, there is no result. -/

namespace Checked

def sub (a b : Nat) : Option Nat := if b ≤ a then some (a - b) else none

def advance (p : List α) (n : Nat) : Option (List α) := if n ≤ p.length then some (p.drop n) else none

theorem sub_eq (h : b ≤ a) : sub a b = some (a - b) := if_pos h

theorem advance_eq {p : List α} (h : n ≤ p.length) : advance p n = some (p.drop n) := if_pos h

inductive Turn (σ ι : Type) where
  | ret (s : σ)
  | next (s : σ) (rest : ι)

/-- A loop that takes from its input; it has no result when a turn has none, or when the fuel does not last. -/
def loop (size : ι → Nat) (turn : σ → ι → Option (Turn σ ι)) : Nat → σ → ι → Option σ
  | 0, s, i => if size i = 0 then some s else none
  | fuel + 1, s, i =>
    if size i = 0 then some s
    else
      match turn s i with
      | none => none
      | some (.ret s) => some s
      | some (.next s rest) => loop size turn fuel s rest

/-- A turn has a result, keeps `I` and, where the loop goes on, gets below `n`. -/
inductive Goes (I : σ → Prop) (rank : σ → ι → Nat) (n : Nat) : Option (Turn σ ι) → Prop
  | ret (h : I s) : Goes I rank n (some (.ret s))
  | next (h : I s) (hless : rank s rest < n) : Goes I rank n (some (.next s rest))

theorem loop_goes {I : σ → Prop} {rank : σ → ι → Nat}
    (hturn : ∀ s i, I s → 0 < size i → Goes I rank (rank s i) (turn s i)) (hsize : ∀ s i, size i ≤ rank s i)
    (hs : I s) (hfuel : rank s i ≤ fuel) : ∃ s', loop size turn fuel s i = some s' ∧ I s' := by
  induction fuel generalizing s i with
  | zero =>
    have hzero : size i = 0 := Nat.le_zero.mp (Nat.le_trans (hsize s i) hfuel)
    exact ⟨s, if_pos hzero, hs⟩
  | succ fuel ih =>
    rw [loop]
    by_cases hzero : size i = 0
    · exact ⟨s, if_pos hzero, hs⟩
    rw [if_neg hzero]
    have hgoes := hturn s i hs (Nat.pos_of_ne_zero hzero)
    generalize turn s i = t at hgoes
    cases hgoes with
    | ret h => exact ⟨_, rfl, h⟩
    | next h hless => exact ih h (by omega)

end Checked
