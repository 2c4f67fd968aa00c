import Mathlib

namespace Numeral

/-! Positional numerals over an arbitrary alphabet, most significant digit first. -/

section
variable (base : Nat) (digit : α → Option Nat)

def value : Nat → List α → Option Nat
  | v, [] => some v
  | v, a :: ds =>
    match digit a with
    | none => none
    | some d => value (v * base + d) ds

/-- The same, by a reader that gives up before it takes a digit behind a number over `lim`. -/
def read (lim : Nat) : Nat → List α → Option Nat
  | v, [] => some v
  | v, a :: ds =>
    match digit a with
    | none => none
    | some d => if lim < v then none else read lim (v * base + d) ds

variable {base : Nat} {digit : α → Option Nat}

theorem value_of_read (h : read base digit lim v ds = some n) : value base digit v ds = some n := by
  induction ds generalizing v with
  | nil => exact h
  | cons a ds ih =>
    simp only [read] at h
    simp only [value]
    cases hd : digit a with
    | none => simp [hd] at h
    | some d =>
      simp only [hd] at h
      split at h
      · cases h
      · exact ih h

end

end Numeral
