import Mathlib

/-! Patterns that are aligned with a sequence: a wildcard covers any run of items, anything else
covers one item that it fits. -/

namespace Wildcard

inductive Aligned (star : π) (fits : π → α → Prop) : List π → List α → Prop where
  | nil : Aligned star fits [] []
  | skip : Aligned star fits ps xs → Aligned star fits (star :: ps) xs
  | eat : Aligned star fits (star :: ps) xs → Aligned star fits (star :: ps) (x :: xs)
  | one : p ≠ star → fits p x → Aligned star fits ps xs → Aligned star fits (p :: ps) (x :: xs)

section
variable {star : π} {fits : π → α → Prop} {p : π} {ps qs : List π} {x : α} {xs : List α}

theorem aligned_one (hp : p ≠ star) : Aligned star fits (p :: ps) (x :: xs) ↔ fits p x ∧ Aligned star fits ps xs := by
  constructor
  · intro h
    cases h with
    | skip _ => exact absurd rfl hp
    | eat _ => exact absurd rfl hp
    | one _ hf h => exact ⟨hf, h⟩
  · intro h
    exact .one hp h.1 h.2

theorem not_aligned_one (hp : p ≠ star) : ¬ Aligned star fits (p :: ps) ([] : List α) := by
  intro h
  cases h with
  | skip _ => exact hp rfl

theorem Aligned.drop (h : Aligned star fits (ps ++ qs) xs) (hps : star ∉ ps) :
    ps.length ≤ xs.length ∧ Aligned star fits qs (xs.drop ps.length) := by
  induction ps generalizing xs with
  | nil => exact ⟨Nat.zero_le _, h⟩
  | cons p ps ih =>
    have hp : p ≠ star := (List.ne_of_not_mem_cons hps).symm
    cases xs with
    | nil => exact absurd h (not_aligned_one hp)
    | cons x xs =>
      obtain ⟨hlen, hrest⟩ := ih ((aligned_one hp).mp h).2 (List.not_mem_of_not_mem_cons hps)
      exact ⟨Nat.succ_le_succ hlen, hrest⟩

end

end Wildcard
