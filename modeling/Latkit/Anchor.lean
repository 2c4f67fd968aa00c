import Mathlib

/-! The scan for a pattern whose first symbol does not recur: after a mismatch it starts over, with the
mismatched symbol if that is the first of the pattern. -/

namespace Anchor
variable {α : Type}

section
variable [DecidableEq α]

def step (pat : List α) (m : Nat) (b : α) : Nat :=
  if pat[m]? = some b then m + 1 else if pat.head? = some b then 1 else 0

end

/-- Of the beginnings of the pattern, the text ends with the empty one and the one of length `m`. -/
structure Matched (pat : List α) (m : Nat) (text : List α) : Prop where
  le : m ≤ pat.length
  iff : ∀ k ≤ pat.length, pat.take k <:+ text ↔ k = 0 ∨ k = m

theorem suffix_concat (l t : List α) (a b : α) : l ++ [a] <:+ t ++ [b] ↔ l <:+ t ∧ a = b := by
  rw [← List.reverse_prefix, ← @List.reverse_prefix _ l t]
  simp only [List.reverse_append, List.reverse_singleton, List.singleton_append, List.cons_prefix_cons]
  exact and_comm

theorem Matched.nil (pat : List α) : Matched pat 0 [] where
  le := Nat.zero_le _
  iff k hk := by
    rw [List.suffix_nil, List.take_eq_nil_iff]
    constructor
    · rintro (rfl | rfl)
      · exact .inl rfl
      · exact .inl (Nat.le_zero.mp hk)
    · rintro (rfl | rfl)
      · exact .inl rfl
      · exact .inl rfl

theorem Matched.full (h : Matched pat m text) : pat <:+ text ↔ pat = [] ∨ m = pat.length := by
  have hk := h.iff pat.length (Nat.le_refl _)
  rw [List.take_length, List.length_eq_zero_iff, eq_comm (b := m)] at hk
  exact hk

variable [DecidableEq α]

theorem Matched.step (h : Matched pat m text) (hfirst : ∀ i a, pat.head? = some a → pat[i]? = some a → i = 0)
    (b : α) : Matched pat (step pat m b) (text ++ [b]) := by
  have hiff : ∀ j < pat.length, pat.take (j + 1) <:+ text ++ [b] ↔ (j = 0 ∨ j = m) ∧ pat[j]? = some b := by
    intro j hj
    rw [List.take_succ_eq_append_getElem hj, suffix_concat, h.iff j (Nat.le_of_lt hj),
      List.getElem?_eq_getElem hj, Option.some.injEq]
  have hhead : pat[0]? = pat.head? := List.head?_eq_getElem?.symm
  constructor
  · rw [Anchor.step]
    split
    · next hm => exact (List.getElem?_eq_some_iff.mp hm).1
    · split
      · next hm =>
        cases pat with
        | nil => cases hm
        | cons a pat => exact Nat.succ_le_succ (Nat.zero_le _)
      · exact Nat.zero_le _
  · intro k hk
    cases k with
    | zero => simp
    | succ j =>
      rw [hiff j hk, Anchor.step]
      split
      · next hm =>
        constructor
        · rintro ⟨rfl | rfl, hj⟩
          · rw [hhead] at hj
            have hzero := hfirst m b hj hm
            exact .inr (by rw [hzero])
          · exact .inr rfl
        · rintro (hj | hj)
          · cases hj
          · obtain rfl := Nat.succ.inj hj
            exact ⟨.inr rfl, hm⟩
      · next hm =>
        split
        · next hb =>
          constructor
          · rintro ⟨rfl | rfl, hj⟩
            · exact .inr rfl
            · exact absurd hj hm
          · rintro (hj | hj)
            · cases hj
            · obtain rfl := Nat.succ.inj hj
              exact ⟨.inl rfl, hhead.trans hb⟩
        · next hb =>
          constructor
          · rintro ⟨rfl | rfl, hj⟩
            · exact absurd (hhead.symm.trans hj) hb
            · exact absurd hj hm
          · rintro (hj | hj) <;> cases hj

end Anchor
