import Mathlib

namespace Latkit

/-! Binary search over a range of numbers, by a three-way comparison. -/

def bisect (cmp : Nat → Ordering) : Nat → Nat → Nat → Option Nat
  | 0, _, _ => none
  | n + 1, l, r =>
    if l < r then
      match cmp (l + (r - l) / 2) with
      | .eq => some (l + (r - l) / 2)
      | .lt => bisect cmp n (l + (r - l) / 2 + 1) r
      | .gt => bisect cmp n l (l + (r - l) / 2)
    else none

/-- Behind the first place that is not too small, everything is too large. -/
def Rising (cmp : Nat → Ordering) (l r : Nat) : Prop :=
  ∀ i j, l ≤ i → i < j → j < r → cmp i ≠ .lt → cmp j = .gt

variable {cmp : Nat → Ordering}

theorem Rising.mono (h : Rising cmp l r) (hl : l ≤ l') (hr : r' ≤ r) : Rising cmp l' r' := by
  intro i j hi hij hj hne
  exact h i j (by omega) hij (by omega) hne

theorem Rising.lt_of_lt (h : Rising cmp l r) (hi : l ≤ i) (hij : i < j) (hj : j < r) (hlt : cmp j = .lt) :
    cmp i = .lt := by
  by_contra hne
  rw [h i j hi hij hj hne] at hlt
  cases hlt

theorem Rising.unique (h : Rising cmp l r) (hi : l ≤ i) (hir : i < r) (hj : l ≤ j) (hjr : j < r)
    (hei : cmp i = .eq) (hej : cmp j = .eq) : i = j := by
  rcases Nat.lt_trichotomy i j with hlt | heq | hgt
  · have := h i j hi hlt hjr (by rw [hei]; nofun)
    rw [hej] at this
    cases this
  · exact heq
  · have := h j i hj hgt hir (by rw [hej]; nofun)
    rw [hei] at this
    cases this

theorem bisect_found (h : bisect cmp n l r = some i) : l ≤ i ∧ i < r ∧ cmp i = .eq := by
  induction n generalizing l r with
  | zero => cases h
  | succ n ih =>
    rw [bisect] at h
    split at h
    · split at h
      · next heq =>
        cases h
        exact ⟨by omega, by omega, heq⟩
      · have := ih h
        exact ⟨by omega, this.2⟩
      · have := ih h
        exact ⟨this.1, by omega, this.2.2⟩
    · cases h

theorem bisect_finds (h : Rising cmp l r) (hn : r - l ≤ n) (hl : l ≤ i) (hr : i < r) (hi : cmp i = .eq) :
    bisect cmp n l r = some i := by
  induction n generalizing l r with
  | zero => omega
  | succ n ih =>
    rw [bisect, if_pos (by omega)]
    split
    · next heq =>
      rw [h.unique (by omega) (by omega) hl hr heq hi]
    · next heq =>
      have hgt : l + (r - l) / 2 < i := by
        by_contra hle
        rcases Nat.lt_or_ge i (l + (r - l) / 2) with hlt | hge
        · rw [h.lt_of_lt hl hlt (by omega) heq] at hi
          cases hi
        · rw [show i = l + (r - l) / 2 by omega, heq] at hi
          cases hi
      exact ih (h.mono (by omega) (Nat.le_refl r)) (by omega) hgt hr
    · next heq =>
      have hlt : i < l + (r - l) / 2 := by
        by_contra hge
        rcases Nat.lt_or_ge (l + (r - l) / 2) i with hgt | hle
        · rw [h _ i (by omega) hgt hr (by rw [heq]; nofun)] at hi
          cases hi
        · rw [show i = l + (r - l) / 2 by omega, heq] at hi
          cases hi
      exact ih (h.mono (Nat.le_refl l) (by omega)) (by omega) hl hlt

theorem bisect_eq_find (h : Rising cmp l (l + n)) :
    bisect cmp n l (l + n) = (List.range' l n).find? (fun i => cmp i == .eq) := by
  cases hs : (List.range' l n).find? (fun i => cmp i == .eq) with
  | some i =>
    have hmem := List.mem_of_find?_eq_some hs
    have heq := List.find?_some hs
    rw [List.mem_range'_1] at hmem
    exact bisect_finds h (by omega) hmem.1 hmem.2 (by simpa using heq)
  | none =>
    cases hb : bisect cmp n l (l + n) with
    | none => rfl
    | some i =>
      obtain ⟨hl, hr, hi⟩ := bisect_found hb
      have := List.find?_eq_none.mp hs i (List.mem_range'_1.mpr ⟨hl, hr⟩)
      rw [hi] at this
      exact absurd rfl this

end Latkit
