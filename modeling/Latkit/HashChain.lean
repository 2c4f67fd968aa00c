import Mathlib

/-! Singly linked chains through pointer fields of their nodes, and the removal of a node through the pointer to it. -/

namespace HashChain

def Chain (next : Nat → Option Nat) : Option Nat → List Nat → Prop
  | o, [] => o = none
  | o, a :: l => o = some a ∧ Chain next (next a) l

def walk (next : Nat → Option Nat) (found : Nat → Bool) : Nat → Option Nat → Option (Option Nat)
  | 0, _ => none
  | _ + 1, none => some none
  | fuel + 1, some a => if found a then some (some a) else walk next found fuel (next a)

def slotOf (next : Nat → Option Nat) (c : Nat) : Nat → Option Nat → Option Nat → Option (Option Nat)
  | 0, _, _ => none
  | _ + 1, _, none => none
  | fuel + 1, before, some a => if a = c then some before else slotOf next c fuel (some a) (next a)

theorem Chain.walk_eq (h : Chain next o l) (hfuel : l.length < fuel) : walk next found fuel o = some (l.find? found) := by
  induction l generalizing o fuel with
  | nil =>
    obtain ⟨fuel, rfl⟩ : ∃ n, fuel = n + 1 := ⟨fuel - 1, by omega⟩
    rw [show o = none from h]
    rfl
  | cons a l ih =>
    obtain ⟨rfl, hrest⟩ := h
    obtain ⟨fuel, rfl⟩ : ∃ n, fuel = n + 1 := ⟨fuel - 1, by omega⟩
    rw [walk, List.find?_cons]
    cases found a with
    | true => rfl
    | false => exact ih hrest (by simpa using hfuel)

theorem Chain.slotOf_eq (h : Chain next o (xs ++ c :: ys)) (hc : c ∉ xs) (hfuel : xs.length < fuel) (before : Option Nat) :
    slotOf next c fuel before o = some (xs.getLast?.or before) := by
  induction xs generalizing o fuel before with
  | nil =>
    obtain ⟨rfl, -⟩ := h
    obtain ⟨fuel, rfl⟩ : ∃ n, fuel = n + 1 := ⟨fuel - 1, by omega⟩
    exact if_pos rfl
  | cons a xs ih =>
    obtain ⟨rfl, hrest⟩ := h
    obtain ⟨fuel, rfl⟩ : ∃ n, fuel = n + 1 := ⟨fuel - 1, by omega⟩
    rw [List.mem_cons, not_or] at hc
    rw [slotOf, if_neg (Ne.symm hc.1), ih hrest hc.2 (by simpa using hfuel)]
    cases xs <;> simp [List.getLast?_cons]

theorem Chain.congr (h : Chain next o l) (hnext : ∀ a ∈ l, next' a = next a) : Chain next' o l := by
  induction l generalizing o with
  | nil => exact h
  | cons a l ih =>
    refine ⟨h.1, ?_⟩
    rw [hnext a List.mem_cons_self]
    exact ih h.2 fun b hb => hnext b (List.mem_cons_of_mem a hb)

theorem Chain.after (h : Chain next o (xs ++ c :: ys)) : Chain next (next c) ys := by
  induction xs generalizing o with
  | nil => exact h.2
  | cons a xs ih => exact ih h.2

theorem Chain.relink (h : Chain next o (xs ++ ys)) (hxs : xs.getLast? = some p) (hnodup : (xs ++ zs).Nodup)
    (hzs : Chain next q zs) : Chain (Function.update next p q) o (xs ++ zs) := by
  induction xs generalizing o with
  | nil => cases hxs
  | cons a xs ih =>
    refine ⟨h.1, ?_⟩
    obtain ⟨ha, hrest⟩ := List.nodup_cons.mp hnodup
    cases xs with
    | nil =>
      rw [List.getLast?_singleton, Option.some.injEq] at hxs
      rw [← hxs, Function.update_self]
      refine hzs.congr fun b hb => Function.update_of_ne ?_ ..
      rintro rfl
      exact ha hb
    | cons b xs =>
      rw [List.getLast?_cons_cons] at hxs
      have hne : a ≠ p := by
        rintro rfl
        exact ha (List.mem_append_left _ (List.mem_of_getLast? hxs))
      rw [Function.update_of_ne hne]
      exact ih h.2 hxs hrest

end HashChain
