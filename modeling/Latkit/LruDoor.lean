import Mathlib

/-! A bounded set of recent elements behind a lossy doorkeeper. -/

namespace LruDoor

/-- The elements held, the one that came last in front; the room left; who was turned away at each door. -/
structure State (α : Type) where
  held : List α
  room : Nat
  door : Nat → α

section
variable {α : Type} [DecidableEq α] {xs held : List α} {x y : α} (slot : α → Nat) (empty : α)

def resolve (s : State α) (x : α) : State α :=
  if x ∈ s.held then { s with held := x :: s.held.erase x }
  else if 0 < s.room then { s with held := x :: s.held, room := s.room - 1 }
  else if s.door (slot x) = x then
    { s with held := x :: s.held.dropLast, door := Function.update s.door (slot x) empty }
  else { s with door := Function.update s.door (slot x) x }

def Refuses (s : State α) (x : α) : Prop := x ∉ s.held ∧ s.room = 0 ∧ s.door (slot x) ≠ x

def start (n : Nat) : State α := ⟨[], n, fun _ => empty⟩

def run (n : Nat) (xs : List α) : State α := xs.foldl (resolve slot empty) (start empty n)

def age (xs : List α) (x : α) : Nat := xs.reverse.idxOf x

/-- The element came before and was turned away, there being no room. -/
def RefusedBefore (n : Nat) (xs : List α) (x : α) : Prop :=
  ∃ before after, xs = before ++ x :: after ∧ Refuses slot (run slot empty n before) x

theorem run_concat (n : Nat) (xs : List α) (x : α) :
    run slot empty n (xs ++ [x]) = resolve slot empty (run slot empty n xs) x := by
  rw [run, List.foldl_append]
  rfl

theorem age_self (xs : List α) (x : α) : age (xs ++ [x]) x = 0 := by
  rw [age, List.reverse_concat, List.idxOf_cons_self]

theorem age_of_ne (h : y ≠ x) (xs : List α) : age (xs ++ [x]) y = age xs y + 1 := by
  rw [age, List.reverse_concat, List.idxOf_cons_ne _ h.symm, age]

def Aged (xs held : List α) : Prop := held.Pairwise fun a b => age xs a < age xs b

theorem Aged.nodup (h : Aged xs held) : held.Nodup := by
  apply List.Pairwise.imp _ h
  intro a b hlt he
  rw [he] at hlt
  exact Nat.lt_irrefl _ hlt

theorem Aged.later (h : Aged xs held) (hx : x ∉ held) : Aged (xs ++ [x]) held := by
  apply List.Pairwise.imp_of_mem _ h
  intro a b ha hb hlt
  rw [age_of_ne (ne_of_mem_of_not_mem ha hx), age_of_ne (ne_of_mem_of_not_mem hb hx)]
  omega

theorem Aged.push (h : Aged xs held) (hx : x ∉ held) : Aged (xs ++ [x]) (x :: held) := by
  apply List.Pairwise.cons _ (h.later hx)
  intro a ha
  rw [age_self, age_of_ne (ne_of_mem_of_not_mem ha hx)]
  omega

variable {slot empty}

theorem RefusedBefore.append (h : RefusedBefore slot empty n xs x) (ys : List α) :
    RefusedBefore slot empty n (xs ++ ys) x := by
  obtain ⟨before, after, rfl, href⟩ := h
  exact ⟨before, after ++ ys, by simp, href⟩

theorem RefusedBefore.of_concat (h : RefusedBefore slot empty n (xs ++ [y]) x) (hne : x ≠ y) :
    RefusedBefore slot empty n xs x := by
  obtain ⟨before, after, heq, href⟩ := h
  induction after using List.reverseRecOn with
  | nil =>
    obtain ⟨_, hlast⟩ := List.append_inj' heq rfl
    exact absurd (List.cons.inj hlast).1.symm hne
  | append_singleton after z _ =>
    have hcut : xs ++ [y] = (before ++ x :: after) ++ [z] := by simpa using heq
    exact ⟨before, after, (List.append_inj' hcut rfl).1, href⟩

/-- What every run keeps: the held elements in the order they last came, at the doors only who was turned away. -/
structure Kept (slot : α → Nat) (empty : α) (n : Nat) (xs : List α) : Prop where
  aged : Aged xs (run slot empty n xs).held
  doors : ∀ d, (run slot empty n xs).door d ≠ empty →
    RefusedBefore slot empty n xs ((run slot empty n xs).door d)
  full : n ≤ (run slot empty n xs).held.length + (run slot empty n xs).room

inductive Step (slot : α → Nat) (empty : α) (s : State α) (x : α) : State α → Prop
  | touch : x ∈ s.held → Step slot empty s x { s with held := x :: s.held.erase x }
  | enter : x ∉ s.held → 0 < s.room → Step slot empty s x { s with held := x :: s.held, room := s.room - 1 }
  | replace : x ∉ s.held → s.room = 0 → s.door (slot x) = x →
      Step slot empty s x { s with held := x :: s.held.dropLast, door := Function.update s.door (slot x) empty }
  | refuse : Refuses slot s x → Step slot empty s x { s with door := Function.update s.door (slot x) x }

theorem resolve_step (slot : α → Nat) (empty : α) (s : State α) (x : α) : Step slot empty s x (resolve slot empty s x) := by
  rw [resolve]
  split
  · exact .touch ‹_›
  · next hx =>
    split
    · exact .enter hx ‹_›
    · next hroom =>
      have hzero : s.room = 0 := Nat.eq_zero_of_not_pos hroom
      split
      · exact .replace hx hzero ‹_›
      · exact .refuse ⟨hx, hzero, ‹_›⟩

theorem kept_concat (h : Kept slot empty n xs) (x : α) : Kept slot empty n (xs ++ [x]) := by
  have hdoors := fun d hd => (h.doors d hd).append [x]
  have hfull := h.full
  have hstep := resolve_step slot empty (run slot empty n xs) x
  rw [← run_concat] at hstep
  generalize hs : run slot empty n (xs ++ [x]) = s' at hstep
  suffices hk : Aged (xs ++ [x]) s'.held ∧ (∀ d, s'.door d ≠ empty → RefusedBefore slot empty n (xs ++ [x]) (s'.door d)) ∧
      n ≤ s'.held.length + s'.room by
    subst hs
    exact ⟨hk.1, hk.2.1, hk.2.2⟩
  cases hstep with
  | touch hx =>
    have hno : x ∉ (run slot empty n xs).held.erase x := h.aged.nodup.not_mem_erase
    refine ⟨Aged.push (h.aged.sublist List.erase_sublist) hno, hdoors, ?_⟩
    have hpos := List.length_pos_of_mem hx
    rw [List.length_cons, List.length_erase_of_mem hx]
    dsimp only
    omega
  | enter hx hroom =>
    refine ⟨h.aged.push hx, hdoors, ?_⟩
    rw [List.length_cons]
    dsimp only
    omega
  | replace hx hroom hdoor =>
    have hno : x ∉ (run slot empty n xs).held.dropLast := fun hm => hx ((List.dropLast_sublist _).mem hm)
    refine ⟨Aged.push (h.aged.sublist (List.dropLast_sublist _)) hno, ?_, ?_⟩
    · intro d hd
      by_cases hds : d = slot x
      · subst hds
        exact absurd (Function.update_self ..) hd
      · simp only [Function.update_of_ne hds] at hd ⊢
        exact hdoors d hd
    · rw [List.length_cons, List.length_dropLast]
      dsimp only
      omega
  | refuse href =>
    refine ⟨h.aged.later href.1, ?_, hfull⟩
    intro d hd
    by_cases hds : d = slot x
    · subst hds
      simp only [Function.update_self]
      exact ⟨xs, [], rfl, href⟩
    · simp only [Function.update_of_ne hds] at hd ⊢
      exact hdoors d hd

theorem kept (slot : α → Nat) (empty : α) (n : Nat) (xs : List α) : Kept slot empty n xs := by
  induction xs using List.reverseRecOn with
  | nil => exact ⟨List.Pairwise.nil, fun _ hd => absurd rfl hd, Nat.le_add_left n 0⟩
  | append_singleton xs x ih => exact kept_concat ih x

/-- Without room only an element that was turned away before enters, in the place of the one that came longest ago. -/
theorem enters_full (hn : 0 < n) (hroom : (run slot empty n xs).room = 0) (hx : x ∉ (run slot empty n xs).held)
    (hempty : x ≠ empty) (hin : x ∈ (run slot empty n (xs ++ [x])).held) :
    RefusedBefore slot empty n xs x ∧ ∃ v ∈ (run slot empty n xs).held,
      (∀ w ∈ (run slot empty n xs).held, w ≠ v → age xs w < age xs v) ∧
        ∀ y, y ∈ (run slot empty n (xs ++ [x])).held ↔ y = x ∨ (y ∈ (run slot empty n xs).held ∧ y ≠ v) := by
  have hk := kept slot empty n xs
  have hstep := resolve_step slot empty (run slot empty n xs) x
  rw [← run_concat] at hstep
  generalize run slot empty n (xs ++ [x]) = s' at hstep hin ⊢
  cases hstep with
  | touch hm => exact absurd hm hx
  | enter _ hpos => omega
  | refuse => exact absurd hin hx
  | replace _ _ hdoor =>
    have hne : (run slot empty n xs).held ≠ [] := by
      intro hnil
      have hfull := hk.full
      rw [hnil, hroom] at hfull
      exact absurd hn (Nat.not_lt.mpr hfull)
    have hsplit := List.dropLast_concat_getLast hne
    have haged := hk.aged
    have hdup := hk.aged.nodup
    rw [← hsplit] at haged hdup
    refine ⟨hdoor ▸ hk.doors (slot x) (hdoor.symm ▸ hempty), _, List.getLast_mem hne, ?_, ?_⟩
    · intro w hw hwv
      rw [← hsplit, List.mem_append, List.mem_singleton] at hw
      exact (List.pairwise_append.mp haged).2.2 w (hw.resolve_right hwv) _ (List.mem_singleton_self _)
    · intro y
      rw [List.mem_cons]
      apply or_congr_right
      constructor
      · intro hy
        refine ⟨(List.dropLast_sublist _).mem hy, fun he => ?_⟩
        exact (List.nodup_append.mp hdup).2.2 y hy _ (List.mem_singleton_self _) he
      · intro hy
        have hm := hy.1
        rw [← hsplit, List.mem_append, List.mem_singleton] at hm
        exact hm.resolve_right hy.2

/-- Elements that differ and were not turned away before change nothing that is held. -/
theorem held_stream (ys : List α) (hroom : (run slot empty n xs).room = 0) (hys : ys.Nodup)
    (hnew : ∀ y ∈ ys, y ≠ empty ∧ y ∉ (run slot empty n xs).held ∧ ¬ RefusedBefore slot empty n xs y) :
    (run slot empty n (xs ++ ys)).held = (run slot empty n xs).held := by
  induction ys generalizing xs with
  | nil => rw [List.append_nil]
  | cons y ys ih =>
    obtain ⟨hempty, hout, hnot⟩ := hnew y List.mem_cons_self
    obtain ⟨hy, hys⟩ := List.nodup_cons.mp hys
    have hstep := resolve_step slot empty (run slot empty n xs) y
    rw [← run_concat] at hstep
    generalize hs : run slot empty n (xs ++ [y]) = s' at hstep
    cases hstep with
    | touch hm => exact absurd hm hout
    | enter _ hpos => omega
    | replace _ _ hdoor =>
      exact absurd (hdoor ▸ (kept slot empty n xs).doors (slot y) (hdoor.symm ▸ hempty)) hnot
    | refuse =>
      rw [List.append_cons, ih (by rw [hs]; exact hroom) hys, hs]
      intro z hz
      obtain ⟨hze, hzo, hzn⟩ := hnew z (List.mem_cons_of_mem y hz)
      rw [hs]
      exact ⟨hze, hzo, fun hbefore => hzn (hbefore.of_concat (ne_of_mem_of_not_mem hz hy))⟩

end

end LruDoor
