import Mathlib

/-! A queue whose members enter behind, may be marked while they stand at the front, and leave from the front, each with
one fate. The members are numbered in the order of their entry. -/

namespace FateQueue

inductive Move (φ : Type) where
  | stay
  | enter
  | mark
  | leave (fs : List φ)
  deriving DecidableEq, Repr

/-- The number of the member at the front, and who is marked. -/
@[ext] structure State where
  head : Nat := 0
  marks : List Bool := []
  deriving DecidableEq, Repr

section
variable {φ : Type}

def Move.fates : Move φ → List φ
  | .leave fs => fs
  | _ => []

def State.next (s : State) : Move φ → State
  | .stay => s
  | .enter => { s with marks := s.marks ++ [false] }
  | .mark => { s with marks := s.marks.modifyHead fun _ => true }
  | .leave fs => { head := s.head + fs.length, marks := s.marks.drop fs.length }

def State.Allows (s : State) (m : Move φ) : Prop := m.fates.length ≤ s.marks.length

def run (ms : List (Move φ)) : State := ms.foldl State.next {}

/-- The fates of a run: the n-th is the fate of the n-th member. -/
def fates (ms : List (Move φ)) : List φ := ms.flatMap Move.fates

def entered (ms : List (Move φ)) : Nat := ms.countP fun m => match m with | .enter => true | _ => false

theorem run_snoc (ms : List (Move φ)) (m : Move φ) : run (ms ++ [m]) = (run ms).next m := by
  rw [run, List.foldl_append]
  rfl

theorem fates_snoc (ms : List (Move φ)) (m : Move φ) : fates (ms ++ [m]) = fates ms ++ m.fates := by
  rw [fates, List.flatMap_append, List.flatMap_singleton]
  rfl

theorem next_head (s : State) (m : Move φ) : (s.next m).head = s.head + m.fates.length := by
  cases m <;> rfl

theorem run_head (ms : List (Move φ)) : (run ms).head = (fates ms).length := by
  induction ms using List.reverseRecOn with
  | nil => rfl
  | append_singleton ms m ih => rw [run_snoc, fates_snoc, next_head, ih, List.length_append]

def Allowed (ms : List (Move φ)) : Prop := ∀ pre m, pre ++ [m] <+: ms → (run pre).Allows m

theorem Allowed.init (h : Allowed (ms ++ [m])) : Allowed (ms : List (Move φ)) :=
  fun pre m' hpre => h pre m' (hpre.trans (List.prefix_append ms [m]))

theorem Allowed.entered_eq (h : Allowed (ms : List (Move φ))) :
    entered ms = (run ms).head + (run ms).marks.length := by
  induction ms using List.reverseRecOn with
  | nil => rfl
  | append_singleton ms m ih =>
    have hm := h ms m List.prefix_rfl
    have hih := ih h.init
    rw [entered, List.countP_append, ← entered, run_snoc, hih]
    cases m with
    | stay => rfl
    | enter =>
      simp only [State.next, List.length_append, List.length_singleton]
      rfl
    | mark =>
      simp only [State.next, List.length_modifyHead]
      rfl
    | leave fs =>
      simp only [State.Allows, Move.fates] at hm
      simp only [State.next, List.length_drop, List.countP_singleton, Bool.false_eq_true, if_false]
      omega

theorem marked (ms : List (Move φ)) (h : (run ms).marks[i]? = some true) :
    ∃ pre, pre ++ [Move.mark] <+: ms ∧ (run pre).head = (run ms).head + i ∧ (run pre).marks ≠ [] := by
  induction ms using List.reverseRecOn generalizing i with
  | nil => cases h
  | append_singleton ms m ih =>
    have hearlier : ∀ j, (run ms).marks[j]? = some true → (run ms).head + j = (run (ms ++ [m])).head + i →
        ∃ pre, pre ++ [Move.mark] <+: ms ++ [m] ∧ (run pre).head = (run (ms ++ [m])).head + i ∧ (run pre).marks ≠ [] := by
      intro j hj heq
      obtain ⟨pre, hpre, hhead, hne⟩ := ih hj
      exact ⟨pre, hpre.trans (List.prefix_append ms [m]), hhead.trans heq, hne⟩
    rw [run_snoc] at h
    cases m with
    | stay => exact hearlier i h (by rw [run_snoc, State.next])
    | enter =>
      refine hearlier i ?_ (by rw [run_snoc, State.next])
      rw [State.next, List.getElem?_append] at h
      split at h
      · exact h
      · rw [List.getElem?_singleton] at h
        split at h <;> cases h
    | mark =>
      cases i with
      | zero =>
        refine ⟨ms, List.prefix_rfl, by rw [run_snoc, State.next, Nat.add_zero], fun hnil => ?_⟩
        rw [State.next, hnil] at h
        cases h
      | succ i =>
        refine hearlier (i + 1) ?_ (by rw [run_snoc, State.next])
        rw [State.next] at h
        cases hms : (run ms).marks with
        | nil => rw [hms] at h; cases h
        | cons b bs =>
          rw [hms] at h
          exact h
    | leave fs =>
      refine hearlier (fs.length + i) ?_ (by rw [run_snoc, State.next, Nat.add_assoc])
      rw [State.next, List.getElem?_drop] at h
      exact h

theorem fates_at (ms : List (Move φ)) (h : (fates ms)[i]? = some f) :
    ∃ pre, ∃ m : Move φ, ∃ k : Nat, pre ++ [m] <+: ms ∧ m.fates[k]? = some f ∧ (run pre).head + k = i := by
  induction ms using List.reverseRecOn with
  | nil => cases h
  | append_singleton ms m ih =>
    rw [fates_snoc, List.getElem?_append] at h
    split at h
    · obtain ⟨pre, m', k, hpre, hk, hi⟩ := ih h
      exact ⟨pre, m', k, hpre.trans (List.prefix_append ms [m]), hk, hi⟩
    · exact ⟨ms, m, i - (fates ms).length, List.prefix_rfl, h, by rw [run_head]; omega⟩

theorem fates_marked (ms : List (Move φ)) (h : (fates ms)[i]? = some f)
    (hf : ∀ pre (m : Move φ) (k : Nat), pre ++ [m] <+: ms → m.fates[k]? = some f → (run pre).marks[k]? = some true) :
    ∃ pre, pre ++ [Move.mark] <+: ms ∧ (run pre).head = i ∧ (run pre).marks ≠ [] := by
  obtain ⟨pre, m, k, hpre, hk, rfl⟩ := fates_at ms h
  obtain ⟨pre', hpre', hhead, hne⟩ := marked pre (hf pre m k hpre hk)
  exact ⟨pre', hpre'.trans ((List.prefix_append pre [m]).trans hpre), hhead, hne⟩

end

end FateQueue
