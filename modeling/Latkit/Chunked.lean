import Mathlib

namespace Chunked

/-- What one turn of a consuming loop ends with: leave the loop, or go on with the remaining input. -/
inductive Turn (σ α : Type) where
  | ret (s : σ)
  | next (s : σ) (rest : List α)

def Turn.map (e : σ → τ) : Turn σ α → Turn τ α
  | .ret s => .ret (e s)
  | .next s rest => .next (e s) rest

def drive (turn : σ → List α → Turn σ α) : Nat → σ → List α → σ
  | 0, s, _ => s
  | _ + 1, s, [] => s
  | n + 1, s, a :: p =>
    match turn s (a :: p) with
    | .ret s => s
    | .next s rest => drive turn n s rest

/-- Two turns per symbol are enough for a loop that may stall once between two symbols. -/
def run (turn : σ → List α → Turn σ α) (s : σ) (p : List α) : σ :=
  drive turn (2 * p.length + 1) s p

/-- A loop that stays within `Ok` and never stalls twice in a row; `cost` marks the states in which it
may stall. -/
structure Progress (turn : σ → List α → Turn σ α) (Ok : σ → Prop) (cost : σ → Nat) : Prop where
  cost_le : ∀ s, cost s ≤ 1
  ret : ∀ s p s', Ok s → p ≠ [] → turn s p = .ret s' → Ok s'
  next : ∀ s p s' rest, Ok s → p ≠ [] → turn s p = .next s' rest →
    Ok s' ∧ 2 * rest.length + cost s' < 2 * p.length + cost s

/-- How a turn on `p` relates to the same turn with `q` already behind `p`. -/
inductive Splits (turn : σ → List α → Turn σ α) (Bad : σ → Prop) (s : σ) (p q : List α) : Prop
  | within (s' : σ) (rest : List α) (hp : turn s p = .next s' rest)
      (hpq : turn s (p ++ q) = .next s' (rest ++ q))
  | cutRet (s' : σ) (hp : turn s p = .ret s') (hpq : turn s (p ++ q) = turn s' q)
  | cutNext (s' : σ) (hp : turn s p = .next s' []) (hpq : turn s (p ++ q) = turn s' q)
  | stop (s' : σ) (hp : turn s p = .ret s') (hpq : turn s (p ++ q) = .ret s') (hb : Bad s')

section
variable {turn : σ → List α → Turn σ α} {Ok Bad : σ → Prop} {cost : σ → Nat}

theorem drive_nil (n : Nat) (s : σ) : drive turn n s [] = s := by
  cases n <;> rfl

theorem run_nil (s : σ) : run turn s [] = s := drive_nil _ s

theorem drive_succ (n : Nat) (s : σ) (p : List α) (hp : p ≠ []) :
    drive turn (n + 1) s p =
      match turn s p with
      | .ret s => s
      | .next s rest => drive turn n s rest := by
  cases p with
  | nil => exact absurd rfl hp
  | cons a p => rfl

theorem Progress.drive_fuel (h : Progress turn Ok cost) (hs : Ok s)
    (hn : 2 * p.length + cost s ≤ n) (hm : 2 * p.length + cost s ≤ m) :
    drive turn n s p = drive turn m s p := by
  induction n generalizing s p m with
  | zero =>
    have hp : p = [] := List.length_eq_zero_iff.1 (by omega)
    rw [hp, drive_nil, drive_nil]
  | succ n ih =>
    by_cases hp : p = []
    · rw [hp, drive_nil, drive_nil]
    have hl := List.length_pos_iff.2 hp
    obtain ⟨m, rfl⟩ : ∃ k, m = k + 1 := ⟨m - 1, by omega⟩
    rw [drive_succ n s p hp, drive_succ m s p hp]
    cases ht : turn s p with
    | ret s' => rfl
    | next s' rest =>
      obtain ⟨hs', hc⟩ := h.next s p s' rest hs hp ht
      exact ih hs' (by omega) (by omega)

def Turn.finish (turn : σ → List α → Turn σ α) : Turn σ α → σ
  | .ret s => s
  | .next s rest => run turn s rest

theorem Progress.run_eq (h : Progress turn Ok cost) (hs : Ok s) (hp : p ≠ []) :
    run turn s p = (turn s p).finish turn := by
  rw [run, drive_succ _ s p hp]
  cases ht : turn s p with
  | ret s' => rfl
  | next s' rest =>
    obtain ⟨hs', hc⟩ := h.next s p s' rest hs hp ht
    have hl := h.cost_le s
    have hl' := h.cost_le s'
    exact h.drive_fuel hs' (by omega) (by omega)

theorem Progress.run_ret (h : Progress turn Ok cost) (hs : Ok s) (hp : p ≠ [])
    (ht : turn s p = .ret s') : run turn s p = s' := by
  rw [h.run_eq hs hp, ht, Turn.finish]

theorem Progress.run_next (h : Progress turn Ok cost) (hs : Ok s) (hp : p ≠ [])
    (ht : turn s p = .next s' rest) : run turn s p = run turn s' rest := by
  rw [h.run_eq hs hp, ht, Turn.finish]

theorem run_map {turn' : τ → List α → Turn τ α} {e : σ → τ}
    (he : ∀ s p, turn' (e s) p = (turn s p).map e) (s : σ) (p : List α) :
    run turn' (e s) p = e (run turn s p) := by
  rw [run, run]
  induction 2 * p.length + 1 generalizing s p with
  | zero => rfl
  | succ n ih =>
    cases p with
    | nil => rfl
    | cons a p =>
      rw [drive_succ n _ _ (List.cons_ne_nil a p), drive_succ n _ _ (List.cons_ne_nil a p), he]
      cases turn s (a :: p) with
      | ret s' => rfl
      | next s' rest => exact ih s' rest

theorem drive_keeps {I : σ → Prop} (ret : ∀ s p s', I s → turn s p = .ret s' → I s')
    (next : ∀ s p s' rest, I s → turn s p = .next s' rest → I s') (hs : I s) (n : Nat) (p : List α) :
    I (drive turn n s p) := by
  induction n generalizing s p with
  | zero => exact hs
  | succ n ih =>
    by_cases hp : p = []
    · rw [hp, drive_nil]
      exact hs
    rw [drive_succ n s p hp]
    cases ht : turn s p with
    | ret s' => exact ret s p s' hs ht
    | next s' rest => exact ih (next s p s' rest hs ht) rest

theorem run_keeps {I : σ → Prop} (ret : ∀ s p s', I s → turn s p = .ret s' → I s')
    (next : ∀ s p s' rest, I s → turn s p = .next s' rest → I s') (hs : I s) (p : List α) :
    I (run turn s p) :=
  drive_keeps ret next hs _ p

def Turn.left : Turn σ α → σ
  | .ret s => s
  | .next s _ => s

theorem run_ahead {I : σ → List α → Prop} (cost_le : ∀ s, cost s ≤ 1)
    (ret : ∀ s p q s', p ≠ [] → I s (p ++ q) → turn s p = .ret s' → I s' q)
    (next : ∀ s p q s' rest, p ≠ [] → I s (p ++ q) → turn s p = .next s' rest →
      I s' (rest ++ q) ∧ 2 * rest.length + cost s' < 2 * p.length + cost s)
    (p q : List α) (h : I s (p ++ q)) : I (run turn s p) q := by
  have hdrive : ∀ n s p, 2 * p.length + cost s ≤ n → I s (p ++ q) → I (drive turn n s p) q := by
    intro n
    induction n with
    | zero =>
      intro s p hn h
      rw [List.length_eq_zero_iff.1 (show p.length = 0 by omega)] at h
      exact h
    | succ n ih =>
      intro s p hn h
      by_cases hp : p = []
      · rw [hp] at h
        rw [hp, drive_nil]
        exact h
      rw [drive_succ n s p hp]
      cases ht : turn s p with
      | ret s' => exact ret s p q s' hp h ht
      | next s' rest =>
        obtain ⟨hI, hlt⟩ := next s p q s' rest hp h ht
        exact ih s' rest (by omega) hI
  exact hdrive _ s p (by have := cost_le s; omega) h

/-- The induction rule of the loop: a relation that every leaving turn establishes and every other
turn passes back. -/
theorem Progress.run_induct (h : Progress turn Ok cost) {motive : σ → List α → σ → Prop}
    (nil : ∀ s, Ok s → motive s [] s)
    (ret : ∀ s p s', Ok s → p ≠ [] → turn s p = .ret s' → motive s p s')
    (next : ∀ s p s' rest, Ok s → p ≠ [] → turn s p = .next s' rest → Ok s' →
      motive s' rest (run turn s' rest) → motive s p (run turn s' rest))
    (hs : Ok s) (p : List α) : motive s p (run turn s p) := by
  induction hn : 2 * p.length + cost s using Nat.strongRecOn generalizing s p with
  | ind n ih =>
    by_cases hp : p = []
    · rw [hp, run_nil]
      exact nil s hs
    cases ht : turn s p with
    | ret s' =>
      rw [h.run_ret hs hp ht]
      exact ret s p s' hs hp ht
    | next s' rest =>
      obtain ⟨hs', hc⟩ := h.next s p s' rest hs hp ht
      rw [h.run_next hs hp ht]
      exact next s p s' rest hs hp ht hs' (ih _ (by omega) hs' rest rfl)

theorem Progress.run_ok (h : Progress turn Ok cost) (hs : Ok s) (p : List α) :
    Ok (run turn s p) :=
  h.run_induct (motive := fun _ _ s' => Ok s') (fun _ hs => hs) h.ret
    (fun _ _ _ _ _ _ _ _ ih => ih) hs p

/-- Feeding the input in two pieces is feeding it at once, unless a turn threw the rest of its chunk
away, and then both runs show it. -/
theorem Progress.run_append (h : Progress turn Ok cost)
    (hsp : ∀ s p q, Ok s → p ≠ [] → q ≠ [] → Splits turn Bad s p q)
    (hbad : ∀ s p, Ok s → Bad s → Bad (run turn s p)) (hs : Ok s) (p q : List α) :
    run turn s (p ++ q) = run turn (run turn s p) q ∨
      Bad (run turn s (p ++ q)) ∧ Bad (run turn (run turn s p) q) := by
  by_cases hq : q = []
  · rw [hq, List.append_nil, run_nil]
    exact .inl rfl
  induction hn : 2 * p.length + cost s using Nat.strongRecOn generalizing s p with
  | ind n ih =>
    by_cases hp : p = []
    · rw [hp, run_nil, List.nil_append]
      exact .inl rfl
    have hpq : p ++ q ≠ [] := by simp [hp]
    cases hsp s p q hs hp hq with
    | within s' rest ht ht' =>
      obtain ⟨hs', hc⟩ := h.next s p s' rest hs hp ht
      rw [h.run_next hs hp ht, h.run_next hs hpq ht']
      exact ih _ (by omega) hs' rest rfl
    | cutRet s' ht ht' =>
      have hs' := h.ret s p s' hs hp ht
      rw [h.run_ret hs hp ht, h.run_eq hs hpq, ht', ← h.run_eq hs' hq]
      exact .inl rfl
    | cutNext s' ht ht' =>
      obtain ⟨hs', -⟩ := h.next s p s' [] hs hp ht
      rw [h.run_next hs hp ht, run_nil, h.run_eq hs hpq, ht', ← h.run_eq hs' hq]
      exact .inl rfl
    | stop s' ht ht' hb =>
      rw [h.run_ret hs hp ht, h.run_ret hs hpq ht']
      exact .inr ⟨hb, hbad s' q (h.ret s p s' hs hp ht) hb⟩

/-- The loop as it runs with nothing to stop it but itself: after so many turns from `s` over `p` it is left in `s'`,
with the input that stood before the turn that left it, or none. -/
inductive Ends (turn : σ → List α → Turn σ α) : Nat → σ → List α → σ → List α → Prop
  | done : Ends turn 0 s [] s []
  | left (hp : p ≠ []) (ht : turn s p = .ret s') : Ends turn 1 s p s' p
  | next (hp : p ≠ []) (ht : turn s p = .next s₁ rest) (h : Ends turn n s₁ rest s' q) : Ends turn (n + 1) s p s' q

theorem Ends.drive_eq (h : Ends turn n s p s' q) (hn : n ≤ m) : drive turn m s p = s' := by
  induction h generalizing m with
  | done => exact drive_nil m _
  | left hp ht =>
    obtain ⟨m, rfl⟩ : ∃ k, m = k + 1 := ⟨m - 1, by omega⟩
    rw [drive_succ m _ _ hp, ht]
  | next hp ht h ih =>
    obtain ⟨m, rfl⟩ : ∃ k, m = k + 1 := ⟨m - 1, by omega⟩
    rw [drive_succ m _ _ hp, ht]
    exact ih (by omega)

theorem ends_of_rank {rank : σ → Nat}
    (hrank : ∀ s p s' rest, p ≠ [] → turn s p = .next s' rest → 2 * rest.length + rank s' < 2 * p.length + rank s)
    (s : σ) (p : List α) : ∃ n s' q, n ≤ 2 * p.length + rank s - 1 ∧ Ends turn n s p s' q := by
  generalize hk : 2 * p.length + rank s = k
  induction k using Nat.strongRecOn generalizing s p with
  | ind k ih =>
    by_cases hp : p = []
    · rw [hp]
      exact ⟨0, s, [], Nat.zero_le _, .done⟩
    have hlen := List.length_pos_iff.mpr hp
    cases ht : turn s p with
    | ret s' => exact ⟨1, s', p, by omega, .left hp ht⟩
    | next s₁ rest =>
      have hlt := hrank s p s₁ rest hp ht
      obtain ⟨n, s', q, hn, hends⟩ := ih _ (by omega) s₁ rest rfl
      exact ⟨n + 1, s', q, by omega, .next hp ht hends⟩

theorem Ends.left_or {Q : σ → Prop} (hret : ∀ s p s', p ≠ [] → turn s p = .ret s' → Q s')
    (h : Ends turn n s p s' q) : q = [] ∨ Q s' := by
  induction h with
  | done => exact .inl rfl
  | left hp ht => exact .inr (hret _ _ _ hp ht)
  | next _ _ _ ih => exact ih

end

end Chunked
