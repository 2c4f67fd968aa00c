import Mathlib

/-! Open addressing with linear probing and deletion by shifting back, over cells in a circle of `m`. -/

namespace Probing

/-- Going round from `a`, cell `j` is met no later than `b`. -/
def Cyc (a j b : Nat) : Prop := a ≤ b ∧ a ≤ j ∧ j ≤ b ∨ b < a ∧ (a ≤ j ∨ j ≤ b)

instance (a j b : Nat) : Decidable (Cyc a j b) := inferInstanceAs (Decidable (_ ∨ _))

def next (m i : Nat) : Nat := (i + 1) % m

theorem next_eq (h : i < m) : i + 1 = m ∧ next m i = 0 ∨ i + 1 < m ∧ next m i = i + 1 := by
  rcases Nat.lt_or_ge (i + 1) m with hlt | hge
  · exact .inr ⟨hlt, Nat.mod_eq_of_lt hlt⟩
  · have hm : i + 1 = m := by omega
    exact .inl ⟨hm, by rw [next, hm, Nat.mod_self]⟩

theorem next_lt (h : i < m) : next m i < m := Nat.mod_lt _ (Nat.lt_of_le_of_lt (Nat.zero_le i) h)

def dist (m i e : Nat) : Nat := if i ≤ e then e - i else e + m - i

theorem dist_next (hi : i < m) (he : e < m) (hne : i ≠ e) : dist m (next m i) e < dist m i e := by
  have hnext := next_eq hi
  unfold dist
  split <;> split <;> omega

theorem dist_lt (hi : i < m) (he : e < m) : dist m i e < m := by
  unfold dist
  split <;> omega

theorem Cyc.start (a b : Nat) : Cyc a a b := by
  unfold Cyc
  omega

theorem Cyc.eq (h : Cyc a j a) : j = a := by
  unfold Cyc at h
  omega

theorem Cyc.trans (h : Cyc a i c) (h' : Cyc i j c) : Cyc a j c := by
  unfold Cyc at *
  omega

theorem Cyc.within (h : Cyc a p i) (h' : Cyc a i c) : Cyc a p c := by
  unfold Cyc at *
  omega

theorem Cyc.total (a i j : Nat) : Cyc a i j ∨ Cyc a j i := by
  unfold Cyc
  omega

theorem Cyc.of_next (hi : i < m) (ha : a < m) (hc : c < m) (h : Cyc a c (next m i)) :
    c = next m i ∨ Cyc a c i := by
  have hnext := next_eq hi
  unfold Cyc at *
  omega

theorem Cyc.all (hi : i < m) (hc : c < m) (h : next m i = a) : Cyc a c i := by
  have hnext := next_eq hi
  unfold Cyc
  omega

theorem Cyc.next_of (hi : i < m) (hb : b < m) (hne : i ≠ b) (h : Cyc a i b) : Cyc a (next m i) b ∧ next m i ≠ a := by
  have hnext := next_eq hi
  unfold Cyc at *
  omega

def probe (m : Nat) (stop : Nat → Bool) : Nat → Nat → Option Nat
  | 0, _ => none
  | fuel + 1, i => if stop i then some i else probe m stop fuel (next m i)

theorem probe_from (hi : i < m) (ha : a < m) (he : e < m) (hstop : stop e = true) (hfuel : dist m i e < fuel)
    (hbefore : ∀ c < m, Cyc a c i → c ≠ i → stop c = false) :
    ∃ j < m, probe m stop fuel i = some j ∧ stop j = true ∧ ∀ c < m, Cyc a c j → c ≠ j → stop c = false := by
  induction fuel generalizing i with
  | zero => exact absurd hfuel (Nat.not_lt_zero _)
  | succ fuel ih =>
    rw [probe]
    by_cases hs : stop i = true
    · exact ⟨i, hi, if_pos hs, hs, hbefore⟩
    rw [if_neg hs]
    have hpassed : ∀ c < m, Cyc a c i → stop c = false := by
      intro c hc hcyc
      by_cases hci : c = i
      · rw [hci]
        simpa using hs
      · exact hbefore c hc hcyc hci
    have hne : i ≠ e := fun h => hs (h ▸ hstop)
    have hround : next m i ≠ a := by
      intro h
      have hclear := hpassed e he (Cyc.all hi he h)
      rw [hstop] at hclear
      cases hclear
    have hdist := dist_next hi he hne
    refine ih (next_lt hi) (by omega) fun c hc hcyc hcn => ?_
    rcases hcyc.of_next hi ha hc with h | h
    · exact absurd h hcn
    · exact hpassed c hc h

theorem probe_spec (stop : Nat → Bool) (ha : a < m) (he : e < m) (hstop : stop e = true) :
    ∃ j < m, probe m stop m a = some j ∧ stop j = true ∧ ∀ c < m, Cyc a c j → c ≠ j → stop c = false :=
  probe_from ha ha he hstop (dist_lt ha he) fun _ _ hcyc hne => absurd hcyc.eq hne

section
variable {m : Nat} {home : α → Nat} {cells : Nat → Option α}

/-- Every item can be walked to from its home without meeting an empty cell. -/
def Probed (m : Nat) (home : α → Nat) (cells : Nat → Option α) : Prop :=
  ∀ c x, cells c = some x → ∀ p < m, Cyc (home x) p c → cells p ≠ none

theorem Probed.fill (h : Probed m home cells) (hwalk : ∀ c < m, Cyc (home x) c i → c ≠ i → cells c ≠ none) :
    Probed m home (Function.update cells i (some x)) := by
  intro c y hc p hp hcyc
  by_cases hpi : p = i
  · rw [hpi, Function.update_self]
    nofun
  rw [Function.update_of_ne hpi]
  by_cases hci : c = i
  · rw [hci, Function.update_self, Option.some.injEq] at hc
    rw [hci, ← hc] at hcyc
    exact hwalk p hp hcyc hpi
  · rw [Function.update_of_ne hci] at hc
    exact h c y hc p hp hcyc

/-- The hole at `i` is filled by the next item whose walk crosses it, and so on up to an empty cell. -/
def shift (m : Nat) (home : α → Nat) : Nat → (Nat → Option α) → Nat → Nat → Option (Nat → Option α)
  | 0, _, _, _ => none
  | fuel + 1, cells, i, j =>
    let j := next m j
    match cells j with
    | none => some cells
    | some x =>
      -- the item stays while its home lies in `(i, j]`
      if ¬ Cyc (home x) i j then shift m home fuel cells i j
      else shift m home fuel (Function.update (Function.update cells i (some x)) j none) j j

/-- The cells while a hole is on its way: only the hole at `i` breaks a walk, and none up to `j` crosses it. -/
structure Holed (m : Nat) (home : α → Nat) (e i j : Nat) (cells : Nat → Option α) : Prop where
  hole : cells i = none
  empty : cells e = none
  apart : i ≠ e
  ahead : Cyc i j e
  short : j ≠ e
  walks : ∀ c x, cells c = some x → ∀ p < m, Cyc (home x) p c → cells p = none → p = i
  passed : ∀ c < m, c ≠ i → Cyc i c j → ∃ x, cells c = some x ∧ ¬ Cyc (home x) i c

def Moved (m : Nat) (cells cells' : Nat → Option α) : Prop :=
  ∃ σ : Equiv.Perm Nat, (∀ c, m ≤ c → σ c = c) ∧ cells' = cells ∘ σ

theorem Moved.refl (cells : Nat → Option α) : Moved m cells cells := ⟨Equiv.refl Nat, fun _ _ => rfl, rfl⟩

theorem Moved.trans (h : Moved m cells cells') (h' : Moved m cells' cells'') : Moved m cells cells'' := by
  obtain ⟨σ, hσ, rfl⟩ := h
  obtain ⟨τ, hτ, rfl⟩ := h'
  refine ⟨τ.trans σ, fun c hc => ?_, rfl⟩
  rw [Equiv.trans_apply, hτ c hc, hσ c hc]

theorem update_update_swap (hi : cells i = none) (j : Nat) :
    Function.update (Function.update cells i (cells j)) j none = cells ∘ Equiv.swap i j := by
  funext c
  by_cases hcj : c = j
  · rw [hcj, Function.update_self, Function.comp_apply, Equiv.swap_apply_right, hi]
  rw [Function.update_of_ne hcj]
  by_cases hci : c = i
  · rw [hci, Function.update_self, Function.comp_apply, Equiv.swap_apply_left]
  · rw [Function.update_of_ne hci, Function.comp_apply, Equiv.swap_apply_of_ne_of_ne hci hcj]

theorem shift_spec (hm : ∀ c x, cells c = some x → c < m) (hi : i < m) (hj : j < m) (he : e < m)
    (h : Holed m home e i j cells) (hfuel : dist m j e < fuel) :
    ∃ cells', shift m home fuel cells i j = some cells' ∧ Probed m home cells' ∧ cells' e = none ∧ Moved m cells cells' := by
  induction fuel generalizing cells i j with
  | zero => exact absurd hfuel (Nat.not_lt_zero _)
  | succ fuel ih =>
    have hdist := dist_next hj he h.short
    obtain ⟨hahead, hji⟩ := h.ahead.next_of hj he h.short
    have hlt := next_lt hj
    rw [shift]
    cases hx : cells (next m j) with
    | none =>
      refine ⟨cells, rfl, fun c x hc p hp hcyc hnone => ?_, h.empty, .refl cells⟩
      -- a walk over the hole would go on to the empty cell just found
      have hpi := h.walks c x hc p hp hcyc hnone
      rw [hpi] at hcyc
      have hci : c ≠ i := by
        rintro rfl
        rw [h.hole] at hc
        cases hc
      have hcross : Cyc i (next m j) c := by
        rcases Cyc.total i c (next m j) with hle | hge
        · rcases hle.of_next hj hi (hm c x hc) with heq | hpast
          · rw [heq, hx] at hc
            cases hc
          · obtain ⟨y, hy, hno⟩ := h.passed c (hm c x hc) hci hpast
            rw [hc] at hy
            cases hy
            exact absurd hcyc hno
        · exact hge
      exact hji (h.walks c x hc _ hlt (hcyc.trans hcross) hx)
    | some x =>
      have hje : next m j ≠ e := by
        intro heq
        rw [heq, h.empty] at hx
        cases hx
      dsimp only
      split
      · next hno =>
        refine ih hm hi hlt { h with ahead := hahead, short := hje, passed := ?_ } (by omega)
        intro c hc hci hcyc
        rcases hcyc.of_next hj hi hc with heq | hpast
        · rw [heq]
          exact ⟨x, hx, hno⟩
        · exact h.passed c hc hci hpast
      · next hcross =>
        have hswap := update_update_swap h.hole (next m j)
        rw [hx] at hswap
        rw [hswap]
        have hmoved : Moved m cells (cells ∘ Equiv.swap i (next m j)) :=
          ⟨_, fun c hc => Equiv.swap_apply_of_ne_of_ne (by omega) (by omega), rfl⟩
        have hother : ∀ c, c ≠ i → c ≠ next m j → (cells ∘ Equiv.swap i (next m j)) c = cells c := fun c hci hcj => by
          rw [Function.comp_apply, Equiv.swap_apply_of_ne_of_ne hci hcj]
        have hati : (cells ∘ Equiv.swap i (next m j)) i = some x := by
          rw [Function.comp_apply, Equiv.swap_apply_left, hx]
        have hatj : (cells ∘ Equiv.swap i (next m j)) (next m j) = none := by
          rw [Function.comp_apply, Equiv.swap_apply_right, h.hole]
        have hinside : ∀ c y, (cells ∘ Equiv.swap i (next m j)) c = some y → c < m := by
          intro c y hc
          by_contra hge
          rw [hother c (by omega) (by omega)] at hc
          exact hge (hm c y hc)
        have hholed : Holed m home e (next m j) (next m j) (cells ∘ Equiv.swap i (next m j)) := by
          refine ⟨hatj, by rw [hother e h.apart.symm hje.symm]; exact h.empty, hje, Cyc.start .., hje, ?_,
            fun c _ hcj hcyc => absurd hcyc.eq hcj⟩
          intro c y hc p hp hcyc hnone
          by_contra hpj
          have hpi : p ≠ i := by
            rintro rfl
            rw [hati] at hnone
            cases hnone
          rw [hother p hpi hpj] at hnone
          by_cases hci : c = i
          · rw [hci, hati, Option.some.injEq] at hc
            rw [hci, ← hc] at hcyc
            exact hpi (h.walks _ x hx p hp (hcyc.within (not_not.mp hcross)) hnone)
          · have hcj : c ≠ next m j := by
              rintro rfl
              rw [hatj] at hc
              cases hc
            rw [hother c hci hcj] at hc
            exact hpi (h.walks c y hc p hp hcyc hnone)
        obtain ⟨cells', hshift, hprobed, hempty, hmoved'⟩ := ih hinside hlt hlt hholed (by omega)
        exact ⟨cells', hshift, hprobed, hempty, hmoved.trans hmoved'⟩

theorem shift_probed (hm : ∀ c x, cells c = some x → c < m) (hi : i < m) (he : e < m) (hfull : cells i ≠ none)
    (hempty : cells e = none) (h : Probed m home cells) :
    ∃ cells', shift m home m (Function.update cells i none) i i = some cells' ∧ Probed m home cells' ∧ cells' e = none ∧
      Moved m (Function.update cells i none) cells' := by
  have hie : i ≠ e := fun heq => hfull (heq ▸ hempty)
  have hold : ∀ c x, Function.update cells i none c = some x → cells c = some x := by
    intro c x hc
    by_cases hci : c = i
    · rw [hci, Function.update_self] at hc
      cases hc
    · rwa [Function.update_of_ne hci] at hc
  refine shift_spec (fun c x hc => hm c x (hold c x hc)) hi hi he ⟨Function.update_self .., ?_, hie, Cyc.start .., hie, ?_,
    fun c _ hci hcyc => absurd hcyc.eq hci⟩ (dist_lt hi he)
  · rw [Function.update_of_ne hie.symm]
    exact hempty
  · intro c x hc p hp hcyc hnone
    by_contra hpi
    rw [Function.update_of_ne hpi] at hnone
    exact h c x (hold c x hc) p hp hcyc hnone

end

end Probing
