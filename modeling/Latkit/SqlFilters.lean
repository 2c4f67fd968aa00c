import Latkit.NormSql

namespace Latkit

/-! The filters leave their own output alone. -/

def F1.release (s : F1) : F1 := { s with heldComma := false }

def F1.Inv (s : F1) : Prop := s.heldComma = true → s.prev = .ph ∧ 0 < s.depth

theorem F1.inv_start : F1.Inv {} := nofun

/-- A placeholder behind a held comma goes with it; a comma behind a placeholder is held; all else is set
free. -/
theorem f1_push_cases (s : F1) (t : SqlTok) (hs : s.Inv) :
    (s.heldComma = true ∧ t = .ph ∧ f1.push s t = ([], s.release)) ∨
      (s.heldComma = false ∧ t = .comma ∧ s.prev = .ph ∧ 0 < s.depth ∧
        f1.push s t = ([], { s with heldComma := true })) ∨
      ∃ depth, f1.push s t = (f1.finish s ++ [t], ⟨t.kind, depth, false⟩) := by
  cases hheld : s.heldComma with
  | true =>
    have hfinish : f1.finish s = [.comma] := if_pos hheld
    by_cases ht : t = .ph
    · refine .inl ⟨rfl, ht, ?_⟩
      change f1Push s t = _
      rw [f1Push, if_pos hheld, if_pos ht, ← (hs hheld).1]
      rfl
    · refine .inr (.inr ⟨if t = .lp then s.depth + 1 else if t = .rp then s.depth - 1 else s.depth, ?_⟩)
      change f1Push s t = _
      rw [f1Push, if_pos hheld, if_neg ht, f1Forward, if_neg (by simp), hfinish]
      rfl
  | false =>
    have hfinish : f1.finish s = [] := if_neg (by rw [hheld]; decide)
    have hforward : f1.push s t = f1Forward s t := if_neg (by rw [hheld]; decide)
    rw [hforward, f1Forward, hfinish]
    by_cases hhold : t = .comma ∧ s.prev = .ph ∧ 0 < s.depth
    · rw [if_pos hhold]
      exact .inr (.inl ⟨rfl, hhold.1, hhold.2.1, hhold.2.2, rfl⟩)
    · rw [if_neg hhold, hheld]
      exact .inr (.inr ⟨_, rfl⟩)

theorem f1_collapses : f1.Collapses F1.release F1.Inv where
  treats s t hs := by
    rcases f1_push_cases s t hs with ⟨-, -, hpush⟩ | ⟨hheld, ht, -, -, hpush⟩ | ⟨depth, hpush⟩
    · exact .drop (by rw [hpush]) (by rw [hpush])
    · have hfinish : f1.finish s = [] := if_neg (by rw [hheld]; decide)
      exact .hold (by rw [hpush]) (by rw [hpush, hfinish, ht]; rfl) (by rw [hpush]; rfl)
    · exact .free (by rw [hpush]) (by rw [hpush]; rfl) (by rw [hpush]; rfl)
  keeps s t hs := by
    rcases f1_push_cases s t hs with ⟨-, -, hpush⟩ | ⟨-, -, hprev, hdepth, hpush⟩ | ⟨depth, hpush⟩
    · rw [hpush]
      nofun
    · rw [hpush]
      exact fun _ => ⟨hprev, hdepth⟩
    · rw [hpush]
      nofun
  settled _ := rfl
  empty _ := rfl
  refill s y hs h := by
    cases hheld : s.heldComma with
    | true =>
      -- the comma goes back to where it was held
      have hfinish : f1.finish s = [.comma] := if_pos hheld
      have hpush : f1.push s.release .comma = ([], s) := by
        change f1Push s.release .comma = _
        rw [f1Push, if_neg (by simp [F1.release]), f1Forward, if_pos ⟨rfl, hs hheld⟩, F1.release]
        simp [← hheld]
      rw [hfinish]
      refine ⟨?_, ?_⟩
      · rw [Sieve.Stage.Passes, hpush, hfinish]
        rfl
      · rw [hpush]
        exact h
    | false =>
      have hfinish : f1.finish s = [] := if_neg (by rw [hheld]; decide)
      have hsame : s.release = s := by rw [F1.release, ← hheld]
      rwa [hfinish, hsame]

def F2.release (s : F2) : F2 := { s with held := .none }

def F2.Inv (s : F2) : Prop := s.held ≠ .none → s.haveGroup = true

theorem F2.inv_start : F2.Inv {} := fun h => absurd rfl h

theorem f2Emit_held (s : F2) (t : SqlTok) : (f2Emit s t).held = s.held := by cases t <;> rfl

theorem f2Emit_haveGroup (s : F2) (t : SqlTok) (h : (f2Emit s t).haveGroup = true) : t = .rp := by
  cases t with
  | rp => rfl
  | _ => exact absurd h Bool.false_ne_true

theorem f2_push_cases (s : F2) (t : SqlTok) (hs : s.Inv) :
    (s.held = .qmark ∧ t = .rp ∧ f2.push s t = ([], s.release)) ∨
      (∃ m, m.toks = s.held.toks ++ [t] ∧ s.haveGroup = true ∧ f2.push s t = ([], { s with held := m })) ∨
      ∃ s', s'.held = .none ∧ (s'.haveGroup = true → t = .rp) ∧ f2.push s t = (s.held.toks ++ [t], s') := by
  have hfree : ∀ grp, f2.push s t = (s.held.toks ++ [t], f2Emit ⟨grp, .none, false⟩ t) →
      ∃ s', s'.held = .none ∧ (s'.haveGroup = true → t = .rp) ∧ f2.push s t = (s.held.toks ++ [t], s') :=
    fun grp hpush => ⟨_, f2Emit_held _ t, f2Emit_haveGroup _ t, hpush⟩
  obtain ⟨grp, held, group⟩ := s
  cases held with
  | none =>
    cases group with
    | true =>
      cases t with
      | comma => exact .inr (.inl ⟨.comma, rfl, rfl, rfl⟩)
      | _ => exact .inr (.inr ⟨_, rfl, f2Emit_haveGroup _ _, rfl⟩)
    | false => exact .inr (.inr (hfree grp rfl))
  | comma =>
    obtain rfl : group = true := hs nofun
    cases t with
    | lp => exact .inr (.inl ⟨.lp, rfl, rfl, rfl⟩)
    | _ => exact .inr (.inr (hfree .none rfl))
  | lp =>
    obtain rfl : group = true := hs nofun
    cases t with
    | ph => exact .inr (.inl ⟨.qmark, rfl, rfl, rfl⟩)
    | _ => exact .inr (.inr (hfree .lp rfl))
  | qmark =>
    obtain rfl : group = true := hs nofun
    cases t with
    | rp => exact .inl ⟨rfl, rfl, rfl⟩
    | _ => exact .inr (.inr (hfree .lpq rfl))

theorem f2_refill (s : F2) (y : List SqlTok) (hs : s.Inv) (h : f2.Quiet s y) : f2.Quiet s.release (f2.finish s ++ y) := by
  obtain ⟨grp, held, group⟩ := s
  cases held with
  | none => exact h
  | comma =>
    obtain rfl : group = true := hs nofun
    exact ⟨rfl, h⟩
  | lp =>
    obtain rfl : group = true := hs nofun
    exact ⟨rfl, rfl, h⟩
  | qmark =>
    obtain rfl : group = true := hs nofun
    exact ⟨rfl, rfl, rfl, h⟩

theorem f2_collapses : f2.Collapses F2.release F2.Inv where
  treats s t hs := by
    rcases f2_push_cases s t hs with ⟨-, -, hpush⟩ | ⟨m, hm, -, hpush⟩ | ⟨s', hnone, -, hpush⟩
    · exact .drop (by rw [hpush]) (by rw [hpush])
    · exact .hold (by rw [hpush]) (by rw [hpush]; exact hm) (by rw [hpush]; rfl)
    · have hfinish : f2.finish s' = [] := by
        change s'.held.toks = []
        rw [hnone]
        rfl
      exact .free (by rw [hpush]; rfl) (by rw [hpush]; exact hfinish) (by rw [hpush, F2.release, ← hnone])
  keeps s t hs := by
    rcases f2_push_cases s t hs with ⟨-, -, hpush⟩ | ⟨m, hm, hgroup, hpush⟩ | ⟨s', hnone, -, hpush⟩
    · rw [hpush]
      exact fun h => absurd rfl h
    · rw [hpush]
      exact fun _ => hgroup
    · rw [hpush]
      exact fun h => absurd hnone h
  settled _ := rfl
  empty _ := rfl
  refill := f2_refill

/-- Behind a group the first filter has just let a parenthesis through. -/
def Behind (s : F1) (s₂ : F2) : Prop := s₂.haveGroup = true → s.prev = .rp ∧ s.heldComma = false

theorem f1_push_rp (s : F1) : (f1.push s .rp).2.prev = .rp ∧ (f1.push s .rp).2.heldComma = false := by
  obtain ⟨prev, depth, held⟩ := s
  cases held <;> exact ⟨rfl, rfl⟩

theorem f1_quiet_f2 (s : F1) (s₂ : F2) (y : List SqlTok) (hs₂ : s₂.Inv) (hbehind : Behind s s₂)
    (h : f1.Quiet s (s₂.held.toks ++ y)) : f1.Quiet s (f2.run s₂ y) := by
  induction y generalizing s s₂ with
  | nil =>
    rw [List.append_nil] at h
    exact h
  | cons t y ih =>
    have hkeeps := f2_collapses.keeps s₂ t hs₂
    rw [Sieve.Stage.run]
    rcases f2_push_cases s₂ t hs₂ with ⟨hheld, ht, hpush⟩ | ⟨m, hm, hgroup, hpush⟩ | ⟨s', hnone, hgroup, hpush⟩
    · rw [hpush] at hkeeps ⊢
      -- a repeat is balanced, so the depth behind it is the one before
      apply ih s _ hkeeps hbehind
      rw [hheld, ht] at h
      obtain ⟨prev, depth, held⟩ := s
      obtain ⟨rfl, rfl⟩ := hbehind (hs₂ (by rw [hheld]; rintro ⟨⟩))
      exact h.2.2.2.2
    · rw [hpush] at hkeeps ⊢
      apply ih s _ hkeeps
      · exact fun _ => hbehind hgroup
      · change f1.Quiet s (m.toks ++ y)
        rwa [hm, List.append_assoc, List.singleton_append]
    · rw [hpush] at hkeeps ⊢
      rw [← List.singleton_append, ← List.append_assoc] at h
      apply h.left.append
      apply ih _ s' hkeeps
      · intro hg
        rw [hgroup hg, Sieve.Stage.after_concat]
        exact f1_push_rp _
      · rw [hnone]
        exact h.right

theorem sink_push_semi (n : Nat) : sink.push n .semi = ([], n + 1) := rfl

theorem sink_push (n : Nat) (ht : t ≠ .semi) : sink.push n t = (List.replicate n .semi ++ [t], 0) := if_neg ht

theorem sink_run_last (n : Nat) (y : List SqlTok) : (sink.run n y).getLast? ≠ some .semi := by
  induction y generalizing n with
  | nil => nofun
  | cons t y ih =>
    rw [Sieve.Stage.run]
    by_cases ht : t = .semi
    · rw [ht, sink_push_semi]
      exact ih (n + 1)
    · rw [sink_push n ht]
      by_cases hnil : sink.run 0 y = []
      · rw [hnil, List.append_nil, List.getLast?_concat]
        exact fun h => ht (Option.some.inj h)
      · rw [List.getLast?_append_of_ne_nil _ hnil]
        exact ih 0

theorem sink_run_eq (n : Nat) (hz : z ≠ []) (hlast : z.getLast? ≠ some .semi) :
    sink.run n z = List.replicate n .semi ++ z := by
  induction z generalizing n with
  | nil => exact absurd rfl hz
  | cons t z ih =>
    rw [Sieve.Stage.run]
    by_cases hnil : z = []
    · have ht : t ≠ .semi := by
        rintro rfl
        rw [hnil] at hlast
        exact hlast rfl
      rw [sink_push n ht, hnil]
      exact List.append_nil _
    · have hlast' : z.getLast? ≠ some .semi := by rwa [List.getLast?_cons_of_ne_nil hnil] at hlast
      by_cases ht : t = .semi
      · rw [ht, sink_push_semi, ih (n + 1) hnil hlast', List.replicate_succ', List.append_assoc]
        rfl
      · rw [sink_push n ht, ih 0 hnil hlast', List.append_assoc]
        rfl

theorem sink_run_run (y : List SqlTok) : sink.run 0 (sink.run 0 y) = sink.run 0 y := by
  by_cases hnil : sink.run 0 y = []
  · rw [hnil]
    rfl
  · exact sink_run_eq 0 hnil (sink_run_last 0 y)

theorem sink_run_split (n : Nat) (y : List SqlTok) :
    ∃ k, List.replicate n .semi ++ y = sink.run n y ++ List.replicate k .semi := by
  induction y generalizing n with
  | nil => exact ⟨n, List.append_nil _⟩
  | cons t y ih =>
    rw [Sieve.Stage.run]
    by_cases ht : t = .semi
    · obtain ⟨k, hk⟩ := ih (n + 1)
      refine ⟨k, ?_⟩
      rw [ht, sink_push_semi, List.nil_append, ← hk, List.replicate_succ', List.append_assoc]
      rfl
    · obtain ⟨k, hk⟩ := ih 0
      refine ⟨k, ?_⟩
      rw [sink_push n ht, List.append_assoc, ← hk, List.append_assoc]
      rfl

def sqlFilter (toks : List SqlTok) : List SqlTok := sink.run 0 (f2.run {} (f1.run {} toks))

theorem sqlFilter_sqlFilter (toks : List SqlTok) : sqlFilter (sqlFilter toks) = sqlFilter toks := by
  obtain ⟨k, hk⟩ := sink_run_split 0 (f2.run {} (f1.run {} toks))
  rw [List.replicate_zero, List.nil_append] at hk
  have h₁ : f1.Quiet {} (f1.run {} toks) := f1_collapses.quiet F1.inv_start toks
  have h₁₂ : f1.Quiet {} (f2.run {} (f1.run {} toks)) := f1_quiet_f2 {} {} _ F2.inv_start nofun h₁
  have h₂ : f2.Quiet {} (f2.run {} (f1.run {} toks)) := f2_collapses.quiet F2.inv_start (f1.run {} toks)
  rw [hk] at h₁₂ h₂
  have hrun₁ : f1.run {} (sqlFilter toks) = sqlFilter toks := h₁₂.left.run
  have hrun₂ : f2.run {} (sqlFilter toks) = sqlFilter toks := h₂.left.run
  rw [sqlFilter, hrun₁, hrun₂, sqlFilter, sink_run_run]

theorem sqlFilter_sublist (toks : List SqlTok) : (sqlFilter toks).Sublist toks := by
  obtain ⟨k, hk⟩ := sink_run_split 0 (f2.run {} (f1.run {} toks))
  have hsink : (sqlFilter toks).Sublist (f2.run {} (f1.run {} toks)) := by
    rw [List.replicate_zero, List.nil_append] at hk
    rw [hk]
    exact List.sublist_append_left _ _
  exact hsink.trans ((f2_collapses.sublist F2.inv_start _).trans (f1_collapses.sublist F1.inv_start toks))

end Latkit
