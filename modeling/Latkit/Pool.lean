import Mathlib

/-! Amounts on keyed accounts. An amount is credited to an account, or accounts are closed and what
they hold goes to others. -/

namespace Pool

def upsert [DecidableEq κ] (key : σ → κ) (k : κ) (new : σ) (f : σ → σ) (xs : List σ) : List σ :=
  if k ∈ xs.map key then adjust xs else f new :: xs
where
  adjust : List σ → List σ
    | [] => []
    | x :: xs => if key x = k then f x :: xs else x :: adjust xs

section
variable [DecidableEq κ] {key : σ → κ} {key' : τ → κ} {k : κ} {new : σ} {f : σ → σ} {f' : τ → τ} {g : σ → τ}

theorem map_upsert (hkey : ∀ x, key' (g x) = key x) (hnew : key new = k)
    (hf : ∀ x, x = new ∨ x ∈ xs → key x = k → g (f x) = f' (g x)) :
    (upsert key k new f xs).map g = upsert key' k (g new) f' (xs.map g) := by
  have hmem : (xs.map g).map key' = xs.map key := by
    rw [List.map_map]
    exact List.map_congr_left fun x _ => hkey x
  have hadjust : ∀ ys, (∀ y ∈ ys, key y = k → g (f y) = f' (g y)) →
      (upsert.adjust key k f ys).map g = upsert.adjust key' k f' (ys.map g) := by
    intro ys hys
    induction ys with
    | nil => rfl
    | cons y ys ih =>
      rw [List.map_cons, upsert.adjust, upsert.adjust, hkey]
      split
      · next hk => rw [List.map_cons, hys y (List.mem_cons_self ..) hk]
      · rw [List.map_cons, ih fun z hz => hys z (List.mem_cons_of_mem _ hz)]
  rw [upsert, upsert, hmem]
  split
  · exact hadjust xs fun y hy => hf y (.inr hy)
  · rw [List.map_cons, hf new (.inl rfl) hnew]

theorem mem_upsert (h : x ∈ upsert key k new f xs) :
    x ∈ xs ∨ ∃ y, (y = new ∨ y ∈ xs) ∧ (key y = k ∨ y = new) ∧ x = f y := by
  have hadjust : ∀ ys, x ∈ upsert.adjust key k f ys → x ∈ ys ∨ ∃ y ∈ ys, key y = k ∧ x = f y := by
    intro ys hx
    induction ys with
    | nil => cases hx
    | cons y ys ih =>
      rw [upsert.adjust] at hx
      split at hx
      · next hy =>
        rcases List.mem_cons.mp hx with rfl | hx
        · exact .inr ⟨y, List.mem_cons_self .., hy, rfl⟩
        · exact .inl (List.mem_cons_of_mem _ hx)
      · rcases List.mem_cons.mp hx with rfl | hx
        · exact .inl (List.mem_cons_self ..)
        · rcases ih hx with hx | ⟨z, hz, hxz⟩
          · exact .inl (List.mem_cons_of_mem _ hx)
          · exact .inr ⟨z, List.mem_cons_of_mem _ hz, hxz⟩
  rw [upsert] at h
  split at h
  · rcases hadjust xs h with hx | ⟨y, hy, hk, hxy⟩
    · exact .inl hx
    · exact .inr ⟨y, .inr hy, .inl hk, hxy⟩
  · rcases List.mem_cons.mp h with rfl | h
    · exact .inr ⟨new, .inl rfl, .inr rfl, rfl⟩
    · exact .inl h

end

def total [AddCommMonoid A] (p : κ → Bool) (xs : List (κ × A)) : A := ((xs.filter (p ·.1)).map Prod.snd).sum

section
variable [AddCommMonoid A]

theorem total_cons (p : κ → Bool) (x : κ × A) (xs : List (κ × A)) :
    total p (x :: xs) = (if p x.1 then x.2 else 0) + total p xs := by
  rw [total, List.filter_cons]
  split
  · rw [List.map_cons, List.sum_cons, total]
  · rw [zero_add, total]

theorem total_split (p q : κ → Bool) (xs : List (κ × A)) :
    total p (xs.filter (q ·.1)) + total p (xs.filter (!q ·.1)) = total p xs := by
  induction xs with
  | nil => exact add_zero _
  | cons x xs ih =>
    rw [List.filter_cons, List.filter_cons, total_cons, ← ih]
    cases hq : q x.1 with
    | false => rw [if_neg (by decide), Bool.not_false, if_pos rfl, total_cons, add_left_comm]
    | true => rw [if_pos rfl, Bool.not_true, if_neg (by decide), total_cons, add_assoc]

end

/-- What is done to the accounts: an amount is added to one, or those that are closed leave what they
hold to their heirs. -/
inductive Op (κ A : Type) where
  | credit (k : κ) (a : A)
  | fold (closed : κ → Bool) (heir : κ → κ)

section
variable {κ A B : Type} [DecidableEq κ] [AddCommMonoid A] [AddCommMonoid B]

def credit (k : κ) (a : A) (xs : List (κ × A)) : List (κ × A) :=
  upsert Prod.fst k (k, 0) (fun x => (x.1, x.2 + a)) xs

def fold (closed : κ → Bool) (heir : κ → κ) (xs : List (κ × A)) : List (κ × A) :=
  (xs.filter (closed ·.1)).foldl (fun ys x => credit (heir x.1) x.2 ys) (xs.filter (!closed ·.1))

def Op.apply : Op κ A → List (κ × A) → List (κ × A)
  | .credit k a, xs => Pool.credit k a xs
  | .fold closed heir, xs => Pool.fold closed heir xs

def run (ops : List (Op κ A)) (xs : List (κ × A)) : List (κ × A) := ops.foldl (fun xs op => op.apply xs) xs

def held (k : κ) (xs : List (κ × A)) : A := ((xs.find? (·.1 = k)).map Prod.snd).getD 0

def Op.credited (p : κ → Bool) : Op κ A → A
  | .credit k a => if p k then a else 0
  | .fold _ _ => 0

def Op.Within (p : κ → Bool) : Op κ A → Prop
  | .credit _ _ => True
  | .fold _ heir => ∀ k, p (heir k) = p k

def Op.Spares (k : κ) : Op κ A → Prop
  | .credit _ _ => True
  | .fold closed _ => closed k = false

def Op.map (φ : A → B) : Op κ A → Op κ B
  | .credit k a => .credit k (φ a)
  | .fold closed heir => .fold closed heir

theorem total_credit (p : κ → Bool) (k : κ) (a : A) (xs : List (κ × A)) :
    total p (credit k a xs) = total p xs + if p k then a else 0 := by
  have hadjust : ∀ ys : List (κ × A), k ∈ ys.map Prod.fst →
      total p (upsert.adjust Prod.fst k (fun x => (x.1, x.2 + a)) ys) = total p ys + if p k then a else 0 := by
    intro ys hk
    induction ys with
    | nil => cases hk
    | cons y ys ih =>
      rw [upsert.adjust]
      split
      · next hy =>
        rw [total_cons, total_cons, hy]
        split
        · rw [add_right_comm]
        · rw [add_zero]
      · next hy =>
        rw [List.map_cons, List.mem_cons] at hk
        rw [total_cons, total_cons, ih (hk.resolve_left (Ne.symm hy)), add_assoc]
  rw [credit, upsert]
  split
  · next hk => exact hadjust xs hk
  · rw [total_cons, zero_add, add_comm]

theorem total_foldl (heir : κ → κ) (h : ∀ k, p (heir k) = p k) (xs ys : List (κ × A)) :
    total p (xs.foldl (fun ys x => credit (heir x.1) x.2 ys) ys) = total p xs + total p ys := by
  induction xs generalizing ys with
  | nil => exact (zero_add _).symm
  | cons x xs ih => rw [List.foldl_cons, ih, total_credit, total_cons, h, ← add_assoc, add_comm, add_assoc]

theorem total_apply {op : Op κ A} (h : op.Within p) (xs : List (κ × A)) :
    total p (op.apply xs) = total p xs + op.credited p := by
  cases op with
  | credit k a => exact total_credit p k a xs
  | fold closed heir => rw [Op.apply, Op.credited, add_zero, fold, total_foldl heir h, total_split]

theorem total_run {ops : List (Op κ A)} (h : ∀ op ∈ ops, op.Within p) (xs : List (κ × A)) :
    total p (run ops xs) = total p xs + (ops.map (Op.credited p)).sum := by
  induction ops generalizing xs with
  | nil => exact (add_zero _).symm
  | cons op ops ih =>
    rw [run, List.foldl_cons, List.map_cons, List.sum_cons, ← add_assoc,
      ← total_apply (h op (List.mem_cons_self ..))]
    exact ih (fun op' hop => h op' (List.mem_cons_of_mem _ hop)) (op.apply xs)

theorem held_cons (k : κ) (x : κ × A) (xs : List (κ × A)) :
    held k (x :: xs) = if x.1 = k then x.2 else held k xs := by
  rw [held, List.find?_cons]
  by_cases hx : x.1 = k
  · simp [hx]
  · simp [hx, held]

theorem held_of_not_mem (h : k ∉ xs.map Prod.fst) : held k (xs : List (κ × A)) = 0 := by
  induction xs with
  | nil => rfl
  | cons x xs ih =>
    rw [List.map_cons, List.mem_cons, not_or] at h
    rw [held_cons, if_neg (Ne.symm h.1), ih h.2]

theorem held_credit (k k' : κ) (a : A) (xs : List (κ × A)) :
    held k (credit k' a xs) = held k xs + if k' = k then a else 0 := by
  have hadjust : ∀ ys : List (κ × A), k' ∈ ys.map Prod.fst →
      held k (upsert.adjust Prod.fst k' (fun x => (x.1, x.2 + a)) ys) = held k ys + if k' = k then a else 0 := by
    intro ys hk
    induction ys with
    | nil => cases hk
    | cons y ys ih =>
      rw [upsert.adjust, held_cons]
      split
      · next hy =>
        rw [held_cons, hy]
        split
        · rfl
        · rw [add_zero]
      · next hy =>
        rw [List.map_cons, List.mem_cons] at hk
        rw [held_cons, ih (hk.resolve_left (Ne.symm hy))]
        split
        · next hyk => rw [if_neg fun heq => hy (hyk.trans heq.symm), add_zero]
        · rfl
  rw [credit, upsert]
  split
  · next hk => exact hadjust xs hk
  · next hk =>
    rw [held_cons, zero_add]
    split
    · next hkk => rw [held_of_not_mem (hkk ▸ hk), zero_add]
    · rw [add_zero]

theorem held_filter (q : κ → Bool) (h : q k = true) (xs : List (κ × A)) :
    held k (xs.filter (q ·.1)) = held k xs := by
  induction xs with
  | nil => rfl
  | cons x xs ih =>
    rw [List.filter_cons, held_cons]
    split
    · rw [held_cons, ih]
    · next hq => rw [ih, if_neg fun (hx : x.1 = k) => hq (hx ▸ h)]

section
variable [PartialOrder A] [CanonicallyOrderedAdd A] {k : κ} {p : κ → Bool} {xs : List (κ × A)}

theorem held_le_foldl (heir : κ → κ) (xs ys : List (κ × A)) :
    held k ys ≤ held k (xs.foldl (fun ys x => credit (heir x.1) x.2 ys) ys) := by
  induction xs generalizing ys with
  | nil => exact le_refl _
  | cons x xs ih =>
    apply le_trans _ (ih (credit (heir x.1) x.2 ys))
    rw [held_credit]
    exact le_self_add

theorem held_le_apply {op : Op κ A} (h : op.Spares k) (xs : List (κ × A)) : held k xs ≤ held k (op.apply xs) := by
  cases op with
  | credit k' a =>
    rw [Op.apply, held_credit]
    exact le_self_add
  | fold closed heir =>
    have hopen : (!closed k) = true := congrArg Bool.not h
    rw [← held_filter (!closed ·) hopen xs]
    exact held_le_foldl heir _ _

theorem held_le_run {ops : List (Op κ A)} (h : ∀ op ∈ ops, op.Spares k) (xs : List (κ × A)) :
    held k xs ≤ held k (run ops xs) := by
  induction ops generalizing xs with
  | nil => exact le_refl _
  | cons op ops ih =>
    apply le_trans (held_le_apply (h op (List.mem_cons_self ..)) xs)
    exact ih (fun op' hop => h op' (List.mem_cons_of_mem _ hop)) (op.apply xs)

theorem held_le_total (h : p k = true) (xs : List (κ × A)) : held k xs ≤ total p xs := by
  induction xs with
  | nil => exact le_refl _
  | cons x xs ih =>
    rw [total_cons, held_cons]
    split
    · next hx =>
      rw [hx, if_pos h]
      exact le_self_add
    · exact le_trans ih le_add_self

end

section
variable (φ : A →+ B)

theorem map_credit (k : κ) (a : A) (xs : List (κ × A)) :
    (credit k a xs).map (Prod.map id φ) = credit k (φ a) (xs.map (Prod.map id φ)) := by
  have hzero : Prod.map id φ (k, (0 : A)) = (k, 0) := Prod.ext rfl (map_zero φ)
  rw [credit, credit, ← hzero]
  refine map_upsert (k := k) (fun _ => rfl) rfl ?_
  intro x _ _
  exact Prod.ext rfl (map_add φ x.2 a)

theorem map_fold (closed : κ → Bool) (heir : κ → κ) (xs : List (κ × A)) :
    (fold closed heir xs).map (Prod.map id φ) = fold closed heir (xs.map (Prod.map id φ)) := by
  have hfoldl : ∀ zs ys : List (κ × A),
      (zs.foldl (fun ys x => credit (heir x.1) x.2 ys) ys).map (Prod.map id φ) =
        (zs.map (Prod.map id φ)).foldl (fun ys x => credit (heir x.1) x.2 ys) (ys.map (Prod.map id φ)) := by
    intro zs
    induction zs with
    | nil => exact fun _ => rfl
    | cons z zs ih =>
      intro ys
      rw [List.foldl_cons, ih, map_credit]
      rfl
  have hfilter : ∀ q : κ → Bool,
      (xs.filter (q ·.1)).map (Prod.map id φ) = (xs.map (Prod.map id φ)).filter (q ·.1) := by
    intro q
    rw [List.filter_map]
    rfl
  rw [fold, fold, hfoldl, hfilter closed, hfilter (!closed ·)]

theorem map_run (ops : List (Op κ A)) (xs : List (κ × A)) :
    (run ops xs).map (Prod.map id φ) = run (ops.map (Op.map φ)) (xs.map (Prod.map id φ)) := by
  induction ops generalizing xs with
  | nil => rfl
  | cons op ops ih =>
    rw [run, List.foldl_cons, List.map_cons, run, List.foldl_cons]
    refine (ih (op.apply xs)).trans ?_
    cases op with
    | credit k a => rw [Op.apply, map_credit]; rfl
    | fold closed heir => rw [Op.apply, map_fold]; rfl

theorem held_map (k : κ) (xs : List (κ × A)) : held k (xs.map (Prod.map id φ)) = φ (held k xs) := by
  induction xs with
  | nil => exact (map_zero φ).symm
  | cons x xs ih =>
    rw [List.map_cons, held_cons, held_cons, ih, Prod.map_fst, id_eq, apply_ite φ]
    rfl

omit [DecidableEq κ] in
theorem total_map (p : κ → Bool) (xs : List (κ × A)) : total p (xs.map (Prod.map id φ)) = φ (total p xs) := by
  induction xs with
  | nil => exact (map_zero φ).symm
  | cons x xs ih =>
    rw [List.map_cons, total_cons, total_cons, ih, map_add, apply_ite φ, map_zero]
    rfl

end
end

end Pool
