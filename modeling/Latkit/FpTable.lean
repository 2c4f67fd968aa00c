import Latkit.DList
import Latkit.Probing
import Latkit.Registry

/-! The query dictionary as it lies in memory: the fingerprint hash, the list of the slots by last use through their own
links, and the stack of free slots. -/

namespace Latkit
open DList (Linked)

def doubled (x : Nat) : Nat → Nat → Nat
  | 0, p => p
  | fuel + 1, p => if p < x then doubled x fuel (2 * p) else p

def nextPow2 (x : Nat) : Nat := doubled x x 1

theorem le_doubled (x : Nat) (hp : 0 < p) (h : x ≤ p + fuel) : x ≤ doubled x fuel p := by
  induction fuel generalizing p with
  | zero => exact h
  | succ fuel ih =>
    rw [doubled]
    split
    · exact ih (by omega) (by omega)
    · omega

def mix64 (x : UInt64) : UInt64 :=
  let x := (x ^^^ (x >>> 33)) * 0xff51afd7ed558ccd
  x ^^^ (x >>> 33)

structure FpTable where
  k : Nat
  hash : Nat → Option Nat := fun _ => none
  fp : Nat → UInt64 := fun _ => 0
  used : Nat → Bool := fun _ => false
  lru : DList.Links := {}
  free : List Nat
  door : Nat → UInt64 := fun _ => 0

namespace FpTable

def new (topQueries : Nat) : FpTable :=
  let k := if topQueries = 0 then lkTopQueriesDefault else topQueries
  { k, free := List.range k }

def hcap (t : FpTable) : Nat := nextPow2 ((t.k + 1) * 2)

def fpHome (t : FpTable) (fp : UInt64) : Nat := (mix64 fp).toNat % 2 ^ 32 % t.hcap

def home (t : FpTable) (s : Nat) : Nat := t.fpHome (t.fp s)

def fpFind (t : FpTable) (fp : UInt64) : Option (Option Nat) :=
  (Probing.probe t.hcap (fun i => (t.hash i).all fun s => t.fp s = fp) t.hcap (t.fpHome fp)).map t.hash

def fpInsert (t : FpTable) (fp : UInt64) (slot : Nat) : Option FpTable :=
  (Probing.probe t.hcap (fun i => (t.hash i).isNone) t.hcap (t.fpHome fp)).map fun i =>
    { t with hash := Function.update t.hash i (some slot) }

def fpRemove (t : FpTable) (fp : UInt64) : Option FpTable := do
  let i ← Probing.probe t.hcap (fun i => (t.hash i).any fun s => t.fp s = fp) t.hcap (t.fpHome fp)
  let hash ← Probing.shift t.hcap t.home t.hcap (Function.update t.hash i none) i i
  return { t with hash }

def lruTouch (t : FpTable) (s : Nat) : FpTable :=
  if t.lru.head = some s then t else { t with lru := (t.lru.unlink s).pushFront s }

def admitFp (t : FpTable) (fp : UInt64) : Option (Nat × FpTable) :=
  match t.free with
  | [] => none
  | s :: free => do
    let t ← { t with free, fp := Function.update t.fp s fp, used := Function.update t.used s true }.fpInsert fp s
    return (s, { t with lru := t.lru.pushFront s })

def evictLru (t : FpTable) : Option FpTable :=
  match t.lru.tail with
  | none => none
  | some s => do
    let t ← t.fpRemove (t.fp s)
    return { t with lru := t.lru.unlink s, used := Function.update t.used s false, free := s :: t.free }

def resolveQuery (t : FpTable) (fp : UInt64) : Option (Nat × FpTable) := do
  match ← t.fpFind fp with
  | some s => return (s, t.lruTouch s)
  | none =>
    if t.free ≠ [] then t.admitFp fp
    else
      let key := doorKey fp
      let d := doorIndex key
      if t.door d = key then
        let t ← { t with door := Function.update t.door d 0 }.evictLru
        t.admitFp fp
      else return (t.k, { t with door := Function.update t.door d key })

def resolveAll (t : FpTable) : List UInt64 → List Nat → Option (FpTable × List Nat)
  | [], log => some (t, log)
  | fp :: fps, log => do
    let (s, t) ← t.resolveQuery fp
    t.resolveAll fps (s :: log)

/-- The dictionary as the sets it stands for; `l` are the used slots, the last resolved first. -/
structure Inv (t : FpTable) (l log : List Nat) : Prop where
  pos : 0 < t.k
  inside : ∀ c s, t.hash c = some s → c < t.hcap
  walks : Probing.Probed t.hcap t.home t.hash
  held : ∀ s, (∃ c, t.hash c = some s) ↔ t.used s = true
  single : ∀ c c' s s', t.hash c = some s → t.hash c' = some s' → t.fp s = t.fp s' → c = c'
  slots : ∀ s, t.used s = true → s < t.k
  linked : Linked t.lru l
  listed : ∀ s, s ∈ l ↔ t.used s = true
  freed : t.free.Nodup
  unused : ∀ s, s ∈ t.free ↔ s < t.k ∧ t.used s = false
  recent : l.Pairwise fun a b => log.idxOf a < log.idxOf b
  logged : ∀ s ∈ l, s ∈ log

section
variable {t t' : FpTable} {l log free : List Nat} {fp : UInt64}

theorem lt_hcap (t : FpTable) : t.k < t.hcap := by
  have h : (t.k + 1) * 2 ≤ t.hcap := le_doubled _ Nat.one_pos (by omega)
  omega

theorem fpHome_lt (t : FpTable) (fp : UInt64) : t.fpHome fp < t.hcap :=
  Nat.mod_lt _ (Nat.lt_of_le_of_lt (Nat.zero_le _) t.lt_hcap)

theorem used_of_update {used : Nat → Bool} (h : Function.update used s false x = true) : used x = true := by
  by_cases hxs : x = s
  · rw [hxs, Function.update_self] at h
    cases h
  · rwa [Function.update_of_ne hxs] at h

theorem Inv.empty (h : t.Inv l log) : ∃ e < t.hcap, t.hash e = none := by
  by_contra hfull
  have hcell : ∀ c : Fin t.hcap, ∃ s : Fin t.k, t.hash c = some s.val := by
    intro c
    cases hc : t.hash c with
    | none => exact absurd ⟨c, c.isLt, hc⟩ hfull
    | some s => exact ⟨⟨s, h.slots s ((h.held s).mp ⟨c, hc⟩)⟩, rfl⟩
  choose f hf using hcell
  have hinj : Function.Injective f := by
    intro c c' heq
    have hc' := hf c'
    rw [← heq] at hc'
    exact Fin.ext (h.single c c' _ _ (hf c) hc' rfl)
  have hcard := Fintype.card_le_of_injective f hinj
  rw [Fintype.card_fin, Fintype.card_fin] at hcard
  exact absurd hcard (Nat.not_le_of_lt t.lt_hcap)

theorem Inv.find (h : t.Inv l log) (fp : UInt64) : ∃ r, t.fpFind fp = some r ∧ ∀ s, r = some s ↔ t.used s = true ∧ t.fp s = fp := by
  obtain ⟨e, he, hempty⟩ := h.empty
  obtain ⟨j, hj, hprobe, hstop, hbefore⟩ := Probing.probe_spec (fun i => (t.hash i).all fun s => t.fp s = fp)
    (t.fpHome_lt fp) he (by simp [hempty])
  refine ⟨t.hash j, by rw [fpFind, hprobe, Option.map_some], fun s => ⟨fun hs => ?_, fun ⟨hused, hfp⟩ => ?_⟩⟩
  · refine ⟨(h.held s).mp ⟨j, hs⟩, ?_⟩
    simpa [hs] using hstop
  · obtain ⟨c, hc⟩ := (h.held s).mpr hused
    have hlt := h.inside c s hc
    have hhome : t.home s = t.fpHome fp := by rw [home, hfp]
    have hmatch : ((t.hash c).all fun s => t.fp s = fp) = true := by simp [hc, hfp]
    by_cases hcj : c = j
    · rw [← hcj]
      exact hc
    -- the walk of `s` would go on past the cell where the search stopped
    have hwalk : Probing.Cyc (t.fpHome fp) j c := by
      rcases Probing.Cyc.total (t.fpHome fp) c j with hle | hge
      · have hpassed := hbefore c hlt hle hcj
        rw [hmatch] at hpassed
        cases hpassed
      · exact hge
    cases hx : t.hash j with
    | none => exact absurd hx (h.walks c s hc j hj (by rw [hhome]; exact hwalk))
    | some x =>
      have hfpx : t.fp x = fp := by simpa [hx] using hstop
      exact absurd (h.single c j s x hc hx (hfp.trans hfpx.symm)) hcj

theorem pairwise_cons_log (h : l.Pairwise fun a b => log.idxOf a < log.idxOf b) (hs : s ∉ l) :
    l.Pairwise fun a b => (s :: log).idxOf a < (s :: log).idxOf b := by
  refine h.imp_of_mem fun {a b} ha hb hlt => ?_
  have hne : ∀ x ∈ l, s ≠ x := fun x hx heq => hs (heq ▸ hx)
  rw [List.idxOf_cons_ne _ (hne a ha), List.idxOf_cons_ne _ (hne b hb)]
  exact Nat.succ_lt_succ hlt

theorem pairwise_front (h : l.Pairwise fun a b => log.idxOf a < log.idxOf b) (hs : s ∉ l) :
    (s :: l).Pairwise fun a b => (s :: log).idxOf a < (s :: log).idxOf b := by
  refine List.pairwise_cons.mpr ⟨fun b hb => ?_, pairwise_cons_log h hs⟩
  have hne : s ≠ b := fun heq => hs (heq ▸ hb)
  rw [List.idxOf_cons_self, List.idxOf_cons_ne _ hne]
  exact Nat.succ_pos _

theorem Inv.touch (h : t.Inv l log) (hs : t.used s = true) : ∃ l', (t.lruTouch s).Inv l' (s :: log) := by
  have hmoved : ∀ l', (s :: l').Perm l → l'.Sublist l → s ∉ l' → Linked (t.lruTouch s).lru (s :: l') →
      (t.lruTouch s).Inv (s :: l') (s :: log) := by
    intro l' hperm hsub hnot hlinked
    have hsame : t.lruTouch s = { t with lru := (t.lruTouch s).lru } := by
      rw [lruTouch]
      split <;> rfl
    have hlogged : ∀ a ∈ s :: l', a ∈ s :: log := by
      intro a ha
      rcases List.mem_cons.mp ha with rfl | ha
      · exact List.mem_cons_self
      · exact List.mem_cons_of_mem s (h.logged a (hsub.mem ha))
    rw [hsame]
    exact ⟨h.pos, h.inside, h.walks, h.held, h.single, h.slots, hlinked, fun a => hperm.mem_iff.trans (h.listed a), h.freed, h.unused,
      pairwise_front (h.recent.sublist hsub) hnot, hlogged⟩
  by_cases hhead : t.lru.head = some s
  · -- it is at the front already
    obtain ⟨l', rfl⟩ : ∃ l', l = s :: l' := by
      rw [h.linked.head] at hhead
      exact ⟨l.tail, (List.cons_head?_tail hhead).symm⟩
    have hnot := (List.nodup_cons.mp h.linked.nodup).1
    exact ⟨s :: l', hmoved l' (.refl _) (List.sublist_cons_self s l') hnot (by rw [lruTouch, if_pos hhead]; exact h.linked)⟩
  · obtain ⟨l', hlinked, hperm, hsub, hnot⟩ := h.linked.moveFront ((h.listed s).mpr hs)
    exact ⟨s :: l', hmoved l' hperm hsub hnot (by rw [lruTouch, if_neg hhead]; exact hlinked)⟩

theorem Inv.admitFp (h : t.Inv l log) (hfree : t.free = s :: free) (hnew : ∀ x, t.used x = true → t.fp x ≠ fp) :
    ∃ t', t.admitFp fp = some (s, t') ∧ t'.Inv (s :: l) (s :: log) ∧ t'.k = t.k := by
  obtain ⟨hslot, hspare⟩ := (h.unused s).mp (by rw [hfree]; exact List.mem_cons_self)
  have hfreed := h.freed
  rw [hfree] at hfreed
  obtain ⟨hout, hfreed⟩ := List.nodup_cons.mp hfreed
  have hne : ∀ x, t.used x = true → x ≠ s := by
    rintro x hx rfl
    rw [hspare] at hx
    cases hx
  have hcell : ∀ c x, t.hash c = some x → x ≠ s := fun c x hc => hne x ((h.held x).mp ⟨c, hc⟩)
  have hnot : s ∉ l := fun hmem => hne s ((h.listed s).mp hmem) rfl
  obtain ⟨e, he, hempty⟩ := h.empty
  obtain ⟨i, hi, hprobe, hstop, hbefore⟩ := Probing.probe_spec (fun i => (t.hash i).isNone) (t.fpHome_lt fp) he
    (by simp [hempty])
  have hnone : t.hash i = none := by simpa using hstop
  have hnei : ∀ c x, t.hash c = some x → c ≠ i := by
    rintro c x hc rfl
    rw [hnone] at hc
    cases hc
  have hfp : ∀ c x, t.hash c = some x → Function.update t.fp s fp x = t.fp x := fun c x hc => Function.update_of_ne (hcell c x hc) ..
  have hat : ∀ c x, Function.update t.hash i (some s) c = some x → c = i ∧ x = s ∨ t.hash c = some x := by
    intro c x hc
    by_cases hci : c = i
    · rw [hci, Function.update_self, Option.some.injEq] at hc
      exact .inl ⟨hci, hc.symm⟩
    · rw [Function.update_of_ne hci] at hc
      exact .inr hc
  let t' : FpTable := { t with
    free := free, fp := Function.update t.fp s fp, used := Function.update t.used s true
    hash := Function.update t.hash i (some s), lru := t.lru.pushFront s }
  refine ⟨t', ?_, ⟨h.pos, ?_, ?_, ?_, ?_, ?_, h.linked.pushFront hnot, ?_, hfreed, ?_, pairwise_front h.recent hnot, ?_⟩, rfl⟩
  · have hinsert : { t with free := free, fp := Function.update t.fp s fp, used := Function.update t.used s true }.fpInsert fp s =
        some { t with
          free := free, fp := Function.update t.fp s fp, used := Function.update t.used s true
          hash := Function.update t.hash i (some s) } := by
      rw [fpInsert]
      exact congrArg (Option.map _) hprobe
    rw [FpTable.admitFp, hfree]
    simp only [hinsert]
    rfl
  · intro c x hc
    rcases hat c x hc with ⟨rfl, -⟩ | hold
    · exact hi
    · exact h.inside c x hold
  · -- the homes of the slots in the hash are what they were
    have hwalks : Probing.Probed t.hcap t'.home t.hash := by
      intro c x hc p hp hcyc
      have hhome : t'.home x = t.home x := congrArg t.fpHome (hfp c x hc)
      rw [hhome] at hcyc
      exact h.walks c x hc p hp hcyc
    refine hwalks.fill fun c hc hcyc hci => ?_
    have hhome : t'.home s = t.fpHome fp := congrArg t.fpHome (Function.update_self ..)
    rw [hhome] at hcyc
    have hsome : (t.hash c).isNone = false := hbefore c hc hcyc hci
    rintro hc'
    rw [hc'] at hsome
    cases hsome
  · intro x
    by_cases hx : x = s
    · rw [hx]
      exact ⟨fun _ => Function.update_self .., fun _ => ⟨i, Function.update_self ..⟩⟩
    · rw [show t'.used x = t.used x from Function.update_of_ne hx .., ← h.held x]
      constructor
      · rintro ⟨c, hc⟩
        rcases hat c x hc with ⟨-, heq⟩ | hold
        · exact absurd heq hx
        · exact ⟨c, hold⟩
      · rintro ⟨c, hc⟩
        exact ⟨c, (Function.update_of_ne (hnei c x hc) ..).trans hc⟩
  · intro c c' x x' hc hc' heq
    have hother : ∀ c x, t.hash c = some x → t'.fp x ≠ t'.fp s := by
      intro c x hc
      rw [show t'.fp x = t.fp x from hfp c x hc, show t'.fp s = fp from Function.update_self ..]
      exact hnew x ((h.held x).mp ⟨c, hc⟩)
    rcases hat c x hc with ⟨rfl, rfl⟩ | hold <;> rcases hat c' x' hc' with ⟨rfl, rfl⟩ | hold'
    · rfl
    · exact absurd heq.symm (hother c' x' hold')
    · exact absurd heq (hother c x hold)
    · have heq' : t.fp x = t.fp x' := (hfp c x hold).symm.trans (heq.trans (hfp c' x' hold'))
      exact h.single c c' x x' hold hold' heq'
  · intro x hx
    by_cases hxs : x = s
    · rw [hxs]
      exact hslot
    · exact h.slots x ((Function.update_of_ne hxs ..).symm.trans hx)
  · intro x
    rw [List.mem_cons]
    by_cases hxs : x = s
    · rw [hxs]
      exact ⟨fun _ => Function.update_self .., fun _ => .inl rfl⟩
    · rw [show t'.used x = t.used x from Function.update_of_ne hxs .., ← h.listed x]
      exact ⟨fun hmem => hmem.resolve_left hxs, .inr⟩
  · intro x
    have hmem := h.unused x
    rw [hfree, List.mem_cons] at hmem
    by_cases hxs : x = s
    · rw [hxs, show t'.used s = true from Function.update_self ..]
      exact ⟨fun hin => absurd hin hout, fun hfalse => absurd hfalse.2 (by decide)⟩
    · rw [show t'.used x = t.used x from Function.update_of_ne hxs ..]
      rw [← show (x = s ∨ x ∈ free) ↔ _ from hmem]
      exact ⟨.inr, fun hin => hin.resolve_left hxs⟩
  · intro x hx
    rcases List.mem_cons.mp hx with rfl | hx
    · exact List.mem_cons_self
    · exact List.mem_cons_of_mem s (h.logged x hx)

theorem Inv.evict (h : t.Inv l log) (hfree : t.free = []) :
    ∃ t' s l', t.evictLru = some t' ∧ t'.Inv l' log ∧ t'.free = [s] ∧ t'.k = t.k ∧ t'.fp = t.fp ∧
      ∀ x, t'.used x = true → t.used x = true := by
  have hall : t.used 0 = true := by
    by_contra hno
    have hmem := (h.unused 0).mpr ⟨h.pos, by simpa using hno⟩
    rw [hfree] at hmem
    cases hmem
  obtain ⟨s, hs⟩ : ∃ s, l.getLast? = some s := by
    cases hl : l.getLast? with
    | none =>
      rw [List.getLast?_eq_none_iff.mp hl] at h
      exact absurd ((h.listed 0).mpr hall) List.not_mem_nil
    | some s => exact ⟨s, rfl⟩
  obtain ⟨xs, rfl⟩ : ∃ xs, l = xs ++ [s] := ⟨_, (List.dropLast_append_getLast? s hs).symm⟩
  have hnodup := h.linked.nodup
  have hnot : s ∉ xs := by
    intro hmem
    exact (List.nodup_append'.mp hnodup).2.2 hmem List.mem_cons_self
  have hused := (h.listed s).mp (List.mem_append_right xs List.mem_cons_self)
  obtain ⟨e, he, hempty⟩ := h.empty
  obtain ⟨c₀, hc₀⟩ := (h.held s).mpr hused
  obtain ⟨i, hi, hprobe, hstop, -⟩ := Probing.probe_spec (fun i => (t.hash i).any fun x => t.fp x = t.fp s)
    (t.fpHome_lt (t.fp s)) (h.inside c₀ s hc₀) (by simp [hc₀])
  have hs_at : t.hash i = some s := by
    cases hx : t.hash i with
    | none => simp [hx] at hstop
    | some x =>
      have hfp : t.fp x = t.fp s := by simpa [hx] using hstop
      rw [← h.single c₀ i s x hc₀ hx hfp.symm, hc₀] at hx
      exact hx.symm
  obtain ⟨hash, hshift, hprobed, -, σ, hσ, hmoved⟩ := Probing.shift_probed h.inside hi he (by rw [hs_at]; nofun)
    hempty h.walks
  have hat : ∀ c x, hash c = some x → t.hash (σ c) = some x ∧ x ≠ s := by
    intro c x hc
    rw [hmoved, Function.comp_apply] at hc
    by_cases hci : σ c = i
    · rw [hci, Function.update_self] at hc
      cases hc
    · rw [Function.update_of_ne hci] at hc
      refine ⟨hc, ?_⟩
      rintro rfl
      exact hci (h.single _ _ _ _ hc hs_at rfl)
  let t' : FpTable := { t with hash, lru := t.lru.unlink s, used := Function.update t.used s false, free := s :: t.free }
  have hone : t'.free = [s] := by rw [show t'.free = s :: t.free from rfl, hfree]
  have hsame : ∀ x, x ≠ s → t'.used x = t.used x := fun x hx => Function.update_of_ne hx ..
  have hgone : t'.used s = false := Function.update_self ..
  refine ⟨t', s, xs, ?_, ?_, hone, rfl, rfl, fun x hx => ?_⟩
  · rw [FpTable.evictLru, h.linked.tail, hs]
    simp only [fpRemove, hprobe, hshift, Option.bind_eq_bind, Option.bind_some]
    rfl
  · refine ⟨h.pos, fun c x hc => ?_, hprobed, fun x => ?_, fun c c' x x' hc hc' heq => ?_, fun x hx => ?_, ?_, fun x => ?_, ?_,
      fun x => ?_, ?_, fun x hx => h.logged x (List.mem_append_left _ hx)⟩
    · by_contra hge
      have hlt := h.inside _ x (hat c x hc).1
      rw [hσ c (Nat.le_of_not_lt hge)] at hlt
      exact hge hlt
    · by_cases hxs : x = s
      · rw [hxs]
        constructor
        · rintro ⟨c, hc⟩
          exact absurd rfl (hat c s hc).2
        · intro hyes
          rw [hgone] at hyes
          cases hyes
      · rw [hsame x hxs, ← h.held x]
        constructor
        · rintro ⟨c, hc⟩
          exact ⟨σ c, (hat c x hc).1⟩
        · rintro ⟨c, hc⟩
          refine ⟨σ.symm c, ?_⟩
          have hci : c ≠ i := by
            rintro rfl
            rw [hs_at, Option.some.injEq] at hc
            exact hxs hc.symm
          rw [show t'.hash = _ from hmoved, Function.comp_apply, Equiv.apply_symm_apply, Function.update_of_ne hci]
          exact hc
    · exact σ.injective (h.single _ _ x x' (hat c x hc).1 (hat c' x' hc').1 heq)
    · exact h.slots x (used_of_update hx)
    · simpa using h.linked.unlink
    · have hlisted := h.listed x
      rw [List.mem_append, List.mem_singleton] at hlisted
      by_cases hxs : x = s
      · rw [hxs, hgone]
        exact ⟨fun hmem => absurd hmem hnot, nofun⟩
      · rw [hsame x hxs, ← hlisted]
        exact ⟨.inl, fun hor => hor.resolve_right hxs⟩
    · rw [hone]
      exact List.nodup_singleton s
    · have hunused := h.unused x
      rw [hfree] at hunused
      rw [hone, List.mem_singleton]
      by_cases hxs : x = s
      · rw [hxs]
        exact ⟨fun _ => ⟨h.slots s hused, hgone⟩, fun _ => rfl⟩
      · rw [hsame x hxs, ← hunused]
        exact ⟨fun heq => absurd heq hxs, fun hmem => absurd hmem List.not_mem_nil⟩
    · exact (List.pairwise_append.mp h.recent).1
  · exact used_of_update hx

theorem Inv.door (h : t.Inv l log) (door : Nat → UInt64) : { t with door := door }.Inv l log :=
  ⟨h.pos, h.inside, h.walks, h.held, h.single, h.slots, h.linked, h.listed, h.freed, h.unused, h.recent, h.logged⟩

theorem Inv.resolve (h : t.Inv l log) (fp : UInt64) :
    ∃ s t' l', t.resolveQuery fp = some (s, t') ∧ t'.Inv l' (s :: log) ∧ t'.k = t.k := by
  obtain ⟨r, hfind, hr⟩ := h.find fp
  rw [resolveQuery, hfind]
  cases r with
  | some s =>
    obtain ⟨l', htouch⟩ := h.touch ((hr s).mp rfl).1
    exact ⟨s, _, l', rfl, htouch, by rw [lruTouch]; split <;> rfl⟩
  | none =>
    have hnew : ∀ x, t.used x = true → t.fp x ≠ fp := fun x hx heq => nomatch (hr x).mpr ⟨hx, heq⟩
    simp only [Option.bind_eq_bind, Option.bind_some]
    cases hfree : t.free with
    | cons s free =>
      obtain ⟨t', hadmit, hinv, hk⟩ := h.admitFp hfree hnew
      exact ⟨s, t', s :: l, by rw [if_pos (List.cons_ne_nil s free), hadmit], hinv, hk⟩
    | nil =>
      rw [if_neg (not_not.mpr rfl)]
      split
      · obtain ⟨t₁, s, l₁, hevict, hinv₁, hfree₁, hk₁, hfp₁, hkept⟩ :=
          (h.door (Function.update t.door (doorIndex (doorKey fp)) 0)).evict hfree
        obtain ⟨t₂, hadmit, hinv₂, hk₂⟩ := hinv₁.admitFp hfree₁ fun x hx => by
          rw [hfp₁]
          exact hnew x (hkept x hx)
        refine ⟨s, t₂, s :: l₁, ?_, hinv₂, hk₂.trans hk₁⟩
        rw [hfree] at hevict
        rw [hevict, Option.bind_some, hadmit]
      · have hdoor := h.door (Function.update t.door (doorIndex (doorKey fp)) (doorKey fp))
        have hk : t.k ∉ l := fun hmem => Nat.lt_irrefl _ (h.slots _ ((h.listed _).mp hmem))
        exact ⟨t.k, { t with door := Function.update t.door (doorIndex (doorKey fp)) (doorKey fp) }, l, by rw [hfree]; rfl, { hdoor with
          recent := pairwise_cons_log h.recent hk, logged := fun x hx => List.mem_cons_of_mem _ (h.logged x hx) }, rfl⟩

theorem Inv.resolveAll (h : t.Inv l log) (fps : List UInt64) :
    ∃ t' l' log', t.resolveAll fps log = some (t', log') ∧ t'.Inv l' log' ∧ t'.k = t.k := by
  induction fps generalizing t l log with
  | nil => exact ⟨t, l, log, rfl, h, rfl⟩
  | cons fp fps ih =>
    obtain ⟨s, t₁, l₁, hresolve, hinv₁, hk₁⟩ := h.resolve fp
    obtain ⟨t₂, l₂, log₂, hrest, hinv₂, hk₂⟩ := ih hinv₁
    refine ⟨t₂, l₂, log₂, ?_, hinv₂, hk₂.trans hk₁⟩
    rw [FpTable.resolveAll, hresolve]
    exact hrest

theorem new_inv (topQueries : Nat) : (new topQueries).Inv [] [] := by
  refine ⟨?_, nofun, nofun, fun s => ⟨nofun, nofun⟩, nofun, nofun, ⟨rfl, rfl, trivial, List.nodup_nil⟩, fun s => ⟨nofun, nofun⟩,
    List.nodup_range, fun s => ?_, List.Pairwise.nil, nofun⟩
  · rw [new]
    dsimp only
    split
    · decide
    · omega
  · exact List.mem_range.trans ⟨fun hlt => ⟨hlt, rfl⟩, And.left⟩

end

end FpTable

structure FpTable.Sound (t : FpTable) (l log : List Nat) : Prop where
  find : ∀ fp, ∃ r, t.fpFind fp = some r ∧ ∀ s, r = some s ↔ t.used s = true ∧ t.fp s = fp
  single : ∀ c c' s s', t.hash c = some s → t.hash c' = some s' → t.fp s = t.fp s' → c = c'
  empty : ∃ e < t.hcap, t.hash e = none
  linked : Linked t.lru l
  listed : ∀ s, s ∈ l ↔ t.used s = true
  recent : l.Pairwise fun a b => log.idxOf a < log.idxOf b
  freed : t.free.Nodup
  unused : ∀ s, s ∈ t.free ↔ s < t.k ∧ t.used s = false

/-- Any sequence of fingerprints is resolved, and leaves the dictionary sound. -/
theorem fpTable_resolves (topQueries : Nat) (fps : List UInt64) :
    ∃ t l log, (FpTable.new topQueries).resolveAll fps [] = some (t, log) ∧ t.Sound l log := by
  obtain ⟨t, l, log, hrun, h, -⟩ := (FpTable.new_inv topQueries).resolveAll fps
  exact ⟨t, l, log, hrun, h.find, h.single, h.empty, h.linked, h.listed, h.recent, h.freed, h.unused⟩

end Latkit
