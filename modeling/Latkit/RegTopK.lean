import Latkit.RegAccounts
import Latkit.LruDoor

/-! The registry's dictionary is a bounded set of recent fingerprints behind a doorkeeper. -/

namespace Latkit
open LruDoor (Refuses)

def LkRegistry.admitted (r : LkRegistry) : List UInt64 := r.lru.map fun s => (r.entries s).fp

def LkRegistry.topK (r : LkRegistry) : LruDoor.State UInt64 := ⟨r.admitted, r.free.length, r.door⟩

/-- Every slot is in use or free, and no fingerprint has two. -/
structure LkRegistry.Tidy (r : LkRegistry) : Prop where
  slots : (r.lru ++ r.free).Perm (List.range r.k)
  distinct : r.admitted.Nodup
  pos : 0 < r.k

theorem LkRegistry.Tidy.nodup (h : LkRegistry.Tidy r) : (r.lru ++ r.free).Nodup := h.slots.nodup_iff.mpr List.nodup_range

theorem LkRegistry.Tidy.lt (h : LkRegistry.Tidy r) (hs : s ∈ r.lru ++ r.free) : s < r.k :=
  List.mem_range.mp (h.slots.mem_iff.mp hs)

theorem map_erase_of_nodup [DecidableEq α] [DecidableEq β] (f : α → β) {l : List α} (h : (l.map f).Nodup) (ha : a ∈ l) :
    (l.erase a).map f = (l.map f).erase (f a) := by
  induction l with
  | nil => cases ha
  | cons b l ih =>
    rw [List.map_cons, List.nodup_cons] at h
    by_cases hb : b = a
    · rw [hb, List.erase_cons_head, List.map_cons, List.erase_cons_head]
    · have ha := (List.mem_cons.mp ha).resolve_left (Ne.symm hb)
      have hf : f b ≠ f a := fun he => h.1 (he ▸ List.mem_map_of_mem ha)
      rw [List.erase_cons_tail (by simpa using hb), List.map_cons, ih h.2 ha, List.map_cons,
        List.erase_cons_tail (by simpa using hf)]

structure SameDict (r r' : LkRegistry) : Prop where
  k : r'.k = r.k
  entries : r'.entries = r.entries
  lru : r'.lru = r.lru
  free : r'.free = r.free
  door : r'.door = r.door

theorem SameDict.of_kernel (h : r'.kernel = r.kernel) : SameDict r r' := by
  simp only [LkRegistry.kernel, LkRegistry.core, Prod.mk.injEq] at h
  obtain ⟨⟨hk, -, hlru, hfree, -⟩, hentries, hdoor⟩ := h
  exact ⟨hk, hentries, hlru, hfree, hdoor⟩

theorem SameDict.topK (h : SameDict r r') : r'.topK = r.topK ∧ (r.Tidy → r'.Tidy) := by
  obtain ⟨hk, hentries, hlru, hfree, hdoor⟩ := h
  have hadm : r'.admitted = r.admitted := by rw [LkRegistry.admitted, LkRegistry.admitted, hlru, hentries]
  refine ⟨?_, fun ht => ⟨?_, ?_, ?_⟩⟩
  · rw [LkRegistry.topK, LkRegistry.topK, hadm, hfree, hdoor]
  · rw [hlru, hfree, hk]
    exact ht.slots
  · rw [hadm]
    exact ht.distinct
  · rw [hk]
    exact ht.pos

theorem fpFind_some (h : fpFind r fp = some s) : s ∈ r.lru ∧ (r.entries s).fp = fp :=
  ⟨List.mem_of_find?_eq_some h, by simpa using List.find?_some h⟩

theorem fpFind_none (h : fpFind r fp = none) : fp ∉ r.admitted := by
  intro hm
  obtain ⟨s, hs, hfp⟩ := List.mem_map.mp hm
  exact absurd hfp (by simpa using List.find?_eq_none.mp h s hs)

theorem lruTouch_topK (h : LkRegistry.Tidy r) (hs : s ∈ r.lru) : (lruTouch r s).admitted =
    (r.entries s).fp :: r.admitted.erase (r.entries s).fp ∧ (lruTouch r s).Tidy := by
  have hadm : (lruTouch r s).admitted = (r.entries s).fp :: r.admitted.erase (r.entries s).fp :=
    congrArg (_ :: ·) (map_erase_of_nodup (fun s => (r.entries s).fp) h.distinct hs)
  refine ⟨hadm, ⟨?_, ?_, h.pos⟩⟩
  · exact ((List.perm_cons_erase hs).symm.append_right _).trans h.slots
  · rw [hadm]
    exact (List.perm_cons_erase (List.mem_map_of_mem hs)).nodup_iff.mp h.distinct

theorem admitQuery_topK (h : LkRegistry.Tidy r) (hfp : fp ∉ r.admitted) (hfree : r.free = s :: free) (label op : List Byte) :
    (admitQuery r fp label op).1 < r.k ∧ (admitQuery r fp label op).2.Tidy ∧ (admitQuery r fp label op).2.k = r.k ∧
      (admitQuery r fp label op).2.topK = ⟨fp :: r.admitted, free.length, r.door⟩ := by
  have hnodup := h.nodup
  rw [hfree] at hnodup
  have hs : s ∉ r.lru := fun hm => (List.nodup_append.mp hnodup).2.2 s hm s List.mem_cons_self rfl
  have hlt : s < r.k := h.lt (hfree ▸ List.mem_append_right _ List.mem_cons_self)
  rw [admitQuery, hfree]
  have hadm : (s :: r.lru).map (fun t =>
      (Function.update r.entries s ⟨fp, utf8Trunc label r.labelLen, snprintf lkRegOpMax op⟩ t).fp) = fp :: r.admitted := by
    rw [List.map_cons, Function.update_self]
    refine congrArg (fp :: ·) (List.map_congr_left fun t ht => ?_)
    rw [Function.update_of_ne (ne_of_mem_of_not_mem ht hs)]
  refine ⟨hlt, ⟨?_, ?_, h.pos⟩, rfl, congrArg (fun a => LruDoor.State.mk a free.length r.door) hadm⟩
  · have hslots := h.slots
    rw [hfree] at hslots
    exact List.perm_middle.symm.trans hslots
  · change List.Nodup (List.map _ (s :: r.lru))
    rw [hadm]
    exact List.nodup_cons.mpr ⟨hfp, h.distinct⟩

theorem evictLru_topK (h : LkRegistry.Tidy r) (hfree : r.free = []) (now : Nat) :
    (evictLru r now).Tidy ∧ (evictLru r now).k = r.k ∧ (∃ t, (evictLru r now).free = [t]) ∧
      (evictLru r now).admitted = r.admitted.dropLast ∧ (evictLru r now).door = r.door := by
  have hslots := h.slots
  rw [hfree, List.append_nil] at hslots
  have hne : r.lru ≠ [] := by
    intro hnil
    rw [hnil] at hslots
    have hlen := hslots.length_eq
    rw [List.length_range] at hlen
    exact Nat.ne_of_lt h.pos hlen
  have hadm : (r.lru.dropLast).map (fun s => (r.entries s).fp) = r.admitted.dropLast := List.map_dropLast ..
  rw [evictLru, List.getLast?_eq_some_getLast hne]
  refine ⟨⟨?_, ?_, h.pos⟩, rfl, ⟨_, congrArg _ hfree⟩, hadm, rfl⟩
  · dsimp only
    rw [hfree, List.dropLast_concat_getLast hne]
    exact hslots
  · exact (List.dropLast_sublist _).nodup h.distinct |> fun hn => by
      change List.Nodup (List.map _ r.lru.dropLast)
      rw [hadm]
      exact hn

theorem resolveQuery_topK (h : LkRegistry.Tidy r) (hfp : fp ≠ 0) (now : Nat) (label op : List Byte) :
    (resolveQuery r now fp label op).2.topK = LruDoor.resolve doorIndex 0 r.topK fp ∧
      (resolveQuery r now fp label op).2.Tidy ∧ (resolveQuery r now fp label op).2.k = r.k ∧
        (Refuses doorIndex r.topK fp → (resolveQuery r now fp label op).1 = r.k) := by
  rw [resolveQuery, LruDoor.resolve]
  cases hfind : fpFind r fp with
  | some s =>
    obtain ⟨hs, rfl⟩ := fpFind_some hfind
    obtain ⟨hadm, htidy⟩ := lruTouch_topK h hs
    have hmem : (r.entries s).fp ∈ r.topK.held := List.mem_map_of_mem hs
    rw [if_pos hmem]
    refine ⟨?_, htidy, rfl, fun href => absurd hmem href.1⟩
    exact congrArg (fun a => LruDoor.State.mk a r.free.length r.door) hadm
  | none =>
    have hout : fp ∉ r.topK.held := fpFind_none hfind
    rw [if_neg hout]
    dsimp only
    by_cases hfree : r.free = []
    · have hroom : ¬ 0 < r.topK.room := by
        rw [LkRegistry.topK, hfree]
        exact Nat.lt_irrefl 0
      have hkey : doorKey fp = fp := if_neg hfp
      rw [if_neg (not_not_intro hfree), if_neg hroom, hkey]
      by_cases hdoor : r.door (doorIndex fp) = fp
      · have hempty : LkRegistry.Tidy { r with door := Function.update r.door (doorIndex fp) 0 } :=
          ⟨h.slots, h.distinct, h.pos⟩
        obtain ⟨htidy, hk, ⟨t, ht⟩, hadm, hd⟩ := evictLru_topK hempty hfree now
        have hout' : fp ∉ (evictLru { r with door := Function.update r.door (doorIndex fp) 0 } now).admitted := by
          rw [hadm]
          exact fun hm => hout ((List.dropLast_sublist _).mem hm)
        obtain ⟨_, htidy', hk', htop⟩ := admitQuery_topK htidy hout' ht label op
        rw [if_pos hdoor, if_pos (show r.topK.door (doorIndex fp) = fp from hdoor), htop, hadm, hd]
        refine ⟨?_, htidy', hk'.trans hk, fun href => absurd hdoor href.2.2⟩
        rw [LkRegistry.topK, hfree]
        rfl
      · rw [if_neg hdoor, if_neg (show ¬ r.topK.door (doorIndex fp) = fp from hdoor)]
        exact ⟨rfl, ⟨h.slots, h.distinct, h.pos⟩, rfl, fun _ => rfl⟩
    · obtain ⟨s, free, hcons⟩ := List.exists_cons_of_ne_nil hfree
      obtain ⟨_, htidy, hk, htop⟩ := admitQuery_topK h hout hcons label op
      have hroom : 0 < r.topK.room := List.length_pos_iff.mpr hfree
      rw [if_pos hfree, if_pos hroom, htop]
      refine ⟨?_, htidy, hk, fun href => absurd href.2.1 (Nat.ne_of_gt hroom)⟩
      rw [LkRegistry.topK, hcons]
      rfl

def RegCall.resolves : RegCall → Option UInt64
  | .observe o => if !o.isInternal && o.hasSeries && o.label.isSome && !o.forceOther then some o.fp else none
  | .txn _ => none

def resolved (calls : List RegCall) : List UInt64 := calls.filterMap RegCall.resolves

theorem resolves_some (h : (RegCall.observe o).resolves = some fp) : o.isInternal = false ∧ o.hasSeries = true := by
  rw [RegCall.resolves] at h
  split at h
  · next hc =>
    simp only [Bool.and_eq_true, Bool.not_eq_true'] at hc
    exact hc.1.1
  · cases h

theorem observeSlot_dict (r : LkRegistry) (dim proto : Nat) (o : LkRegObs) :
    SameDict (obsSlot r o).2 (observeSlot r dim proto o) := by
  rw [observeSlot]
  dsimp only
  split <;> exact ⟨rfl, rfl, rfl, rfl, rfl⟩

theorem obsSlot_topK (h : LkRegistry.Tidy r) (hs : o.isInternal = false ∧ o.hasSeries = true)
    (hnz : ∀ fp, (RegCall.observe o).resolves = some fp → fp ≠ 0) :
    (obsSlot r o).2.Tidy ∧ (obsSlot r o).2.k = r.k ∧
      (obsSlot r o).2.topK = (RegCall.observe o).resolves.elim r.topK (LruDoor.resolve doorIndex 0 r.topK) ∧
      (∀ fp, (RegCall.observe o).resolves = some fp → Refuses doorIndex r.topK fp → (obsSlot r o).1 = r.k) := by
  simp only [RegCall.resolves, hs.1, hs.2, Bool.not_false, Bool.and_self, Bool.true_and] at hnz ⊢
  rw [obsSlot]
  cases hl : o.label with
  | none => exact ⟨h, rfl, rfl, fun _ _ _ => rfl⟩
  | some label =>
    rw [hl] at hnz
    cases hf : o.forceOther with
    | true => exact ⟨h, rfl, rfl, fun _ _ _ => rfl⟩
    | false =>
      rw [hf] at hnz
      obtain ⟨htop, htidy, hk, href⟩ := resolveQuery_topK h (hnz o.fp rfl) o.now label (o.op.getD [])
      exact ⟨htidy, hk, htop, fun fp hfp => Option.some.inj hfp ▸ href⟩

theorem regStep_topK (h : LkRegistry.Tidy r) (c : RegCall) (hnz : ∀ fp, c.resolves = some fp → fp ≠ 0) :
    (regStep r c).Tidy ∧ (regStep r c).k = r.k ∧
      (regStep r c).topK = c.resolves.elim r.topK (LruDoor.resolve doorIndex 0 r.topK) := by
  cases c with
  | txn t =>
    have hsame := SameDict.of_kernel (lkRegObserveTxn_kernel r t)
    exact ⟨hsame.topK.2 h, hsame.k, hsame.topK.1⟩
  | observe o =>
    cases hint : o.isInternal with
    | true =>
      have hnone : (RegCall.observe o).resolves = none := by rw [RegCall.resolves, hint]; rfl
      rw [hnone, regStep, lkRegObserve, hint]
      exact ⟨⟨h.slots, h.distinct, h.pos⟩, rfl, rfl⟩
    | false =>
      have hready := SameDict.of_kernel (obsReady_kernel r o)
      have htidy := hready.topK.2 h
      rw [regStep, lkRegObserve_eq hint]
      cases hser : o.hasSeries with
      | false =>
        have hnone : (RegCall.observe o).resolves = none := by rw [RegCall.resolves, hint, hser]; rfl
        rw [hnone]
        exact ⟨htidy, hready.k, hready.topK.1⟩
      | true =>
        have hslot := observeSlot_dict (obsReady r o).2.2 (obsReady r o).1 (obsReady r o).2.1 o
        obtain ⟨ht, hk, htop, _⟩ := obsSlot_topK htidy ⟨hint, hser⟩ hnz
        rw [if_pos rfl]
        refine ⟨hslot.topK.2 ht, hslot.k.trans (hk.trans hready.k), ?_⟩
        rw [hslot.topK.1, htop, hready.topK.1]

theorem regRun_concat (r : LkRegistry) (calls : List RegCall) (c : RegCall) :
    regRun r (calls ++ [c]) = regStep (regRun r calls) c := List.foldl_append

theorem regRun_topK (h : LkRegistry.Tidy r) (calls : List RegCall) (hnz : ∀ fp ∈ resolved calls, fp ≠ 0) :
    (regRun r calls).Tidy ∧ (regRun r calls).k = r.k ∧
      (regRun r calls).topK = (resolved calls).foldl (LruDoor.resolve doorIndex 0) r.topK := by
  induction calls generalizing r with
  | nil => exact ⟨h, rfl, rfl⟩
  | cons c calls ih =>
    have hc : ∀ fp, c.resolves = some fp → fp ≠ 0 := fun fp hfp =>
      hnz fp (List.mem_filterMap.mpr ⟨c, List.mem_cons_self, hfp⟩)
    have hrest : ∀ fp ∈ resolved calls, fp ≠ 0 := by
      intro fp hfp
      obtain ⟨c', hc', hfp⟩ := List.mem_filterMap.mp hfp
      exact hnz fp (List.mem_filterMap.mpr ⟨c', List.mem_cons_of_mem c hc', hfp⟩)
    obtain ⟨htidy, hk, htop⟩ := regStep_topK h c hc
    obtain ⟨htidy', hk', htop'⟩ := ih htidy hrest
    refine ⟨htidy', hk'.trans hk, ?_⟩
    change (regRun (regStep r c) calls).topK = _
    rw [htop', htop, resolved, resolved, List.filterMap_cons]
    cases c.resolves <;> rfl

theorem lkRegNew_tidy (cfg : LkMetricsCfg) : (lkRegNew cfg).Tidy := by
  refine ⟨.refl _, List.nodup_nil, ?_⟩
  rw [lkRegNew]
  dsimp only
  split
  · decide
  · omega

theorem regRun_new_topK (cfg : LkMetricsCfg) (calls : List RegCall) (hnz : ∀ fp ∈ resolved calls, fp ≠ 0) :
    (regRun (lkRegNew cfg) calls).topK = LruDoor.run doorIndex 0 (lkRegNew cfg).k (resolved calls) := by
  have hstart : (lkRegNew cfg).topK = LruDoor.start 0 (lkRegNew cfg).k :=
    congrArg (fun n => LruDoor.State.mk [] n fun _ => 0) List.length_range
  rw [(regRun_topK (lkRegNew_tidy cfg) calls hnz).2.2, hstart]
  rfl

def RoutedToOther (cfg : LkMetricsCfg) (calls : List RegCall) (fp : UInt64) : Prop :=
  ∃ before o after, calls = before ++ .observe o :: after ∧ (RegCall.observe o).resolves = some fp ∧
    (regRun (lkRegNew cfg) before).free = [] ∧
      (obsSlot (regRun (lkRegNew cfg) before) o).1 = (regRun (lkRegNew cfg) before).k

theorem RoutedToOther.of_refused (hnz : ∀ fp ∈ resolved calls, fp ≠ 0)
    (h : LruDoor.RefusedBefore doorIndex 0 (lkRegNew cfg).k (resolved calls) fp) : RoutedToOther cfg calls fp := by
  obtain ⟨fps, fps', hcut, href⟩ := h
  obtain ⟨before, rest, rfl, hbefore, hrest⟩ := List.filterMap_eq_append_iff.mp hcut
  obtain ⟨skipped, c, after, rfl, hskip, hc, _⟩ := List.filterMap_eq_cons_iff.mp hrest
  have hfps : resolved (before ++ skipped) = fps := by
    rw [resolved, List.filterMap_append, hbefore, List.filterMap_eq_nil_iff.mpr hskip, List.append_nil]
  have hnz' : ∀ fp ∈ resolved (before ++ skipped), fp ≠ 0 := by
    intro x hx
    rw [hfps] at hx
    exact hnz x (by rw [hcut]; exact List.mem_append_left _ hx)
  have htop := regRun_new_topK cfg (before ++ skipped) hnz'
  have htidy := (regRun_topK (lkRegNew_tidy cfg) (before ++ skipped) hnz').1
  rw [hfps] at htop
  rw [← htop] at href
  cases c with
  | txn t => cases hc
  | observe o =>
    refine ⟨before ++ skipped, o, after, by simp, hc, List.length_eq_zero_iff.mp href.2.1, ?_⟩
    apply (obsSlot_topK htidy (resolves_some hc) ?_).2.2.2 fp hc href
    intro x hx
    rw [hc] at hx
    exact hnz x (by rw [hcut, ← Option.some.inj hx]; simp)

/-- With the dictionary full a new fingerprint is admitted only if it was routed to `other` since, in the place of the
entry whose last resolution is the oldest; distinct ones that were not leave the dictionary as it is. -/
theorem topK_admission (cfg : LkMetricsCfg) (calls : List RegCall) (hnz : ∀ fp ∈ resolved calls, fp ≠ 0)
    (hfull : (regRun (lkRegNew cfg) calls).free = []) :
    (∀ o fp, (RegCall.observe o).resolves = some fp → fp ≠ 0 → fp ∉ (regRun (lkRegNew cfg) calls).admitted →
      fp ∈ (lkRegObserve (regRun (lkRegNew cfg) calls) o).admitted →
        RoutedToOther cfg calls fp ∧ ∃ v ∈ (regRun (lkRegNew cfg) calls).admitted,
          (∀ w ∈ (regRun (lkRegNew cfg) calls).admitted, w ≠ v →
            LruDoor.age (resolved calls) w < LruDoor.age (resolved calls) v) ∧
          ∀ x, x ∈ (lkRegObserve (regRun (lkRegNew cfg) calls) o).admitted ↔
            x = fp ∨ (x ∈ (regRun (lkRegNew cfg) calls).admitted ∧ x ≠ v)) ∧
    (∀ more, (resolved more).Nodup → (∀ fp ∈ resolved more, fp ≠ 0 ∧ fp ∉ (regRun (lkRegNew cfg) calls).admitted ∧
        ¬ RoutedToOther cfg calls fp) →
      (regRun (lkRegNew cfg) (calls ++ more)).admitted = (regRun (lkRegNew cfg) calls).admitted) := by
  have htop := regRun_new_topK cfg calls hnz
  have hheld : (regRun (lkRegNew cfg) calls).admitted = _ := congrArg LruDoor.State.held htop
  have hroom : (LruDoor.run doorIndex 0 (lkRegNew cfg).k (resolved calls)).room = 0 := by
    rw [← htop, LkRegistry.topK, hfull]
    rfl
  constructor
  · intro o fp hfp hne hout hin
    have hlast : resolved (calls ++ [.observe o]) = resolved calls ++ [fp] := by
      rw [resolved, List.filterMap_append, List.filterMap_cons, hfp]
      rfl
    have hnz' : ∀ x ∈ resolved (calls ++ [.observe o]), x ≠ 0 := by
      rw [hlast]
      intro x hx
      rcases List.mem_append.mp hx with hx | hx
      · exact hnz x hx
      · rwa [List.mem_singleton.mp hx]
    have htop' := regRun_new_topK cfg (calls ++ [.observe o]) hnz'
    rw [hlast, regRun_concat] at htop'
    have hheld' : (lkRegObserve (regRun (lkRegNew cfg) calls) o).admitted = _ := congrArg LruDoor.State.held htop'
    rw [hheld] at hout ⊢
    rw [hheld'] at hin ⊢
    obtain ⟨href, hvictim⟩ := LruDoor.enters_full (lkRegNew_tidy cfg).pos hroom hout hne hin
    exact ⟨.of_refused hnz href, hvictim⟩
  · intro more hdistinct hnew
    have happ : resolved (calls ++ more) = resolved calls ++ resolved more := List.filterMap_append
    have hnz' : ∀ x ∈ resolved (calls ++ more), x ≠ 0 := by
      rw [happ]
      intro x hx
      rcases List.mem_append.mp hx with hx | hx
      · exact hnz x hx
      · exact (hnew x hx).1
    have htop' := regRun_new_topK cfg (calls ++ more) hnz'
    rw [happ] at htop'
    have hheld' : (regRun (lkRegNew cfg) (calls ++ more)).admitted = _ := congrArg LruDoor.State.held htop'
    rw [hheld', hheld]
    apply LruDoor.held_stream _ hroom hdistinct
    intro x hx
    obtain ⟨hx0, hxout, hxnew⟩ := hnew x hx
    rw [hheld] at hxout
    exact ⟨hx0, hxout, fun href => hxnew (.of_refused hnz href)⟩

def onceCall (fp : UInt64) : LkRegObs := { fp := fp, label := some [], hasDuration := true }

theorem topK_admission_twice : RoutedToOther { topQueries := 1 } [.observe (onceCall 1), .observe (onceCall 2)] 2 := by
  have hres : resolved [.observe (onceCall 1), .observe (onceCall 2)] = [1, 2] := rfl
  have hres' : resolved ([.observe (onceCall 1), .observe (onceCall 2)] ++ [.observe (onceCall 2)]) = [1, 2, 2] := rfl
  generalize [RegCall.observe (onceCall 1), .observe (onceCall 2)] = calls at hres hres' ⊢
  have hnz : ∀ fp ∈ ([1, 2, 2] : List UInt64), fp ≠ 0 := by simp
  have hnz' : ∀ fp ∈ resolved calls, fp ≠ 0 := by
    rw [hres]
    exact fun fp hfp => hnz fp (List.mem_append_left [2] hfp)
  have htop := regRun_new_topK { topQueries := 1 } calls hnz'
  have htop' := regRun_new_topK { topQueries := 1 } (calls ++ [.observe (onceCall 2)]) (hres' ▸ hnz)
  have hk : (lkRegNew { topQueries := 1 }).k = 1 := rfl
  rw [hk, hres] at htop
  rw [hk, hres', regRun_concat] at htop'
  have hrun : (LruDoor.run doorIndex 0 1 [1, 2]).room = 0 ∧ 2 ∉ (LruDoor.run doorIndex 0 1 [1, 2]).held ∧
      2 ∈ (LruDoor.run doorIndex 0 1 [1, 2, 2]).held := by decide +kernel
  have hheld : ∀ r : LkRegistry, r.topK.held = r.admitted := fun _ => rfl
  have hroom : ∀ r : LkRegistry, r.topK.room = r.free.length := fun _ => rfl
  rw [← htop, ← htop', hheld, hheld, hroom, regStep] at hrun
  exact ((topK_admission { topQueries := 1 } calls hnz' (List.length_eq_zero_iff.mp hrun.1)).1 (onceCall 2) 2 rfl
    (hnz 2 (by simp)) hrun.2.1 hrun.2.2).1

end Latkit
