import Latkit.RoutePrivacy

/-! A template that is not clipped is its own template. -/

namespace Latkit.Route

theorem splitExt_of_shape (h : FileShape p stem ext) : splitExt p = some (stem, ext) := by
  have hkeep : ∀ c ∈ ext.reverse, (c != dot) = true := by
    intro c hc
    simpa using ne_of_mem_of_not_mem (List.mem_reverse.mp hc) h.last
  have hrev : p.reverse = ext.reverse ++ dot :: stem.reverse := by
    rw [h.split]
    simp
  have hext : p.rtakeWhile (· != dot) = ext := by
    rw [List.rtakeWhile, hrev, List.takeWhile_append_of_pos hkeep]
    simp
  have hfront : p.rdropWhile (· != dot) = stem ++ [dot] := by
    rw [List.rdropWhile, hrev, List.dropWhile_append_of_pos hkeep]
    simp
  have hstem := List.length_pos_iff.mpr h.stem_ne
  rw [splitExt, hext, hfront]
  simp [h.ext_ne, h.stem_ne, h.alnum, h.alpha, Nat.not_lt.mpr h.short]

inductive Shown (p : List Byte) : List Byte → Prop
  | file : FileShape p stem ext → Shown p (bytesOf "\x7bfile\x7d." ++ ext)
  | id : p ≠ [] → Shown p (bytesOf "\x7bid\x7d")
  | literal : Shown p p

theorem segText_shown (p : List Byte) : Shown p (segText p) := by
  rw [segText, putSegment]
  split
  · next stem ext hsplit =>
    split
    · simpa using Shown.file (splitExt_shape hsplit)
    · simpa using Shown.literal
  · split
    · next hop =>
      have hne : p ≠ [] := by
        rintro rfl
        cases hop
      simpa using Shown.id hne
    · simpa using Shown.literal

theorem segText_idem (p : List Byte) : segText (segText p) = segText p := by
  have hshown := segText_shown p
  generalize hp : segText p = t at hshown ⊢
  cases hshown with
  | literal => exact hp
  | id => decide +kernel
  | file hshape =>
    rename_i stem ext
    have hfile : FileShape (bytesOf "\x7bfile\x7d." ++ ext) (bytesOf "\x7bfile\x7d") ext :=
      ⟨by rw [show bytesOf "\x7bfile\x7d." = bytesOf "\x7bfile\x7d" ++ [dot] by decide +kernel, List.append_assoc]; rfl,
        by decide +kernel, hshape.ext_ne, hshape.short, hshape.alnum, hshape.alpha, hshape.last⟩
    have hstem : stemOpaque (bytesOf "\x7bfile\x7d") = false := by decide +kernel
    simp [segText, putSegment, splitExt_of_shape hfile, hstem]

theorem segText_eq_nil (h : segText p = []) : p = [] := by
  have hshown := segText_shown p
  rw [h] at hshown
  generalize ht : ([] : List Byte) = t at hshown
  cases hshown with
  | literal => rfl
  | id => exact absurd ht (by decide +kernel)
  | file hshape =>
    exact absurd (List.append_eq_nil_iff.mp ht.symm).2 hshape.ext_ne

theorem segText_mem (hc : c ∈ segText p) : c ∈ p ∨ c ∈ bytesOf "\x7bfile\x7d." ∨ c ∈ bytesOf "\x7bid\x7d" := by
  have hshown := segText_shown p
  generalize segText p = t at hshown hc
  cases hshown with
  | literal => exact .inl hc
  | id => exact .inr (.inr hc)
  | file hshape =>
    rcases List.mem_append.mp hc with hc | hc
    · exact .inr (.inl hc)
    · rw [hshape.split]
      exact .inl (List.mem_append_right _ (List.mem_cons_of_mem _ hc))

theorem segText_no (htok : c ∉ bytesOf "\x7bfile\x7d." ∧ c ∉ bytesOf "\x7bid\x7d") (hc : c ∉ p) : c ∉ segText p :=
  fun hm => (segText_mem hm).elim hc fun h => h.elim htok.1 htok.2

def AtSlash (p : List Byte) : Prop := ∀ c ∈ p.head?, c = slash

theorem span_append (hseg : slash ∉ seg) (hrest : AtSlash rest) :
    (seg ++ rest).takeWhile (· != slash) = seg ∧ (seg ++ rest).dropWhile (· != slash) = rest := by
  have hkeep : ∀ c ∈ seg, (c != slash) = true := fun c hc => by simpa using ne_of_mem_of_not_mem hc hseg
  rw [List.takeWhile_append_of_pos hkeep, List.dropWhile_append_of_pos hkeep]
  cases rest with
  | nil => exact ⟨List.append_nil seg, rfl⟩
  | cons c rest =>
    rw [hrest c rfl]
    exact ⟨by simp, by simp⟩

theorem nextSegment_slash (hseg : slash ∉ seg) (hrest : AtSlash rest) :
    nextSegment (slash :: (seg ++ rest)) = (seg, rest) := by
  obtain ⟨htake, hdrop⟩ := span_append hseg hrest
  rw [nextSegment, if_pos (show (slash :: (seg ++ rest)).head? = some slash from rfl)]
  exact Prod.ext htake hdrop

theorem nextSegment_bare (hseg : slash ∉ seg) (hne : seg ≠ []) (hrest : AtSlash rest) :
    nextSegment (seg ++ rest) = (seg, rest) := by
  obtain ⟨htake, hdrop⟩ := span_append hseg hrest
  obtain ⟨c, seg, rfl⟩ := List.exists_cons_of_ne_nil hne
  have hc : c ≠ slash := fun he => hseg (he ▸ List.mem_cons_self)
  rw [nextSegment, if_neg (show ¬ (c :: seg ++ rest).head? = some slash by simpa using hc)]
  exact Prod.ext htake hdrop

theorem nextSegment_cases (c : Byte) (p : List Byte) : ∃ seg rest, slash ∉ seg ∧ AtSlash rest ∧
    nextSegment (c :: p) = (seg, rest) ∧ ((c = slash ∧ p = seg ++ rest) ∨ (c ≠ slash ∧ seg ≠ [] ∧ c :: p = seg ++ rest)) := by
  have hno : ∀ q : List Byte, slash ∉ q.takeWhile (· != slash) := fun q hm => by
    simpa using List.mem_takeWhile_imp hm
  have hat : ∀ q : List Byte, AtSlash (q.dropWhile (· != slash)) := by
    intro q a ha
    have hhead := List.head?_dropWhile_not (· != slash) q
    rw [Option.mem_def.mp ha] at hhead
    simpa using hhead
  by_cases hc : c = slash
  · refine ⟨_, _, hno p, hat p, ?_, .inl ⟨hc, List.takeWhile_append_dropWhile.symm⟩⟩
    rw [nextSegment, hc, if_pos (show (slash :: p).head? = some slash from rfl)]
    rfl
  · refine ⟨_, _, hno (c :: p), hat (c :: p), ?_, .inr ⟨hc, ?_, List.takeWhile_append_dropWhile.symm⟩⟩
    · rw [nextSegment, if_neg (show ¬ (c :: p).head? = some slash by simpa using hc)]
    · rw [List.takeWhile_cons_of_pos (by simpa using hc)]
      exact List.cons_ne_nil _ _

theorem slash_token : slash ∉ bytesOf "\x7bfile\x7d." ∧ slash ∉ bytesOf "\x7bid\x7d" := by decide +kernel

theorem walkText_slash (left : Nat) (hseg : slash ∉ seg) (hrest : AtSlash rest) :
    walkText (left + 1) (slash :: (seg ++ rest)) = slash :: (segText seg ++ walkText left rest) := by
  rw [walkText, nextSegment_slash hseg hrest, if_pos rfl]
  rfl

theorem walkText_bare (left : Nat) (hseg : slash ∉ seg) (hne : seg ≠ []) (hrest : AtSlash rest) :
    walkText (left + 1) (seg ++ rest) = segText seg ++ walkText left rest := by
  have hnext := nextSegment_bare hseg hne hrest
  obtain ⟨c, seg, rfl⟩ := List.exists_cons_of_ne_nil hne
  have hc : c ≠ slash := fun he => hseg (he ▸ List.mem_cons_self)
  rw [List.cons_append] at hnext ⊢
  rw [walkText, hnext, if_neg hc]
  rfl

theorem walkText_zero (c : Byte) (p : List Byte) : walkText 0 (c :: p) = slash :: bytesOf "..." := by
  rw [walkText]
  decide +kernel

theorem walkText_atSlash (left : Nat) (h : AtSlash p) : AtSlash (walkText left p) := by
  cases p with
  | nil =>
    cases left <;> exact nofun
  | cons c p =>
    have hc := h c rfl
    cases left with
    | zero =>
      rw [walkText_zero]
      intro a ha
      cases ha
      rfl
    | succ left =>
      obtain ⟨seg, rest, hseg, hrest, _, ⟨_, rfl⟩ | ⟨hne, _⟩⟩ := nextSegment_cases c p
      · rw [hc, walkText_slash left hseg hrest]
        intro a ha
        cases ha
        rfl
      · exact absurd hc hne

theorem walkText_idem (left : Nat) (p : List Byte) : walkText left (walkText left p) = walkText left p := by
  induction left generalizing p with
  | zero =>
    cases p with
    | nil => rfl
    | cons c p => rw [walkText_zero, walkText_zero]
  | succ left ih =>
    cases p with
    | nil => rfl
    | cons c p =>
      obtain ⟨seg, rest, hseg, hrest, _, ⟨rfl, rfl⟩ | ⟨_, hne, hp⟩⟩ := nextSegment_cases c p
      all_goals have hshown : slash ∉ segText seg := segText_no slash_token hseg
      all_goals have hwalk := walkText_atSlash left hrest
      · rw [walkText_slash left hseg hrest, walkText_slash left hshown hwalk, segText_idem, ih]
      · rw [hp, walkText_bare left hseg hne hrest,
          walkText_bare left hshown (fun hnil => hne (segText_eq_nil hnil)) hwalk, segText_idem, ih]

theorem walkText_no_mark (left : Nat) (h : mark ∉ p) : mark ∉ walkText left p := by
  have htok : mark ∉ bytesOf "\x7bfile\x7d." ∧ mark ∉ bytesOf "\x7bid\x7d" := by decide +kernel
  induction left generalizing p with
  | zero =>
    cases p with
    | nil => exact h
    | cons c p =>
      rw [walkText_zero]
      decide +kernel
  | succ left ih =>
    cases p with
    | nil => exact h
    | cons c p =>
      obtain ⟨seg, rest, hseg, hrest, _, ⟨rfl, rfl⟩ | ⟨_, hne, hp⟩⟩ := nextSegment_cases c p
      · rw [List.mem_cons, List.mem_append, not_or, not_or] at h
        rw [walkText_slash left hseg hrest, List.mem_cons, List.mem_append, not_or, not_or]
        exact ⟨by decide, segText_no htok h.2.1, ih h.2.2⟩
      · rw [hp, List.mem_append, not_or] at h
        rw [hp, walkText_bare left hseg hne hrest, List.mem_append, not_or]
        exact ⟨segText_no htok h.1, ih h.2⟩

theorem pathText_eq (hmap : cfg.map = []) (method path : List Byte) :
    pathText cfg method path = if path = [star] then [star] else walkText (routeDepth cfg) path := by
  have hnone : mapFind cfg method path = none := by
    rw [mapFind, hmap]
    split <;> rfl
  rw [pathText, hnone]

theorem pathText_idem (hmap : cfg.map = []) (method path : List Byte) :
    pathText cfg method (pathText cfg method path) = pathText cfg method path := by
  rw [pathText_eq hmap, pathText_eq hmap]
  by_cases hstar : path = [star]
  · rw [if_pos hstar, if_pos rfl]
  · rw [if_neg hstar]
    split
    · next h => exact h.symm
    · exact walkText_idem _ _

theorem not_mem_splitOn {l q : List Byte} (x : Byte) (h : q ∈ l.splitOn x) : x ∉ q := by
  induction l generalizing q with
  | nil =>
    rw [List.splitOn_nil, List.mem_singleton] at h
    rw [h]
    exact nofun
  | cons a l ih =>
    obtain ⟨r, rs, hr⟩ := List.exists_cons_of_ne_nil (List.splitOn_ne_nil x l)
    rw [List.splitOn_cons_eq_if_modifyHead, hr] at h
    rw [hr] at ih
    split at h
    · rcases List.mem_cons.mp h with rfl | h
      · exact nofun
      · exact ih h
    · next hax =>
      rcases List.mem_cons.mp h with rfl | h
      · intro hm
        rcases List.mem_cons.mp hm with rfl | hm
        · simp at hax
        · exact ih List.mem_cons_self hm
      · exact ih (List.mem_cons_of_mem r h)

theorem queryShown_idem (val : List Byte) : queryShown (queryShown val) = queryShown val := by
  by_cases h : (decide (lkRouteQueryValMax < val.length) || segOpaque val) = true
  · rw [show queryShown val = bytesOf "\x7bid\x7d" from if_pos h]
    decide +kernel
  · rw [show queryShown val = val from if_neg h]
    exact if_neg h

theorem queryFind_amp (h : queryFind q key = some val) : amp ∉ queryShown val := by
  obtain ⟨pair, hpair, hval⟩ := List.exists_of_findSome?_eq_some h
  have hno := not_mem_splitOn amp hpair
  split at hval
  · cases hval
    rw [queryShown]
    split
    · decide +kernel
    · exact fun hm => hno (List.dropWhile_subset _ (List.mem_of_mem_tail hm))
  · cases hval

theorem mem_queryPairs (h : pair ∈ queryPairs q keys) :
    ∃ key ∈ keys, ∃ val, queryFind q key = some val ∧ pair = (key, queryShown val) := by
  obtain ⟨key, hkey, hpair⟩ := List.mem_filterMap.mp h
  split at hpair
  · cases hpair
  · obtain ⟨val, hval, rfl⟩ := Option.map_eq_some_iff.mp hpair
    exact ⟨key, hkey, val, hval, rfl⟩

theorem pairText_parts (h : eqs ∉ pair.1) : (pairText pair).takeWhile (· != eqs) = pair.1 ∧
    ((pairText pair).dropWhile (· != eqs)).tail = pair.2 := by
  have hkeep : ∀ c ∈ pair.1, (c != eqs) = true := fun c hc => by simpa using ne_of_mem_of_not_mem hc h
  rw [pairText, List.takeWhile_append_of_pos hkeep, List.dropWhile_append_of_pos hkeep]
  simp

theorem queryFind_shown (hne : pairs ≠ []) (h : ∀ pair ∈ pairs, eqs ∉ pair.1 ∧ amp ∉ pairText pair) (key : List Byte) :
    queryFind ([amp].intercalate (pairs.map pairText)) key = (pairs.find? (·.1 = key)).map Prod.snd := by
  have hsplit : ([amp].intercalate (pairs.map pairText)).splitOn amp = pairs.map pairText := by
    refine List.splitOn_intercalate amp ?_ (by simpa using hne)
    intro l hl
    obtain ⟨pair, hpair, rfl⟩ := List.mem_map.mp hl
    exact (h pair hpair).2
  rw [queryFind, hsplit, List.findSome?_map]
  clear hsplit hne
  induction pairs with
  | nil => rfl
  | cons pair pairs ih =>
    obtain ⟨hkey, hval⟩ := pairText_parts (h pair List.mem_cons_self).1
    rw [List.findSome?_cons, List.find?_cons, Function.comp_apply, hkey, hval]
    by_cases heq : pair.1 = key
    · simp [heq]
    · simpa [heq] using ih fun p hp => h p (List.mem_cons_of_mem pair hp)

theorem find_queryPairs (hkey : key ∈ keys) (hne : key ≠ []) :
    ((queryPairs q keys).find? (·.1 = key)).map Prod.snd = (queryFind q key).map queryShown := by
  have hown : ∀ pair, (queryPairs q keys).find? (·.1 = key) = some pair →
      ∃ val, queryFind q key = some val ∧ pair.2 = queryShown val := by
    intro pair hpair
    obtain ⟨key', _, val, hval, rfl⟩ := mem_queryPairs (List.mem_of_find?_eq_some hpair)
    have hk : key' = key := by simpa using List.find?_some hpair
    exact ⟨val, hk ▸ hval, rfl⟩
  cases hfind : (queryPairs q keys).find? (·.1 = key) with
  | some pair =>
    obtain ⟨val, hval, hshown⟩ := hown pair hfind
    rw [hval, Option.map_some, hshown]
    rfl
  | none =>
    cases hq : queryFind q key with
    | none => rfl
    | some val =>
      have hmem : (key, queryShown val) ∈ queryPairs q keys := by
        apply List.mem_filterMap.mpr
        exact ⟨key, hkey, by rw [if_neg hne, hq]; rfl⟩
      exact absurd (decide_eq_true rfl) (List.find?_eq_none.mp hfind _ hmem)

theorem pairsText_eq (pair : List Byte × List Byte) (pairs : List (List Byte × List Byte)) :
    pairText pair ++ pairsText true pairs = [amp].intercalate ((pair :: pairs).map pairText) := by
  induction pairs generalizing pair with
  | nil => simp [pairsText, List.intercalate]
  | cons next pairs ih =>
    rw [pairsText, List.map_cons, List.map_cons, List.intercalate_cons_cons, ← List.map_cons, ← ih]
    simp

theorem queryPairs_shown (hkeys : ∀ key ∈ keys, amp ∉ key ∧ eqs ∉ key) (hne : queryPairs q keys ≠ []) :
    queryPairs ([amp].intercalate ((queryPairs q keys).map pairText)) keys = queryPairs q keys := by
  have hok : ∀ pair ∈ queryPairs q keys, eqs ∉ pair.1 ∧ amp ∉ pairText pair := by
    intro pair hpair
    obtain ⟨key, hkey, val, hval, rfl⟩ := mem_queryPairs hpair
    refine ⟨(hkeys key hkey).2, ?_⟩
    rw [pairText, List.mem_append, List.mem_cons, not_or, not_or]
    exact ⟨(hkeys key hkey).1, by decide, queryFind_amp hval⟩
  conv_lhs => rw [queryPairs]
  conv_rhs => rw [queryPairs]
  apply List.filterMap_congr
  intro key hkey
  split
  · rfl
  · next hnil =>
    rw [queryFind_shown hne hok, find_queryPairs hkey hnil, Option.map_map]
    cases queryFind q key with
    | none => rfl
    | some val => exact congrArg (fun v => some (key, v)) (queryShown_idem val)

theorem pathOf_append (hp : mark ∉ p) : pathOf (p ++ mark :: q) = p ∧ queryOf (p ++ mark :: q) = q := by
  have hkeep : ∀ c ∈ p, (c != mark) = true := fun c hc => by simpa using ne_of_mem_of_not_mem hc hp
  rw [pathOf, queryOf, List.takeWhile_append_of_pos hkeep, List.dropWhile_append_of_pos hkeep]
  simp

theorem routeText_idem (hmap : cfg.map = []) (hkeys : ∀ key ∈ cfg.queryKeys, amp ∉ key ∧ eqs ∉ key)
    (method target : List Byte) :
    routeText cfg method (routeText cfg method target) = routeText cfg method target := by
  have hpath : mark ∉ pathText cfg method (pathOf target) := by
    have hno : mark ∉ pathOf target := fun hm => by simpa using List.mem_takeWhile_imp hm
    rw [pathText_eq hmap]
    split
    · decide
    · exact walkText_no_mark _ hno
  have hidem := pathText_idem hmap method (pathOf target)
  cases hpairs : queryPairs (queryOf target) cfg.queryKeys with
  | nil =>
    have htext : routeText cfg method target = pathText cfg method (pathOf target) := by
      rw [routeText, hpairs, pairsText, List.append_nil]
    have hkeep : ∀ c ∈ pathText cfg method (pathOf target), (c != mark) = true := fun c hc => by
      simpa using ne_of_mem_of_not_mem hc hpath
    rw [htext, routeText, pathOf, queryOf, List.takeWhile_eq_self_iff.mpr hkeep, List.dropWhile_eq_nil_iff.mpr hkeep,
      List.tail_nil, queryPairs_nil, pairsText, List.append_nil, hidem]
  | cons pair pairs =>
    have htext : routeText cfg method target = pathText cfg method (pathOf target) ++
        mark :: [amp].intercalate ((queryPairs (queryOf target) cfg.queryKeys).map pairText) := by
      rw [routeText, hpairs, ← pairsText_eq]
      rfl
    obtain ⟨hp, hq⟩ := pathOf_append
      (q := [amp].intercalate ((queryPairs (queryOf target) cfg.queryKeys).map pairText)) hpath
    rw [← htext] at hp hq
    conv_lhs => rw [routeText, hp, hq, hidem, queryPairs_shown hkeys (by rw [hpairs]; exact List.cons_ne_nil _ _)]
    rfl

/-- Without a map, a template that is not clipped has itself for a template, with the same fingerprint. -/
theorem route_idempotent (xxh3 : List Byte → UInt64) (method target : List Byte) (cfg : RouteCfg) (hmap : cfg.map = [])
    (hkeys : ∀ key ∈ cfg.queryKeys, amp ∉ key ∧ eqs ∉ key)
    (hroom : (lkNormRoute xxh3 method target cfg).flags.trunc = false) :
    (lkNormRoute xxh3 method (lkNormRoute xxh3 method target cfg).text cfg).text = (lkNormRoute xxh3 method target cfg).text ∧
      (lkNormRoute xxh3 method (lkNormRoute xxh3 method target cfg).text cfg).fp = (lkNormRoute xxh3 method target cfg).fp := by
  obtain ⟨htext, hfp, htrunc⟩ := lkNormRoute_eq xxh3 method target cfg
  rw [hroom] at htrunc
  have hfits : (routeText cfg method target).length ≤ lkRouteTextMax - 1 := Nat.le_of_not_lt (of_decide_eq_false htrunc.symm)
  rw [List.take_of_length_le hfits] at htext
  obtain ⟨htext', hfp', _⟩ := lkNormRoute_eq xxh3 method (routeText cfg method target) cfg
  rw [routeText_idem hmap hkeys, List.take_of_length_le hfits] at htext'
  rw [routeText_idem hmap hkeys] at hfp'
  rw [htext, htext', hfp, hfp']
  exact ⟨rfl, rfl⟩

theorem route_idempotent_orders :
    (lkNormRoute (fun _ => 0) [] (bytesOf "/orders/42?page=7") { queryKeys := [bytesOf "page"] }).flags.trunc = false ∧
      (lkNormRoute (fun _ => 0) [] (lkNormRoute (fun _ => 0) [] (bytesOf "/orders/42?page=7")
        { queryKeys := [bytesOf "page"] }).text { queryKeys := [bytesOf "page"] }).text =
          (lkNormRoute (fun _ => 0) [] (bytesOf "/orders/42?page=7") { queryKeys := [bytesOf "page"] }).text := by
  have hroom : (lkNormRoute (fun _ => 0) [] (bytesOf "/orders/42?page=7")
      { queryKeys := [bytesOf "page"] }).flags.trunc = false := by decide +kernel
  refine ⟨hroom, (route_idempotent (fun _ => 0) [] _ _ rfl ?_ hroom).1⟩
  intro key hk
  rw [List.mem_singleton.mp hk]
  decide +kernel

end Latkit.Route
