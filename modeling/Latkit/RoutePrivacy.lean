import Latkit.RouteText

/-! No control byte is in a route, and of the query only the named keys are. -/

namespace Latkit.Route

def Clean (p : List Byte) : Prop := ∀ c ∈ p, isCtl c = false

theorem clean_nil : Clean [] := nofun

theorem Clean.append (hp : Clean p) (hq : Clean q) : Clean (p ++ q) :=
  fun c hc => (List.mem_append.mp hc).elim (hp c) (hq c)

theorem Clean.mono (h : Clean q) (hsub : ∀ c ∈ p, c ∈ q) : Clean p := fun c hc => h c (hsub c hc)

theorem clean_of_all (h : p.all (!isCtl ·) = true) : Clean p := by
  intro c hc
  simpa using List.all_eq_true.mp h c hc

theorem clean_of_segOpaque (h : segOpaque p = false) : Clean p := by
  rw [segOpaque] at h
  split at h
  · next hnil =>
    rw [hnil]
    exact clean_nil
  · split at h
    · cases h
    · next hany =>
      intro c hc
      by_contra hctl
      exact hany (List.any_eq_true.mpr ⟨c, hc, by simpa using hctl⟩)

theorem clean_alnum (h : p.all isAlnum = true) : Clean p := by
  have hall : ∀ n < 256, isAlnum (UInt8.ofNat n) = true → isCtl (UInt8.ofNat n) = false := by decide +kernel
  intro c hc
  have hc' := hall c.toNat c.toNat_lt
  rw [UInt8.ofNat_toNat] at hc'
  exact hc' (List.all_eq_true.mp h c hc)

theorem mem_intercalate {ls : List (List α)} (h : a ∈ [x].intercalate ls) : a = x ∨ ∃ p ∈ ls, a ∈ p := by
  induction ls with
  | nil => cases h
  | cons p ls ih =>
    cases ls with
    | nil => exact .inr ⟨p, List.mem_cons_self, by simpa [List.intercalate] using h⟩
    | cons q ls =>
      rw [List.intercalate_cons_cons, List.append_assoc, List.mem_append, List.mem_append, List.mem_singleton] at h
      rcases h with h | h | h
      · exact .inr ⟨p, List.mem_cons_self, h⟩
      · exact .inl h
      · exact (ih h).imp_right fun ⟨r, hr, hm⟩ => ⟨r, List.mem_cons_of_mem p hr, hm⟩

theorem mem_splitOn {l : List Byte} (x : Byte) (h : a ∈ l) : a = x ∨ ∃ p ∈ l.splitOn x, a ∈ p := by
  have hjoin : [x].intercalate (l.splitOn x) = l := List.intercalate_splitOn x
  rw [← hjoin] at h
  exact mem_intercalate h

theorem clean_of_stemOpaque (h : stemOpaque p = false) : Clean p := by
  intro c hc
  rcases mem_splitOn dot hc with rfl | ⟨q, hq, hcq⟩
  · decide
  · have hseg : segOpaque q = false := by
      by_contra hop
      have hany : stemOpaque p = true := List.any_eq_true.mpr ⟨q, hq, by simpa using hop⟩
      rw [hany] at h
      cases h
    exact clean_of_segOpaque hseg c hcq

structure FileShape (p stem ext : List Byte) : Prop where
  split : p = stem ++ dot :: ext
  stem_ne : stem ≠ []
  ext_ne : ext ≠ []
  short : ext.length ≤ 8
  alnum : ext.all isAlnum = true
  alpha : ext.any isAlpha = true
  last : dot ∉ ext

theorem splitExt_shape (h : splitExt p = some (stem, ext)) : FileShape p stem ext := by
  rw [splitExt] at h
  split at h
  · cases h
  · next hlens =>
    split at h
    · next hkinds =>
      cases h
      simp only [Bool.or_eq_true, not_or, decide_eq_true_eq, Nat.not_le, List.isEmpty_iff] at hlens
      rw [Bool.and_eq_true] at hkinds
      obtain ⟨⟨hfront, hext⟩, hshort⟩ := hlens
      have hne : p.rdropWhile (· != dot) ≠ [] := fun hnil => by simp [hnil] at hfront
      have hlast : (p.rdropWhile (· != dot)).getLast hne = dot := by
        simpa using List.rdropWhile_last_not (· != dot) p hne
      have hdots := List.dropLast_concat_getLast hne
      rw [hlast] at hdots
      refine ⟨?_, ?_, hext, Nat.le_of_not_lt hshort, hkinds.1, hkinds.2, ?_⟩
      · rw [List.append_cons, hdots, List.rdropWhile_append_rtakeWhile]
      · intro hnil
        have hlen := congrArg List.length hnil
        rw [List.length_dropLast, List.length_nil] at hlen
        omega
      · intro hm
        simpa using List.mem_rtakeWhile_imp hm
    · cases h

theorem clean_segText (p : List Byte) : Clean (segText p) := by
  rw [segText, putSegment]
  split
  · next stem ext hsplit =>
    have hshape := splitExt_shape hsplit
    have hext := clean_alnum hshape.alnum
    split
    · simp only [List.flatten_cons, List.flatten_nil, List.append_nil]
      exact Clean.append (clean_of_all (by decide +kernel)) hext
    · next hstem =>
      simp only [List.flatten_cons, List.flatten_nil, List.append_nil]
      rw [hshape.split]
      refine Clean.append (clean_of_stemOpaque (by simpa using hstem)) ?_
      exact Clean.append (p := [dot]) (clean_of_all (by decide)) hext
  · split
    · exact clean_of_all (by decide +kernel)
    · next hseg =>
      simp only [List.flatten_cons, List.flatten_nil, List.append_nil]
      exact clean_of_segOpaque (by simpa using hseg)

theorem clean_walkText (left : Nat) (p : List Byte) : Clean (walkText left p) := by
  induction left generalizing p with
  | zero =>
    cases p with
    | nil => exact clean_nil
    | cons c p => exact clean_of_all (p := bytesOf "/...") (by decide +kernel)
  | succ left ih =>
    cases p with
    | nil => exact clean_nil
    | cons c p =>
      rw [walkText]
      refine ((Clean.append ?_ (clean_segText _)).append (ih _))
      split
      · exact clean_of_all (by decide)
      · exact clean_nil

theorem clean_queryShown (val : List Byte) : Clean (queryShown val) := by
  rw [queryShown]
  split
  · exact clean_of_all (by decide +kernel)
  · next h =>
    simp only [Bool.or_eq_true, not_or, Bool.not_eq_true] at h
    exact clean_of_segOpaque h.2

theorem clean_pairsText (seen : Bool) (h : ∀ pair ∈ pairs, Clean pair.1 ∧ Clean pair.2) : Clean (pairsText seen pairs) := by
  induction pairs generalizing seen with
  | nil => exact clean_nil
  | cons pair pairs ih =>
    obtain ⟨hkey, hval⟩ := h pair List.mem_cons_self
    have hsep : Clean [if seen then amp else mark] := by
      cases seen <;> exact clean_of_all (by decide)
    refine (hsep.append ((hkey.append ((clean_of_all (p := [eqs]) (by decide)).append hval)).append ?_))
    exact ih true fun pair hp => h pair (List.mem_cons_of_mem _ hp)

theorem clean_parsePat (h : parsePat line = some pat) : Clean pat.text := by
  rw [parsePat] at h
  split at h
  · cases h
  · split at h
    · cases h
    · next hok =>
      split at h
      · cases h
      · cases h
        intro c hc
        have hmem : c ∈ line := List.dropWhile_subset _ (List.dropWhile_subset _ hc)
        by_contra hctl
        rw [Bool.not_eq_false] at hctl
        apply hok
        simp only [Bool.or_eq_true]
        exact .inl (List.any_eq_true.mpr ⟨c, hmem, by simp [hctl]⟩)

theorem clean_parse (text : List Byte) : ∀ pat ∈ (lkRouteMapParse text).1, Clean pat.text := by
  rw [lkRouteMapParse]
  generalize min (text.splitOn '\n'.toUInt8).length lkRouteMapMax = slots
  -- the lines read so far left only such patterns
  suffices hrun : ∀ (lines : List (List Byte)) (acc : RouteMap × Nat), (∀ pat ∈ acc.1, Clean pat.text) →
      ∀ pat ∈ (lines.foldl (parseLine slots) acc).1, Clean pat.text from hrun _ ([], 0) nofun
  intro lines
  induction lines with
  | nil => exact fun _ hacc => hacc
  | cons line lines ih =>
    intro acc hacc
    apply ih
    rw [parseLine]
    split
    · exact hacc
    · split
      · next pat hpat =>
        split
        · intro q hq
          rcases List.mem_append.mp hq with hq | hq
          · exact hacc q hq
          · rw [List.mem_singleton.mp hq]
            exact clean_parsePat hpat
        · exact hacc
      · exact hacc

theorem clean_pathText (h : ∀ pat ∈ cfg.map, Clean pat.text) (method path : List Byte) :
    Clean (pathText cfg method path) := by
  rw [pathText]
  cases hfind : mapFind cfg method path with
  | none =>
    dsimp only
    split
    · exact clean_of_all (by decide)
    · exact clean_walkText _ _
  | some pat =>
    rw [mapFind] at hfind
    split at hfind
    · cases hfind
    · exact h pat (List.mem_of_find?_eq_some hfind)

theorem flatten_splitOnP (p : α → Bool) (l : List α) : (l.splitOnP p).flatten = l.filter (!p ·) := by
  induction l with
  | nil => rfl
  | cons a l ih =>
    rw [List.splitOnP_cons_eq_if_modifyHead]
    cases hp : p a with
    | true => simpa [hp] using ih
    | false =>
      obtain ⟨q, qs, hq⟩ := List.exists_cons_of_ne_nil (List.splitOnP_ne_nil p l)
      rw [hq] at ih ⊢
      simpa [hp] using ih

theorem lkNormRoute_congr (hpath : pathOf target = pathOf target')
    (hkeys : ∀ key ∈ cfg.queryKeys, key ≠ [] → queryFind (queryOf target) key = queryFind (queryOf target') key)
    (xxh3 : List Byte → UInt64) (method : List Byte) :
    lkNormRoute xxh3 method target cfg = lkNormRoute xxh3 method target' cfg := by
  have hloop : ∀ (q : List Byte) (rx : RouteCtx),
      (if q = [] then rx else cfg.queryKeys.foldl (queryKeysTo q) rx) = cfg.queryKeys.foldl (queryKeysTo q) rx := by
    intro q rx
    split
    · next hq =>
      rw [hq, List.foldl_fixed']
      intro key
      rw [queryKeysTo]
      split
      · rfl
      · next hkey => rw [queryFind_nil hkey]
    · rfl
  have hsame := List.foldl_ext (queryKeysTo (queryOf target)) (queryKeysTo (queryOf target'))
    (routePath cfg method (pathOf target')) (l := cfg.queryKeys) fun rx key hkey => by
      rw [queryKeysTo, queryKeysTo]
      by_cases hnil : key = []
      · rw [if_pos hnil, if_pos hnil]
      · rw [hkeys key hkey hnil]
  rw [lkNormRoute, lkNormRoute, hpath, hloop, hloop, hsame]

/-- Of the query only the first values of the named keys count, and no control byte is ever in a route. -/
theorem route_private (xxh3 : List Byte → UInt64) (method text : List Byte) (cfg : RouteCfg)
    (hmap : cfg.map = (lkRouteMapParse text).1) (hkeys : ∀ key ∈ cfg.queryKeys, Clean key) :
    (∀ target target', pathOf target = pathOf target' →
      (∀ key ∈ cfg.queryKeys, key ≠ [] → queryFind (queryOf target) key = queryFind (queryOf target') key) →
        lkNormRoute xxh3 method target cfg = lkNormRoute xxh3 method target' cfg) ∧
    (∀ target, Clean (lkNormRoute xxh3 method target cfg).text) ∧
    ∀ route, Clean (lkNormRouteGiven xxh3 method route).text := by
  refine ⟨fun target target' hpath hfind => lkNormRoute_congr hpath hfind xxh3 method, fun target => ?_, fun route => ?_⟩
  · rw [(lkNormRoute_eq xxh3 method target cfg).1]
    refine Clean.mono ?_ fun c hc => List.mem_of_mem_take hc
    apply (clean_pathText (by rw [hmap]; exact clean_parse text) method _).append
    apply clean_pairsText
    intro pair hpair
    obtain ⟨key, hkey, hpair⟩ := List.mem_filterMap.mp hpair
    split at hpair
    · cases hpair
    · obtain ⟨val, _, rfl⟩ := Option.map_eq_some_iff.mp hpair
      exact ⟨hkeys key hkey, clean_queryShown val⟩
  · have hclips := emits_clips start_clips (route.splitOnP isCtl)
    change Clean ((route.splitOnP isCtl).foldl emit {}).text
    rw [hclips.text, flatten_splitOnP]
    refine Clean.mono ?_ fun c hc => List.mem_of_mem_take hc
    intro c hc
    simpa using List.of_mem_filter hc

theorem route_private_debug : Clean (bytesOf "debug") ∧
    lkNormRoute (fun _ => 0) [] (bytesOf "/a?debug=1&x=2") { queryKeys := [bytesOf "debug"] } =
      lkNormRoute (fun _ => 0) [] (bytesOf "/a?y&debug=1") { queryKeys := [bytesOf "debug"] } := by
  have hkey : Clean (bytesOf "debug") := clean_of_all (by decide +kernel)
  refine ⟨hkey, (route_private (fun _ => 0) [] [] { queryKeys := [bytesOf "debug"] } rfl ?_).1 _ _ (by decide +kernel) ?_⟩
  · intro key hk
    rw [List.mem_singleton.mp hk]
    exact hkey
  · intro key hk _
    rw [List.mem_singleton.mp hk]
    decide +kernel

end Latkit.Route
