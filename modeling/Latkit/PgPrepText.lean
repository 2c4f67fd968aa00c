import Latkit.PgRefs

namespace Latkit

/-- The statement name and the captured query text of a Parse; a Parse whose name was cut has none. -/
def parsed (m : Msg) : Option (List Byte × List Byte) :=
  if m.flags.startup then none
  else
    match feKind m.type, pgWireCstring m.body with
    | .parse, (true, name, w) => some (name, (pgWireCstring w).2.1.take lkMsgBodyMax)
    | _, _ => none

def lastParse (name : List Byte) (seen : List Msg) : Option (List Byte) :=
  seen.foldl (fun last m =>
    match parsed m with
    | some (n, text) => if n = name then some text else last
    | none => last) none

theorem lastParse_snoc (name : List Byte) (seen : List Msg) (m : Msg) :
    lastParse name (seen ++ [m]) =
      match parsed m with
      | some (n, text) => if n = name then some text else lastParse name seen
      | none => lastParse name seen := by
  rw [lastParse, List.foldl_append]
  rfl

/-- Every statement in the cache has a name of its own and the text of the last Parse of that name. -/
structure CacheOk (seen : List Msg) (cache : PgPrepCache) : Prop where
  distinct : ∀ i j, (cache.slot i).used = true → (cache.slot j).used = true →
    (cache.slot i).name = (cache.slot j).name → i = j
  text : ∀ i, (cache.slot i).used = true → lastParse (cache.slot i).name seen = some (cache.slot i).text

theorem slot_of_modify {cache cache' : PgPrepCache} {f : PgPrep → PgPrep}
    (he : cache'.e = cache.e.modify i f) (j : Nat) :
    cache'.slot j = cache.slot j ∧ (j = i → (cache.slot j).used = false) ∨
      j = i ∧ cache'.slot j = f (cache.slot j) := by
  by_cases hj : j < cache.e.length
  · rw [PgPrepCache.slot, he, cache.slot_modify i j f hj]
    by_cases h : j = i
    · exact .inr ⟨h, if_pos h⟩
    · exact .inl ⟨if_neg h, fun hi => absurd hi h⟩
  · refine .inl ?_
    rw [PgPrepCache.slot, PgPrepCache.slot, he]
    simp [List.getD_eq_getElem?_getD, Nat.le_of_not_lt hj]

theorem findByName_none {cache : PgPrepCache} (h : cache.findByName name = none) (j : Nat)
    (hj : (cache.slot j).used = true) : (cache.slot j).name ≠ name := by
  intro hname
  by_cases hlt : j < cache.e.length
  · rw [PgPrepCache.findByName, List.findIdx?_eq_none_iff] at h
    have hno := h _ (List.getElem_mem hlt)
    rw [cache.slot_eq hlt] at hj hname
    simp [hj, hname] at hno
  · simp [PgPrepCache.slot, List.getD_eq_getElem?_getD, Nat.le_of_not_lt hlt] at hj

section
variable {seen : List Msg} {cache cache' : PgPrepCache} {m : Msg}

theorem CacheOk.empty (seen : List Msg) : CacheOk seen {} := by
  have hslot (i : Nat) : (({} : PgPrepCache).slot i).used = false := by
    simp only [PgPrepCache.slot, List.getD_eq_getElem?_getD, List.getElem?_replicate]
    split <;> rfl
  constructor
  · intro i _ hi
    rw [hslot] at hi
    cases hi
  · intro i hi
    rw [hslot] at hi
    cases hi

theorem CacheOk.other (h : CacheOk seen cache) (hm : parsed m = none) : CacheOk (seen ++ [m]) cache := by
  refine ⟨h.distinct, fun i hi => ?_⟩
  rw [lastParse_snoc, hm]
  exact h.text i hi

theorem CacheOk.congr (h : CacheOk seen cache) (he : cache'.e = cache.e) : CacheOk seen cache' := by
  have hslot (i : Nat) : cache'.slot i = cache.slot i := by rw [PgPrepCache.slot, he]; rfl
  constructor
  · intro i j
    rw [hslot, hslot]
    exact h.distinct i j
  · intro i
    rw [hslot]
    exact h.text i

theorem CacheOk.touch (h : CacheOk seen cache) (he : cache'.e = cache.e.modify i fun e => { e with lru }) :
    CacheOk seen cache' := by
  have hslot (j : Nat) : (cache'.slot j).used = (cache.slot j).used ∧
      (cache'.slot j).name = (cache.slot j).name ∧ (cache'.slot j).text = (cache.slot j).text := by
    obtain ⟨hj, _⟩ | ⟨_, hj⟩ := slot_of_modify he j <;> rw [hj] <;> exact ⟨rfl, rfl, rfl⟩
  constructor
  · intro i j
    rw [(hslot i).1, (hslot j).1, (hslot i).2.1, (hslot j).2.1]
    exact h.distinct i j
  · intro i
    rw [(hslot i).1, (hslot i).2.1, (hslot i).2.2]
    exact h.text i

theorem CacheOk.free (h : CacheOk seen cache) (he : cache'.e = cache.e.modify i PgPrepCache.freeSlot) :
    CacheOk seen cache' := by
  have hslot (j : Nat) (hj : (cache'.slot j).used = true) : cache'.slot j = cache.slot j := by
    obtain ⟨hs, _⟩ | ⟨_, hs⟩ := slot_of_modify he j
    · exact hs
    · rw [hs] at hj
      cases hj
  constructor
  · intro i j hi hj
    have hsi := hslot i hi
    have hsj := hslot j hj
    rw [hsi] at hi ⊢
    rw [hsj] at hj ⊢
    exact h.distinct i j hi hj
  · intro i hi
    have hsi := hslot i hi
    rw [hsi] at hi ⊢
    exact h.text i hi

theorem CacheOk.fill (h : CacheOk seen cache) {name query : List Byte}
    (hm : parsed m = some (name, query.take lkMsgBodyMax)) (hfit : name.length ≤ 63)
    (howner : ∀ j, (cache.slot j).used = true → (cache.slot j).name = name → j = i)
    (he : cache'.e = cache.e.modify i (PgPrepCache.fillSlot name query trunc lru)) :
    CacheOk (seen ++ [m]) cache' := by
  have hslot (j : Nat) (hj : (cache'.slot j).used = true) :
      (cache'.slot j = cache.slot j ∧ (cache.slot j).name ≠ name) ∨
        j = i ∧ (cache'.slot j).name = name ∧ (cache'.slot j).text = query.take lkMsgBodyMax := by
    obtain ⟨hs, hfree⟩ | ⟨rfl, hs⟩ := slot_of_modify he j
    · refine .inl ⟨hs, fun hname => ?_⟩
      rw [hs] at hj
      rw [hfree (howner j hj hname)] at hj
      cases hj
    · rw [hs]
      exact .inr ⟨rfl, List.take_of_length_le hfit, rfl⟩
  constructor
  · intro j k hj hk hname
    obtain ⟨hsj, hnj⟩ | ⟨rfl, hnj, _⟩ := hslot j hj
    · obtain ⟨hsk, _⟩ | ⟨_, hnk, _⟩ := hslot k hk
      · rw [hsj] at hj hname
        rw [hsk] at hk hname
        exact h.distinct j k hj hk hname
      · rw [hsj, hnk] at hname
        exact absurd hname hnj
    · obtain ⟨hsk, hnk⟩ | ⟨rfl, _, _⟩ := hslot k hk
      · rw [hnj, hsk] at hname
        exact absurd hname.symm hnk
      · rfl
  · intro j hj
    rw [lastParse_snoc, hm]
    obtain ⟨hsj, hnj⟩ | ⟨_, hnj, htj⟩ := hslot j hj
    · rw [hsj] at hj ⊢
      simp only [if_neg (Ne.symm hnj)]
      exact h.text j hj
    · simp only [hnj, htj, if_true]

theorem CacheOk.parse {prep : Option PgPrepCache} (h : ∀ c, prep = some c → CacheOk seen c)
    (hparse : m.flags.startup = false ∧ feKind m.type = .parse) (hr : parseReuse prep m = some r)
    (hfit : ∀ name text, parsed m = some (name, text) → name.length ≤ 63) :
    CacheOk (seen ++ [m]) r.after := by
  have hcache : CacheOk seen (prep.getD {}) := by
    cases prep with
    | none => exact .empty seen
    | some c => exact h c rfl
  simp only [parseReuse] at hr
  cases hname : (pgWireCstring m.body).1 with
  | false => simp [hname] at hr
  | true =>
    have hparsed : parsed m = some ((pgWireCstring m.body).2.1,
        (pgWireCstring (pgWireCstring m.body).2.2).2.1.take lkMsgBodyMax) := by
      rw [parsed, hparse.2, if_neg (by simp [hparse.1]), ← Prod.eta (pgWireCstring m.body), hname]
    simp only [hname, Bool.not_true, Bool.false_eq_true, if_false, Option.some.injEq] at hr
    subst hr
    cases hfind : (prep.getD {}).findByName (pgWireCstring m.body).2.1 with
    | some slot =>
      refine hcache.fill (i := slot) hparsed (hfit _ _ hparsed) ?_ rfl
      intro j hj hn
      obtain ⟨_, hused, hslot⟩ := PgPrepCache.findByName_some hfind
      exact hcache.distinct j slot hj hused (hn.trans hslot.symm)
    | none =>
      refine (hcache.congr (pickSlot_e _)).fill (i := (prep.getD {}).pickSlot.2.1) hparsed (hfit _ _ hparsed) ?_ rfl
      intro j hj hn
      have hslot : (prep.getD {}).pickSlot.1.slot j = (prep.getD {}).slot j := by
        rw [PgPrepCache.slot, pickSlot_e]
        rfl
      rw [hslot] at hj hn
      exact absurd hn (findByName_none hfind j hj)

theorem CacheOk.close {prep : Option PgPrepCache} (h : ∀ c, prep = some c → CacheOk seen c)
    (hr : closeReuse prep m = some r) : CacheOk seen r.after := by
  simp only [closeReuse] at hr
  repeat' split at hr
  all_goals cases hr
  exact (h _ rfl).free rfl

end

end Latkit
