import Latkit.PgHandler

namespace Latkit

namespace PgPrepCache

theorem slot_modify (c : PgPrepCache) (i j : Nat) (f : PgPrep → PgPrep) (hj : j < c.e.length) :
    (c.e.modify i f).getD j {} = if j = i then f (c.slot j) else c.slot j := by
  simp only [slot, List.getD_eq_getElem?_getD, List.getElem?_modify, List.getElem?_eq_getElem hj]
  by_cases h : i = j
  · simp [h]
  · simp [h, Ne.symm h]

theorem slot_eq (c : PgPrepCache) (h : i < c.e.length) : c.slot i = c.e[i] := by
  simp [slot, h]

theorem findByName_some {c : PgPrepCache} (h : c.findByName name = some i) :
    i < c.e.length ∧ (c.slot i).used = true ∧ (c.slot i).name = name := by
  rw [findByName, List.findIdx?_eq_some_iff_getElem] at h
  obtain ⟨hi, hp, _⟩ := h
  rw [c.slot_eq hi]
  simp only [Bool.and_eq_true, beq_iff_eq] at hp
  exact ⟨hi, hp⟩

end PgPrepCache

/-- A unit's reference leads to the slot as it was when the unit was bound. -/
def RefOk (prep : Option PgPrepCache) (u : PgUnit) : Prop :=
  ∀ i, u.prepIdx = some i → ∃ cache, prep = some cache ∧ i < cache.e.length ∧
    (cache.slot i).used = true ∧ (cache.slot i).gen = u.prepGen

def PgConn.RefsOk (pc : PgConn) : Prop := pc.ring.Forall (RefOk pc.prep)

/-- What shows of a unit while it is in flight: its text resolved, and neither the pipelining nor the
bytes that a COPY counts. -/
def PgUnit.view (prep : Option PgPrepCache) (u : PgUnit) : PgUnit :=
  { u with
    prepIdx := none
    prepGen := 0
    ownText := fillText prep u
    bytes := 0
    flags := { u.flags with pipelined := false } }

def PgConn.view (pc : PgConn) : Inflight.UnitRing PgUnit := pc.ring.map (PgUnit.view pc.prep)

theorem rescue_reuse {cache : PgPrepCache} {u : PgUnit} (h : RefOk (some cache) u) (slot : Nat)
    (f : PgPrep → PgPrep) {cache' : PgPrepCache} (he : cache'.e = cache.e.modify slot f) :
    RefOk (some cache') (u.rescue slot (cache.slot slot)) ∧
      (u.rescue slot (cache.slot slot)).view (some cache') = u.view (some cache) := by
  have hslot (j : Nat) (hj : j < cache.e.length) (hne : j ≠ slot) : cache'.slot j = cache.slot j := by
    rw [PgPrepCache.slot, he, cache.slot_modify slot j f hj, if_neg hne]
  cases hi : u.prepIdx with
  | none =>
    have hres : u.rescue slot (cache.slot slot) = u := by simp [PgUnit.rescue, hi]
    rw [hres]
    refine ⟨fun i h => ?_, ?_⟩
    · rw [hi] at h
      cases h
    · simp [PgUnit.view, fillText, hi]
  | some i =>
    obtain ⟨_, hc, hlt, hused, hgen⟩ := h i hi
    cases hc
    by_cases hs : i = slot
    · subst hs
      have hres : u.rescue i (cache.slot i) = { u with ownText := (cache.slot i).text, prepIdx := none } := by
        simp [PgUnit.rescue, hi, hgen]
      rw [hres]
      refine ⟨(fun _ h => nomatch h), ?_⟩
      simp [PgUnit.view, fillText, hi, hused, hgen]
    · have hres : u.rescue slot (cache.slot slot) = u := by
        simp [PgUnit.rescue, hi, hs]
      rw [hres]
      have hsame := hslot i hlt hs
      refine ⟨fun j hj => ?_, ?_⟩
      · rw [hi] at hj
        cases hj
        exact ⟨cache', rfl, by rw [he, List.length_modify]; exact hlt, by rw [hsame]; exact hused,
          by rw [hsame]; exact hgen⟩
      · simp [PgUnit.view, fillText, hi, hsame]

theorem touch_slot {cache : PgPrepCache} {u : PgUnit} (h : RefOk (some cache) u) (slot : Nat)
    (lru : UInt64) {cache' : PgPrepCache}
    (he : cache'.e = cache.e.modify slot fun e => { e with lru := lru }) :
    RefOk (some cache') u ∧ u.view (some cache') = u.view (some cache) := by
  cases hi : u.prepIdx with
  | none =>
    refine ⟨fun i h => ?_, ?_⟩
    · rw [hi] at h
      cases h
    · simp [PgUnit.view, fillText, hi]
  | some i =>
    obtain ⟨_, hc, hlt, hused, hgen⟩ := h i hi
    cases hc
    have hslot : cache'.slot i = if i = slot then { cache.slot i with lru := lru } else cache.slot i := by
      rw [PgPrepCache.slot, he, cache.slot_modify slot i _ hlt]
    have hsame : (cache'.slot i).used = (cache.slot i).used ∧ (cache'.slot i).gen = (cache.slot i).gen ∧
        (cache'.slot i).text = (cache.slot i).text := by
      rw [hslot]
      split <;> exact ⟨rfl, rfl, rfl⟩
    refine ⟨fun j hj => ?_, ?_⟩
    · rw [hi] at hj
      cases hj
      exact ⟨cache', rfl, by rw [he, List.length_modify]; exact hlt, hsame.1.trans hused,
        hsame.2.1.trans hgen⟩
    · simp [PgUnit.view, fillText, hi, hsame.1, hsame.2.1, hsame.2.2]

def SlotReuse.Of (prep : Option PgPrepCache) (r : SlotReuse) : Prop :=
  r.before.e = (prep.getD {}).e ∧ ∃ f, r.after.e = r.before.e.modify r.slot f

theorem pickSlot_e (c : PgPrepCache) : c.pickSlot.1.e = c.e := by
  simp only [PgPrepCache.pickSlot]
  split <;> rfl

theorem parseReuse_of {prep : Option PgPrepCache} (h : parseReuse prep m = some r) : r.Of prep := by
  simp only [parseReuse] at h
  split at h
  · cases h
  · cases h
    refine ⟨?_, _, rfl⟩
    split
    · rfl
    · exact pickSlot_e _

theorem closeReuse_of {prep : Option PgPrepCache} (h : closeReuse prep m = some r) : r.Of prep := by
  simp only [closeReuse] at h
  repeat' split at h
  all_goals cases h
  exact ⟨rfl, _, rfl⟩

theorem RefOk.before {prep : Option PgPrepCache} {u : PgUnit} (h : RefOk prep u) {cache : PgPrepCache}
    (he : cache.e = (prep.getD {}).e) :
    RefOk (some cache) u ∧ u.view (some cache) = u.view prep := by
  cases hi : u.prepIdx with
  | none =>
    refine ⟨fun i h => ?_, ?_⟩
    · rw [hi] at h
      cases h
    · simp [PgUnit.view, fillText, hi]
  | some i =>
    obtain ⟨c, rfl, hlt, hused, hgen⟩ := h i hi
    have hslot (j : Nat) : cache.slot j = c.slot j := by
      rw [PgPrepCache.slot, he]
      rfl
    refine ⟨fun j hj => ?_, ?_⟩
    · rw [hi] at hj
      cases hj
      exact ⟨cache, rfl, by rw [he]; exact hlt, by rw [hslot]; exact hused, by rw [hslot]; exact hgen⟩
    · simp [PgUnit.view, fillText, hi, hslot]

theorem reuse_view {pc : PgConn} (h : pc.RefsOk) {r : SlotReuse} (hr : r.Of pc.prep) :
    (pc.reuse r).RefsOk ∧ (pc.reuse r).view = pc.view := by
  obtain ⟨hbefore, f, hafter⟩ := hr
  have hunit (u : PgUnit) (hu : u ∈ pc.ring.all) :
      RefOk (some r.after) (u.rescue r.slot (r.before.slot r.slot)) ∧
        (u.rescue r.slot (r.before.slot r.slot)).view (some r.after) = u.view pc.prep := by
    obtain ⟨href, hview⟩ := (h u hu).before hbefore
    obtain ⟨href', hview'⟩ := rescue_reuse href r.slot f hafter
    exact ⟨href', hview'.trans hview⟩
  constructor
  · intro u hu
    rw [PgConn.reuse, pgQueryRescueRefs, Inflight.UnitRing.all_map, List.mem_map] at hu
    obtain ⟨u₀, hu₀, rfl⟩ := hu
    exact (hunit u₀ hu₀).1
  · exact Inflight.UnitRing.map_map_congr fun u hu => (hunit u hu).2

end Latkit
