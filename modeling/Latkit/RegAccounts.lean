import Latkit.RegCells

namespace Latkit

def pool (c : RegCell) (series : List Series) : List (SeriesKey × UInt64) := series.map fun s => (s.key, s.cell c)

theorem pool_cons (c : RegCell) (s : Series) (series : List Series) :
    pool c (s :: series) = (s.key, s.cell c) :: pool c series := rfl

theorem newSeries_on (key : SeriesKey) (now : Nat) : Series.On { key := key, createdNs := now } grid := nofun

theorem seriesUse_pool (now : Nat) (key : SeriesKey) (hkey : ∀ s, (f s).key = s.key)
    (hf : ∀ s, s.key = key → (s = { key := key, createdNs := now } ∨ s ∈ series) → (f s).cell c = s.cell c + a) :
    pool c (seriesUse now key f series) = Pool.credit key a (pool c series) := by
  have hnew : ((key, 0) : SeriesKey × UInt64) =
      (fun s : Series => (s.key, s.cell c)) { key := key, createdNs := now } := by
    cases c with
    | dur c | firstRow c | upload c | size c => cases c <;> rfl
    | rows | bytesIn | bytesOut | tally i => rfl
  rw [pool, pool, seriesUse, Pool.credit, hnew]
  refine Pool.map_upsert (k := key) (fun _ => rfl) rfl ?_
  intro s hs hk
  exact Prod.ext (hkey s) (hf s hk hs)

theorem seriesUse_on (now : Nat) (key : SeriesKey) (hs : SizesOn grid series)
    (hf : ∀ s : Series, s.key = key → s.On grid → (f s).On grid) : SizesOn grid (seriesUse now key f series) := by
  intro s hmem
  rcases Pool.mem_upsert hmem with hmem | ⟨t, ht, hk, rfl⟩
  · exact hs s hmem
  · rcases ht with rfl | ht
    · exact hf _ rfl (newSeries_on key now)
    · rcases hk with hk | rfl
      · exact hf t hk (hs t ht)
      · exact hf _ rfl (newSeries_on key now)

theorem foldSeries_pool (now k : Nat) (c : RegCell) (victims series : List Series)
    (hgrid : c.gridded = true → SizesOn grid victims ∧ SizesOn grid series) :
    pool c (victims.foldl (fun series s => seriesUse now (s.key.heir k) (mergeSeries s) series) series) =
        (pool c victims).foldl (fun xs x => Pool.credit (x.1.heir k) x.2 xs) (pool c series) ∧
      (c.gridded = true → SizesOn grid
        (victims.foldl (fun series s => seriesUse now (s.key.heir k) (mergeSeries s) series) series)) := by
  induction victims generalizing series with
  | nil => exact ⟨rfl, fun h => (hgrid h).2⟩
  | cons s victims ih =>
    have hon (h : c.gridded = true) : SizesOn grid (seriesUse now (s.key.heir k) (mergeSeries s) series) := by
      obtain ⟨hvictims, hseries⟩ := hgrid h
      apply seriesUse_on now _ hseries
      intro dst hk hd
      exact mergeSeries_on (hvictims s (List.mem_cons_self ..)) hd (by rw [hk]; rfl)
    have hpool : pool c (seriesUse now (s.key.heir k) (mergeSeries s) series) =
        Pool.credit (s.key.heir k) (s.cell c) (pool c series) := by
      refine seriesUse_pool (f := mergeSeries s) now _ (fun _ => rfl) ?_
      intro dst hk hmem
      apply mergeSeries_cell
      intro h
      obtain ⟨hvictims, hseries⟩ := hgrid h
      refine ⟨hvictims s (List.mem_cons_self ..), ?_, by rw [hk]; rfl⟩
      rcases hmem with rfl | hmem
      · exact newSeries_on _ _
      · exact hseries dst hmem
    rw [List.foldl_cons, pool_cons, List.foldl_cons, ← hpool]
    exact ih _ fun h => ⟨fun t ht => (hgrid h).1 t (List.mem_cons_of_mem _ ht), hon h⟩

structure SlotsBelow (r : LkRegistry) : Prop where
  lru : ∀ t ∈ r.lru, t < r.k
  free : ∀ t ∈ r.free, t < r.k

/-- All but the dictionary and the series is left out. -/
def LkRegistry.core (r : LkRegistry) : Nat × Bool × List Nat × List Nat × List Series :=
  (r.k, r.firstRow, r.lru, r.free, r.series)

def LkRegistry.kernel (r : LkRegistry) : (Nat × Bool × List Nat × List Nat × List Series) × (Nat → QEntry) × (Nat → UInt64) :=
  (r.core, r.entries, r.door)

theorem internDim_kernel (r : LkRegistry) (db user : List Byte) : (internDim r db user).2.kernel = r.kernel := by
  rw [internDim]
  split
  · rfl
  · split <;> rfl

theorem internProto_kernel (r : LkRegistry) (proto : Option (List Byte)) (prof : LkProfile) :
    (internProto r proto prof).2.kernel = r.kernel := by
  rw [internProto]
  split
  · rfl
  · split <;> rfl

theorem countError_kernel (r : LkRegistry) (pf : RegProfile) (prof : LkProfile) (dim proto : Nat) (o : LkRegObs) :
    (countError r pf prof dim proto o).kernel = r.kernel := by
  rw [countError]
  split
  · rfl
  · next code _ =>
    split
    · have hintern : (internErrCode r prof code).2.kernel = r.kernel := by
        rw [internErrCode]
        split
        · rfl
        · split <;> rfl
      exact hintern
    · rfl

theorem countObs_kernel (r : LkRegistry) (prof : LkProfile) (dim proto : Nat) (o : LkRegObs) :
    (countObs r prof dim proto o).kernel = r.kernel := by
  have hquery : ∀ r pf, (countQuery r pf dim proto o).kernel = r.kernel := by
    intro r pf
    rw [countQuery]
    split <;> rfl
  have htrunc : ∀ r pf, (countTruncated r pf prof o).kernel = r.kernel := by
    intro r pf
    rw [countTruncated]
    split <;> rfl
  have hredirect : ∀ r pf, (countRedirect r pf proto o).kernel = r.kernel := by
    intro r pf
    rw [countRedirect]
    split <;> rfl
  have hdepth : ∀ r pf, (countDepth r pf proto o).kernel = r.kernel := by
    intro r pf
    rw [countDepth]
    split <;> rfl
  simp only [countObs, hdepth, hredirect, countError_kernel, htrunc, hquery]

def obsReady (r : LkRegistry) (o : LkRegObs) : Nat × Nat × LkRegistry :=
  let prof := lkProfile o.profile
  let r := { r with used := Function.update r.used prof true }
  let (dim, r) := obsDim r o
  let (proto, r) := internProto r o.proto prof
  (dim, proto, countObs r prof dim proto o)

theorem obsReady_kernel (r : LkRegistry) (o : LkRegObs) : (obsReady r o).2.2.kernel = r.kernel :=
  (countObs_kernel _ _ _ _ o).trans ((internProto_kernel _ _ _).trans (internDim_kernel _ _ _))

theorem lkRegObserveTxn_kernel (r : LkRegistry) (t : LkRegTxn) : (lkRegObserveTxn r t).kernel = r.kernel :=
  (internProto_kernel _ _ _).trans (internDim_kernel _ _ _)

theorem lkRegObserve_eq (h : o.isInternal = false) (r : LkRegistry) :
    lkRegObserve r o =
      if o.hasSeries then observeSlot (obsReady r o).2.2 (obsReady r o).1 (obsReady r o).2.1 o
      else (obsReady r o).2.2 := by
  rw [lkRegObserve, h]
  rfl

abbrev SeriesGroup := Nat × Nat × LkCode

def SeriesKey.group (key : SeriesKey) : SeriesGroup := (key.dim, key.proto, key.code)

def obsGroup (r : LkRegistry) (o : LkRegObs) : SeriesGroup := ((obsReady r o).1, (obsReady r o).2.1, o.dcode)

def SlotOp (k : Nat) : Pool.Op SeriesKey ℕ → Prop
  | .credit _ _ => True
  | .fold closed heir => heir = SeriesKey.heir k ∧ ∀ key, key.qslot = k → closed key = false

def wrap : ℕ →+ UInt64 where
  toFun := UInt64.ofNat
  map_zero' := rfl
  map_add' := UInt64.ofNat_add

theorem pool_filter (c : RegCell) (q : SeriesKey → Bool) (series : List Series) :
    pool c (series.filter (q ·.key)) = (pool c series).filter (q ·.1) := by
  rw [pool, pool, List.filter_map]
  rfl

theorem evictLru_pool (h : SlotsBelow r) (hlast : r.lru.getLast? = some t) (now : Nat) (c : RegCell)
    (hgrid : c.gridded = true → SizesOn grid r.series) :
    SlotOp r.k (.fold (·.qslot = t) (SeriesKey.heir r.k)) ∧
      pool c (evictLru r now).series = Pool.fold (·.qslot = t) (SeriesKey.heir r.k) (pool c r.series) ∧
      (c.gridded = true → SizesOn grid (evictLru r now).series) := by
  have ht : t < r.k := h.lru t (List.mem_of_getLast? hlast)
  have hsub (hc : c.gridded = true) (q : Series → Bool) : SizesOn grid (r.series.filter q) :=
    fun s hs => hgrid hc s (List.mem_of_mem_filter hs)
  obtain ⟨hpool, hon⟩ := foldSeries_pool now r.k c (r.series.filter (·.key.qslot = t))
    (r.series.filter (·.key.qslot ≠ t)) fun hc => ⟨hsub hc _, hsub hc _⟩
  refine ⟨⟨rfl, ?_⟩, ?_, ?_⟩
  · intro key hkey
    exact decide_eq_false (hkey ▸ Nat.ne_of_gt ht)
  · rw [evictLru, hlast]
    dsimp only
    rw [hpool, Pool.fold, pool_filter c (·.qslot = t)]
    congr 1
    simp only [ne_eq, decide_not]
    exact pool_filter c (fun key => !decide (key.qslot = t)) r.series
  · rw [evictLru, hlast]
    exact hon

theorem admitQuery_below (h : SlotsBelow r) (fp : UInt64) (label op : List Byte) :
    SlotsBelow (admitQuery r fp label op).2 ∧ (admitQuery r fp label op).2.k = r.k ∧
      (admitQuery r fp label op).2.firstRow = r.firstRow ∧ (admitQuery r fp label op).2.series = r.series := by
  rw [admitQuery]
  split
  · exact ⟨h, rfl, rfl, rfl⟩
  · next s free hfree =>
    have hs : s < r.k := h.free s (hfree ▸ List.mem_cons_self ..)
    refine ⟨⟨?_, ?_⟩, rfl, rfl, rfl⟩
    · intro t ht
      rcases List.mem_cons.mp ht with rfl | ht
      · exact hs
      · exact h.lru t ht
    · intro t ht
      exact h.free t (hfree ▸ List.mem_cons_of_mem _ ht)

theorem evictLru_below (h : SlotsBelow r) (now : Nat) :
    SlotsBelow (evictLru r now) ∧ (evictLru r now).k = r.k ∧ (evictLru r now).firstRow = r.firstRow := by
  rw [evictLru]
  split
  · exact ⟨h, rfl, rfl⟩
  · next t hlast =>
    refine ⟨⟨?_, ?_⟩, rfl, rfl⟩
    · intro s hs
      exact h.lru s (List.mem_of_mem_dropLast hs)
    · intro s hs
      rcases List.mem_cons.mp hs with rfl | hs
      · exact h.lru s (List.mem_of_getLast? hlast)
      · exact h.free s hs

/-- What finding the slot of an observation does to the accounts: nothing, or a slot is evicted. -/
structure Resolved (grid : Nat → BhistGrid) (c : RegCell) (r r' : LkRegistry) : Prop where
  below : SlotsBelow r'
  k : r'.k = r.k
  firstRow : r'.firstRow = r.firstRow
  on : c.gridded = true → SizesOn grid r'.series
  ops : r'.series = r.series ∨ ∃ closed, SlotOp r.k (.fold closed (SeriesKey.heir r.k)) ∧
    pool c r'.series = Pool.fold closed (SeriesKey.heir r.k) (pool c r.series)

theorem Resolved.same (h : SlotsBelow r') (hk : r'.k = r.k) (hf : r'.firstRow = r.firstRow)
    (hs : r'.series = r.series) (hgrid : c.gridded = true → SizesOn grid r.series) : Resolved grid c r r' where
  below := h
  k := hk
  firstRow := hf
  on hc := hs ▸ hgrid hc
  ops := .inl hs

theorem evictLru_resolved (h : SlotsBelow r) (now : Nat) (hgrid : c.gridded = true → SizesOn grid r.series) :
    Resolved grid c r (evictLru r now) := by
  obtain ⟨hbelow, hk, hf⟩ := evictLru_below h now
  cases hlast : r.lru.getLast? with
  | none =>
    have hsame : evictLru r now = r := by rw [evictLru, hlast]
    exact .same hbelow hk hf (by rw [hsame]) hgrid
  | some t =>
    obtain ⟨hop, hpool, hon⟩ := evictLru_pool h hlast now c hgrid
    exact ⟨hbelow, hk, hf, hon, .inr ⟨_, hop, hpool⟩⟩

theorem Resolved.admitQuery (h : Resolved grid c r r') (fp : UInt64) (label op : List Byte) :
    Resolved grid c r (admitQuery r' fp label op).2 := by
  obtain ⟨hbelow, hk, hf, hs⟩ := admitQuery_below h.below fp label op
  refine ⟨hbelow, hk.trans h.k, hf.trans h.firstRow, ?_, ?_⟩
  · rw [hs]
    exact h.on
  · rw [hs]
    exact h.ops

theorem resolveQuery_resolved (h : SlotsBelow r) (now : Nat) (fp : UInt64) (label op : List Byte)
    (hgrid : c.gridded = true → SizesOn grid r.series) :
    Resolved grid c r (resolveQuery r now fp label op).2 := by
  have hself : Resolved grid c r r := .same h rfl rfl rfl hgrid
  rw [resolveQuery]
  split
  · next s hfind =>
    refine .same ⟨?_, h.free⟩ rfl rfl rfl hgrid
    intro t ht
    rcases List.mem_cons.mp ht with rfl | ht
    · exact h.lru t (List.mem_of_find?_eq_some hfind)
    · exact h.lru t (List.mem_of_mem_erase ht)
  · split
    · exact hself.admitQuery fp label op
    · dsimp only
      split
      · have hdoor : SlotsBelow { r with door := Function.update r.door (doorIndex (doorKey fp)) 0 } :=
          ⟨h.lru, h.free⟩
        obtain ⟨hbelow, hk, hf, hon, hops⟩ := evictLru_resolved hdoor now hgrid
        have hevict : Resolved grid c r
            (evictLru { r with door := Function.update r.door (doorIndex (doorKey fp)) 0 } now) :=
          ⟨hbelow, hk, hf, hon, hops⟩
        exact hevict.admitQuery fp label op
      · exact .same ⟨h.lru, h.free⟩ rfl rfl rfl hgrid

theorem obsSlot_resolved (h : SlotsBelow r) (o : LkRegObs) (hgrid : c.gridded = true → SizesOn grid r.series) :
    Resolved grid c r (obsSlot r o).2 := by
  rw [obsSlot]
  split
  · split
    · exact .same h rfl rfl rfl hgrid
    · exact resolveQuery_resolved h _ _ _ _ hgrid
  · exact .same h rfl rfl rfl hgrid

def LkRegObs.sized (o : LkRegObs) : Bool :=
  !o.isInternal && (o.hasSize && (profiles (lkProfile o.profile)).has .size)

/-- The grid is that of the protocol the observation is recorded under. -/
def GridStep (grid : Nat → BhistGrid) (r : LkRegistry) : RegCall → Prop
  | .observe o => o.sized = true → (lkProfile o.profile).grid = grid (obsReady r o).2.1
  | .txn _ => True

def callAdds (p : SeriesGroup → Bool) (c : RegCell) (r : LkRegistry) : RegCall → ℕ
  | .observe o => if !o.isInternal && p (obsGroup r o) then obsAdds r.firstRow o c else 0
  | .txn _ => 0

structure RegAccounted (grid : Nat → BhistGrid) (c : RegCell) (r r' : LkRegistry) (adds : (SeriesGroup → Bool) → ℕ) :
    Prop where
  below : SlotsBelow r'
  k : r'.k = r.k
  firstRow : r'.firstRow = r.firstRow
  on : c.gridded = true → SizesOn grid r'.series
  ops : ∃ ops : List (Pool.Op SeriesKey ℕ), (∀ op ∈ ops, SlotOp r.k op) ∧
    pool c r'.series = Pool.run (ops.map (Pool.Op.map wrap)) (pool c r.series) ∧
    ∀ p, (ops.map (Pool.Op.credited fun key => p key.group)).sum = adds p

theorem RegAccounted.idle (h : SlotsBelow r') (hk : r'.k = r.k) (hf : r'.firstRow = r.firstRow)
    (hs : r'.series = r.series) (hgrid : c.gridded = true → SizesOn grid r.series) :
    RegAccounted grid c r r' fun _ => 0 where
  below := h
  k := hk
  firstRow := hf
  on hc := hs ▸ hgrid hc
  ops := ⟨[], nofun, by rw [hs]; rfl, fun _ => rfl⟩

theorem obsAdds_none (h : o.hasSeries = false) (firstRow : Bool) (c : RegCell) : obsAdds firstRow o c = 0 := by
  rw [LkRegObs.hasSeries, Bool.or_eq_false_iff] at h
  rw [obsAdds, h.1]
  cases hprof : lkProfile o.profile with
  | query => cases c <;> simp [untimedAdds, hprof, profiles, queryProfile, RegProfile.has]
  | http | s3 | redis =>
    rw [hprof] at h
    cases h.2

theorem Resolved.record (h : Resolved grid c r r') (o : LkRegObs) (dim proto qslot : Nat)
    (hgrid : c.gridded = true → o.hasSize = true → (profiles (lkProfile o.profile)).has .size = true →
      (lkProfile o.profile).grid = grid proto) :
    RegAccounted grid c r
      { r' with
        series := seriesUse o.now ⟨qslot, dim, proto, o.dcode⟩ (recordSeries r'.firstRow o) r'.series }
      fun p => if p (dim, proto, o.dcode) then obsAdds r.firstRow o c else 0 := by
  have hpool : pool c (seriesUse o.now ⟨qslot, dim, proto, o.dcode⟩ (recordSeries r'.firstRow o) r'.series) =
      Pool.credit ⟨qslot, dim, proto, o.dcode⟩ (wrap (obsAdds r.firstRow o c)) (pool c r'.series) := by
    refine seriesUse_pool (f := recordSeries r'.firstRow o) o.now _ (recordSeries_key _ o) ?_
    intro s hkey hmem
    rw [h.firstRow]
    apply recordSeries_cell
    intro hc hsize hhas
    have hon : s.On grid := by
      rcases hmem with rfl | hmem
      · exact newSeries_on _ _
      · exact h.on hc s hmem
    have hproto : (lkProfile o.profile).grid = grid s.key.proto := by
      rw [hkey]
      exact hgrid hc hsize hhas
    rw [hproto]
    exact seriesSize_spans o hon hproto hhas
  refine ⟨⟨h.below.lru, h.below.free⟩, h.k, h.firstRow, ?_, ?_⟩
  · intro hc
    apply seriesUse_on o.now _ (h.on hc)
    intro s hkey hs
    apply recordSeries_on _ hs
    intro hsize hhas
    rw [hkey]
    exact hgrid hc hsize hhas
  · rcases h.ops with hs | ⟨closed, hop, hfold⟩
    · refine ⟨[.credit ⟨qslot, dim, proto, o.dcode⟩ (obsAdds r.firstRow o c)], ?_, ?_, ?_⟩
      · intro op hop
        rw [List.mem_singleton.mp hop]
        trivial
      · rw [← hs]
        exact hpool
      · intro p
        exact add_zero _
    · refine ⟨[.fold closed (SeriesKey.heir r.k), .credit ⟨qslot, dim, proto, o.dcode⟩ (obsAdds r.firstRow o c)],
        ?_, ?_, ?_⟩
      · intro op hmem
        rcases List.mem_cons.mp hmem with rfl | hmem
        · exact hop
        · rw [List.mem_singleton.mp hmem]
          trivial
      · rw [hfold] at hpool
        exact hpool
      · intro p
        exact (zero_add _).trans (add_zero _)

theorem observeSlot_accounted (h : SlotsBelow r) (o : LkRegObs) (dim proto : Nat)
    (hon : c.gridded = true → SizesOn grid r.series)
    (hgrid : c.gridded = true → o.hasSize = true → (profiles (lkProfile o.profile)).has .size = true →
      (lkProfile o.profile).grid = grid proto) :
    RegAccounted grid c r (observeSlot r dim proto o)
      fun p => if p (dim, proto, o.dcode) then obsAdds r.firstRow o c else 0 := by
  have hrecord := (obsSlot_resolved h o hon).record o dim proto (obsSlot r o).1 hgrid
  rw [observeSlot]
  dsimp only
  split
  · exact ⟨⟨hrecord.below.lru, hrecord.below.free⟩, hrecord.k, hrecord.firstRow, hrecord.on, hrecord.ops⟩
  · exact hrecord

theorem core_series (h : LkRegistry.core r' = LkRegistry.core r) : r'.series = r.series :=
  congrArg (fun core => core.2.2.2.2) h

theorem core_firstRow (h : LkRegistry.core r' = LkRegistry.core r) : r'.firstRow = r.firstRow :=
  congrArg (fun core => core.2.1) h

theorem SlotsBelow.of_core (h : SlotsBelow r) (hcore : r'.core = r.core) : SlotsBelow r' := by
  simp only [LkRegistry.core, Prod.mk.injEq] at hcore
  obtain ⟨hk, -, hlru, hfree, -⟩ := hcore
  refine ⟨?_, ?_⟩
  · rw [hlru, hk]
    exact h.lru
  · rw [hfree, hk]
    exact h.free

theorem RegAccounted.of_core (h : RegAccounted grid c r' r'' adds) (hcore : r'.core = r.core) :
    RegAccounted grid c r r'' adds := by
  simp only [LkRegistry.core, Prod.mk.injEq] at hcore
  obtain ⟨hk, hf, -, -, hs⟩ := hcore
  obtain ⟨ops, hop, hpool, hadds⟩ := h.ops
  exact ⟨h.below, h.k.trans hk, h.firstRow.trans hf, h.on, ops, hk ▸ hop, hs ▸ hpool, hadds⟩

theorem lkRegObserve_accounted (h : SlotsBelow r) (o : LkRegObs)
    (hon : c.gridded = true → SizesOn grid r.series)
    (hgrid : c.gridded = true → GridStep grid r (.observe o)) :
    RegAccounted grid c r (lkRegObserve r o) fun p => callAdds p c r (.observe o) := by
  cases hint : o.isInternal with
  | true =>
    have hzero : (fun p => callAdds p c r (.observe o)) = fun _ => 0 := by
      funext p
      rw [callAdds, hint]
      rfl
    rw [lkRegObserve, hint, hzero]
    exact .idle ⟨h.lru, h.free⟩ rfl rfl rfl hon
  | false =>
    have hcore := congrArg Prod.fst (obsReady_kernel r o)
    have hready := h.of_core hcore
    have hs := core_series hcore
    rw [lkRegObserve_eq hint]
    simp only [callAdds, hint, Bool.not_false, Bool.true_and]
    rw [← core_firstRow hcore]
    split
    · apply RegAccounted.of_core _ hcore
      apply observeSlot_accounted hready
      · rw [hs]
        exact hon
      · intro hc hsize hhas
        apply hgrid hc
        simp [LkRegObs.sized, hint, hsize, hhas]
    · next hseries =>
      rw [Bool.not_eq_true] at hseries
      simp only [obsAdds_none hseries, ite_self]
      apply RegAccounted.of_core _ hcore
      exact .idle hready rfl rfl rfl (hs ▸ hon)

theorem regStep_accounted (h : SlotsBelow r) (call : RegCall)
    (hon : c.gridded = true → SizesOn grid r.series) (hgrid : c.gridded = true → GridStep grid r call) :
    RegAccounted grid c r (regStep r call) fun p => callAdds p c r call := by
  cases call with
  | observe o => exact lkRegObserve_accounted h o hon hgrid
  | txn t =>
    have hcore := congrArg Prod.fst (lkRegObserveTxn_kernel r t)
    apply RegAccounted.of_core _ hcore
    refine .idle (h.of_core hcore) rfl rfl rfl ?_
    rw [core_series hcore]
    exact hon

end Latkit
