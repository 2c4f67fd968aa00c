import Latkit.RegAccounts

namespace Latkit

/-! Nothing that is observed is lost when slots are evicted. -/

theorem RegAccounted.trans (h : RegAccounted grid c r r' adds) (h' : RegAccounted grid c r' r'' adds') :
    RegAccounted grid c r r'' fun p => adds p + adds' p := by
  obtain ⟨ops, hop, hpool, hadds⟩ := h.ops
  obtain ⟨ops', hop', hpool', hadds'⟩ := h'.ops
  refine ⟨h'.below, h'.k.trans h.k, h'.firstRow.trans h.firstRow, h'.on, ops ++ ops', ?_, ?_, ?_⟩
  · intro op hmem
    rcases List.mem_append.mp hmem with hmem | hmem
    · exact hop op hmem
    · exact h.k ▸ hop' op hmem
  · rw [hpool', hpool, List.map_append, Pool.run, Pool.run, Pool.run, List.foldl_append]
  · intro p
    rw [List.map_append, List.sum_append, hadds, hadds']

def contributed (p : SeriesGroup → Bool) (c : RegCell) : LkRegistry → List RegCall → ℕ
  | _, [] => 0
  | r, call :: calls => callAdds p c r call + contributed p c (regStep r call) calls

def GridRun (grid : Nat → BhistGrid) : LkRegistry → List RegCall → Prop
  | _, [] => True
  | r, call :: calls => GridStep grid r call ∧ GridRun grid (regStep r call) calls

theorem regRun_accounted (grid : Nat → BhistGrid) (c : RegCell) (h : SlotsBelow r) (calls : List RegCall)
    (hon : c.gridded = true → SizesOn grid r.series) (hgrid : c.gridded = true → GridRun grid r calls) :
    RegAccounted grid c r (regRun r calls) fun p => contributed p c r calls := by
  induction calls generalizing r with
  | nil => exact .idle h rfl rfl rfl hon
  | cons call calls ih =>
    have hstep := regStep_accounted h call hon fun hc => (hgrid hc).1
    exact hstep.trans (ih hstep.below hstep.on fun hc => (hgrid hc).2)

theorem lkRegNew_below (cfg : LkMetricsCfg) : SlotsBelow (lkRegNew cfg) := ⟨nofun, fun _ ht => List.mem_range.mp ht⟩

structure Exact (c : RegCell) (r : LkRegistry) (calls : List RegCall) (xs : List (SeriesKey × ℕ)) : Prop where
  pool : pool c (regRun r calls).series = xs.map (Prod.map id wrap)
  total : ∀ p, Pool.total (fun key => p key.group) xs = contributed p c r calls

theorem SlotOp.within {op : Pool.Op SeriesKey ℕ} (h : SlotOp k op) (p : SeriesGroup → Bool) :
    op.Within fun key => p key.group := by
  cases op with
  | credit key a => trivial
  | fold closed heir =>
    obtain ⟨rfl, -⟩ := h
    exact fun _ => rfl

theorem SlotOp.spares {op : Pool.Op SeriesKey ℕ} (h : SlotOp k op) (hkey : key.qslot = k) : op.Spares key := by
  cases op with
  | credit key a => trivial
  | fold closed heir => exact h.2 key hkey

theorem regRun_append (r : LkRegistry) (calls later : List RegCall) :
    regRun r (calls ++ later) = regRun (regRun r calls) later := List.foldl_append ..

theorem contributed_append (p : SeriesGroup → Bool) (c : RegCell) (r : LkRegistry) (calls later : List RegCall) :
    contributed p c r (calls ++ later) = contributed p c r calls + contributed p c (regRun r calls) later := by
  induction calls generalizing r with
  | nil => exact (zero_add _).symm
  | cons call calls ih =>
    rw [List.cons_append, contributed, contributed, ih, add_assoc]
    rfl

theorem GridRun.append (h : GridRun grid r (calls ++ later)) :
    GridRun grid r calls ∧ GridRun grid (regRun r calls) later := by
  induction calls generalizing r with
  | nil => exact ⟨trivial, h⟩
  | cons call calls ih =>
    obtain ⟨hcalls, hlater⟩ := ih h.2
    exact ⟨⟨h.1, hcalls⟩, hlater⟩

theorem Exact.nil (h : r.series = []) : Exact c r [] [] := ⟨congrArg (Latkit.pool c) h, fun _ => rfl⟩

theorem Exact.later {later : List RegCall} (h : Exact c r calls xs) (hk : (regRun r calls).k = r.k)
    (hrun : RegAccounted grid c (regRun r calls) (regRun r (calls ++ later))
      fun p => contributed p c (regRun r calls) later) :
    ∃ ys, Exact c r (calls ++ later) ys ∧ ∀ key, key.qslot = r.k → Pool.held key xs ≤ Pool.held key ys := by
  obtain ⟨ops, hop, hpool, hadds⟩ := hrun.ops
  refine ⟨Pool.run ops xs, ⟨?_, ?_⟩, ?_⟩
  · rw [hpool, h.pool, Pool.map_run]
  · intro p
    rw [Pool.total_run fun op hmem => (hop op hmem).within p, h.total, hadds, contributed_append]
  · intro key hkey
    exact Pool.held_le_run (fun op hmem => (hop op hmem).spares (hkey.trans hk.symm)) xs

theorem exact_amounts (grid : Nat → BhistGrid) (c : RegCell) (cfg : LkMetricsCfg) (calls later : List RegCall)
    (hgrid : c.gridded = true → GridRun grid (lkRegNew cfg) (calls ++ later)) :
    ∃ xs ys, Exact c (lkRegNew cfg) calls xs ∧ Exact c (lkRegNew cfg) (calls ++ later) ys ∧
      (regRun (lkRegNew cfg) calls).k = (lkRegNew cfg).k ∧
      (regRun (lkRegNew cfg) (calls ++ later)).k = (lkRegNew cfg).k ∧
      ∀ key, key.qslot = (lkRegNew cfg).k → Pool.held key xs ≤ Pool.held key ys := by
  have hrun := regRun_accounted grid c (lkRegNew_below cfg) calls (fun _ => nofun) fun hc => (hgrid hc).append.1
  have hlater := regRun_accounted grid c hrun.below later hrun.on fun hc => (hgrid hc).append.2
  rw [← regRun_append] at hlater
  obtain ⟨xs, hxs, -⟩ := (Exact.nil rfl).later rfl hrun
  obtain ⟨ys, hys, hle⟩ := hxs.later hrun.k hlater
  exact ⟨xs, ys, hxs, hys, hrun.k, hlater.k.trans hrun.k, hle⟩

def groupSum (g : SeriesGroup) (c : RegCell) (r : LkRegistry) : UInt64 :=
  ((r.series.filter (·.key.group = g)).map (·.cell c)).sum

def otherKey (r : LkRegistry) (g : SeriesGroup) : SeriesKey := ⟨r.k, g.1, g.2.1, g.2.2⟩

def otherCell (g : SeriesGroup) (c : RegCell) (r : LkRegistry) : UInt64 :=
  ((r.series.find? (·.key = otherKey r g)).map (·.cell c)).getD 0

def lkRegSeriesCountSum (r : LkRegistry) : UInt64 := (r.series.map (·.dur.count)).sum

def RegCall.timed : RegCall → Bool
  | .observe o => !o.isInternal && o.hasDuration
  | .txn _ => false

theorem groupSum_eq (g : SeriesGroup) (c : RegCell) (r : LkRegistry) :
    groupSum g c r = Pool.total (fun key => decide (key.group = g)) (pool c r.series) := by
  rw [groupSum, Pool.total, ← pool_filter c fun key => decide (key.group = g), pool, List.map_map]
  rfl

theorem otherCell_eq (g : SeriesGroup) (c : RegCell) (r : LkRegistry) :
    otherCell g c r = Pool.held (otherKey r g) (pool c r.series) := by
  rw [otherCell, Pool.held, pool, List.find?_map, Option.map_map]
  rfl

theorem countSum_eq (r : LkRegistry) :
    lkRegSeriesCountSum r = Pool.total (fun _ => true) (pool (.dur .count) r.series) := by
  rw [lkRegSeriesCountSum, Pool.total, List.filter_true, pool, List.map_map]
  rfl

theorem contributed_timed (r : LkRegistry) (calls : List RegCall) :
    contributed (fun _ => true) (.dur .count) r calls = calls.countP RegCall.timed := by
  induction calls generalizing r with
  | nil => rfl
  | cons call calls ih =>
    rw [contributed, ih, List.countP_cons, add_comm]
    congr 1
    cases call with
    | txn t => rfl
    | observe o =>
      have hadds : obsAdds r.firstRow o (.dur .count) = if o.hasDuration then 1 else 0 := zero_add _
      rw [callAdds, RegCall.timed, hadds, Bool.and_true]
      cases o.isInternal <;> cases o.hasDuration <;> rfl

/-- Whatever is evicted, the slots together hold what was observed, and `other` never loses anything
as long as the counters do not wrap. -/
theorem registry_conservation (cfg : LkMetricsCfg) (before later : List RegCall) (g : SeriesGroup) (c : RegCell)
    (grid : Nat → BhistGrid) (hgrid : c.gridded = true → GridRun grid (lkRegNew cfg) (before ++ later)) :
    groupSum g c (regRun (lkRegNew cfg) (before ++ later)) =
        UInt64.ofNat (contributed (· = g) c (lkRegNew cfg) (before ++ later)) ∧
      (contributed (· = g) c (lkRegNew cfg) (before ++ later) < 2 ^ 64 →
        otherCell g c (regRun (lkRegNew cfg) before) ≤ otherCell g c (regRun (lkRegNew cfg) (before ++ later))) ∧
      lkRegSeriesCountSum (regRun (lkRegNew cfg) (before ++ later)) =
        UInt64.ofNat ((before ++ later).countP RegCall.timed) := by
  obtain ⟨xs, ys, hxs, hys, hk, hk', hle⟩ := exact_amounts grid c cfg before later hgrid
  refine ⟨?_, ?_, ?_⟩
  · rw [groupSum_eq, hys.pool, Pool.total_map, hys.total (· = g)]
    rfl
  · intro hlt
    have hother : ∀ r : LkRegistry, r.k = (lkRegNew cfg).k → otherKey r g = otherKey (lkRegNew cfg) g := by
      intro r hr
      rw [otherKey, hr]
      rfl
    have hbound : Pool.held (otherKey (lkRegNew cfg) g) ys < 2 ^ 64 := by
      apply Nat.lt_of_le_of_lt _ hlt
      rw [← hys.total (· = g)]
      have hgroup : decide ((otherKey (lkRegNew cfg) g).group = g) = true := decide_eq_true rfl
      exact Pool.held_le_total (p := fun key => decide (key.group = g)) hgroup ys
    have hgrow := hle (otherKey (lkRegNew cfg) g) rfl
    rw [otherCell_eq, otherCell_eq, hother _ hk, hother _ hk', hxs.pool, hys.pool, Pool.held_map, Pool.held_map,
      UInt64.le_iff_toNat_le]
    have hwrap : ∀ n : ℕ, n < 2 ^ 64 → (wrap n).toNat = n := fun n hn => UInt64.toNat_ofNat_of_lt hn
    rw [hwrap _ hbound, hwrap _ (Nat.lt_of_le_of_lt hgrow hbound)]
    exact hgrow
  · obtain ⟨-, zs, -, hzs, -⟩ := exact_amounts grid (.dur .count) cfg before later nofun
    rw [countSum_eq, hzs.pool, Pool.total_map, hzs.total fun _ => true, contributed_timed]
    rfl

def webObs (fp : UInt64) : LkRegObs :=
  { fp := fp, label := some (bytesOf "/"), proto := some (bytesOf "http"), profile := 1, hasDuration := true,
    hasSize := true, sizeBytes := 100 }

/-- The third observation evicts the slot of the first. -/
theorem registry_conservation_evicted :
    let r := regRun (lkRegNew { topQueries := 1 }) [.observe (webObs 1), .observe (webObs 2), .observe (webObs 2)]
    groupSum (0, 0, .ok) (.size (.bucket 1)) r = 3 ∧
      otherCell (0, 0, .ok) (.size (.bucket 1)) (regRun (lkRegNew { topQueries := 1 }) [.observe (webObs 1)]) ≤
        otherCell (0, 0, .ok) (.size (.bucket 1)) r ∧
      lkRegSeriesCountSum r = 3 := by
  have hcontributed : contributed (· = ((0, 0, .ok) : SeriesGroup)) (.size (.bucket 1))
      (lkRegNew { topQueries := 1 }) [.observe (webObs 1), .observe (webObs 2), .observe (webObs 2)] = 3 := by
    decide +kernel
  have hrun := registry_conservation { topQueries := 1 } [.observe (webObs 1)]
    [.observe (webObs 2), .observe (webObs 2)] (0, 0, .ok) (.size (.bucket 1)) (fun _ => LkProfile.grid .http)
    fun _ => ⟨fun _ => rfl, fun _ => rfl, fun _ => rfl, trivial⟩
  obtain ⟨hsum, hother, hcount⟩ := hrun
  rw [List.singleton_append] at hsum hother hcount
  rw [hcontributed] at hsum hother
  exact ⟨hsum, hother (by decide), hcount⟩

def objectObs : LkRegObs := { webObs 1 with profile := 2, sizeBytes := 1099511627776 }

def valueObs : LkRegObs := { webObs 2 with profile := 3 }

def bytesObs (n : UInt64) : LkRegObs := { profile := 1, bytesIn := n }

/-- An internal request with a duration is in no series. Sizes of one protocol on two grids are lost when
they are merged. A counter of 64 bits starts again. -/
theorem registry_conservation_fails :
    lkRegSeriesCountSum
        (regRun (lkRegNew {}) [.observe { profile := 2, internal := true, hasDuration := true }]) = 0 ∧
      contributed (· = ((0, 0, .ok) : SeriesGroup)) (.size (.bucket 30)) (lkRegNew { topQueries := 1 })
        [.observe objectObs, .observe valueObs, .observe valueObs] = 1 ∧
      groupSum (0, 0, .ok) (.size (.bucket 30)) (regRun (lkRegNew { topQueries := 1 })
        [.observe objectObs, .observe valueObs, .observe valueObs]) = 0 ∧
      otherCell (0, 0, .ok) .bytesIn (regRun (lkRegNew {}) [.observe (bytesObs 18446744073709551615)]) = 18446744073709551615 ∧
      otherCell (0, 0, .ok) .bytesIn
        (regRun (lkRegNew {}) [.observe (bytesObs 18446744073709551615), .observe (bytesObs 1)]) = 0 := by
  decide +kernel

end Latkit
