import Latkit.Registry

namespace Latkit

/-! The accumulators of a series, and what an observation adds to each. -/

inductive RegCell where
  | dur (c : HistCell)
  | firstRow (c : HistCell)
  | upload (c : HistCell)
  | rows
  | bytesIn
  | bytesOut
  | tally (i : Fin lkNSclasses)
  | size (c : BhistCell)
  deriving DecidableEq, Repr

def Series.cell (s : Series) : RegCell → UInt64
  | .dur c => s.dur.cell c
  | .firstRow c => (s.firstRow.getD {}).cell c
  | .upload c => (s.upload.getD {}).cell c
  | .rows => s.rows
  | .bytesIn => s.bytesIn
  | .bytesOut => s.bytesOut
  | .tally i => s.tally i
  | .size c => (s.size.getD {}).cell c

def RegCell.gridded : RegCell → Bool
  | .size (.bucket _) => true
  | .size .overflow => true
  | _ => false

def untimedAdds (o : LkRegObs) : RegCell → Nat
  | .firstRow c =>
    if o.hasBlock && (profiles (lkProfile o.profile)).has .blocking then histAdds o.blockSeconds c else 0
  | .bytesIn => if (profiles (lkProfile o.profile)).has .bytes then o.bytesIn.toNat else 0
  | .bytesOut => if (profiles (lkProfile o.profile)).has .bytes then o.bytesOut.toNat else 0
  | .tally i =>
    if (profiles (lkProfile o.profile)).has .total ∧ tallyIndex (profiles (lkProfile o.profile)) o = i then 1 else 0
  | .size c =>
    if o.hasSize && (profiles (lkProfile o.profile)).has .size then
      bhistAdds (lkProfile o.profile).grid o.sizeBytes c
    else 0
  | _ => 0

def timedAdds (firstRow : Bool) (o : LkRegObs) : RegCell → Nat
  | .dur c => histAdds o.durSeconds c
  | .rows => o.rows.toNat
  | .firstRow c =>
    if o.hasFirstRow && ((profiles (lkProfile o.profile)).has .ttfb ||
        (firstRow && (profiles (lkProfile o.profile)).has .firstRow)) then
      histAdds o.firstRowSeconds c
    else 0
  | .upload c =>
    if o.hasUpload && (profiles (lkProfile o.profile)).has .upload then histAdds o.uploadSeconds c else 0
  | _ => 0

def obsAdds (firstRow : Bool) (o : LkRegObs) (c : RegCell) : Nat :=
  untimedAdds o c + if o.hasDuration then timedAdds firstRow o c else 0

def Series.On (s : Series) (grid : Nat → BhistGrid) : Prop := ∀ h ∈ s.size, h.Spans (grid s.key.proto)

def SizesOn (grid : Nat → BhistGrid) (series : List Series) : Prop := ∀ s ∈ series, s.On grid

theorem seriesSize_spans (o : LkRegObs) (hs : s.On grid)
    (hgrid : (lkProfile o.profile).grid = grid s.key.proto) (hsize : (profiles (lkProfile o.profile)).has .size = true) :
    (seriesSize s (profiles (lkProfile o.profile))).Spans (grid s.key.proto) := by
  rw [seriesSize]
  cases hsz : s.size with
  | some h => exact hs h hsz
  | none =>
    rw [← hgrid, Option.getD_none]
    cases hprof : lkProfile o.profile with
    | query =>
      rw [hprof] at hsize
      cases hsize
    | http | s3 | redis => exact ⟨rfl, rfl, fun _ _ => rfl⟩

theorem seriesSize_cell (s : Series) (pf : RegProfile) (c : BhistCell) :
    (seriesSize s pf).cell c = (s.size.getD {}).cell c := by
  rw [seriesSize]
  cases s.size with
  | some h => rfl
  | none =>
    rw [Option.getD_none, Option.getD_none]
    split <;> cases c <;> rfl

theorem observeHist_cell (h : Option LkHist) (v : Float) (c : HistCell) :
    ((observeHist h v).getD {}).cell c = (h.getD {}).cell c + UInt64.ofNat (histAdds v c) :=
  lkHistObserve_cell (h.getD {}) v c

theorem recordUntimed_cell (o : LkRegObs) (c : RegCell)
    (hgrid : c.gridded = true → o.hasSize = true → (profiles (lkProfile o.profile)).has .size = true →
      (seriesSize s (profiles (lkProfile o.profile))).Spans (lkProfile o.profile).grid) :
    (recordUntimed (profiles (lkProfile o.profile)) o s).cell c = s.cell c + UInt64.ofNat (untimedAdds o c) := by
  cases c with
  | dur c | upload c | rows => exact (add_zero _).symm
  | firstRow c =>
    simp only [recordUntimed, Series.cell, untimedAdds]
    split
    · exact observeHist_cell _ _ c
    · exact (add_zero _).symm
  | bytesIn | bytesOut =>
    simp only [recordUntimed, Series.cell, untimedAdds]
    split
    · rw [UInt64.ofNat_toNat]
    · exact (add_zero _).symm
  | tally i =>
    simp only [recordUntimed, Series.cell, untimedAdds]
    by_cases htotal : (profiles (lkProfile o.profile)).has .total = true
    · rw [if_pos htotal]
      by_cases hi : tallyIndex (profiles (lkProfile o.profile)) o = i
      · simp [htotal, hi]
      · rw [Function.update_of_ne (Ne.symm hi), if_neg fun h => hi h.2]
        exact (add_zero _).symm
    · rw [if_neg htotal, if_neg fun h => htotal h.1]
      exact (add_zero _).symm
  | size c =>
    simp only [recordUntimed, Series.cell, untimedAdds]
    split
    · next hsz =>
      rw [Bool.and_eq_true] at hsz
      rw [← seriesSize_cell s (profiles (lkProfile o.profile)) c, Option.getD_some]
      cases c with
      | bucket i => exact ((hgrid rfl hsz.1 hsz.2).observe o.sizeBytes).2 _
      | overflow => exact ((hgrid rfl hsz.1 hsz.2).observe o.sizeBytes).2 _
      | count => exact lkBhistObserve_count _ _
    · exact (add_zero _).symm

theorem recordTimed_cell (firstRow : Bool) (o : LkRegObs) (s : Series) (c : RegCell) :
    (recordTimed firstRow (profiles (lkProfile o.profile)) o s).cell c =
      s.cell c + UInt64.ofNat (timedAdds firstRow o c) := by
  cases c with
  | dur c => exact lkHistObserve_cell _ _ c
  | rows => exact congrArg (s.rows + ·) (UInt64.ofNat_toNat).symm
  | firstRow c | upload c =>
    simp only [recordTimed, Series.cell, timedAdds]
    split
    · exact observeHist_cell _ _ c
    · exact (add_zero _).symm
  | bytesIn | bytesOut | tally i | size c => exact (add_zero _).symm

theorem recordSeries_cell (firstRow : Bool) (o : LkRegObs) (c : RegCell)
    (hgrid : c.gridded = true → o.hasSize = true → (profiles (lkProfile o.profile)).has .size = true →
      (seriesSize s (profiles (lkProfile o.profile))).Spans (lkProfile o.profile).grid) :
    (recordSeries firstRow o s).cell c = s.cell c + UInt64.ofNat (obsAdds firstRow o c) := by
  have huntimed := recordUntimed_cell o c hgrid
  rw [recordSeries, obsAdds]
  split
  · rw [recordTimed_cell, huntimed, UInt64.ofNat_add, add_assoc]
  · exact huntimed

theorem recordSeries_key (firstRow : Bool) (o : LkRegObs) (s : Series) : (recordSeries firstRow o s).key = s.key := by
  rw [recordSeries]
  split <;> rfl

theorem recordSeries_size (firstRow : Bool) (o : LkRegObs) (s : Series) :
    (recordSeries firstRow o s).size = (recordUntimed (profiles (lkProfile o.profile)) o s).size := by
  rw [recordSeries]
  split <;> rfl

theorem recordSeries_on (firstRow : Bool) (hs : s.On grid)
    (hgrid : o.hasSize = true → (profiles (lkProfile o.profile)).has .size = true →
      (lkProfile o.profile).grid = grid s.key.proto) :
    (recordSeries firstRow o s).On grid := by
  intro h hh
  rw [recordSeries_key]
  rw [recordSeries_size, recordUntimed] at hh
  dsimp only at hh
  split at hh
  · next hsz =>
    rw [Bool.and_eq_true] at hsz
    rw [← Option.some.inj hh]
    exact ((seriesSize_spans o hs (hgrid hsz.1 hsz.2) hsz.2).observe o.sizeBytes).1
  · exact hs h hh

theorem mergeHist_cell (dst src : Option LkHist) (c : HistCell) :
    ((mergeHist dst src).getD {}).cell c = (dst.getD {}).cell c + (src.getD {}).cell c := by
  cases src with
  | none => cases c <;> exact (add_zero _).symm
  | some h => exact lkHistMerge_cell _ _ c

theorem mergeSize_spans (hd : ∀ h ∈ dst, LkBhist.Spans h g) (hs : ∀ h ∈ src, LkBhist.Spans h g) :
    (∀ h ∈ mergeSize dst src, h.Spans g) ∧
      ∀ c, ((mergeSize dst src).getD {}).cell c = (dst.getD {}).cell c + (src.getD {}).cell c := by
  cases src with
  | none =>
    refine ⟨hd, ?_⟩
    intro c
    cases c <;> exact (add_zero _).symm
  | some h =>
    have hdst : dst.getD {} = {} ∨ (dst.getD {}).Spans g := by
      cases dst with
      | none => exact .inl rfl
      | some d => exact .inr (hd d rfl)
    have hmerge := LkBhist.Spans.merge hdst (hs h rfl)
    refine ⟨?_, hmerge.2⟩
    intro h' hh'
    rw [← Option.some.inj hh']
    exact hmerge.1

theorem mergeSize_count (dst src : Option LkBhist) :
    ((mergeSize dst src).getD {}).count = (dst.getD {}).count + (src.getD {}).count := by
  cases src with
  | none => exact (add_zero _).symm
  | some h =>
    have hadopt := bhistAdopt_cell (dst.getD {}) h .count
    exact congrArg (· + h.count) hadopt

theorem mergeSeries_cell (s dst : Series) (c : RegCell)
    (hgrid : c.gridded = true → s.On grid ∧ dst.On grid ∧ s.key.proto = dst.key.proto) :
    (mergeSeries s dst).cell c = dst.cell c + s.cell c := by
  cases c with
  | dur c => exact lkHistMerge_cell _ _ c
  | firstRow c | upload c => exact mergeHist_cell _ _ c
  | rows | bytesIn | bytesOut => rfl
  | tally i => exact if_pos i.isLt
  | size c =>
    have hsize (hg : (RegCell.size c).gridded = true) : (mergeSeries s dst).cell (.size c) =
        dst.cell (.size c) + s.cell (.size c) := by
      obtain ⟨hs, hd, hproto⟩ := hgrid hg
      exact (mergeSize_spans hd (hproto ▸ hs)).2 c
    cases c with
    | bucket i => exact hsize rfl
    | overflow => exact hsize rfl
    | count => exact mergeSize_count _ _

theorem mergeSeries_on (hs : s.On grid) (hd : dst.On grid) (hproto : s.key.proto = dst.key.proto) :
    (mergeSeries s dst).On grid :=
  (mergeSize_spans hd (hproto ▸ hs)).1

end Latkit
