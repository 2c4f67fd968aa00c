import Mathlib

namespace Latkit

/-! The latency histogram on its quarter-octave grid, and the octave histogram of sizes. -/

def lkHistMinIndex : Int := -53
def lkHistMaxIndex : Int := 24
def lkHistNbuckets : Nat := 77

def frexp (v : Float) : Float × Int :=
  let bits : Nat := v.toBits.toNat
  let frac : Nat := bits % 2 ^ 52
  let exp : Nat := bits / 2 ^ 52 % 2 ^ 11
  if exp = 0 then
    (Float.ofBits (UInt64.ofNat (1021 * 2 ^ 52 + frac * 2 ^ (53 - frac.size))), (frac.size : Int) - 1074)
  else (Float.ofBits (UInt64.ofNat (1022 * 2 ^ 52 + frac)), (exp : Int) - 1022)

def lkHistIndex (v : Float) : Int :=
  let (m, e) := frexp v
  let sub : Int :=
    if 0.8408964152537145 ≤ m then -1
    else if 0.7071067811865476 ≤ m then -2
    else if 0.5946035575013605 ≤ m then -3
    else -4
  4 * e + sub

structure LkHist where
  bucket : Fin lkHistNbuckets → UInt64 := fun _ => 0
  underflow : UInt64 := 0
  overflow : UInt64 := 0
  nonpos : UInt64 := 0
  sum : Float := 0
  count : UInt64 := 0

def lkHistObserve (h : LkHist) (v : Float) : LkHist :=
  let h := { h with count := h.count + 1 }
  if v.isNaN ∨ v ≤ 0 then { h with nonpos := h.nonpos + 1, underflow := h.underflow + 1 }
  else if v.isInf then { h with overflow := h.overflow + 1 }
  else
    let h := { h with sum := h.sum + v }
    let idx := lkHistIndex v
    if hlow : idx < lkHistMinIndex then { h with underflow := h.underflow + 1 }
    else if hhigh : lkHistMaxIndex ≤ idx then { h with overflow := h.overflow + 1 }
    else
      let i : Fin lkHistNbuckets := ⟨(idx - lkHistMinIndex).toNat, by
        simp only [lkHistMinIndex, lkHistMaxIndex, lkHistNbuckets] at *
        omega⟩
      { h with bucket := Function.update h.bucket i (h.bucket i + 1) }

def lkHistMerge (dst src : LkHist) : LkHist where
  bucket i := dst.bucket i + src.bucket i
  underflow := dst.underflow + src.underflow
  overflow := dst.overflow + src.overflow
  nonpos := dst.nonpos + src.nonpos
  sum := dst.sum + src.sum
  count := dst.count + src.count

inductive HistCell where
  | bucket (i : Fin lkHistNbuckets)
  | underflow
  | overflow
  | nonpos
  | count
  deriving DecidableEq, Repr

def LkHist.cell (h : LkHist) : HistCell → UInt64
  | .bucket i => h.bucket i
  | .underflow => h.underflow
  | .overflow => h.overflow
  | .nonpos => h.nonpos
  | .count => h.count

def histPlace (v : Float) : HistCell :=
  if v.isNaN ∨ v ≤ 0 then .underflow
  else if v.isInf then .overflow
  else if hlow : lkHistIndex v < lkHistMinIndex then .underflow
  else if hhigh : lkHistMaxIndex ≤ lkHistIndex v then .overflow
  else .bucket ⟨(lkHistIndex v - lkHistMinIndex).toNat, by
    simp only [lkHistMinIndex, lkHistMaxIndex, lkHistNbuckets] at *
    omega⟩

def histAdds (v : Float) : HistCell → Nat
  | .count => 1
  | .nonpos => if v.isNaN ∨ v ≤ 0 then 1 else 0
  | c => if histPlace v = c then 1 else 0

theorem lkHistObserve_cell (h : LkHist) (v : Float) (c : HistCell) :
    (lkHistObserve h v).cell c = h.cell c + UInt64.ofNat (histAdds v c) := by
  simp only [lkHistObserve, histAdds, histPlace]
  split
  · cases c <;> simp [LkHist.cell]
  · split
    · cases c <;> simp [LkHist.cell]
    · split
      · cases c <;> simp [LkHist.cell]
      · split
        · cases c <;> simp [LkHist.cell]
        · cases c with
          | bucket i =>
            by_cases hi : i = ⟨(lkHistIndex v - lkHistMinIndex).toNat, by
              simp only [lkHistMinIndex, lkHistMaxIndex, lkHistNbuckets] at *
              omega⟩
            · subst hi
              simp [LkHist.cell]
            · simp [LkHist.cell, Function.update_of_ne hi, Ne.symm hi]
          | underflow | overflow | nonpos | count => simp [LkHist.cell]

theorem lkHistMerge_cell (dst src : LkHist) (c : HistCell) :
    (lkHistMerge dst src).cell c = dst.cell c + src.cell c := by
  cases c <;> rfl

/-! The size histogram carries its own grid: bucket `i` reaches up to `2 ^ (min + i)`. -/

def lkBhistMinLog2 : Nat := 6
def lkBhistNbucketsDefault : Nat := 25
def lkOhistMinLog2 : Nat := 10
def lkOhistNbuckets : Nat := 31
def lkVhistMinLog2 : Nat := 3
def lkVhistNbuckets : Nat := 21
def lkDhistMinLog2 : Nat := 0
def lkDhistNbuckets : Nat := 9
def lkBhistMaxNbuckets : Nat := lkOhistNbuckets

structure LkBhist where
  minLog2 : Nat := 0
  nbuckets : Nat := 0
  bucket : Nat → UInt64 := fun _ => 0
  overflow : UInt64 := 0
  sum : Float := 0
  count : UInt64 := 0

def lkBhistInit (h : LkBhist) (minLog2 nbuckets : Nat) : LkBhist :=
  { h with
    minLog2 := minLog2 % 2 ^ 8
    nbuckets := if nbuckets ≤ lkBhistMaxNbuckets then nbuckets else lkBhistMaxNbuckets }

def lkBhistNbuckets (h : LkBhist) : Nat := if h.nbuckets ≠ 0 then h.nbuckets else lkBhistNbucketsDefault

def bhMinLog2 (h : LkBhist) : Nat := if h.nbuckets ≠ 0 then h.minLog2 else lkBhistMinLog2

def bhistBucket (min n : Nat) (bytes : UInt64) : Option Nat :=
  (List.range n).find? fun i => bytes.toNat ≤ 2 ^ (min + i)

def lkBhistObserve (h : LkBhist) (bytes : UInt64) : LkBhist :=
  let h := { h with count := h.count + 1, sum := h.sum + bytes.toFloat }
  match bhistBucket (bhMinLog2 h) (lkBhistNbuckets h) bytes with
  | none => { h with overflow := h.overflow + 1 }
  | some i => { h with bucket := Function.update h.bucket i (h.bucket i + 1) }

def bhistAdopt (dst src : LkBhist) : LkBhist :=
  if dst.nbuckets = 0 then lkBhistInit dst (bhMinLog2 src) (lkBhistNbuckets src) else dst

def lkBhistMerge (dst src : LkBhist) : LkBhist :=
  let dst := bhistAdopt dst src
  { dst with
    bucket := fun i => if i < lkBhistNbuckets dst then dst.bucket i + src.bucket i else dst.bucket i
    overflow := dst.overflow + src.overflow
    sum := dst.sum + src.sum
    count := dst.count + src.count }

inductive BhistCell where
  | bucket (i : Nat)
  | overflow
  | count
  deriving DecidableEq, Repr

def LkBhist.cell (h : LkBhist) : BhistCell → UInt64
  | .bucket i => h.bucket i
  | .overflow => h.overflow
  | .count => h.count

structure BhistGrid where
  minLog2 : Nat
  nbuckets : Nat
  min_lt : minLog2 < 2 ^ 8
  pos : 0 < nbuckets
  le_max : nbuckets ≤ lkBhistMaxNbuckets

def defaultGrid : BhistGrid where
  minLog2 := lkBhistMinLog2
  nbuckets := lkBhistNbucketsDefault
  min_lt := by decide
  pos := by decide
  le_max := by decide

def bhistAdds (g : BhistGrid) (bytes : UInt64) : BhistCell → Nat
  | .count => 1
  | .overflow => if bhistBucket g.minLog2 g.nbuckets bytes = none then 1 else 0
  | .bucket i => if bhistBucket g.minLog2 g.nbuckets bytes = some i then 1 else 0

structure LkBhist.Spans (h : LkBhist) (g : BhistGrid) : Prop where
  min : bhMinLog2 h = g.minLog2
  nbuckets : lkBhistNbuckets h = g.nbuckets
  outside : ∀ i, g.nbuckets ≤ i → h.bucket i = 0

theorem lkBhistObserve_count (h : LkBhist) (bytes : UInt64) : (lkBhistObserve h bytes).count = h.count + 1 := by
  rw [lkBhistObserve]
  dsimp only
  split <;> rfl

theorem bhistBucket_lt (h : bhistBucket lo n bytes = some i) : i < n :=
  List.mem_range.mp (List.mem_of_find?_eq_some h)

theorem LkBhist.Spans.observe {h : LkBhist} (hs : h.Spans g) (bytes : UInt64) :
    (lkBhistObserve h bytes).Spans g ∧
      ∀ c, (lkBhistObserve h bytes).cell c = h.cell c + UInt64.ofNat (bhistAdds g bytes c) := by
  have hplace : bhistBucket (bhMinLog2 { h with count := h.count + 1, sum := h.sum + bytes.toFloat })
      (lkBhistNbuckets { h with count := h.count + 1, sum := h.sum + bytes.toFloat }) bytes =
        bhistBucket g.minLog2 g.nbuckets bytes := by
    rw [← hs.min, ← hs.nbuckets]
    rfl
  rw [lkBhistObserve]
  dsimp only
  rw [hplace]
  cases hb : bhistBucket g.minLog2 g.nbuckets bytes with
  | none =>
    refine ⟨⟨hs.min, hs.nbuckets, hs.outside⟩, ?_⟩
    intro c
    cases c <;> simp [LkBhist.cell, bhistAdds, hb]
  | some i =>
    refine ⟨⟨hs.min, hs.nbuckets, ?_⟩, ?_⟩
    · intro j hj
      have hne : j ≠ i := Nat.ne_of_gt (Nat.lt_of_lt_of_le (bhistBucket_lt hb) hj)
      dsimp only
      rw [Function.update_of_ne hne, hs.outside j hj]
    · intro c
      cases c with
      | bucket j =>
        by_cases hj : j = i
        · simp [LkBhist.cell, bhistAdds, hb, hj]
        · simp [LkBhist.cell, bhistAdds, hb, hj, Ne.symm hj]
      | overflow | count => simp [LkBhist.cell, bhistAdds, hb]

theorem bhistAdopt_cell (dst src : LkBhist) (c : BhistCell) : (bhistAdopt dst src).cell c = dst.cell c := by
  rw [bhistAdopt]
  split <;> cases c <;> rfl

theorem bhistAdopt_spans {dst src : LkBhist} (hd : dst = {} ∨ dst.Spans g) (hs : src.Spans g) :
    (bhistAdopt dst src).Spans g := by
  have houtside : ∀ i, g.nbuckets ≤ i → (bhistAdopt dst src).bucket i = 0 := by
    intro i hi
    have hcell : (bhistAdopt dst src).bucket i = dst.bucket i := bhistAdopt_cell dst src (.bucket i)
    rw [hcell]
    rcases hd with rfl | hd
    · rfl
    · exact hd.outside i hi
  by_cases hz : dst.nbuckets = 0
  · have hn : (bhistAdopt dst src).nbuckets = g.nbuckets := by
      rw [bhistAdopt, if_pos hz, lkBhistInit, hs.nbuckets, if_pos g.le_max]
    have hmin : (bhistAdopt dst src).minLog2 = g.minLog2 := by
      rw [bhistAdopt, if_pos hz, lkBhistInit, hs.min, Nat.mod_eq_of_lt g.min_lt]
    have hne : (bhistAdopt dst src).nbuckets ≠ 0 := hn ▸ Nat.ne_of_gt g.pos
    exact ⟨by rw [bhMinLog2, if_pos hne, hmin], by rw [lkBhistNbuckets, if_pos hne, hn], houtside⟩
  · have hsame : bhistAdopt dst src = dst := if_neg hz
    rcases hd with rfl | hd
    · exact absurd rfl hz
    · rw [hsame]
      exact hd

theorem LkBhist.Spans.merge {dst src : LkBhist} (hd : dst = {} ∨ dst.Spans g) (hs : src.Spans g) :
    (lkBhistMerge dst src).Spans g ∧ ∀ c, (lkBhistMerge dst src).cell c = dst.cell c + src.cell c := by
  have had := bhistAdopt_spans hd hs
  refine ⟨⟨had.min, had.nbuckets, ?_⟩, ?_⟩
  · intro i hi
    have hout : ¬ i < lkBhistNbuckets (bhistAdopt dst src) := by
      rw [had.nbuckets]
      exact Nat.not_lt.mpr hi
    exact (if_neg hout).trans (had.outside i hi)
  · intro c
    rw [← bhistAdopt_cell dst src c]
    cases c with
    | bucket i =>
      by_cases hi : i < lkBhistNbuckets (bhistAdopt dst src)
      · exact if_pos hi
      · rw [had.nbuckets] at hi
        have hsrc : src.cell (.bucket i) = 0 := hs.outside i (Nat.not_lt.mp hi)
        rw [hsrc, add_zero]
        exact if_neg (had.nbuckets ▸ hi)
    | overflow | count => rfl

end Latkit
