import Latkit.HistBound
import Latkit.PbufLaw

/-! The histogram points of the OTLP export, and what their buckets count. -/

namespace Latkit
open Binary64 (Positive word)
open Protobuf

structure ExpPoint where
  count : UInt64
  sum : Float
  scale : Int32
  zeroCount : UInt64
  offset : Int32
  counts : List UInt64
  zeroThreshold : Float

def ExpPoint.calls (p : ExpPoint) (start now : UInt64) (attrs : List PbCall) : List PbCall :=
  [.submsgBegin ⟨1, by decide⟩,
    .fieldFixed64 ⟨2, by decide⟩ start,
    .fieldFixed64 ⟨3, by decide⟩ now,
    .fieldFixed64 ⟨4, by decide⟩ p.count,
    .fieldDouble ⟨5, by decide⟩ p.sum.toBits,
    .fieldSint32 ⟨6, by decide⟩ p.scale,
    .fieldFixed64 ⟨7, by decide⟩ p.zeroCount,
    .submsgBegin ⟨8, by decide⟩,
    .fieldSint32 ⟨1, by decide⟩ p.offset,
    .fieldBytes ⟨2, by decide⟩ (p.counts.foldl pbVarint []),
    .submsgEnd,
    .fieldDouble ⟨14, by decide⟩ p.zeroThreshold.toBits] ++ attrs ++ [.submsgEnd]

structure HistPoint where
  count : UInt64
  sum : Float
  counts : List UInt64
  bounds : List Float

def HistPoint.calls (p : HistPoint) (start now : UInt64) (attrs : List PbCall) : List PbCall :=
  [.submsgBegin ⟨1, by decide⟩,
    .fieldFixed64 ⟨2, by decide⟩ start,
    .fieldFixed64 ⟨3, by decide⟩ now,
    .fieldFixed64 ⟨4, by decide⟩ p.count,
    .fieldDouble ⟨5, by decide⟩ p.sum.toBits,
    .fieldBytes ⟨6, by decide⟩ (p.counts.foldl pbFixed64 []),
    .fieldBytes ⟨7, by decide⟩ (p.bounds.foldl (fun b x => pbDouble b x.toBits) [])] ++ attrs ++ [.submsgEnd]

section
variable {ι : Type} [DecidableEq ι]

end

inductive BhistOp (ι : Type) where
  | init (i : ι)
  | observe (i : ι) (bytes : UInt64)
  | merge (dst src : ι)

def LkBhist.On (h : LkBhist) (g : BhistGrid) : Prop := bhMinLog2 h = g.minLog2 ∧ lkBhistNbuckets h = g.nbuckets

section
variable {ι : Type} [DecidableEq ι] (g : BhistGrid)

def bhistStep (s : ι → LkBhist) : BhistOp ι → ι → LkBhist
  | .init i => Function.update s i (lkBhistInit (s i) g.minLog2 g.nbuckets)
  | .observe i bytes => Function.update s i (lkBhistObserve (s i) bytes)
  | .merge dst src => Function.update s dst (lkBhistMerge (s dst) (s src))

def sizesStep (vals : ι → List UInt64) : BhistOp ι → ι → List UInt64
  | .init _ => vals
  | .observe i bytes => Function.update vals i (vals i ++ [bytes])
  | .merge dst src => Function.update vals dst (vals dst ++ vals src)

/-- The call keeps to the grid; a histogram may still be zeroed when it is first given one. -/
def BhistOp.On (s : ι → LkBhist) : BhistOp ι → Prop
  | .init i => s i = {} ∨ (s i).On g
  | .observe i _ => (s i).On g
  | .merge dst src => (s dst = {} ∨ (s dst).On g) ∧ (s src).On g

def onOneGrid (s : ι → LkBhist) : List (BhistOp ι) → Prop
  | [] => True
  | op :: ops => op.On g s ∧ onOneGrid (bhistStep g s op) ops

def sizesSum (vals : List UInt64) (c : BhistCell) : Nat := (vals.map fun v => bhistAdds g v c).sum

theorem sizesSum_append (vals vals' : List UInt64) (c : BhistCell) :
    sizesSum g (vals ++ vals') c = sizesSum g vals c + sizesSum g vals' c := by
  simp [sizesSum]

def HoldsSizes (h : LkBhist) (vals : List UInt64) : Prop :=
  h.Spans g ∧ ∀ c, h.cell c = UInt64.ofNat (sizesSum g vals c)

variable {g}

def Kept (s : ι → LkBhist) (vals : ι → List UInt64) : Prop :=
  ∀ i, (s i = {} ∧ vals i = []) ∨ HoldsSizes g (s i) (vals i)

theorem HoldsSizes.of_on {h : LkBhist} (hk : (h = {} ∧ vals = []) ∨ HoldsSizes g h vals) (hon : h.On g) :
    HoldsSizes g h vals := by
  rcases hk with ⟨rfl, rfl⟩ | hk
  · refine ⟨⟨hon.1, hon.2, fun _ _ => rfl⟩, ?_⟩
    intro c
    cases c <;> rfl
  · exact hk

theorem lkBhistInit_holds {h : LkBhist} (hk : (h = {} ∧ vals = []) ∨ HoldsSizes g h vals) :
    HoldsSizes g (lkBhistInit h g.minLog2 g.nbuckets) vals := by
  have hn : (lkBhistInit h g.minLog2 g.nbuckets).nbuckets = g.nbuckets := if_pos g.le_max
  have hmin : (lkBhistInit h g.minLog2 g.nbuckets).minLog2 = g.minLog2 := Nat.mod_eq_of_lt g.min_lt
  have hne : (lkBhistInit h g.minLog2 g.nbuckets).nbuckets ≠ 0 := by
    rw [hn]
    exact Nat.ne_of_gt g.pos
  have hcell : ∀ c, (lkBhistInit h g.minLog2 g.nbuckets).cell c = h.cell c := fun c => by cases c <;> rfl
  refine ⟨⟨by rw [bhMinLog2, if_pos hne, hmin], by rw [lkBhistNbuckets, if_pos hne, hn], ?_⟩, ?_⟩
  · intro i hi
    rcases hk with ⟨rfl, rfl⟩ | hk
    · rfl
    · exact hk.1.outside i hi
  · intro c
    rw [hcell]
    rcases hk with ⟨rfl, rfl⟩ | hk
    · cases c <;> rfl
    · exact hk.2 c

theorem HoldsSizes.observe {h : LkBhist} (hk : HoldsSizes g h vals) (bytes : UInt64) :
    HoldsSizes g (lkBhistObserve h bytes) (vals ++ [bytes]) := by
  obtain ⟨hspans, hcell⟩ := hk.1.observe bytes
  refine ⟨hspans, fun c => ?_⟩
  rw [hcell c, hk.2 c, sizesSum_append, UInt64.ofNat_add]
  rfl

theorem HoldsSizes.merge {dst src : LkBhist} (hd : (dst = {} ∧ vals = []) ∨ HoldsSizes g dst vals)
    (hs : HoldsSizes g src vals') : HoldsSizes g (lkBhistMerge dst src) (vals ++ vals') := by
  obtain ⟨hspans, hcell⟩ := LkBhist.Spans.merge (hd.imp And.left And.left) hs.1
  refine ⟨hspans, fun c => ?_⟩
  have hdst : dst.cell c = UInt64.ofNat (sizesSum g vals c) := by
    rcases hd with ⟨rfl, rfl⟩ | hd
    · cases c <;> rfl
    · exact hd.2 c
  rw [hcell c, hdst, hs.2 c, sizesSum_append, UInt64.ofNat_add]

theorem Kept.step {s : ι → LkBhist} (h : Kept (g := g) s vals) (op : BhistOp ι) (hon : op.On g s) :
    Kept (g := g) (bhistStep g s op) (sizesStep vals op) := by
  intro i
  cases op with
  | init j =>
    by_cases hij : i = j
    · subst hij
      simp only [bhistStep, sizesStep, Function.update_self]
      exact .inr (lkBhistInit_holds (h i))
    · simp only [bhistStep, sizesStep, Function.update_of_ne hij]
      exact h i
  | observe j bytes =>
    by_cases hij : i = j
    · subst hij
      simp only [bhistStep, sizesStep, Function.update_self]
      exact .inr ((HoldsSizes.of_on (h i) hon).observe bytes)
    · simp only [bhistStep, sizesStep, Function.update_of_ne hij]
      exact h i
  | merge dst src =>
    by_cases hij : i = dst
    · subst hij
      simp only [bhistStep, sizesStep, Function.update_self]
      exact .inr (HoldsSizes.merge (h i) (HoldsSizes.of_on (h src) hon.2))
    · simp only [bhistStep, sizesStep, Function.update_of_ne hij]
      exact h i

theorem Kept.run {s : ι → LkBhist} (h : Kept (g := g) s vals) (ops : List (BhistOp ι)) (hon : onOneGrid g s ops) :
    Kept (g := g) (ops.foldl (bhistStep g) s) (ops.foldl sizesStep vals) := by
  induction ops generalizing s vals with
  | nil => exact h
  | cons op ops ih => exact ih (h.step op hon.1) hon.2

end

theorem HoldsSizes.count {h : LkBhist} (hk : HoldsSizes g h vals) : h.count = UInt64.ofNat vals.length := by
  have hcell := hk.2 .count
  rw [show sizesSum g vals .count = vals.length by simp [sizesSum, bhistAdds]] at hcell
  exact hcell

section
variable {ι : Type} [DecidableEq ι]

end

end Latkit
