import Latkit.Registry
import Latkit.FloatOrder

namespace Latkit

structure ClassicBucket where
  lt : Int
  le : String
  deriving DecidableEq, Repr

def classic : List ClassicBucket := [
  ⟨-52, "0.0001220703125"⟩,
  ⟨-48, "0.000244140625"⟩,
  ⟨-44, "0.00048828125"⟩,
  ⟨-40, "0.0009765625"⟩,
  ⟨-36, "0.001953125"⟩,
  ⟨-32, "0.00390625"⟩,
  ⟨-28, "0.0078125"⟩,
  ⟨-24, "0.015625"⟩,
  ⟨-20, "0.03125"⟩,
  ⟨-16, "0.0625"⟩,
  ⟨-12, "0.125"⟩,
  ⟨-8, "0.25"⟩,
  ⟨-4, "0.5"⟩,
  ⟨0, "1"⟩,
  ⟨4, "2"⟩,
  ⟨8, "4"⟩,
  ⟨12, "8"⟩,
  ⟨16, "16"⟩,
  ⟨20, "32"⟩]

def bucketsBelow (lt : Int) : List (Fin lkHistNbuckets) :=
  let hi := if lt < lkHistMaxIndex then lt else lkHistMaxIndex
  (List.finRange lkHistNbuckets).filter fun i => lkHistMinIndex + (i : Nat) < hi

def cumLt (h : LkHist) (lt : Int) : UInt64 :=
  (bucketsBelow lt).foldl (fun c i => c + h.bucket i) h.underflow

def fmtNat (n : Nat) : List Byte := (Nat.toDigits 10 n).map Char.toUInt8

def fmtU64 (n : UInt64) : List Byte := fmtNat n.toNat

def bucketLine (metric labelset le : List Byte) (n : UInt64) : List Byte :=
  metric ++ bytesOf "_bucket\x7b" ++ labelset ++ (if labelset.isEmpty then [] else bytesOf ",") ++
    bytesOf "le=\"" ++ le ++ bytesOf "\"\x7d " ++ fmtU64 n ++ bytesOf "\n"

def sumLine (fmtG : Float → List Byte) (metric labelset : List Byte) (sum : Float) : List Byte :=
  metric ++ bytesOf "_sum\x7b" ++ labelset ++ bytesOf "\x7d " ++ fmtG sum ++ bytesOf "\n"

def countLine (metric labelset : List Byte) (n : UInt64) : List Byte :=
  metric ++ bytesOf "_count\x7b" ++ labelset ++ bytesOf "\x7d " ++ fmtU64 n ++ bytesOf "\n"

/-- The text of a histogram; `fmtG` is the `%.17g` of the C library. -/
def lkHistWrite (fmtG : Float → List Byte) (h : LkHist) (metric labelset : List Byte) : List Byte :=
  (classic.flatMap fun c => bucketLine metric labelset (bytesOf c.le) (cumLt h c.lt)) ++
    bucketLine metric labelset (bytesOf "+Inf") h.count ++ sumLine fmtG metric labelset h.sum ++
    countLine metric labelset h.count

inductive HistOp (ι : Type) where
  | observe (i : ι) (v : Float)
  | merge (dst src : ι)

section
variable {ι : Type} [DecidableEq ι]

def histStep (s : ι → LkHist) : HistOp ι → ι → LkHist
  | .observe i v => Function.update s i (lkHistObserve (s i) v)
  | .merge dst src => Function.update s dst (lkHistMerge (s dst) (s src))

def histRun (ops : List (HistOp ι)) : ι → LkHist := ops.foldl histStep fun _ => {}

def valuesStep (vals : ι → List Float) : HistOp ι → ι → List Float
  | .observe i v => Function.update vals i (vals i ++ [v])
  | .merge dst src => Function.update vals dst (vals dst ++ vals src)

def histValues (ops : List (HistOp ι)) : ι → List Float := ops.foldl valuesStep fun _ => []

def addsSum (vals : List Float) (c : HistCell) : Nat := (vals.map fun v => histAdds v c).sum

theorem addsSum_append (vals vals' : List Float) (c : HistCell) :
    addsSum (vals ++ vals') c = addsSum vals c + addsSum vals' c := by
  simp [addsSum]

def HoldsValues (s : ι → LkHist) (vals : ι → List Float) : Prop :=
  ∀ i c, (s i).cell c = UInt64.ofNat (addsSum (vals i) c)

theorem HoldsValues.step {s : ι → LkHist} (h : HoldsValues s vals) (op : HistOp ι) :
    HoldsValues (histStep s op) (valuesStep vals op) := by
  intro i c
  cases op with
  | observe j v =>
    by_cases hij : i = j
    · subst hij
      simp only [histStep, valuesStep, Function.update_self]
      rw [lkHistObserve_cell, h i c, addsSum_append, UInt64.ofNat_add]
      rfl
    · simp only [histStep, valuesStep, Function.update_of_ne hij]
      exact h i c
  | merge dst src =>
    by_cases hij : i = dst
    · subst hij
      simp only [histStep, valuesStep, Function.update_self]
      rw [lkHistMerge_cell, h i c, h src c, addsSum_append, UInt64.ofNat_add]
    · simp only [histStep, valuesStep, Function.update_of_ne hij]
      exact h i c

theorem HoldsValues.run {s : ι → LkHist} (h : HoldsValues s vals) (ops : List (HistOp ι)) :
    HoldsValues (ops.foldl histStep s) (ops.foldl valuesStep vals) := by
  induction ops generalizing s vals with
  | nil => exact h
  | cons op ops ih => exact ih (h.step op)

theorem histRun_holds (ops : List (HistOp ι)) : HoldsValues (histRun ops) (histValues ops) := by
  apply HoldsValues.run
  intro i c
  cases c <;> rfl

end

theorem foldl_add_ofNat (l : List α) (f : α → UInt64) (g : α → Nat) (n : Nat)
    (h : ∀ a, f a = UInt64.ofNat (g a)) :
    l.foldl (fun c a => c + f a) (UInt64.ofNat n) = UInt64.ofNat (n + (l.map g).sum) := by
  induction l generalizing n with
  | nil => rfl
  | cons a l ih =>
    rw [List.foldl_cons, h a, ← UInt64.ofNat_add, ih, List.map_cons, List.sum_cons, Nat.add_assoc]

def placedBelow (lt : Int) (v : Float) : Bool :=
  match histPlace v with
  | .underflow => true
  | .bucket i => i ∈ bucketsBelow lt
  | _ => false

theorem sum_bucket_adds (v : Float) (l : List (Fin lkHistNbuckets)) (hl : l.Nodup) :
    (l.map fun i => histAdds v (.bucket i)).sum =
      if ∃ i ∈ l, histPlace v = .bucket i then 1 else 0 := by
  induction l with
  | nil => simp
  | cons j l ih =>
    rw [List.nodup_cons] at hl
    rw [List.map_cons, List.sum_cons, ih hl.2]
    simp only [histAdds, List.exists_mem_cons_iff]
    by_cases hj : histPlace v = .bucket j
    · have hno : ¬ ∃ i ∈ l, histPlace v = .bucket i := by
        rintro ⟨i, hi, hv⟩
        rw [hj] at hv
        cases hv
        exact hl.1 hi
      rw [if_pos hj, if_neg hno, if_pos (.inl hj)]
    · simp only [hj, false_or, if_false, Nat.zero_add]

theorem bucketsBelow_nodup (lt : Int) : (bucketsBelow lt).Nodup :=
  (List.nodup_finRange _).filter _

theorem adds_below (lt : Int) (v : Float) :
    histAdds v .underflow + ((bucketsBelow lt).map fun i => histAdds v (.bucket i)).sum =
      if placedBelow lt v then 1 else 0 := by
  rw [sum_bucket_adds v _ (bucketsBelow_nodup lt)]
  generalize hl : bucketsBelow lt = l
  simp only [histAdds, placedBelow, hl]
  cases histPlace v <;> simp

theorem addsSum_below (lt : Int) (vals : List Float) :
    addsSum vals .underflow + ((bucketsBelow lt).map fun i => addsSum vals (.bucket i)).sum =
      vals.countP (placedBelow lt) := by
  induction vals with
  | nil => simp [addsSum]
  | cons v vals ih =>
    have hcons : ∀ c, addsSum (v :: vals) c = histAdds v c + addsSum vals c := fun _ => rfl
    have hv := adds_below lt v
    simp only [hcons, List.sum_map_add]
    rw [List.countP_cons, ← ih, ← hv]
    omega

theorem cumLt_eq {h : LkHist} {vals : List Float} (hh : ∀ c, h.cell c = UInt64.ofNat (addsSum vals c))
    (lt : Int) : cumLt h lt = UInt64.ofNat (vals.countP (placedBelow lt)) := by
  rw [cumLt, ← addsSum_below, ← foldl_add_ofNat _ _ _ _ fun i => hh (.bucket i), ← hh .underflow]
  rfl

def leValue (le : String) : Float :=
  let frac := (le.toList.dropWhile (· != '.')).drop 1
  let digits := le.toList.takeWhile (· != '.') ++ frac
  Float.ofScientific (digits.foldl (fun n c => 10 * n + (c.toNat - '0'.toNat)) 0) true frac.length

theorem classic_bounds : ∀ c ∈ classic, (Binary64.word (leValue c.le) : Int) = (c.lt / 4 + 1023) * 2 ^ 52 ∧
    c.lt % 4 = 0 ∧ -52 ≤ c.lt ∧ c.lt ≤ 20 := by
  decide +kernel

theorem lkHistIndex_octave (v : Float) :
    4 * (frexp v).2 - 4 ≤ lkHistIndex v ∧ lkHistIndex v ≤ 4 * (frexp v).2 - 1 := by
  simp only [lkHistIndex]
  split
  · omega
  · split
    · omega
    · split <;> omega

theorem frexp_le_iff (h : Binary64.Positive v) {j : Int} (hj : -1022 ≤ j) :
    (frexp v).2 ≤ j ↔ (Binary64.word v : Int) < (j + 1023) * 2 ^ 52 := by
  have hlt := h.lt
  have hword : v.toBits.toNat = Binary64.word v := rfl
  simp only [frexp, hword]
  by_cases hexp : Binary64.word v / 2 ^ 52 % 2 ^ 11 = 0
  · have hfrac : Binary64.word v % 2 ^ 52 < 2 ^ 52 := Nat.mod_lt _ (Nat.two_pow_pos 52)
    have hsize : (Binary64.word v % 2 ^ 52).size ≤ 52 := Nat.size_le.mpr hfrac
    rw [if_pos hexp]
    dsimp only
    omega
  · rw [if_neg hexp]
    dsimp only
    omega

theorem lkHistIndex_lt_iff (h : Binary64.Positive v) (hc : c ∈ classic) :
    lkHistIndex v < c.lt ↔ v < leValue c.le := by
  obtain ⟨hword, hmod, hlo, hhi⟩ := classic_bounds c hc
  have hle : Binary64.Positive (leValue c.le) := ⟨by omega, by omega⟩
  obtain ⟨hidx, hidx'⟩ := lkHistIndex_octave v
  rw [h.lt_word_iff hle]
  have hexp := frexp_le_iff h (j := c.lt / 4) (by omega)
  rw [← hword, Int.ofNat_lt] at hexp
  rw [← hexp]
  omega

def countsBelow (bound v : Float) : Bool := v.isNaN || v ≤ 0 || v < bound

theorem placedBelow_eq (hc : c ∈ classic) (v : Float) : placedBelow c.lt v = countsBelow (leValue c.le) v := by
  obtain ⟨hword, hmod, hlo, hhi⟩ := classic_bounds c hc
  rw [placedBelow, countsBelow, histPlace, Bool.eq_iff_iff]
  by_cases hbad : v.isNaN = true ∨ v ≤ 0
  · rw [if_pos hbad]
    simp only [Bool.or_eq_true, decide_eq_true_eq, true_iff]
    exact .inl hbad
  rw [if_neg hbad]
  by_cases hinf : v.isInf = true
  · rw [if_pos hinf]
    have hle : Binary64.Positive (leValue c.le) := ⟨by omega, by omega⟩
    simp only [Bool.or_eq_true, decide_eq_true_eq, Bool.false_eq_true, false_iff]
    rw [not_or]
    exact ⟨hbad, hle.not_inf_lt hinf fun hneg => hbad (.inr hneg)⟩
  rw [if_neg hinf]
  have hpos := Binary64.Positive.of hbad hinf
  have hright : ((v.isNaN || decide (v ≤ 0) || decide (v < leValue c.le)) = true) ↔ lkHistIndex v < c.lt := by
    rw [lkHistIndex_lt_iff hpos hc]
    simp only [Bool.or_eq_true, decide_eq_true_eq, hbad, false_or]
  rw [hright]
  have hmin : lkHistMinIndex = -53 := rfl
  have hmax : lkHistMaxIndex = 24 := rfl
  by_cases hlow : lkHistIndex v < lkHistMinIndex
  · rw [dif_pos hlow]
    simp only [true_iff]
    omega
  rw [dif_neg hlow]
  by_cases hhigh : lkHistMaxIndex ≤ lkHistIndex v
  · rw [dif_pos hhigh]
    simp only [Bool.false_eq_true, false_iff]
    omega
  rw [dif_neg hhigh]
  simp only [bucketsBelow, List.mem_filter, List.mem_finRange, true_and, decide_eq_true_eq]
  rw [if_pos (by omega)]
  omega

section
variable {ι : Type} [DecidableEq ι]

theorem histRun_cumLt (ops : List (HistOp ι)) (i : ι) (hc : c ∈ classic) :
    cumLt (histRun ops i) c.lt =
      UInt64.ofNat ((histValues ops i).countP (countsBelow (leValue c.le))) := by
  rw [cumLt_eq (histRun_holds ops i), List.countP_congr fun v _ => by rw [placedBelow_eq hc v]]

theorem histRun_count (ops : List (HistOp ι)) (i : ι) :
    (histRun ops i).count = UInt64.ofNat (histValues ops i).length := by
  refine (histRun_holds ops i .count).trans (congrArg UInt64.ofNat ?_)
  simp [addsSum, histAdds]

def printedCounts (h : LkHist) : List UInt64 := classic.map (fun c => cumLt h c.lt) ++ [h.count]

theorem placedBelow_mono {lt lt' : Int} (hle : lt ≤ lt') (h : placedBelow lt v = true) :
    placedBelow lt' v = true := by
  simp only [placedBelow] at h ⊢
  split
  · rfl
  · next i hi =>
    rw [hi] at h
    simp only [bucketsBelow, List.mem_filter, List.mem_finRange, true_and, decide_eq_true_eq] at h ⊢
    split at h <;> split <;> omega
  · next hu hb =>
    split at h
    · next hv => exact absurd hv hu
    · next i hi => exact absurd hi (hb i)
    · exact h

theorem ofNat_le_ofNat {m n : Nat} (hle : m ≤ n) (hn : n < 2 ^ 64) : UInt64.ofNat m ≤ UInt64.ofNat n := by
  have hm : m < 2 ^ 64 := Nat.lt_of_le_of_lt hle hn
  rw [UInt64.le_iff_toNat_le, UInt64.toNat_ofNat_of_lt' hn, UInt64.toNat_ofNat_of_lt' hm]
  exact hle

theorem printedCounts_sorted (ops : List (HistOp ι)) (i : ι) (hlen : (histValues ops i).length < 2 ^ 64) :
    (printedCounts (histRun ops i)).Pairwise (· ≤ ·) := by
  have hcum := cumLt_eq (histRun_holds ops i)
  have hcount := histRun_count ops i
  have hle : ∀ p : Float → Bool, (histValues ops i).countP p < 2 ^ 64 :=
    fun p => Nat.lt_of_le_of_lt List.countP_le_length hlen
  have hsorted : classic.Pairwise fun c d => c.lt ≤ d.lt := by decide
  rw [printedCounts, List.pairwise_append]
  refine ⟨?_, List.pairwise_singleton _ _, ?_⟩
  · rw [List.pairwise_map]
    refine hsorted.imp fun {c d} hcd => ?_
    rw [hcum, hcum]
    exact ofNat_le_ofNat (List.countP_mono_left fun v _ => placedBelow_mono hcd) (hle _)
  · intro n hn m hm
    obtain ⟨c, _, rfl⟩ := List.mem_map.mp hn
    rw [List.mem_singleton.mp hm, hcum, hcount]
    exact ofNat_le_ofNat List.countP_le_length hlen

/-- Each line of the classic text counts the values strictly below its boundary, with those that are
no duration at all; the last one counts them all. -/
theorem lkHistWrite_counts (fmtG : Float → List Byte) (ops : List (HistOp ι)) (i : ι)
    (metric labelset : List Byte) :
    lkHistWrite fmtG (histRun ops i) metric labelset =
        (classic.flatMap fun c => bucketLine metric labelset (bytesOf c.le)
          (UInt64.ofNat ((histValues ops i).countP (countsBelow (leValue c.le))))) ++
        bucketLine metric labelset (bytesOf "+Inf") (UInt64.ofNat (histValues ops i).length) ++
        sumLine fmtG metric labelset (histRun ops i).sum ++
        countLine metric labelset (UInt64.ofNat (histValues ops i).length) ∧
      ((histValues ops i).length < 2 ^ 64 → (printedCounts (histRun ops i)).Pairwise (· ≤ ·)) := by
  refine ⟨?_, printedCounts_sorted ops i⟩
  rw [lkHistWrite, histRun_count]
  congr 3
  exact List.flatMap_congr fun c hc => by rw [histRun_cumLt ops i hc]

end

theorem lkHistWrite_counts_fifth :
    (printedCounts (histRun [HistOp.observe () 0.2] ())).Pairwise (· ≤ ·) :=
  (lkHistWrite_counts (fun _ => []) [HistOp.observe () 0.2] () [] []).2 (by decide)

/-- A value on a boundary is not in the bucket that reaches up to it. -/
theorem lkHistWrite_on_boundary :
    ⟨0, "1"⟩ ∈ classic ∧ cumLt (histRun [HistOp.observe () 1] ()) 0 ≠
      UInt64.ofNat ((histValues [HistOp.observe () 1] ()).countP fun v =>
        v.isNaN || v ≤ 0 || v ≤ leValue "1") := by
  decide +kernel

end Latkit
