import Latkit.GoPclntabLaw

/-! A lookup in a well-formed pclntab finds the first function of the name. -/

namespace Latkit

def nfuncOf (tab : List Byte) : Nat := le64 (tab.drop hdrNfunc)
def funcnameOf (tab : List Byte) : Nat := le64 (tab.drop hdrFuncname)
def pclnOf (tab : List Byte) : Nat := le64 (tab.drop hdrPcln)

def textStartOf (tab : List Byte) (textBase : Nat) : Nat :=
  if le64 (tab.drop hdrTextstart) = 0 then textBase else le64 (tab.drop hdrTextstart)

/-- The entry offset of a function; that of the sentinel is the end of the text. -/
def entryAt (tab : List Byte) (i : Nat) : Nat := le32 (tab.drop (pclnOf tab + i * 8))

def nameStart (tab : List Byte) (i : Nat) : Nat := funcnameOf tab + nameOffAt tab (pclnOf tab) i

def funcName (tab : List Byte) (i : Nat) : List Byte := (tab.drop (nameStart tab i)).takeWhile (· ≠ 0)

/-- What a linker writes: a header for this buffer, the table with its sentinel sorted by entry, and every
record and its terminated name inside the buffer. -/
structure GoTable (tab : List Byte) : Prop where
  size : hdrSize ≤ tab.length
  magic : le32 tab = goMagic118 ∨ le32 tab = goMagic120
  pad : tab.getD 4 0 = 0 ∧ tab.getD 5 0 = 0 ∧ tab.getD 7 0 = 8
  minLc : tab.getD 6 0 ≠ 0
  funcname : funcnameOf tab < tab.length
  nfunc : 1 ≤ nfuncOf tab
  table : pclnOf tab + (nfuncOf tab + 1) * 8 ≤ tab.length
  sorted : ∀ i < nfuncOf tab, entryAt tab i < entryAt tab (i + 1)
  record : ∀ i < nfuncOf tab, funcOffAt tab (pclnOf tab) i + 8 ≤ tab.length
  nameOff : ∀ i < nfuncOf tab, nameOffAt tab (pclnOf tab) i < 2 ^ 31
  terminated : ∀ i < nfuncOf tab, 0 ∈ tab.drop (nameStart tab i)

namespace GoTable

variable {tab name : List Byte} {i left : Nat}

theorem accepted (h : GoTable tab) (hobj : tab.length < 2 ^ 64) : Accepted tab := by
  have htable := h.table
  have hnfunc := h.nfunc
  have hwrap : u64 (nfuncOf tab + 1) = nfuncOf tab + 1 := u64_eq (by omega)
  refine ⟨h.size, h.magic, h.pad, h.minLc, h.funcname, show pclnOf tab < tab.length by omega,
    Nat.ne_of_gt h.nfunc, ?_⟩
  change u64 (nfuncOf tab + 1) ≤ tableRoom tab (pclnOf tab)
  rw [hwrap, tableRoom]
  omega

theorem name_in (h : GoTable tab) (hi : i < nfuncOf tab) : nameStart tab i < tab.length := by
  have hmem := List.length_pos_of_mem (h.terminated i hi)
  rw [List.length_drop] at hmem
  omega

end GoTable

theorem takeWhile_eq_iff {l name : List Byte} (hl : 0 ∈ l) (hname : 0 ∉ name) :
    l.takeWhile (· ≠ 0) = name ↔ name ++ [0] <+: l := by
  induction l generalizing name with
  | nil => cases hl
  | cons b l ih =>
    by_cases hb : b = 0
    · rw [hb, List.takeWhile_cons, if_neg (by decide)]
      cases name with
      | nil => exact iff_of_true rfl (List.prefix_append [0] l)
      | cons c name =>
        refine iff_of_false (List.cons_ne_nil c name).symm ?_
        intro hpre
        rw [(List.cons_prefix_cons.mp hpre).1] at hname
        exact hname List.mem_cons_self
    · rw [List.takeWhile_cons, if_pos (decide_eq_true hb)]
      cases name with
      | nil =>
        refine iff_of_false (List.cons_ne_nil b _) ?_
        intro hpre
        exact hb (List.cons_prefix_cons.mp hpre).1.symm
      | cons c name =>
        have hl' := (List.mem_cons.mp hl).resolve_left (Ne.symm hb)
        have hname' : 0 ∉ name := fun h => hname (List.mem_cons_of_mem c h)
        rw [List.cons.injEq, List.cons_append, List.cons_prefix_cons, ih hl' hname', eq_comm]

section
variable {tab name : List Byte} {i left textBase : Nat}

theorem named_iff (h : GoTable tab) (hname : 0 ∉ name) (hi : i < nfuncOf tab) :
    Named tab name (funcnameOf tab) (pclnOf tab) i ↔ funcName tab i = name := by
  rw [Named, and_iff_right (h.nameOff i hi), funcName, takeWhile_eq_iff (h.terminated i hi) hname, nameStart]

theorem walk_turn (h : GoTable tab) (hobj : tab.length < 2 ^ 64) (hname : 0 ∉ name) (hi : i < nfuncOf tab) (ts : Nat) :
    pclntabWalk tab name ts (funcnameOf tab) (pclnOf tab) (left + 1) i =
      if funcName tab i = name then some (.found (u64 (ts + entryAt tab i)) (entryAt tab (i + 1) - entryAt tab i))
      else pclntabWalk tab name ts (funcnameOf tab) (pclnOf tab) left (i + 1) := by
  have htable := h.table
  have hrecord := h.record i hi
  have hstart := h.name_in hi
  have hsorted := h.sorted i hi
  rw [nameStart] at hstart
  rw [pclntabWalk_turn hobj (by omega) (by omega) (by omega), if_neg (show ¬ Strays tab (pclnOf tab) i from Nat.not_lt.mpr hrecord)]
  by_cases heq : funcName tab i = name
  · rw [if_pos heq, if_pos ((named_iff h hname hi).mpr heq), rd32_in (by omega), Option.map_some]
    change some (if entryAt tab (i + 1) ≤ entryAt tab i then _ else _) = _
    rw [if_neg (Nat.not_le.mpr hsorted)]
    rfl
  · rw [if_neg heq, if_neg (fun hn => heq ((named_iff h hname hi).mp hn))]

theorem walk_absent (h : GoTable tab) (hobj : tab.length < 2 ^ 64) (hname : 0 ∉ name) (hin : i + left ≤ nfuncOf tab)
    (hnone : ∀ j, i ≤ j → j < i + left → funcName tab j ≠ name) (ts : Nat) :
    pclntabWalk tab name ts (funcnameOf tab) (pclnOf tab) left i = some .absent := by
  induction left generalizing i with
  | zero => rfl
  | succ left ih =>
    rw [walk_turn h hobj hname (by omega), if_neg (hnone i (Nat.le_refl i) (by omega))]
    exact ih (by omega) fun j hij hj => hnone j (by omega) (by omega)

theorem walk_found (h : GoTable tab) (hobj : tab.length < 2 ^ 64) (hname : 0 ∉ name) (hin : i + left ≤ nfuncOf tab)
    (hij : i ≤ j) (hj : j < i + left) (hfound : funcName tab j = name)
    (hfirst : ∀ k, i ≤ k → k < j → funcName tab k ≠ name) (ts : Nat) :
    pclntabWalk tab name ts (funcnameOf tab) (pclnOf tab) left i =
      some (.found (u64 (ts + entryAt tab j)) (entryAt tab (j + 1) - entryAt tab j)) := by
  induction left generalizing i with
  | zero => omega
  | succ left ih =>
    rw [walk_turn h hobj hname (by omega)]
    rcases Nat.lt_or_eq_of_le hij with hlt | rfl
    · rw [if_neg (hfirst i (Nat.le_refl i) hlt)]
      exact ih (by omega) hlt (by omega) fun k hik hkj => hfirst k (by omega) hkj
    · rw [if_pos hfound]

end

/-- The first function of the name is found, with its address and the distance to the next entry, and the name is
reported absent exactly when no function has it. -/
theorem lkGoPclntabFind_first (tab : List Byte) (hobj : tab.length < 2 ^ 64) (h : GoTable tab) (textBase : Nat)
    (name : List Byte) (hname : 0 ∉ name) :
    (∀ i < nfuncOf tab, funcName tab i = name → (∀ j < i, funcName tab j ≠ name) →
      lkGoPclntabFind tab textBase name =
        some (.found (u64 (textStartOf tab textBase + entryAt tab i)) (entryAt tab (i + 1) - entryAt tab i))) ∧
    (lkGoPclntabFind tab textBase name = some .absent ↔ ∀ i < nfuncOf tab, funcName tab i ≠ name) := by
  have hwalk : lkGoPclntabFind tab textBase name =
      pclntabWalk tab name (textStartOf tab textBase) (funcnameOf tab) (pclnOf tab) (nfuncOf tab) 0 :=
    lkGoPclntabFind_accepted (h.accepted hobj) textBase name
  have hin : 0 + nfuncOf tab ≤ nfuncOf tab := by omega
  have hfound : ∀ i < nfuncOf tab, funcName tab i = name → (∀ j < i, funcName tab j ≠ name) →
      lkGoPclntabFind tab textBase name =
        some (.found (u64 (textStartOf tab textBase + entryAt tab i)) (entryAt tab (i + 1) - entryAt tab i)) := by
    intro i hi heq hfirst
    rw [hwalk]
    exact walk_found h hobj hname hin (Nat.zero_le i) (by omega) heq (fun k _ => hfirst k) _
  refine ⟨hfound, ?_, ?_⟩
  · intro habsent i hi heq
    have hex : ∃ i, i < nfuncOf tab ∧ funcName tab i = name := ⟨i, hi, heq⟩
    obtain ⟨hlt, hspec⟩ := Nat.find_spec hex
    rw [hfound _ hlt hspec fun j hj hbad => Nat.find_min hex hj ⟨by omega, hbad⟩] at habsent
    cases habsent
  · intro hnone
    rw [hwalk]
    exact walk_absent h hobj hname hin (fun j _ hj => hnone j (by omega)) _

def smallTab : List Byte :=
  [0xf1, 0xff, 0xff, 0xff, 0, 0, 1, 8, 1, 0, 0, 0, 0, 0, 0, 0] ++ List.replicate 16 0 ++
    [72, 0, 0, 0, 0, 0, 0, 0] ++ List.replicate 24 0 ++ [74, 0, 0, 0, 0, 0, 0, 0] ++
    [102, 0] ++ [16, 0, 0, 0, 16, 0, 0, 0] ++ [48, 0, 0, 0, 0, 0, 0, 0] ++ [16, 0, 0, 0, 0, 0, 0, 0]

theorem smallTab_ok : GoTable smallTab := by
  have hone : nfuncOf smallTab = 1 := by decide +kernel
  refine ⟨by decide +kernel, by decide +kernel, by decide +kernel, by decide +kernel, by decide +kernel,
    by decide +kernel, by decide +kernel, ?_, ?_, ?_, ?_⟩
  all_goals
    rw [hone]
    decide +kernel

theorem lkGoPclntabFind_first_small :
    smallTab.length < 2 ^ 64 ∧ GoTable smallTab ∧ 0 ∉ [(102 : Byte)] ∧
      lkGoPclntabFind smallTab 4096 [102] = some (.found 4112 32) := by
  refine ⟨by decide, smallTab_ok, by decide, ?_⟩
  have hfound := (lkGoPclntabFind_first smallTab (by decide) smallTab_ok 4096 [102] (by decide)).1 0
    (by decide +kernel) (by decide +kernel) (fun j hj => absurd hj (Nat.not_lt_zero j))
  rw [hfound]
  decide +kernel

end Latkit
