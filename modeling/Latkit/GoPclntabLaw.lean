import Latkit.GoPclntab

/-! When every read of the pclntab lookup stays inside the buffer. -/

namespace Latkit

theorem le32_take (p : List Byte) : le32 (p.take 4) = le32 p := by
  simp [le32, le24]

theorem le32_lt (p : List Byte) : le32 p < 2 ^ 32 := by
  have h3 := (p.getD 3 0).toNat_lt
  have h2 := (p.getD 2 0).toNat_lt
  have h1 := (p.getD 1 0).toNat_lt
  have h0 := (p.getD 0 0).toNat_lt
  rw [le32, le24]
  omega

theorem rd32_in (h : i + 4 ≤ tab.length) : rd32 tab i = some (le32 (tab.drop i)) := by
  rw [rd32, readAt, if_pos h, Option.map_some, le32_take]

theorem rd32_out (h : tab.length < i + 4) : rd32 tab i = none := by
  rw [rd32, readAt, if_neg (Nat.not_le.mpr h)]
  rfl

theorem terminated_iff (l name : List Byte) (hlen : name.length < l.length) :
    name ++ [0] <+: l ↔ l.take name.length = name ∧ (l.drop name.length).getD 0 0 = 0 := by
  have hget : l.take (name.length + 1) = l.take name.length ++ [(l.drop name.length).getD 0 0] := by
    rw [List.take_add_one, List.getElem?_eq_getElem hlen, Option.toList_some, List.getD_eq_getElem?_getD,
      List.getElem?_drop, Nat.add_zero, List.getElem?_eq_getElem hlen, Option.getD_some]
  rw [List.prefix_iff_eq_take, List.length_append, List.length_singleton, hget, List.append_singleton_inj]
  constructor
  · intro h
    exact ⟨h.1.symm, h.2.symm⟩
  · intro h
    exact ⟨h.1.symm, h.2.symm⟩

theorem rd8_in (h : i < tab.length) : rd8 tab i = some (tab.getD i 0) := by
  rw [rd8, readAt, if_pos (Nat.succ_le_of_lt h), Option.map_some, List.getD_eq_getElem?_getD, List.getElem?_take_of_lt Nat.one_pos,
    List.getElem?_drop, Nat.add_zero, List.getD_eq_getElem?_getD]

theorem le64_take (p : List Byte) : le64 (p.take 8) = le64 p := by
  simp [le64, le32, le24]

theorem rd64_in (h : i + 8 ≤ tab.length) : rd64 tab i = some (le64 (tab.drop i)) := by
  rw [rd64, readAt, if_pos h, Option.map_some, le64_take]

theorem le64_lt (p : List Byte) : le64 p < 2 ^ 64 := by
  have hlow := le32_lt p
  have hhigh := le32_lt (p.drop 4)
  rw [le64]
  omega

theorem nameIs_eq (tab : List Byte) (off : Nat) (name : List Byte) :
    nameIs tab off name = some (decide (name ++ [0] <+: tab.drop off)) := by
  rw [nameIs]
  split
  · rename_i h
    have hno : ¬ name ++ [0] <+: tab.drop off := by
      intro hpre
      have hle := hpre.length_le
      rw [List.length_append, List.length_singleton, List.length_drop] at hle
      omega
    rw [decide_eq_false hno]
  · rename_i h
    obtain ⟨hoff, hlen⟩ := not_or.mp h
    have hread : readAt tab off name.length = some ((tab.drop off).take name.length) := if_pos (by omega)
    have hlast : rd8 tab (off + name.length) = some (((tab.drop off).drop name.length).getD 0 0) := by
      rw [rd8, readAt, if_pos (by omega), Option.map_some, List.drop_drop, List.getD_eq_getElem?_getD,
        List.getElem?_take_of_lt Nat.one_pos, ← List.getD_eq_getElem?_getD]
    have hiff := terminated_iff (tab.drop off) name (by rw [List.length_drop]; omega)
    rw [hread, Option.bind_eq_bind, Option.bind_some]
    by_cases hname : (tab.drop off).take name.length = name
    · rw [if_neg (not_not.mpr hname), hlast, Option.bind_eq_bind, Option.bind_some]
      congr 1
      rw [Bool.eq_iff_iff, beq_iff_eq, decide_eq_true_iff, hiff]
      exact (and_iff_right hname).symm
    · rw [if_pos hname, decide_eq_false (fun hpre => hname (hiff.mp hpre).1)]

def funcOffAt (tab : List Byte) (pcln i : Nat) : Nat := pcln + le32 (tab.drop (pcln + i * 8 + 4))

def nameOffAt (tab : List Byte) (pcln i : Nat) : Nat := le32 (tab.drop (funcOffAt tab pcln i + funcNameoff))

def Strays (tab : List Byte) (pcln i : Nat) : Prop := tab.length < funcOffAt tab pcln i + 8

def Named (tab name : List Byte) (fn pcln i : Nat) : Prop :=
  nameOffAt tab pcln i < 2 ^ 31 ∧ name ++ [0] <+: tab.drop (fn + nameOffAt tab pcln i)

instance (tab : List Byte) (pcln i : Nat) : Decidable (Strays tab pcln i) := inferInstanceAs (Decidable (_ < _))
instance (tab name : List Byte) (fn pcln i : Nat) : Decidable (Named tab name fn pcln i) :=
  inferInstanceAs (Decidable (_ ∧ _))

section
variable {tab name : List Byte} {ts fn pcln i left : Nat}

theorem u64_eq (h : x < 2 ^ 64) : u64 x = x := Nat.mod_eq_of_lt h

theorem pclntabWalk_turn (hobj : tab.length < 2 ^ 64) (hin : pcln + i * 8 + 8 ≤ tab.length)
    (hfunc : funcOffAt tab pcln i + 8 < 2 ^ 64) (hfn : fn + nameOffAt tab pcln i < 2 ^ 64) :
    pclntabWalk tab name ts fn pcln (left + 1) i =
      if Strays tab pcln i then some .refused
      else if Named tab name fn pcln i then
        (rd32 tab (pcln + (i + 1) * 8)).map fun next =>
          if next ≤ le32 (tab.drop (pcln + i * 8)) then .refused
          else .found (u64 (ts + le32 (tab.drop (pcln + i * 8)))) (next - le32 (tab.drop (pcln + i * 8)))
      else pclntabWalk tab name ts fn pcln left (i + 1) := by
  have hent : u64 (i * 8) = i * 8 := u64_eq (by omega)
  have hnext : u64 ((i + 1) * 8) = (i + 1) * 8 := u64_eq (by omega)
  have hoff : u64 (pcln + le32 (tab.drop (pcln + i * 8 + 4))) = funcOffAt tab pcln i :=
    u64_eq (Nat.lt_of_le_of_lt (Nat.le_add_right _ 8) hfunc)
  have hend : u64 (funcOffAt tab pcln i + 8) = funcOffAt tab pcln i + 8 := u64_eq hfunc
  rw [pclntabWalk, hent, hnext, rd32_in (by omega), rd32_in (by omega), Option.bind_eq_bind, Option.bind_some,
    Option.bind_eq_bind, Option.bind_some, hoff, hend]
  by_cases hstray : tab.length < funcOffAt tab pcln i + 8
  · rw [if_pos hstray, if_pos (show Strays tab pcln i from hstray)]
  · have hname : rd32 tab (funcOffAt tab pcln i + funcNameoff) = some (nameOffAt tab pcln i) :=
      rd32_in (by rw [funcNameoff]; omega)
    rw [if_neg hstray, if_neg (show ¬ Strays tab pcln i from hstray), hname, Option.bind_some]
    by_cases hneg : 2 ^ 31 ≤ nameOffAt tab pcln i
    · rw [if_pos hneg, if_neg (fun hnamed => Nat.not_lt.mpr hneg hnamed.1)]
    · have hsum : u64 (fn + nameOffAt tab pcln i) = fn + nameOffAt tab pcln i := u64_eq hfn
      rw [if_neg hneg, hsum, nameIs_eq, Option.bind_some]
      by_cases hnamed : Named tab name fn pcln i
      · rw [decide_eq_true hnamed.2, if_neg (by decide), if_pos hnamed]
        cases rd32 tab (pcln + (i + 1) * 8) with
        | none => rfl
        | some next =>
          rw [Option.bind_some, Option.map_some]
          by_cases hle : next ≤ le32 (tab.drop (pcln + i * 8))
          · rw [if_pos hle, if_pos hle]
          · rw [if_neg hle, if_neg hle]
      · have hno : ¬ name ++ [0] <+: tab.drop (fn + nameOffAt tab pcln i) :=
          fun hpre => hnamed ⟨Nat.not_le.mp hneg, hpre⟩
        rw [decide_eq_false hno, Bool.not_false, if_pos rfl, if_neg hnamed]

/-- In a buffer of less than 2^63 bytes no offset of an entry wraps around. -/
theorem entry_offsets_lt (hobj : tab.length < 2 ^ 63) (hfn : fn < tab.length) (hin : pcln + i * 8 + 8 ≤ tab.length) :
    funcOffAt tab pcln i + 8 < 2 ^ 64 ∧ fn + nameOffAt tab pcln i < 2 ^ 64 := by
  have hfunc := le32_lt (tab.drop (pcln + i * 8 + 4))
  have hname := le32_lt (tab.drop (funcOffAt tab pcln i + funcNameoff))
  exact ⟨by rw [funcOffAt]; omega, by rw [nameOffAt]; omega⟩

def tableRoom (tab : List Byte) (pcln : Nat) : Nat := (tab.length - pcln) / 8

theorem lt_tableRoom (hpcln : pcln ≤ tab.length) : i < tableRoom tab pcln ↔ pcln + i * 8 + 8 ≤ tab.length := by
  rw [tableRoom]
  omega

theorem pclntabWalk_in (hobj : tab.length < 2 ^ 63) (hfn : fn < tab.length) (hpcln : pcln ≤ tab.length)
    (hroom : i + left + 1 ≤ tableRoom tab pcln) : (pclntabWalk tab name ts fn pcln left i).isSome := by
  induction left generalizing i with
  | zero => rfl
  | succ left ih =>
    have hin := (lt_tableRoom hpcln).mp (show i < tableRoom tab pcln by omega)
    have hnext := (lt_tableRoom hpcln).mp (show i + 1 < tableRoom tab pcln by omega)
    obtain ⟨hfunc, hname⟩ := entry_offsets_lt hobj hfn hin
    rw [pclntabWalk_turn (by omega) hin hfunc hname]
    split
    · rfl
    · split
      · rw [rd32_in (by omega)]
        rfl
      · exact ih (by omega)

/-- An entry of the table, held by the buffer, at which the loop ends without a read beyond it. -/
def EndsAt (tab name : List Byte) (fn pcln j : Nat) : Prop :=
  pcln + j * 8 + 8 ≤ tab.length ∧
    (Strays tab pcln j ∨ Named tab name fn pcln j ∧ pcln + (j + 1) * 8 + 4 ≤ tab.length)

def Passes (tab name : List Byte) (fn pcln j : Nat) : Prop := ¬ Strays tab pcln j ∧ ¬ Named tab name fn pcln j

theorem pclntabWalk_out (hobj : tab.length < 2 ^ 63) (hpcln : pcln ≤ tab.length) (hi : i = tableRoom tab pcln) :
    pclntabWalk tab name ts fn pcln (left + 1) i = none := by
  rw [tableRoom] at hi
  have hent : u64 (i * 8) = i * 8 := u64_eq (by omega)
  rw [pclntabWalk, hent, rd32_out (show tab.length < pcln + i * 8 + 4 + 4 by omega)]
  rfl

theorem pclntabWalk_over (hobj : tab.length < 2 ^ 63) (hfn : fn < tab.length) (hpcln : pcln ≤ tab.length)
    (hover : tableRoom tab pcln < i + left) (hi : i ≤ tableRoom tab pcln) :
    (pclntabWalk tab name ts fn pcln left i).isSome ↔
      ∃ j, i ≤ j ∧ EndsAt tab name fn pcln j ∧ ∀ k, i ≤ k → k < j → Passes tab name fn pcln k := by
  induction left generalizing i with
  | zero => omega
  | succ left ih =>
    rcases Nat.lt_or_eq_of_le hi with hlt | heq
    · have hin := (lt_tableRoom hpcln).mp hlt
      obtain ⟨hfunc, hname⟩ := entry_offsets_lt hobj hfn hin
      rw [pclntabWalk_turn (by omega) hin hfunc hname]
      by_cases hstray : Strays tab pcln i
      · rw [if_pos hstray]
        refine iff_of_true rfl ⟨i, Nat.le_refl i, ⟨hin, .inl hstray⟩, ?_⟩
        intro k hik hki
        omega
      · rw [if_neg hstray]
        by_cases hnamed : Named tab name fn pcln i
        · rw [if_pos hnamed, Option.isSome_map]
          constructor
          · intro hsome
            refine ⟨i, Nat.le_refl i, ⟨hin, .inr ⟨hnamed, ?_⟩⟩, fun k hik hki => by omega⟩
            by_contra hout
            rw [rd32_out (by omega)] at hsome
            cases hsome
          · rintro ⟨j, hij, hends, hpass⟩
            rcases Nat.lt_or_eq_of_le hij with hij | rfl
            · exact absurd hnamed (hpass i (Nat.le_refl i) hij).2
            · rw [rd32_in (hends.2.resolve_left hstray).2]
              rfl
        · rw [if_neg hnamed, ih (by omega) hlt]
          constructor
          · rintro ⟨j, hij, hends, hpass⟩
            refine ⟨j, Nat.le_of_succ_le hij, hends, fun k hik hkj => ?_⟩
            rcases Nat.lt_or_eq_of_le hik with hik | rfl
            · exact hpass k hik hkj
            · exact ⟨hstray, hnamed⟩
          · rintro ⟨j, hij, hends, hpass⟩
            rcases Nat.lt_or_eq_of_le hij with hij | rfl
            · exact ⟨j, hij, hends, fun k hik hkj => hpass k (Nat.le_of_succ_le hik) hkj⟩
            · rcases hends.2 with h | h
              · exact absurd h hstray
              · exact absurd h.1 hnamed
    · rw [pclntabWalk_out hobj hpcln heq]
      refine iff_of_false (by simp) ?_
      rintro ⟨j, hij, hends, -⟩
      have hlt := (lt_tableRoom hpcln).mpr hends.1
      omega

end

structure Accepted (tab : List Byte) : Prop where
  size : hdrSize ≤ tab.length
  magic : le32 tab = goMagic118 ∨ le32 tab = goMagic120
  pad : tab.getD 4 0 = 0 ∧ tab.getD 5 0 = 0 ∧ tab.getD 7 0 = 8
  minLc : tab.getD 6 0 ≠ 0
  funcname : le64 (tab.drop hdrFuncname) < tab.length
  pcln : le64 (tab.drop hdrPcln) < tab.length
  nfunc : le64 (tab.drop hdrNfunc) ≠ 0 ∧
    u64 (le64 (tab.drop hdrNfunc) + 1) ≤ tableRoom tab (le64 (tab.drop hdrPcln))

theorem lkGoPclntabFind_checks (hlen : hdrSize ≤ tab.length) (textBase : Nat) (name : List Byte) :
    lkGoPclntabFind tab textBase name =
      if le32 tab ≠ goMagic118 ∧ le32 tab ≠ goMagic120 then some .refused
      else if tab.getD 4 0 ≠ 0 ∨ tab.getD 5 0 ≠ 0 ∨ tab.getD 7 0 ≠ 8 then some .refused
      else if tab.getD 6 0 = 0 then some .refused
      else if tab.length ≤ le64 (tab.drop hdrFuncname) ∨ tab.length ≤ le64 (tab.drop hdrPcln) then some .refused
      else if le64 (tab.drop hdrNfunc) = 0 ∨
          tableRoom tab (le64 (tab.drop hdrPcln)) < u64 (le64 (tab.drop hdrNfunc) + 1) then some .refused
      else pclntabWalk tab name (if le64 (tab.drop hdrTextstart) = 0 then textBase else le64 (tab.drop hdrTextstart))
        (le64 (tab.drop hdrFuncname)) (le64 (tab.drop hdrPcln)) (le64 (tab.drop hdrNfunc)) 0 := by
  have h72 : 72 ≤ tab.length := hlen
  rw [lkGoPclntabFind, if_neg (Nat.not_lt.mpr hlen), rd32_in (by omega), rd8_in (show 4 < tab.length by omega),
    rd8_in (show 5 < tab.length by omega), rd8_in (show 7 < tab.length by omega), rd8_in (show 6 < tab.length by omega),
    rd64_in (show hdrNfunc + 8 ≤ tab.length by rw [hdrNfunc]; omega),
    rd64_in (show hdrTextstart + 8 ≤ tab.length by rw [hdrTextstart]; omega),
    rd64_in (show hdrFuncname + 8 ≤ tab.length by rw [hdrFuncname]; omega),
    rd64_in (show hdrPcln + 8 ≤ tab.length by rw [hdrPcln]; omega)]
  repeat rw [Option.bind_eq_bind]
  repeat rw [Option.bind_some]
  rw [List.drop_zero, tableRoom]

theorem lkGoPclntabFind_cases (tab : List Byte) (textBase : Nat) (name : List Byte) :
    (¬ Accepted tab ∧ lkGoPclntabFind tab textBase name = some .refused) ∨
      Accepted tab ∧ ∃ ts, lkGoPclntabFind tab textBase name = pclntabWalk tab name ts (le64 (tab.drop hdrFuncname))
        (le64 (tab.drop hdrPcln)) (le64 (tab.drop hdrNfunc)) 0 := by
  by_cases hsize : tab.length < hdrSize
  · refine .inl ⟨fun h => Nat.not_lt.mpr h.size hsize, ?_⟩
    rw [lkGoPclntabFind, if_pos hsize]
  rw [lkGoPclntabFind_checks (Nat.not_lt.mp hsize)]
  by_cases hmagic : le32 tab ≠ goMagic118 ∧ le32 tab ≠ goMagic120
  · exact .inl ⟨fun h => h.magic.elim hmagic.1 hmagic.2, if_pos hmagic⟩
  rw [if_neg hmagic]
  by_cases hpad : tab.getD 4 0 ≠ 0 ∨ tab.getD 5 0 ≠ 0 ∨ tab.getD 7 0 ≠ 8
  · refine .inl ⟨fun h => ?_, if_pos hpad⟩
    rcases hpad with hpad | hpad | hpad
    · exact hpad h.pad.1
    · exact hpad h.pad.2.1
    · exact hpad h.pad.2.2
  rw [if_neg hpad]
  by_cases hlc : tab.getD 6 0 = 0
  · exact .inl ⟨fun h => h.minLc hlc, if_pos hlc⟩
  rw [if_neg hlc]
  by_cases hoffs : tab.length ≤ le64 (tab.drop hdrFuncname) ∨ tab.length ≤ le64 (tab.drop hdrPcln)
  · refine .inl ⟨fun h => ?_, if_pos hoffs⟩
    exact hoffs.elim (Nat.not_le.mpr h.funcname) (Nat.not_le.mpr h.pcln)
  rw [if_neg hoffs]
  by_cases hnfunc : le64 (tab.drop hdrNfunc) = 0 ∨
      tableRoom tab (le64 (tab.drop hdrPcln)) < u64 (le64 (tab.drop hdrNfunc) + 1)
  · refine .inl ⟨fun h => ?_, if_pos hnfunc⟩
    exact hnfunc.elim h.nfunc.1 (Nat.not_lt.mpr h.nfunc.2)
  rw [if_neg hnfunc]
  rw [not_or, ne_eq, not_not, not_or, ne_eq, not_not, ne_eq, not_not] at hpad
  rw [not_or] at hoffs hnfunc
  exact .inr ⟨⟨Nat.not_lt.mp hsize, by omega, hpad, hlc, Nat.not_le.mp hoffs.1, Nat.not_le.mp hoffs.2,
    hnfunc.1, Nat.not_lt.mp hnfunc.2⟩, _, rfl⟩

theorem lkGoPclntabFind_accepted (h : Accepted tab) (textBase : Nat) (name : List Byte) :
    lkGoPclntabFind tab textBase name =
      pclntabWalk tab name (if le64 (tab.drop hdrTextstart) = 0 then textBase else le64 (tab.drop hdrTextstart))
        (le64 (tab.drop hdrFuncname)) (le64 (tab.drop hdrPcln)) (le64 (tab.drop hdrNfunc)) 0 := by
  rw [lkGoPclntabFind_checks h.size, if_neg (fun hno => h.magic.elim hno.1 hno.2),
    if_neg (by rw [h.pad.1, h.pad.2.1, h.pad.2.2]; decide), if_neg h.minLc,
    if_neg (fun hno => hno.elim (Nat.not_le.mpr h.funcname) (Nat.not_le.mpr h.pcln)),
    if_neg (fun hno => hno.elim h.nfunc.1 (Nat.not_lt.mpr h.nfunc.2))]

/-- Every read stays in the buffer exactly when the number of functions plus one does not wrap to zero, or the loop
ends at an entry before it has left the buffer. -/
theorem lkGoPclntabFind_bounded (tab : List Byte) (hobj : tab.length < 2 ^ 63) (textBase : Nat) (name : List Byte) :
    (lkGoPclntabFind tab textBase name).isSome ↔
      ¬ Accepted tab ∨ le64 (tab.drop hdrNfunc) ≠ 2 ^ 64 - 1 ∨
        ∃ j, EndsAt tab name (le64 (tab.drop hdrFuncname)) (le64 (tab.drop hdrPcln)) j ∧
          ∀ k, k < j → Passes tab name (le64 (tab.drop hdrFuncname)) (le64 (tab.drop hdrPcln)) k := by
  rcases lkGoPclntabFind_cases tab textBase name with ⟨hno, hrefused⟩ | ⟨hacc, ts, hwalk⟩
  · rw [hrefused]
    exact iff_of_true rfl (.inl hno)
  have hpcln := Nat.le_of_lt hacc.pcln
  have hlt := le64_lt (tab.drop hdrNfunc)
  rw [hwalk, or_iff_right (not_not.mpr hacc)]
  by_cases hwrap : le64 (tab.drop hdrNfunc) = 2 ^ 64 - 1
  · have hover : tableRoom tab (le64 (tab.drop hdrPcln)) < 0 + le64 (tab.drop hdrNfunc) := by
      rw [tableRoom]
      omega
    rw [or_iff_right (not_not.mpr hwrap), pclntabWalk_over hobj hacc.funcname hpcln hover (Nat.zero_le _)]
    constructor
    · rintro ⟨j, -, hends, hpass⟩
      exact ⟨j, hends, fun k => hpass k (Nat.zero_le k)⟩
    · rintro ⟨j, hends, hpass⟩
      exact ⟨j, Nat.zero_le j, hends, fun k _ => hpass k⟩
  · have hroom := hacc.nfunc.2
    rw [u64_eq (by omega)] at hroom
    exact iff_of_true (pclntabWalk_in hobj hacc.funcname hpcln (by omega)) (.inl hwrap)

def wrappedTab : List Byte :=
  [0xf1, 0xff, 0xff, 0xff, 0, 0, 1, 8] ++ List.replicate 8 0xff ++ List.replicate 48 0 ++ [71, 0, 0, 0, 0, 0, 0, 0]

theorem lkGoPclntabFind_bounded_wrapped :
    wrappedTab.length < 2 ^ 63 ∧ ((lkGoPclntabFind wrappedTab 0 []).isSome ↔
      ¬ Accepted wrappedTab ∨ le64 (wrappedTab.drop hdrNfunc) ≠ 2 ^ 64 - 1 ∨
        ∃ j, EndsAt wrappedTab [] (le64 (wrappedTab.drop hdrFuncname)) (le64 (wrappedTab.drop hdrPcln)) j ∧
          ∀ k, k < j → Passes wrappedTab [] (le64 (wrappedTab.drop hdrFuncname)) (le64 (wrappedTab.drop hdrPcln)) k) :=
  ⟨by decide, lkGoPclntabFind_bounded wrappedTab (by decide) 0 []⟩

/-- The first entry is read from beyond the buffer. -/
theorem lkGoPclntabFind_overruns : wrappedTab.length = 72 ∧ lkGoPclntabFind wrappedTab 0 [] = none := by
  decide +kernel

end Latkit
