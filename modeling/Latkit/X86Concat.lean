import Latkit.X86Len

/-! The decoder reads an instruction and nothing behind it, so bodies can be searched one after the other. -/

namespace Latkit

theorem x86Prefixes_reads (h : x86Prefixes i opsz addrsz p = some (j, opsz', addrsz', q)) :
    ∃ u b t, p = u ++ b :: t ∧ q = b :: t ∧ j = i + u.length ∧
      ∀ t', x86Prefixes i opsz addrsz (u ++ b :: t') = some (j, opsz', addrsz', b :: t') := by
  induction p generalizing i opsz addrsz with
  | nil => cases h
  | cons b p ih =>
    rw [x86Prefixes] at h
    have hstep : ∀ opsz₁ addrsz₁, x86Prefixes (i + 1) opsz₁ addrsz₁ p = some (j, opsz', addrsz', q) →
        (∀ t, x86Prefixes i opsz addrsz (b :: t) = x86Prefixes (i + 1) opsz₁ addrsz₁ t) →
        ∃ u c t, b :: p = u ++ c :: t ∧ q = c :: t ∧ j = i + u.length ∧
          ∀ t', x86Prefixes i opsz addrsz (u ++ c :: t') = some (j, opsz', addrsz', c :: t') := by
      intro opsz₁ addrsz₁ hrest heq
      obtain ⟨u, c, t, rfl, hq, hj, hall⟩ := ih hrest
      refine ⟨b :: u, c, t, rfl, hq, by rw [hj, List.length_cons]; omega, fun t' => ?_⟩
      rw [List.cons_append, heq, hall]
    by_cases hi : x86MaxInsn ≤ i
    · rw [if_pos hi] at h
      cases h
    rw [if_neg hi] at h
    by_cases h66 : b = 0x66
    · rw [if_pos h66] at h
      exact hstep _ _ h fun t => by rw [x86Prefixes, if_neg hi, if_pos h66]
    rw [if_neg h66] at h
    by_cases h67 : b = 0x67
    · rw [if_pos h67] at h
      exact hstep _ _ h fun t => by rw [x86Prefixes, if_neg hi, if_neg h66, if_pos h67]
    rw [if_neg h67] at h
    by_cases hother : [0xf0, 0xf2, 0xf3, 0x2e, 0x36, 0x3e, 0x26, 0x64, 0x65].contains b
    · rw [if_pos hother] at h
      exact hstep _ _ h fun t => by rw [x86Prefixes, if_neg hi, if_neg h66, if_neg h67, if_pos hother]
    rw [if_neg hother] at h
    cases h
    refine ⟨[], b, p, rfl, rfl, rfl, fun t' => ?_⟩
    rw [List.nil_append, x86Prefixes, if_neg hi, if_neg h66, if_neg h67, if_neg hother]

theorem x86Rex_reads (h : x86Rex i p = some (j, rexW, q)) :
    ∃ u b t, p = u ++ b :: t ∧ q = b :: t ∧ j = i + u.length ∧ ∀ t', x86Rex i (u ++ b :: t') = some (j, rexW, b :: t') := by
  cases p with
  | nil => cases h
  | cons b p =>
    rw [x86Rex] at h
    by_cases hrex : b &&& 0xf0 = 0x40
    · rw [if_pos hrex] at h
      cases p with
      | nil => cases h
      | cons c p =>
        cases h
        refine ⟨[b], c, p, rfl, rfl, rfl, fun t' => ?_⟩
        rw [List.singleton_append, x86Rex, if_pos hrex]
        rfl
    · rw [if_neg hrex] at h
      cases h
      exact ⟨[], b, p, rfl, rfl, rfl, fun t' => by rw [List.nil_append, x86Rex, if_neg hrex]⟩

theorem x86Opcode_reads (h : x86Opcode i (b :: p) = some (j, op, flags, q)) :
    ∃ u, p = u ++ q ∧ j = i + 1 + u.length ∧ ∀ q', x86Opcode i (b :: (u ++ q')) = some (j, op, flags, q') := by
  rw [x86Opcode.eq_def] at h
  dsimp only at h
  by_cases h0f : b = 0x0f
  · rw [if_pos h0f] at h
    cases p with
    | nil => cases h
    | cons c p =>
      dsimp only at h
      by_cases hthree : c = 0x38 ∨ c = 0x3a
      · rw [if_pos hthree] at h
        cases p with
        | nil => cases h
        | cons d p =>
          cases h
          refine ⟨[op, d], rfl, rfl, fun q' => ?_⟩
          simp only [x86Opcode, List.cons_append, List.nil_append, if_pos h0f, if_pos hthree]
      · rw [if_neg hthree] at h
        cases h
        refine ⟨[op], rfl, rfl, fun q' => ?_⟩
        simp only [x86Opcode, List.cons_append, List.nil_append, if_pos h0f, if_neg hthree]
  · rw [if_neg h0f] at h
    cases h
    exact ⟨[], rfl, rfl, fun q' => by simp only [List.nil_append, x86Opcode, if_neg h0f]⟩

theorem x86Modrm_reads (h : x86Modrm i op flags p = some (j, flags')) :
    ∃ u, u <+: p ∧ i + u.length ≤ j ∧ ∀ q, x86Modrm i op flags (u ++ q) = some (j, flags') := by
  rw [x86Modrm.eq_def] at h
  by_cases hflag : hasFlag flags opModrm = true
  · rw [if_pos hflag] at h
    cases p with
    | nil => cases h
    | cons modrm p =>
      dsimp only at h
      by_cases hmod : modrm >>> 6 ≠ 3
      · rw [if_pos hmod] at h
        by_cases hrm : modrm &&& 7 = 4
        · rw [if_pos hrm] at h
          cases p with
          | nil => cases h
          | cons sib p =>
            cases h
            refine ⟨[modrm, sib], ⟨p, rfl⟩, ?_, fun q => ?_⟩
            · rw [List.length_cons, List.length_singleton]
              omega
            · simp only [x86Modrm, List.cons_append, List.nil_append, if_pos hflag, if_pos hmod, if_pos hrm]
        · rw [if_neg hrm] at h
          cases h
          refine ⟨[modrm], ⟨p, rfl⟩, ?_, fun q => ?_⟩
          · rw [List.length_singleton]
            omega
          · simp only [x86Modrm, List.cons_append, List.nil_append, if_pos hflag, if_pos hmod, if_neg hrm]
      · rw [if_neg hmod] at h
        cases h
        refine ⟨[modrm], ⟨p, rfl⟩, Nat.le_refl _, fun q => ?_⟩
        simp only [x86Modrm, List.cons_append, List.nil_append, if_pos hflag, if_neg hmod]
  · rw [if_neg hflag] at h
    cases h
    exact ⟨[], List.nil_prefix, Nat.le_refl _, fun q => by simp only [x86Modrm, if_neg hflag]⟩

theorem insnLen_reads (h : insnLen p = some (l, opOff)) :
    opOff < l ∧ l ≤ p.length ∧ l ≤ x86MaxInsn ∧
      ∃ u, u <+: p ∧ u.length ≤ l ∧ ∀ q, l ≤ (u ++ q).length → insnLen (u ++ q) = some (l, opOff) := by
  rw [insnLen] at h
  obtain ⟨⟨i, opsz, addrsz, q₁⟩, h₁, h⟩ := Option.bind_eq_some_iff.mp h
  obtain ⟨⟨off, rexW, q₂⟩, h₂, h⟩ := Option.bind_eq_some_iff.mp h
  obtain ⟨⟨k, op, flags, q₃⟩, h₃, h⟩ := Option.bind_eq_some_iff.mp h
  obtain ⟨u₁, b, t, rfl, rfl, rfl, hall₁⟩ := x86Prefixes_reads h₁
  obtain ⟨u₂, c, t₂, hbt, rfl, rfl, hall₂⟩ := x86Rex_reads h₂
  obtain ⟨u₃, rfl, rfl, hall₃⟩ := x86Opcode_reads h₃
  dsimp only at h
  by_cases hbad : hasFlag flags opBad = true
  · rw [if_pos hbad] at h
    cases h
  rw [if_neg hbad] at h
  obtain ⟨⟨n, flags'⟩, h₄, h⟩ := Option.bind_eq_some_iff.mp h
  obtain ⟨u₄, hpre, hle, hall₄⟩ := x86Modrm_reads h₄
  dsimp only at h
  by_cases hlong : (u₁ ++ b :: t).length < n + x86Imm flags' opsz addrsz rexW ∨
      x86MaxInsn < n + x86Imm flags' opsz addrsz rexW
  · rw [if_pos hlong] at h
    cases h
  rw [if_neg hlong] at h
  cases h
  rw [not_or, Nat.not_lt, Nat.not_lt] at hlong
  obtain ⟨rest, hrest⟩ := hpre
  refine ⟨by omega, hlong.1, hlong.2, u₁ ++ (u₂ ++ c :: (u₃ ++ u₄)), ⟨rest, ?_⟩, ?_, fun q hq => ?_⟩
  · rw [hbt, ← hrest]
    simp only [List.append_assoc, List.cons_append]
  · simp only [List.length_append, List.length_cons]
    omega
  · have hp₁ : ∀ t', x86Prefixes 0 false false (u₁ ++ (u₂ ++ c :: t')) =
        some (0 + u₁.length, opsz, addrsz, u₂ ++ c :: t') := by
      intro t'
      cases u₂ with
      | nil =>
        cases hbt
        exact hall₁ t'
      | cons d u₂ =>
        cases hbt
        exact hall₁ (u₂ ++ c :: t')
    have happ : u₁ ++ (u₂ ++ c :: (u₃ ++ u₄)) ++ q = u₁ ++ (u₂ ++ c :: (u₃ ++ (u₄ ++ q))) := by
      simp only [List.append_assoc, List.cons_append]
    rw [happ] at hq ⊢
    rw [insnLen, hp₁, Option.bind_eq_bind, Option.bind_some]
    dsimp only
    rw [hall₂, Option.bind_eq_bind, Option.bind_some]
    dsimp only
    rw [hall₃, Option.bind_eq_bind, Option.bind_some]
    dsimp only
    rw [if_neg hbad, hall₄, Option.bind_eq_bind, Option.bind_some]
    dsimp only
    rw [if_neg (not_or.mpr ⟨Nat.not_lt.mpr hq, Nat.not_lt.mpr hlong.2⟩)]

theorem insnLen_agrees (h : insnLen p = some (l, opOff)) (hq : l ≤ q.length) (hpq : q.take l = p.take l) :
    insnLen q = some (l, opOff) := by
  obtain ⟨-, -, -, u, ⟨rest, hu⟩, hle, hall⟩ := insnLen_reads h
  have hpre : u <+: q := by
    have htake : u <+: p.take l := List.prefix_take_iff.mpr ⟨⟨rest, hu⟩, hle⟩
    rw [← hpq] at htake
    exact htake.trans (List.take_prefix l q)
  obtain ⟨rest', rfl⟩ := hpre
  exact hall rest' hq

/-- The instructions of a body one after the other, and where its returns start. -/
inductive Walks : List Byte → List Nat → Prop
  | nil : Walks [] []
  | ret (hlen : insnLen code = some (l, opOff)) (hl : l ≠ 0) (hop : code.getD opOff 0 = 0xc3 ∨ code.getD opOff 0 = 0xc2)
      (hrest : Walks (code.drop l) rets) : Walks code (0 :: rets.map (l + ·))
  | other (hlen : insnLen code = some (l, opOff)) (hl : l ≠ 0)
      (hop : ¬ (code.getD opOff 0 = 0xc3 ∨ code.getD opOff 0 = 0xc2)) (hrest : Walks (code.drop l) rets) :
      Walks code (rets.map (l + ·))

def written (off : Nat) (rets : List Nat) : List UInt32 := rets.map fun r => UInt32.ofNat (off + r)

theorem written_shift (off l : Nat) (rets : List Nat) : written off (rets.map (l + ·)) = written (off + l) rets := by
  simp only [written, List.map_map, Function.comp_def, Nat.add_assoc]

theorem x86Walk_walks (h : x86Walk len limit off out code = some res) : ∃ rets, Walks code rets ∧ res = out ++ written off rets := by
  fun_induction x86Walk len limit off out code with
  | case1 => cases h
  | case2 =>
    cases h
    exact ⟨[], .nil, (List.append_nil _).symm⟩
  | case3 => cases h
  | case4 => cases h
  | case5 => cases h
  | case6 off out code hcode l opOff hlen hl op hop hmax ih =>
    obtain ⟨rets, hwalks, hres⟩ := ih h
    refine ⟨_, .ret hlen hl hop hwalks, ?_⟩
    rw [hres, List.append_assoc]
    exact congrArg (out ++ UInt32.ofNat off :: ·) (written_shift off l rets).symm
  | case7 off out code hcode l opOff hlen hl op hop ih =>
    obtain ⟨rets, hwalks, hres⟩ := ih h
    exact ⟨_, .other hlen hl hop hwalks, by rw [hres, written_shift]⟩

theorem insn_rest_length (hlen : insnLen code = some (l, opOff)) : l + (code.drop l).length = code.length := by
  have hle := (insnLen_reads hlen).2.1
  rw [List.length_drop]
  omega

theorem insn_ne_nil (hlen : insnLen code = some (l, opOff)) (hl : l ≠ 0) : code ≠ [] := by
  rintro rfl
  have hle := (insnLen_reads hlen).2.1
  exact hl (Nat.le_zero.mp hle)

theorem Walks.x86Walk_eq (h : Walks code rets) (hoff : len = off + code.length) (hmax : out.length + rets.length ≤ limit) :
    x86Walk len limit off out code = some (out ++ written off rets) := by
  induction h generalizing off out with
  | nil =>
    have hlen : len = off := hoff
    rw [x86Walk, if_pos rfl, if_neg (not_not.mpr hlen.symm), written, List.map_nil, List.append_nil]
  | @ret code l opOff rets hlen hl hop hrest ih =>
    have hrec := insn_rest_length hlen
    rw [List.length_cons, List.length_map] at hmax
    rw [x86Walk, if_neg (insn_ne_nil hlen hl), hlen]
    dsimp only
    rw [if_neg hl, if_pos hop, if_neg (by omega), ih (by omega) (by rw [List.length_append, List.length_singleton]; omega),
      List.append_assoc, ← written_shift]
    rfl
  | @other code l opOff rets hlen hl hop hrest ih =>
    have hrec := insn_rest_length hlen
    rw [List.length_map] at hmax
    rw [x86Walk, if_neg (insn_ne_nil hlen hl), hlen]
    dsimp only
    rw [if_neg hl, if_neg hop, ih (by omega) hmax, written_shift]

theorem insnLen_append (hlen : insnLen code = some (l, opOff)) (b : List Byte) :
    insnLen (code ++ b) = some (l, opOff) ∧ (code ++ b).getD opOff 0 = code.getD opOff 0 ∧
      (code ++ b).drop l = code.drop l ++ b := by
  obtain ⟨hoff, hle, -, -⟩ := insnLen_reads hlen
  refine ⟨?_, ?_, List.drop_append_of_le_length hle⟩
  · apply insnLen_agrees hlen
    · rw [List.length_append]
      omega
    · exact List.take_append_of_le_length hle
  · rw [List.getD_eq_getElem?_getD, List.getD_eq_getElem?_getD, List.getElem?_append_left (by omega)]

theorem shift_rest (hlen : insnLen code = some (l, opOff)) (rets retsB : List Nat) :
    (rets ++ retsB.map ((code.drop l).length + ·)).map (l + ·) = rets.map (l + ·) ++ retsB.map (code.length + ·) := by
  have hrest := insn_rest_length hlen
  rw [List.map_append, List.map_map, ← hrest]
  simp only [Function.comp_def, Nat.add_assoc]

theorem Walks.append (ha : Walks a retsA) (hb : Walks b retsB) : Walks (a ++ b) (retsA ++ retsB.map (a.length + ·)) := by
  induction ha with
  | nil => simpa using hb
  | @ret code l opOff rets hlen hl hop hrest ih =>
    obtain ⟨hlen', hop', hdrop⟩ := insnLen_append hlen b
    rw [← hop'] at hop
    rw [← hdrop] at ih
    rw [List.cons_append, ← shift_rest hlen]
    exact .ret hlen' hl hop ih
  | @other code l opOff rets hlen hl hop hrest ih =>
    obtain ⟨hlen', hop', hdrop⟩ := insnLen_append hlen b
    rw [← hop'] at hop
    rw [← hdrop] at ih
    rw [← shift_rest hlen]
    exact .other hlen' hl hop ih

theorem lkX86FindRets_walks (h : lkX86FindRets code limit = some res) :
    code ≠ [] ∧ ∃ rets, Walks code rets ∧ res = written 0 rets := by
  rw [lkX86FindRets] at h
  by_cases hno : limit = 0 ∨ code = []
  · rw [if_pos hno] at h
    cases h
  · rw [if_neg hno] at h
    exact ⟨(not_or.mp hno).2, x86Walk_walks h⟩

theorem written_add (off : Nat) (rets : List Nat) :
    written 0 (rets.map (off + ·)) = (written 0 rets).map (UInt32.ofNat off + ·) := by
  simp only [written, List.map_map, Function.comp_def, Nat.zero_add, UInt32.ofNat_add]

theorem Walks.found (h : Walks code rets) (hcode : code ≠ []) (hlimit : 0 < limit) (hroom : rets.length ≤ limit) :
    lkX86FindRets code limit = some (written 0 rets) := by
  rw [lkX86FindRets, if_neg (not_or.mpr ⟨Nat.ne_of_gt hlimit, hcode⟩)]
  exact h.x86Walk_eq (Nat.zero_add _).symm (by rw [List.length_nil]; omega)

/-- A decoded length rests on the bytes it covers alone, and the returns of two bodies are the returns of the bodies
one after the other. -/
theorem x86_self_delimiting :
    (∀ p l opOff, insnLen p = some (l, opOff) → l ≤ p.length ∧ l ≤ 15 ∧
      ∀ q, l ≤ q.length → q.take l = p.take l → insnLen q = some (l, opOff)) ∧
    ∀ a b maxA maxB retsA retsB, lkX86FindRets a maxA = some retsA → lkX86FindRets b maxB = some retsB →
      ∀ limit, 0 < limit → retsA.length + retsB.length ≤ limit →
        lkX86FindRets (a ++ b) limit = some (retsA ++ retsB.map (UInt32.ofNat a.length + ·)) := by
  constructor
  · intro p l opOff h
    obtain ⟨-, hle, hmax, -⟩ := insnLen_reads h
    exact ⟨hle, hmax, fun q => insnLen_agrees h⟩
  · intro a b maxA maxB retsA retsB ha hb limit hlimit hroom
    obtain ⟨hne, ra, hwa, rfl⟩ := lkX86FindRets_walks ha
    obtain ⟨-, rb, hwb, rfl⟩ := lkX86FindRets_walks hb
    have hfound := (hwa.append hwb).found (List.append_ne_nil_of_left_ne_nil hne b) hlimit (by
      rw [written, written, List.length_map, List.length_map] at hroom
      rwa [List.length_append, List.length_map])
    rw [hfound, ← written_add]
    exact congrArg some List.map_append

theorem walks_ret : Walks [0xc3] [0] := by
  have hlen : insnLen [0xc3] = some (1, 0) := by decide +kernel
  exact Walks.ret hlen Nat.one_ne_zero (by decide) Walks.nil

theorem walks_nop_ret : Walks [0x90, 0xc3] [1] := by
  have hlen : insnLen [0x90, 0xc3] = some (1, 0) := by decide +kernel
  exact Walks.other hlen Nat.one_ne_zero (by decide) walks_ret

theorem x86_self_delimiting_two :
    lkX86FindRets [0x90, 0xc3] 1 = some [1] ∧ lkX86FindRets [0xc3] 1 = some [0] ∧
      lkX86FindRets [0x90, 0xc3, 0xc3] 2 = some [1, 2] := by
  have ha : lkX86FindRets [0x90, 0xc3] 1 = some [1] := walks_nop_ret.found (by decide) Nat.one_pos (by decide)
  have hb : lkX86FindRets [0xc3] 1 = some [0] := walks_ret.found (by decide) Nat.one_pos (by decide)
  exact ⟨ha, hb, x86_self_delimiting.2 [0x90, 0xc3] [0xc3] 1 1 [1] [0] ha hb 2 (by decide) (by decide)⟩

end Latkit
