import Latkit.NormSql

namespace Latkit

/-! What the lexer has read up to a gap does not depend on what follows. -/

def isGap (b : Byte) : Bool := sqlIsSpace b || b == '('.toUInt8 || b == ','.toUInt8

def EndsGap (p : List Byte) : Prop := p.getLast?.any isGap = true

section
variable {f : Byte → Bool} {p x rest : List Byte} {my : Bool} {ver : Nat}

theorem EndsGap.ne_nil (h : EndsGap p) : p ≠ [] := by
  rintro rfl
  cases h

theorem EndsGap.suffix (h : EndsGap p) (hs : rest <:+ p) (hne : rest ≠ []) : EndsGap rest := by
  obtain ⟨w, rfl⟩ := hs
  rwa [EndsGap, List.getLast?_append_of_ne_nil _ hne] at h

theorem EndsGap.extend (h : EndsGap rest) (hs : rest <:+ p) : EndsGap p := by
  obtain ⟨w, rfl⟩ := hs
  rwa [EndsGap, List.getLast?_append_of_ne_nil _ h.ne_nil]

theorem EndsGap.mem (h : EndsGap p) : ∃ b ∈ p, isGap b = true := by
  rw [EndsGap, Option.any_eq_true] at h
  obtain ⟨b, hb, hgap⟩ := h
  exact ⟨b, List.mem_of_getLast? hb, hgap⟩

theorem EndsGap.head? (h : EndsGap p) (x : List Byte) : (p ++ x).head? = p.head? :=
  List.head?_append_of_ne_nil _ h.ne_nil

theorem EndsGap.tail (h : EndsGap p) (x : List Byte) : (p ++ x).tail = p.tail ++ x :=
  List.tail_append_of_ne_nil h.ne_nil

theorem dropWhile_open (h : p.dropWhile f ≠ []) (x : List Byte) : (p ++ x).dropWhile f = p.dropWhile f ++ x := by
  rw [List.dropWhile_append, if_neg (by simpa using h)]

theorem EndsGap.run (h : EndsGap p) (hf : ∀ b, isGap b = true → f b = false) (x : List Byte) :
    (p ++ x).takeWhile f = p.takeWhile f ∧ (p ++ x).dropWhile f = p.dropWhile f ++ x ∧ EndsGap (p.dropWhile f) := by
  obtain ⟨b, hb, hgap⟩ := h.mem
  have hne : p.dropWhile f ≠ [] := by
    intro hnil
    have hall := List.dropWhile_eq_nil_iff.mp hnil b hb
    rw [hf b hgap] at hall
    cases hall
  have hlt : ¬ (p.takeWhile f).length = p.length := by
    intro heq
    have hsplit := congrArg List.length (List.takeWhile_append_dropWhile (p := f) (l := p))
    rw [List.length_append, heq] at hsplit
    exact hne (List.length_eq_zero_iff.mp (by omega))
  refine ⟨?_, dropWhile_open hne x, h.suffix (List.dropWhile_suffix f) hne⟩
  rw [List.takeWhile_append, if_neg hlt]

theorem gap_mem (h : isGap b = true) :
    b ∈ ([sqlSpace, 0x09, sqlNewline, 0x0d, 0x0c, 0x0b, '('.toUInt8, ','.toUInt8] : List Byte) := by
  simpa [isGap, sqlIsSpace, or_assoc] using h

theorem gap_classes (b : Byte) (h : isGap b = true) :
    sqlIsDigit b = false ∧ isIdentCont b = false ∧ inTag b = false ∧ inNumber b = false ∧ isOpChar b = false := by
  have hall : ∀ b ∈ ([sqlSpace, 0x09, sqlNewline, 0x0d, 0x0c, 0x0b, '('.toUInt8, ','.toUInt8] : List Byte),
      sqlIsDigit b = false ∧ isIdentCont b = false ∧ inTag b = false ∧ inNumber b = false ∧ isOpChar b = false := by
    decide +kernel
  exact hall b (gap_mem h)

theorem gap_false {f : Byte → Bool}
    (hf : ∀ b ∈ ([sqlSpace, 0x09, sqlNewline, 0x0d, 0x0c, 0x0b, '('.toUInt8, ','.toUInt8] : List Byte), f b = false)
    (b : Byte) (h : isGap b = true) : f b = false := hf b (gap_mem h)

theorem EndsGap.behind (h : EndsGap p) (hf : ∀ b, isGap b = true → f b = false) (hany : p.head?.any f = true) :
    EndsGap p.tail := by
  cases p with
  | nil => cases hany
  | cons b p =>
    by_cases hnil : p = []
    · rw [hnil] at h hany
      have hb : f b = true := hany
      rw [hf b h] at hb
      cases hb
    · exact h.suffix (List.suffix_cons b p) hnil

theorem EndsGap.behind_eq (h : EndsGap p) (hf : isGap c = false) (hany : p.head? = some c) : EndsGap p.tail := by
  apply h.behind (f := (· == c))
  · intro b hb
    rw [beq_eq_false_iff_ne]
    rintro rfl
    rw [hb] at hf
    cases hf
  · rw [hany]
    exact beq_self_eq_true c

theorem skipQuoted_append (q : Byte) (esc : Bool) (h : skipQuoted q esc p ≠ []) (x : List Byte) :
    skipQuoted q esc (p ++ x) = skipQuoted q esc p ++ x := by
  fun_induction skipQuoted q esc p with
  | case1 => exact absurd rfl h
  | case2 => exact absurd rfl h
  | case3 b c p hesc ih => rw [List.cons_append, List.cons_append, skipQuoted, if_pos hesc, ih h]
  | case4 p hesc ih => rw [List.cons_append, List.cons_append, skipQuoted, if_neg hesc, if_pos rfl, if_pos rfl, ih h]
  | case5 c p hc hesc => rw [List.cons_append, List.cons_append, skipQuoted, if_neg hesc, if_pos rfl, if_neg hc]
  | case6 b c p hesc hb ih =>
    rw [List.cons_append, List.cons_append, skipQuoted, if_neg hesc, if_neg hb, ← List.cons_append, ih h]

theorem skipBlock_append (my : Bool) (depth : Nat) (h : (skipBlock my depth p).2 ≠ []) (x : List Byte) :
    skipBlock my depth (p ++ x) = ((skipBlock my depth p).1, (skipBlock my depth p).2 ++ x) := by
  fun_induction skipBlock my depth p with
  | case1 => rw [skipBlock]
  | case2 => exact absurd rfl h
  | case3 => exact absurd rfl h
  | case4 depth a b p hopen ih => rw [List.cons_append, List.cons_append, skipBlock, if_pos hopen, ih h]
  | case5 depth a b p hopen hclose ih =>
    rw [List.cons_append, List.cons_append, skipBlock, if_neg hopen, if_pos hclose, ih h]
  | case6 depth a b p hopen hclose ih =>
    rw [List.cons_append, List.cons_append, skipBlock, if_neg hopen, if_neg hclose, ← List.cons_append, ih h]

theorem dollarClose_length (h : dollarClose delim p = some rest) : delim.length ≤ p.length := by
  induction p with
  | nil => cases h
  | cons b p ih =>
    rw [dollarClose] at h
    split at h
    · next hpre => exact (List.isPrefixOf_iff_prefix.mp hpre).length_le
    · exact (ih h).trans (Nat.le_succ _)

theorem dollarClose_append (h : dollarClose delim p = some rest) (x : List Byte) :
    dollarClose delim (p ++ x) = some (rest ++ x) := by
  induction p with
  | nil => cases h
  | cons b p ih =>
    have hpre : delim.isPrefixOf (b :: (p ++ x)) = delim.isPrefixOf (b :: p) := by
      rw [Bool.eq_iff_iff, List.isPrefixOf_iff_prefix, List.isPrefixOf_iff_prefix, ← List.cons_append]
      have hlen := dollarClose_length h
      exact ⟨fun hp => List.prefix_of_prefix_length_le hp (List.prefix_append _ _) hlen,
        fun hp => hp.trans (List.prefix_append _ _)⟩
    rw [dollarClose] at h
    rw [List.cons_append, dollarClose, hpre]
    split at h
    · next hyes =>
      cases h
      rw [if_pos hyes, ← List.cons_append,
        List.drop_append_of_le_length (List.isPrefixOf_iff_prefix.mp hyes).length_le]
    · next hno =>
      rw [if_neg hno]
      exact ih h

theorem opRun_append (my : Bool) (ver : Nat) (h : EndsGap p) (x : List Byte) :
    opRun my ver (p ++ x) = opRun my ver p := by
  induction p with
  | nil => exact absurd rfl h.ne_nil
  | cons b p ih =>
    rw [List.cons_append, opRun, opRun]
    by_cases hnil : p = []
    · rw [hnil] at h ⊢
      have hgap : isGap b = true := h
      rw [(gap_classes b hgap).2.2.2.2]
      rfl
    · have htail : EndsGap p := h.suffix (List.suffix_cons b p) hnil
      rw [htail.head?, ih htail]

theorem opRun_length (my : Bool) (ver : Nat) (p : List Byte) : (opRun my ver p).length ≤ p.length := by
  induction p with
  | nil => exact Nat.le_refl 0
  | cons b p ih =>
    rw [opRun]
    iterate 5
      split
      · exact Nat.zero_le _
    exact Nat.succ_le_succ ih

theorem sqlExponent_append (h : EndsGap p) (x : List Byte) : sqlExponent (p ++ x) = sqlExponent p ++ x := by
  rw [sqlExponent, sqlExponent, h.head?]
  split
  · next hmark =>
    have htail : EndsGap p.tail := h.behind (gap_false (by decide +kernel)) hmark
    dsimp only
    rw [h.tail, htail.head?, htail.tail]
    split
    · next hsign =>
      have hdigits : EndsGap p.tail.tail := htail.behind (gap_false (by decide +kernel)) hsign
      rw [hdigits.head?, hdigits.tail]
      split
      · next hdigit =>
        have hrest : EndsGap p.tail.tail.tail := hdigits.behind (gap_false (by decide +kernel)) hdigit
        exact (hrest.run (gap_false (by decide +kernel)) x).2.1
      · rfl
    · rw [htail.head?, htail.tail]
      split
      · next hdigit =>
        have hrest : EndsGap p.tail.tail := htail.behind (gap_false (by decide +kernel)) hdigit
        exact (hrest.run (gap_false (by decide +kernel)) x).2.1
      · rfl
  · rfl

theorem sqlNumber_append (c : Byte) (h : EndsGap p) (x : List Byte) : sqlNumber c (p ++ x) = sqlNumber c p ++ x := by
  rw [sqlNumber, sqlNumber, h.head?]
  split
  · next hradix =>
    have htail : EndsGap p.tail := h.behind (gap_false (by decide +kernel)) hradix.2
    rw [h.tail]
    exact (htail.run (gap_false (by decide +kernel)) x).2.1
  · obtain ⟨-, hdrop, hint⟩ := h.run (f := inNumber) (gap_false (by decide +kernel)) x
    dsimp only
    rw [hdrop, hint.head?, hint.tail]
    split
    · next hpoint =>
      have hfrac : EndsGap (p.dropWhile inNumber).tail := hint.behind_eq (by decide) hpoint
      obtain ⟨-, hdrop', hend⟩ := hfrac.run (f := inNumber) (gap_false (by decide +kernel)) x
      rw [hdrop']
      exact sqlExponent_append hend x
    · exact sqlExponent_append hint x

theorem sqlDollar_append (h : EndsGap p) (x : List Byte) :
    (sqlDollar p = none → sqlDollar (p ++ x) = none) ∧
      ∀ trunc rest, sqlDollar p = some (trunc, rest) → rest ≠ [] → sqlDollar (p ++ x) = some (trunc, rest ++ x) := by
  obtain ⟨htake, hdrop, hend⟩ := h.run (f := inTag) (gap_false (by decide +kernel)) x
  rw [sqlDollar, sqlDollar, h.head?]
  split
  · constructor
    · rintro ⟨⟩
    · rintro trunc rest ⟨⟩ -
      rw [(h.run (gap_false (by decide +kernel)) x).2.1]
  · split
    · rw [htake, hdrop]
      cases hrest : p.dropWhile inTag with
      | nil => exact absurd hrest hend.ne_nil
      | cons b body =>
        generalize '$'.toUInt8 :: p.takeWhile inTag ++ ['$'.toUInt8] = delim
        rw [List.cons_append]
        dsimp only
        split
        · cases hclose : dollarClose delim body with
          | none =>
            constructor
            · rintro ⟨⟩
            · rintro trunc rest ⟨⟩ hne
              exact absurd rfl hne
          | some rest' =>
            rw [dollarClose_append hclose]
            constructor
            · rintro ⟨⟩
            · rintro trunc rest ⟨⟩ -
              rfl
        · exact ⟨fun _ => rfl, by rintro _ _ ⟨⟩⟩
    · exact ⟨fun _ => rfl, by rintro _ _ ⟨⟩⟩

theorem sqlString_append (my : Bool) (c : Byte) (h : EndsGap p) (x : List Byte) :
    sqlString my c (p ++ x) = (sqlString my c p).map fun s => (s.1, s.2.1, s.2.2 ++ x) := by
  rw [sqlString, sqlString, h.head?, h.tail]
  split
  · rfl
  · split
    · rfl
    · split
      · split
        · rfl
        · split <;> rfl
      · rfl

def SqlStep.append (st : SqlStep) (x : List Byte) : SqlStep := { st with rest := st.rest ++ x }

theorem sqlBlank_append (my : Bool) (ver : Nat) (c : Byte) (h : EndsGap p) (x : List Byte) :
    (sqlBlank my ver c p = none → sqlBlank my ver c (p ++ x) = none) ∧
      ∀ st, sqlBlank my ver c p = some st → st.rest ≠ [] → sqlBlank my ver c (p ++ x) = some (st.append x) := by
  rw [sqlBlank, sqlBlank, h.head?, h.tail]
  split
  · exact ⟨by rintro ⟨⟩, by rintro st ⟨⟩ -; rfl⟩
  · split
    · exact ⟨by rintro ⟨⟩, by rintro st ⟨⟩ -; rfl⟩
    · split
      · refine ⟨by rintro ⟨⟩, ?_⟩
        rintro st ⟨⟩ hne
        rw [dropWhile_open hne]
        rfl
      · split
        · refine ⟨by rintro ⟨⟩, ?_⟩
          rintro st ⟨⟩ hne
          rw [dropWhile_open hne]
          rfl
        · split
          · next hblock =>
            have htail : EndsGap p.tail := h.behind_eq (by decide) hblock.2
            rw [htail.head?, htail.tail]
            split
            · refine ⟨by rintro ⟨⟩, ?_⟩
              rintro st ⟨⟩ hne
              rw [dropWhile_open hne]
              rfl
            · refine ⟨by rintro ⟨⟩, ?_⟩
              rintro st ⟨⟩ hne
              rw [skipBlock_append my 1 hne]
              rfl
          · exact ⟨fun _ => rfl, by rintro _ ⟨⟩⟩

theorem sqlQuoted_append (tok : SqlTok) (ver : Nat) (h : rest ≠ []) (x : List Byte) :
    sqlQuoted tok ver (rest ++ x) = (sqlQuoted tok ver rest).append x := by
  cases rest with
  | nil => exact absurd rfl h
  | cons b rest => rfl

theorem sqlIdent_append (my : Bool) (ver : Nat) (c : Byte) (h : EndsGap p) (x : List Byte)
    (hne : (sqlIdent my ver c p).rest ≠ []) : sqlIdent my ver c (p ++ x) = (sqlIdent my ver c p).append x := by
  obtain ⟨htake, hdrop, hend⟩ := h.run (f := isIdentCont) (gap_false (by decide +kernel)) x
  rw [sqlIdent] at hne ⊢
  rw [sqlIdent, htake, hdrop]
  cases hrest : p.dropWhile isIdentCont with
  | nil => exact absurd hrest hend.ne_nil
  | cons q body =>
    rw [hrest] at hne
    rw [List.cons_append]
    dsimp only at hne ⊢
    split
    · next hquote =>
      rw [if_pos hquote] at hne
      have hskip : skipQuoted q true body ≠ [] := hne
      rw [skipQuoted_append q true hskip, sqlQuoted_append .ph ver hskip]
    · rfl

theorem sqlPunct_append (my : Bool) (ver : Nat) (c : Byte) (h : EndsGap p) (x : List Byte) :
    sqlPunct my ver c (p ++ x) = (sqlPunct my ver c p).append x := by
  rw [sqlPunct, sqlPunct]
  iterate 5
    split
    · rfl
  split
  · rw [opRun_append my ver h, List.drop_append_of_le_length (opRun_length my ver p)]
    rfl
  · rfl

theorem sqlToken_append (my : Bool) (ver : Nat) (c : Byte) (h : EndsGap p) (x : List Byte)
    (hne : (sqlToken my ver c p).rest ≠ []) : sqlToken my ver c (p ++ x) = (sqlToken my ver c p).append x := by
  rw [sqlToken] at hne ⊢
  rw [sqlToken, sqlString_append my c h]
  cases hstring : sqlString my c p with
  | some s =>
    obtain ⟨q, esc, body⟩ := s
    rw [hstring] at hne
    have hskip : skipQuoted q esc body ≠ [] := hne
    dsimp only [Option.map_some]
    rw [skipQuoted_append q esc hskip, sqlQuoted_append .ph ver hskip]
  | none =>
    rw [hstring] at hne
    dsimp only [Option.map_none] at hne ⊢
    split
    · next hident =>
      rw [if_pos hident] at hne
      have hskip : skipQuoted c false p ≠ [] := hne
      rw [skipQuoted_append c false hskip, ← sqlQuoted_append _ ver hskip, List.length_append, List.length_append,
        Nat.add_sub_add_right, List.take_append_of_le_length (Nat.sub_le _ _)]
    · next hident =>
      rw [if_neg hident] at hne
      split
      · next hdollar =>
        rw [if_pos hdollar] at hne
        obtain ⟨hnone, hsome⟩ := sqlDollar_append h x
        cases hd : sqlDollar p with
        | none =>
          rw [hnone hd]
          rfl
        | some r =>
          obtain ⟨trunc, rest⟩ := r
          rw [hd] at hne
          rw [hsome trunc rest hd hne]
          rfl
      · next hdollar =>
        rw [if_neg hdollar] at hne
        rw [h.head?]
        split
        · rw [sqlNumber_append c h]
          rfl
        · next hnumber =>
          rw [if_neg hnumber] at hne
          split
          · next hstart =>
            rw [if_pos hstart] at hne
            exact sqlIdent_append my ver c h x hne
          · exact sqlPunct_append my ver c h x

theorem sqlStep_append (my : Bool) (ver : Nat) (c : Byte) (h : EndsGap p) (x : List Byte)
    (hne : (sqlStep my ver c p).rest ≠ []) : sqlStep my ver c (p ++ x) = (sqlStep my ver c p).append x := by
  obtain ⟨hnone, hsome⟩ := sqlBlank_append my ver c h x
  rw [sqlStep] at hne ⊢
  rw [sqlStep]
  cases hblank : sqlBlank my ver c p with
  | none =>
    rw [hblank, Option.getD_none] at hne
    rw [hnone hblank, Option.getD_none, Option.getD_none, sqlToken_append my ver c h x hne]
  | some st =>
    rw [hblank, Option.getD_some] at hne
    rw [hsome st hblank hne, Option.getD_some, Option.getD_some]

end

/-- The last turn of the lexer over an input has read a gap. -/
inductive TopLevel (my : Bool) : Nat → List Byte → Prop where
  | gap (h : isGap c = true) : TopLevel my ver [c]
  | step (h : TopLevel my (sqlStep my ver c p).ver (sqlStep my ver c p).rest) : TopLevel my ver (c :: p)

theorem TopLevel.endsGap (h : TopLevel my ver p) : EndsGap p := by
  induction h with
  | gap hc => exact hc
  | @step ver c p _ ih => exact ih.extend ((sqlStep_suffix my ver c p).trans (List.suffix_cons c p))

def mayComment (b : Byte) : Bool := (['*'.toUInt8, '-'.toUInt8, '#'.toUInt8, '/'.toUInt8] : List Byte).contains b

theorem sqlBlank_none (my : Bool) (ver : Nat) (hspace : sqlIsSpace c = false) (hc : mayComment c = false)
    (p : List Byte) : sqlBlank my ver c p = none := by
  have hne : c ≠ '*'.toUInt8 ∧ c ≠ '-'.toUInt8 ∧ c ≠ '#'.toUInt8 ∧ c ≠ '/'.toUInt8 := by
    refine ⟨?_, ?_, ?_, ?_⟩ <;> rintro rfl <;> exact absurd hc (by decide)
  rw [sqlBlank, if_neg (by rw [hspace]; decide), if_neg fun h => hne.1 h.2.1, if_neg fun h => hne.2.1 h.1,
    if_neg fun h => hne.2.2.1 h.2, if_neg fun h => hne.2.2.2 h.1]

theorem identStart_not_digit (h : isIdentStart b = true) : sqlIsDigit b = false := by
  have hall : ∀ n : Fin 256, isIdentStart (UInt8.ofFin n) = true → sqlIsDigit (UInt8.ofFin n) = false := by
    decide +kernel
  exact hall b.toFin h

def mayWord (b : Byte) : Bool :=
  isIdentStart b || sqlIsDigit b ||
    ([singleQuote, doubleQuote, backQuote, '$'.toUInt8, '.'.toUInt8] : List Byte).contains b

theorem sqlString_none (my : Bool) (hc : c ≠ singleQuote) (hdouble : my = true → c ≠ doubleQuote)
    (halpha : p.head? = some singleQuote → sqlIsAlpha c = false) : sqlString my c p = none := by
  rw [sqlString, if_neg hc, if_neg fun h => hdouble h.1 h.2]
  split
  · next hhead =>
    have hletter := halpha hhead
    have hmark : ¬ isExpMark c = true := by
      intro h
      rw [isExpMark, Bool.or_eq_true, beq_iff_eq, beq_iff_eq] at h
      rcases h with rfl | rfl <;> exact absurd hletter (by decide)
    rw [if_neg fun h => hmark h.2, if_neg]
    rintro (h | ⟨-, rfl | rfl⟩)
    · simp only [List.contains_iff_mem, List.mem_cons, List.not_mem_nil, or_false] at h
      rcases h with rfl | rfl | rfl | rfl <;> exact absurd hletter (by decide)
    · exact absurd hletter (by decide)
    · exact absurd hletter (by decide)
  · rfl

theorem sqlStep_string (hspace : sqlIsSpace c = false) (hc : mayComment c = false)
    (hstring : sqlString my c p = some (q, esc, body)) (ver : Nat) :
    sqlStep my ver c p = sqlQuoted .ph ver (skipQuoted q esc body) := by
  rw [sqlStep, sqlBlank_none my ver hspace hc, Option.getD_none, sqlToken, hstring]

structure NoWord (my : Bool) (c : Byte) : Prop where
  quote : c ≠ singleQuote
  double : my = true → c ≠ doubleQuote
  ident : c ≠ identQuote my
  dollar : c ≠ '$'.toUInt8
  digit : sqlIsDigit c = false
  start : isIdentStart c = false

theorem NoWord.alpha (h : NoWord my c) : sqlIsAlpha c = false := by
  have hstart := h.start
  rw [isIdentStart, Bool.or_eq_false_iff, Bool.or_eq_false_iff] at hstart
  exact hstart.1.1

theorem NoWord.token (h : NoWord my c) (hpoint : c = '.'.toUInt8 → p.head?.any sqlIsDigit = false) (ver : Nat) :
    sqlToken my ver c p = sqlPunct my ver c p := by
  rw [sqlToken, sqlString_none my h.quote h.double fun _ => h.alpha]
  dsimp only
  rw [if_neg h.ident, if_neg fun hand => h.dollar hand.2, h.digit, if_neg, h.start,
    if_neg fun hor => hor.elim Bool.false_ne_true fun hand => h.dollar hand.2]
  rintro (hfalse | ⟨hc, hany⟩)
  · cases hfalse
  · rw [hpoint hc] at hany
    cases hany

theorem sqlToken_punct (my : Bool) (ver : Nat) (hc : mayWord c = false) (p : List Byte) :
    sqlToken my ver c p = sqlPunct my ver c p := by
  rw [mayWord, Bool.or_eq_false_iff, Bool.or_eq_false_iff] at hc
  obtain ⟨⟨hstart, hdigit⟩, hmem⟩ := hc
  have hne : c ≠ singleQuote ∧ c ≠ doubleQuote ∧ c ≠ backQuote ∧ c ≠ '$'.toUInt8 ∧ c ≠ '.'.toUInt8 := by
    refine ⟨?_, ?_, ?_, ?_, ?_⟩ <;> rintro rfl <;> exact absurd hmem (by decide)
  have hident : c ≠ identQuote my := by
    cases my
    · exact hne.2.1
    · exact hne.2.2.1
  have hword : NoWord my c := ⟨hne.1, fun _ => hne.2.1, hident, hne.2.2.2.1, hdigit, hstart⟩
  exact hword.token (fun hpoint => absurd hpoint hne.2.2.2.2) ver

theorem sqlStep_gap (my : Bool) (ver : Nat) (hc : isGap c = true) :
    ∃ tok, ∀ p, sqlStep my ver c p = ⟨tok, false, ver, p⟩ := by
  rw [isGap, Bool.or_eq_true, Bool.or_eq_true, beq_iff_eq, beq_iff_eq] at hc
  rcases hc with (hspace | rfl) | rfl
  · exact ⟨none, fun p => by rw [sqlStep, sqlBlank, if_pos hspace, Option.getD_some]⟩
  · exact ⟨some .lp, fun p => by
      rw [sqlStep, sqlBlank_none my ver (by decide) (by decide), Option.getD_none, sqlToken_punct my ver (by decide)]
      rfl⟩
  · exact ⟨some .comma, fun p => by
      rw [sqlStep, sqlBlank_none my ver (by decide) (by decide), Option.getD_none, sqlToken_punct my ver (by decide)]
      rfl⟩

theorem TopLevel.lex (h : TopLevel my ver p) :
    ∃ toks trunc ver', ∀ x, sqlLex my ver (p ++ x) = (toks ++ (sqlLex my ver' x).1, trunc || (sqlLex my ver' x).2) := by
  induction h with
  | @gap c ver hc =>
    obtain ⟨tok, hstep⟩ := sqlStep_gap my ver hc
    refine ⟨tok.toList, false, ver, ?_⟩
    intro x
    rw [List.singleton_append, sqlLex, hstep]
  | @step ver c p ht ih =>
    obtain ⟨toks, trunc, ver', hlex⟩ := ih
    refine ⟨(sqlStep my ver c p).tok.toList ++ toks, (sqlStep my ver c p).trunc || trunc, ver', ?_⟩
    intro x
    have hp : EndsGap p := ht.endsGap.extend (sqlStep_suffix my ver c p)
    rw [List.cons_append, sqlLex, sqlStep_append my ver c hp x ht.endsGap.ne_nil]
    dsimp only [SqlStep.append]
    rw [hlex x, List.append_assoc, Bool.or_assoc]

end Latkit
