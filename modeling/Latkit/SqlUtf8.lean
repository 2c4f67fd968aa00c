import Latkit.SqlFilters
import Latkit.Utf8

/-! The normal form of a statement in UTF-8 is in UTF-8. -/

namespace Latkit
open Utf8

theorem skipQuoted_cut (q : Byte) (esc : Bool) (p : List Byte) :
    skipQuoted q esc p = [] ∨ ∃ pre, p = pre ++ q :: skipQuoted q esc p := by
  fun_induction skipQuoted q esc p with
  | case1 => exact .inl rfl
  | case2 => exact .inl rfl
  | case3 b c p _ ih =>
    refine ih.imp id ?_
    rintro ⟨pre, hp⟩
    exact ⟨b :: c :: pre, congrArg (b :: c :: ·) hp⟩
  | case4 p _ ih =>
    refine ih.imp id ?_
    rintro ⟨pre, hp⟩
    exact ⟨q :: q :: pre, congrArg (q :: q :: ·) hp⟩
  | case5 c p => exact .inr ⟨[], rfl⟩
  | case6 b c p _ _ ih =>
    refine ih.imp id ?_
    rintro ⟨pre, hp⟩
    exact ⟨b :: pre, congrArg (b :: ·) hp⟩

theorem skipQuoted_text (h : Text p) (hq : q < 0x80) (esc : Bool) : Text (skipQuoted q esc p) := by
  rcases skipQuoted_cut q esc p with hnil | ⟨pre, hp⟩
  · rw [hnil]
    exact Text.nil
  · rw [hp] at h
    exact (h.around hq).2

theorem skipBlock_cut (my : Bool) (depth : Nat) (p : List Byte) : depth = 0 ∧ (skipBlock my depth p).2 = p ∨
    (skipBlock my depth p).2 = [] ∨ ∃ pre, p = pre ++ '/'.toUInt8 :: (skipBlock my depth p).2 := by
  fun_induction skipBlock my depth p with
  | case1 => exact .inl ⟨rfl, rfl⟩
  | case2 => exact .inr (.inl rfl)
  | case3 => exact .inr (.inl rfl)
  | case4 depth a b p _ ih =>
    rcases ih with ⟨hd, -⟩ | hnil | ⟨pre, hp⟩
    · cases hd
    · exact .inr (.inl hnil)
    · exact .inr (.inr ⟨a :: b :: pre, congrArg (a :: b :: ·) hp⟩)
  | case5 depth a b p _ hend ih =>
    rcases ih with ⟨-, hp⟩ | hnil | ⟨pre, hp⟩
    · exact .inr (.inr ⟨[a], by rw [hp, hend.2]; rfl⟩)
    · exact .inr (.inl hnil)
    · exact .inr (.inr ⟨a :: b :: pre, congrArg (a :: b :: ·) hp⟩)
  | case6 depth a b p _ _ ih =>
    rcases ih with ⟨hd, -⟩ | hnil | ⟨pre, hp⟩
    · cases hd
    · exact .inr (.inl hnil)
    · exact .inr (.inr ⟨a :: pre, congrArg (a :: ·) hp⟩)

theorem skipBlock_text (h : Text p) (my : Bool) (depth : Nat) : Text (skipBlock my depth p).2 := by
  rcases skipBlock_cut my depth p with ⟨-, hp⟩ | hnil | ⟨pre, hp⟩
  · rw [hp]
    exact h
  · rw [hnil]
    exact Text.nil
  · rw [hp] at h
    exact (h.around (by decide)).2

theorem dollarClose_text (pre : List Byte) (hclose : dollarClose (tag ++ ['$'.toUInt8]) p = some rest)
    (h : Text (pre ++ p)) : Text rest := by
  induction p generalizing pre with
  | nil => cases hclose
  | cons b p ih =>
    rw [dollarClose] at hclose
    split at hclose
    · next hpre =>
      obtain ⟨x, hx⟩ := List.isPrefixOf_iff_prefix.mp hpre
      rw [← hx, List.drop_left] at hclose
      cases hclose
      rw [← hx, ← List.append_assoc, ← List.append_assoc, List.append_assoc (pre ++ tag)] at h
      exact (h.around (by decide)).2
    · exact ih (pre ++ [b]) hclose (by simpa using h)

theorem high_isIdentStart (h : isIdentStart b = false) : b < 0x80 := by
  simp only [isIdentStart, Bool.or_eq_false_iff, decide_eq_false_iff_not] at h
  exact UInt8.not_le.mp h.2

theorem high_isIdentCont (h : isIdentCont b = false) : b < 0x80 := by
  simp only [isIdentCont, Bool.or_eq_false_iff] at h
  exact high_isIdentStart h.1.1

theorem high_inTag (h : inTag b = false) : b < 0x80 := by
  rw [inTag, Bool.and_eq_false_iff] at h
  rcases h with h | h
  · exact high_isIdentCont h
  · have hb : b = '$'.toUInt8 := by simpa using h
    rw [hb]
    decide

theorem low_sqlIsDigit (h : sqlIsDigit b = true) : b < 0x80 := by
  simp only [sqlIsDigit, Bool.and_eq_true, decide_eq_true_eq] at h
  exact UInt8.lt_of_le_of_lt h.2 (by decide)

theorem low_contains {l : List Byte} (hl : l.all (· < 0x80) = true) (h : l.contains b = true) : b < 0x80 :=
  of_decide_eq_true (List.all_eq_true.mp hl b (List.contains_iff_mem.mp h))

theorem low_inNumber (h : inNumber b = true) : b < 0x80 := by
  rw [inNumber, Bool.or_eq_true] at h
  rcases h with h | h
  · exact low_sqlIsDigit h
  · rw [eq_of_beq h]
    decide

theorem low_isExpMark (h : isExpMark b = true) : b < 0x80 := by
  rw [isExpMark, Bool.or_eq_true, beq_iff_eq, beq_iff_eq] at h
  rcases h with rfl | rfl <;> decide

theorem sqlDollar_text (hdollar : sqlDollar p = some (trunc, rest)) (h : Text p) : Text rest := by
  rw [sqlDollar] at hdollar
  split at hdollar
  · cases hdollar
    exact h.dropWhile_low fun b => low_sqlIsDigit
  · split at hdollar
    · have hdrop := (h.span fun b => high_inTag).2
      split at hdollar
      · cases hdollar
      · next b body hbody =>
        rw [hbody] at hdrop
        split at hdollar
        · split at hdollar
          · next rest' hclose =>
            cases hdollar
            exact dollarClose_text [b] hclose hdrop
          · cases hdollar
            exact Text.nil
        · cases hdollar
    · cases hdollar

theorem sqlExponent_text (h : Text p) : Text (sqlExponent p) := by
  rw [sqlExponent]
  split
  · next hmark =>
    have hmarked : Text p.tail := h.tail_any hmark fun b => low_isExpMark
    dsimp only
    split
    · next hsign =>
      have hsigned : Text p.tail.tail := hmarked.tail_any hsign fun b hb => by
        rw [Bool.or_eq_true, beq_iff_eq, beq_iff_eq] at hb
        rcases hb with rfl | rfl <;> decide
      split
      · next hdigit => exact (hsigned.tail_any hdigit fun b => low_sqlIsDigit).dropWhile_low fun b => low_inNumber
      · exact h
    · split
      · next hdigit => exact (hmarked.tail_any hdigit fun b => low_sqlIsDigit).dropWhile_low fun b => low_inNumber
      · exact h
  · exact h

theorem sqlNumber_text (h : Text p) (c : Byte) : Text (sqlNumber c p) := by
  rw [sqlNumber]
  split
  · next hradix => exact ((h.tail_any hradix.2 fun b => low_contains (by decide)).span fun b => high_inTag).2
  · have hnum : Text (p.dropWhile inNumber) := h.dropWhile_low fun b => low_inNumber
    apply sqlExponent_text
    split
    · next hdot => exact (hnum.tail_eq hdot (by decide)).dropWhile_low fun b => low_inNumber
    · exact hnum

theorem sqlString_text (hstring : sqlString my c p = some (q, esc, body)) (h : c < 0x80 → Text p) :
    q < 0x80 ∧ Text body := by
  rw [sqlString] at hstring
  split at hstring
  · next hc =>
    cases hstring
    exact ⟨by decide, h (by rw [hc]; decide)⟩
  · split at hstring
    · next hc =>
      cases hstring
      exact ⟨by decide, h (by rw [hc.2]; decide)⟩
    · split at hstring
      · next hquote =>
        split at hstring
        · next hmark =>
          cases hstring
          exact ⟨by decide, (h (low_isExpMark hmark.2)).tail_eq hquote (by decide)⟩
        · split at hstring
          · next hletter =>
            have hc : c < 0x80 := by
              rcases hletter with hletter | ⟨-, rfl | rfl⟩
              · exact low_contains (by decide) hletter
              · decide
              · decide
            cases hstring
            exact ⟨by decide, (h hc).tail_eq hquote (by decide)⟩
          · cases hstring
      · cases hstring

theorem high_notNewline {b : Byte} (h : (b != sqlNewline) = false) : b < 0x80 := by
  have hb : b = sqlNewline := by simpa using h
  rw [hb]
  decide

theorem sqlBlank_text (hblank : sqlBlank my ver c p = some st) (h : Text (c :: p)) : st.tok = none ∧ Text st.rest := by
  have hp : c < 0x80 → Text p := fun hc => h.tail fun b hb => by cases hb; exact hc
  rw [sqlBlank] at hblank
  split at hblank
  · next hspace =>
    cases hblank
    exact ⟨rfl, hp (low_contains (by decide) hspace)⟩
  · split at hblank
    · next hend =>
      cases hblank
      exact ⟨rfl, (hp (by rw [hend.2.1]; decide)).tail_eq hend.2.2 (by decide)⟩
    · split at hblank
      · next hdash =>
        cases hblank
        have htail := (hp (by rw [hdash.1]; decide)).tail_eq hdash.2 (by decide)
        exact ⟨rfl, (htail.span fun b => high_notNewline).2⟩
      · split at hblank
        · next hhash =>
          cases hblank
          exact ⟨rfl, ((hp (by rw [hhash.2]; decide)).span fun b => high_notNewline).2⟩
        · split at hblank
          · next hopen =>
            have htail := (hp (by rw [hopen.1]; decide)).tail_eq hopen.2 (by decide)
            split at hblank
            · next hver =>
              cases hblank
              exact ⟨rfl, (htail.tail_eq hver.2 (by decide)).dropWhile_low fun b => low_sqlIsDigit⟩
            · cases hblank
              exact ⟨rfl, skipBlock_text htail my 1⟩
          · cases hblank

def SqlStep.InUtf8 (st : SqlStep) : Prop := Text st.rest ∧ ∀ t ∈ st.tok, Text t.text

theorem sqlStep_utf8_ph (trunc : Bool) (ver : Nat) (h : Text rest) : SqlStep.InUtf8 ⟨some .ph, trunc, ver, rest⟩ :=
  ⟨h, by rintro _ ⟨⟩; exact Text.low (by decide)⟩

theorem asciiLower_low : ∀ b : Byte, b < 0x80 → asciiLower b < 0x80 := by
  have hall : ∀ b : Fin 256, UInt8.ofFin b < 0x80 → asciiLower (UInt8.ofFin b) < 0x80 := by decide +kernel
  exact fun b hb => hall b.toFin hb

theorem asciiLower_high : ∀ b : Byte, ¬ b < 0x80 → asciiLower b = b := by
  have hall : ∀ b : Fin 256, ¬ UInt8.ofFin b < 0x80 → asciiLower (UInt8.ofFin b) = UInt8.ofFin b := by decide +kernel
  exact fun b hb => hall b.toFin hb

theorem sqlIdent_utf8 (h : Text (c :: p)) (hc : isIdentCont c = true) (my : Bool) (ver : Nat) :
    (sqlIdent my ver c p).InUtf8 := by
  have hspan := h.span fun b => high_isIdentCont
  rw [List.takeWhile_cons_of_pos hc, List.dropWhile_cons_of_pos hc] at hspan
  have hname : SqlStep.InUtf8
      ⟨some (.other ((c :: p.takeWhile isIdentCont).map asciiLower)), false, ver, p.dropWhile isIdentCont⟩ :=
    ⟨hspan.2, by rintro _ ⟨⟩; exact hspan.1.map asciiLower_low asciiLower_high⟩
  rw [sqlIdent]
  split
  · exact hname
  · next q body hbody =>
    split
    · next hquote =>
      have hq : q < 0x80 := by
        rcases hquote.2.2 with rfl | rfl <;> decide
      have hrest := hspan.2
      rw [hbody] at hrest
      exact sqlStep_utf8_ph _ ver (skipQuoted_text (hrest.around (a := []) hq).2 hq true)
    · exact hname

theorem opRun_prefix (my : Bool) (ver : Nat) (p : List Byte) :
    opRun my ver p <+: p ∧ (opRun my ver p).all (· < 0x80) = true := by
  induction p with
  | nil => exact ⟨List.prefix_refl _, rfl⟩
  | cons b p ih =>
    rw [opRun]
    split
    · exact ⟨List.nil_prefix, rfl⟩
    · next hop =>
      iterate 4
        split
        · exact ⟨List.nil_prefix, rfl⟩
      have hchar : isOpChar b = true := by simpa using hop
      have hb : b < 0x80 := low_contains (by decide) hchar
      exact ⟨(List.prefix_cons_inj b).mpr ih.1, by rw [List.all_cons, ih.2, decide_eq_true hb]; rfl⟩

theorem sqlPunct_utf8 (h : Text p) (hc : c < 0x80) (my : Bool) (ver : Nat) : (sqlPunct my ver c p).InUtf8 := by
  have hone : ∀ t : SqlTok, t.text.all (· < 0x80) = true → SqlStep.InUtf8 ⟨some t, false, ver, p⟩ :=
    fun t ht => ⟨h, by rintro _ ⟨⟩; exact Text.low ht⟩
  rw [sqlPunct]
  iterate 5
    split
    · exact hone _ (by decide)
  split
  · obtain ⟨⟨rest, hrest⟩, hlow⟩ := opRun_prefix my ver p
    refine ⟨?_, ?_⟩
    · have hdrop : p.drop (opRun my ver p).length = rest := by
        have hleft : (opRun my ver p ++ rest).drop (opRun my ver p).length = rest := List.drop_left
        rwa [hrest] at hleft
      change Text (p.drop (opRun my ver p).length)
      rw [hdrop]
      rw [← hrest] at h
      exact (Text.low hlow).cancel h
    · rintro _ ⟨⟩
      exact Text.cons hc (Text.low hlow)
  · exact hone _ (by simpa [SqlTok.text] using hc)

theorem identQuoted_utf8 (h : Text p) (hc : c < 0x80) (ver : Nat) :
    (sqlQuoted (.other (c :: p.take (p.length - (skipQuoted c false p).length))) ver (skipQuoted c false p)).InUtf8 := by
  refine ⟨skipQuoted_text h hc false, ?_⟩
  rintro _ ⟨⟩
  rcases skipQuoted_cut c false p with hnil | ⟨pre, hp⟩
  · rw [hnil, List.length_nil, Nat.sub_zero, List.take_length]
    exact Text.cons hc h
  · have htake : p.take (p.length - (skipQuoted c false p).length) = pre ++ [c] := by
      have hp' : p = (pre ++ [c]) ++ skipQuoted c false p := by simpa using hp
      generalize skipQuoted c false p = rest at hp'
      rw [hp', @List.length_append _ _ rest, Nat.add_sub_cancel, List.take_left]
    rw [htake]
    rw [hp] at h
    exact Text.cons hc ((h.around hc).1.append (Text.cons hc Text.nil))

theorem sqlToken_utf8 (h : Text (c :: p)) (my : Bool) (ver : Nat) : (sqlToken my ver c p).InUtf8 := by
  have hp : c < 0x80 → Text p := fun hc => h.tail fun b hb => by cases hb; exact hc
  rw [sqlToken]
  split
  · next q esc body hstring =>
    obtain ⟨hq, hbody⟩ := sqlString_text hstring hp
    exact sqlStep_utf8_ph _ ver (skipQuoted_text hbody hq esc)
  · split
    · next hquote =>
      have hc : c < 0x80 := by
        rw [hquote]
        cases my <;> decide
      exact identQuoted_utf8 (hp hc) hc ver
    · split
      · next hdollar =>
        have hc : c < 0x80 := by
          rw [hdollar.2]
          decide
        split
        · next trunc rest hrest => exact sqlStep_utf8_ph trunc ver (sqlDollar_text hrest (hp hc))
        · exact ⟨hp hc, by rintro _ ⟨⟩; exact Text.cons hc Text.nil⟩
      · split
        · next hnum =>
          have hc : c < 0x80 := by
            rcases hnum with hdigit | hdot
            · exact low_sqlIsDigit hdigit
            · rw [hdot.1]
              decide
          exact sqlStep_utf8_ph false ver (sqlNumber_text (hp hc) c)
        · split
          · next hident =>
            refine sqlIdent_utf8 h ?_ my ver
            rcases hident with hstart | hdollar
            · simp [isIdentCont, hstart]
            · simp [isIdentCont, hdollar.2]
          · next hident =>
            have hc : c < 0x80 := high_isIdentStart (Bool.eq_false_iff.mpr (not_or.mp hident).1)
            exact sqlPunct_utf8 (hp hc) hc my ver

theorem sqlStep_utf8 (h : Text (c :: p)) (my : Bool) (ver : Nat) : (sqlStep my ver c p).InUtf8 := by
  rw [sqlStep]
  cases hblank : sqlBlank my ver c p with
  | none => exact sqlToken_utf8 h my ver
  | some st =>
    obtain ⟨htok, hrest⟩ := sqlBlank_text hblank h
    exact ⟨hrest, fun t ht => by rw [Option.getD_some, htok] at ht; cases ht⟩

theorem sqlLex_utf8 (h : Text p) (my : Bool) (ver : Nat) : ∀ t ∈ (sqlLex my ver p).1, Text t.text := by
  fun_induction sqlLex my ver p with
  | case1 => exact fun t ht => by cases ht
  | case2 ver c p st r ih =>
    obtain ⟨hrest, htok⟩ := sqlStep_utf8 h my ver
    intro t ht
    rcases List.mem_append.mp ht with ht | ht
    · exact htok t (Option.mem_toList.mp ht)
    · exact ih hrest t ht

theorem sqlPrinted_utf8 (h : Text sql) (my : Bool) : ∀ t ∈ sqlPrinted my sql, Text t.text := by
  intro t ht
  exact sqlLex_utf8 h my 0 t ((sqlFilter_sublist (sqlLex my 0 sql).1).subset ht)

theorem sqlJoin_utf8 {toks : List SqlTok} (h : ∀ t ∈ toks, Text t.text) : Text (sqlJoin toks) := by
  have hrest : ∀ toks : List SqlTok, (∀ t ∈ toks, Text t.text) → Text (toks.flatMap fun t => sqlSpace :: t.text) := by
    intro toks htoks
    induction toks with
    | nil => exact Text.nil
    | cons t toks ih =>
      obtain ⟨ht, htoks⟩ := List.forall_mem_cons.mp htoks
      exact (Text.cons (by decide) ht).append (ih htoks)
  cases toks with
  | nil => exact Text.nil
  | cons t toks =>
    obtain ⟨ht, htoks⟩ := List.forall_mem_cons.mp h
    exact ht.append (hrest toks htoks)

end Latkit
