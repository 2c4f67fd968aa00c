import Latkit.SqlFilters
import Latkit.SqlLiteral

namespace Latkit

/-! The canonical text is read as the tokens that it was printed from. -/

def Relexes (my : Bool) (t : SqlTok) (rest : List Byte) : Prop :=
  ∃ c p trunc, t.text ++ rest = c :: p ∧ sqlStep my 0 c p = ⟨some t, trunc, 0, rest⟩

def Spaced (rest : List Byte) : Prop := ∀ b ∈ rest.head?, b = sqlSpace

def SqlStands (my : Bool) (t : SqlTok) : Prop := ∀ rest, Spaced rest → Relexes my t rest

theorem Spaced.cases (h : Spaced rest) : rest = [] ∨ ∃ rest', rest = sqlSpace :: rest' := by
  cases rest with
  | nil => exact .inl rfl
  | cons b rest => exact .inr ⟨rest, by rw [h b rfl]⟩

theorem Spaced.run (h : Spaced rest) (hw : ∀ b ∈ w, f b = true) (hf : f sqlSpace = false) :
    (w ++ rest).takeWhile f = w ∧ (w ++ rest).dropWhile f = rest := by
  rw [List.takeWhile_append_of_pos hw, List.dropWhile_append_of_pos hw]
  rcases h.cases with rfl | ⟨rest', rfl⟩
  · exact ⟨List.append_nil w, rfl⟩
  · rw [List.takeWhile_cons_of_neg (by rw [hf]; decide), List.dropWhile_cons_of_neg (by rw [hf]; decide), List.append_nil]
    exact ⟨rfl, rfl⟩

theorem Spaced.head_any (h : Spaced rest) (hf : f sqlSpace = false) : rest.head?.any f = false := by
  rcases h.cases with rfl | ⟨rest', rfl⟩
  · rfl
  · exact hf

theorem sqlStands_punct (my : Bool) (hspace : sqlIsSpace c = false) (hc : mayComment c = false)
    (hw : mayWord c = false) (ht : t.text = [c])
    (hpunct : ∀ p, sqlPunct my 0 c p = ⟨some t, false, 0, p⟩) : SqlStands my t := by
  intro rest _
  refine ⟨c, rest, false, by rw [ht]; rfl, ?_⟩
  rw [sqlStep, sqlBlank_none my 0 hspace hc, Option.getD_none, sqlToken_punct my 0 hw, hpunct]

theorem sqlStands_lp (my : Bool) : SqlStands my .lp :=
  sqlStands_punct my (by decide) (by decide) (by decide) rfl fun _ => rfl

theorem sqlStands_rp (my : Bool) : SqlStands my .rp :=
  sqlStands_punct my (by decide) (by decide) (by decide) rfl fun _ => rfl

theorem sqlStands_comma (my : Bool) : SqlStands my .comma :=
  sqlStands_punct my (by decide) (by decide) (by decide) rfl fun _ => rfl

theorem sqlStands_ph (my : Bool) : SqlStands my .ph :=
  sqlStands_punct my (by decide) (by decide) (by decide) rfl fun _ => rfl

theorem sqlStands_semi (my : Bool) : SqlStands my .semi :=
  sqlStands_punct my (by decide) (by decide) (by decide) rfl fun _ => rfl

theorem skipQuoted_closed (q : Byte) (esc : Bool) (h : skipQuoted q esc p ≠ []) :
    ∃ body, QuotedBody q esc body ∧ p = body ++ q :: skipQuoted q esc p := by
  fun_induction skipQuoted q esc p with
  | case1 => exact absurd rfl h
  | case2 => exact absurd rfl h
  | case3 b c p hesc ih =>
    obtain ⟨body, hbody, hp⟩ := ih h
    rw [Bool.and_eq_true, beq_iff_eq] at hesc
    refine ⟨backslash :: c :: body, .escaped hesc.1 hbody, ?_⟩
    rw [hesc.2, List.cons_append, List.cons_append, ← hp]
  | case4 p hesc ih =>
    obtain ⟨body, hbody, hp⟩ := ih h
    refine ⟨q :: q :: body, .doubled hbody, ?_⟩
    rw [List.cons_append, List.cons_append, ← hp]
  | case5 c p hc hesc => exact ⟨[], .nil, rfl⟩
  | case6 b c p hesc hb ih =>
    obtain ⟨body, hbody, hp⟩ := ih h
    refine ⟨b :: body, .byte hb (by simpa using hesc) hbody, ?_⟩
    rw [List.cons_append, ← hp]

theorem opRun_next (h : Spaced rest) (hx : (opRun my ver p ++ rest).head? = some x) (hne : x ≠ sqlSpace) :
    p.head? = some x := by
  cases hrun : opRun my ver p with
  | nil =>
    rw [hrun, List.nil_append] at hx
    exact absurd (h x hx) hne
  | cons b run =>
    rw [hrun] at hx
    cases p with
    | nil => cases hrun
    | cons c p =>
      rw [opRun] at hrun
      iterate 5
        split at hrun
        · cases hrun
      cases hrun
      exact hx

theorem opRun_spaced (h : Spaced rest) (p : List Byte) : opRun my 0 (opRun my ver p ++ rest) = opRun my ver p := by
  have hend : opRun my 0 rest = [] := by
    rcases h.cases with rfl | ⟨rest', rfl⟩ <;> rfl
  induction p with
  | nil => exact hend
  | cons b p ih =>
    rw [opRun]
    split
    · exact hend
    · next hop =>
      split
      · exact hend
      · next hdash =>
        split
        · exact hend
        · next hblock =>
          split
          · exact hend
          · next hmy =>
            split
            · exact hend
            · rw [List.cons_append, opRun, if_neg hop, if_neg, if_neg, if_neg hmy, if_neg (by simp), ih]
              · exact fun hand => hblock ⟨hand.1, opRun_next h hand.2 (by decide)⟩
              · exact fun hand => hdash ⟨hand.1, opRun_next h hand.2 (by decide)⟩

theorem sqlStep_quoted (my : Bool) (ver : Nat) (p : List Byte) :
    sqlStep my ver (identQuote my) p =
      sqlQuoted (.other (identQuote my :: p.take (p.length - (skipQuoted (identQuote my) false p).length))) ver
        (skipQuoted (identQuote my) false p) := by
  have hblank : sqlBlank my ver (identQuote my) p = none := by
    cases my <;> exact sqlBlank_none _ ver (by decide) (by decide) p
  have hstring : sqlString my (identQuote my) p = none := by
    cases my <;> exact sqlString_none _ (by decide) (by decide) fun _ => by decide
  rw [sqlStep, hblank, Option.getD_none, sqlToken, hstring]
  dsimp only
  rw [if_pos rfl]

theorem sqlStep_quoted_tok (h : (sqlStep my ver (identQuote my) p).tok = some t) :
    SqlStands my t ∨ (Relexes my t [] ∧ (sqlStep my ver (identQuote my) p).rest = []) := by
  rw [sqlStep_quoted] at h ⊢
  cases h
  by_cases hnil : skipQuoted (identQuote my) false p = []
  · right
    rw [hnil, List.length_nil, Nat.sub_zero, List.take_length]
    refine ⟨⟨identQuote my, p, true, List.append_nil _, ?_⟩, rfl⟩
    rw [sqlStep_quoted, hnil, List.length_nil, Nat.sub_zero, List.take_length]
    rfl
  · left
    obtain ⟨body, hbody, hp⟩ := skipQuoted_closed _ _ hnil
    have htake : ∀ rest, (body ++ identQuote my :: rest).take ((body ++ identQuote my :: rest).length - rest.length) =
        body ++ [identQuote my] := by
      intro rest
      have hsplit : body ++ identQuote my :: rest = (body ++ [identQuote my]) ++ rest := by
        rw [List.append_assoc, List.singleton_append]
      rw [hsplit, List.length_append, Nat.add_sub_cancel, List.take_left]
    generalize skipQuoted (identQuote my) false p = left at hp
    rw [hp, htake]
    intro rest hrest
    have hclosed : rest.head? ≠ some (identQuote my) := by
      intro hhead
      have hq := hrest _ hhead
      cases my <;> exact absurd hq (by decide)
    refine ⟨identQuote my, body ++ identQuote my :: rest, rest.isEmpty, ?_, ?_⟩
    · rw [SqlTok.text, List.cons_append, List.append_assoc, List.singleton_append]
    · rw [sqlStep_quoted, hbody.skip nofun hclosed, htake]
      rfl

theorem sqlStep_lone_dollar (h : Spaced rest) : sqlStep false 0 '$'.toUInt8 rest = ⟨some (.other ['$'.toUInt8]), false, 0, rest⟩ := by
  have hdollar : sqlDollar rest = none := by
    rw [sqlDollar, h.head_any (by decide), h.head_any (by decide)]
    rfl
  rw [sqlStep, sqlBlank_none false 0 (by decide) (by decide), Option.getD_none, sqlToken,
    sqlString_none false (by decide) (by decide) fun _ => by decide]
  dsimp only
  rw [if_neg (by decide), if_pos ⟨by decide, rfl⟩, hdollar]

def IdentHead (my : Bool) (c : Byte) : Prop := isIdentStart c = true ∨ my = true ∧ c = '$'.toUInt8

theorem identHead_classes (h : IdentHead my c) :
    sqlIsSpace c = false ∧ mayComment c = false ∧ c ≠ singleQuote ∧ c ≠ doubleQuote ∧ c ≠ identQuote my ∧
      sqlIsDigit c = false ∧ c ≠ '.'.toUInt8 := by
  have hall : ∀ my, ∀ n : Fin 256, isIdentStart (UInt8.ofFin n) = true ∨ UInt8.ofFin n = '$'.toUInt8 →
      sqlIsSpace (UInt8.ofFin n) = false ∧ mayComment (UInt8.ofFin n) = false ∧ UInt8.ofFin n ≠ singleQuote ∧
        UInt8.ofFin n ≠ doubleQuote ∧ UInt8.ofFin n ≠ identQuote my ∧ sqlIsDigit (UInt8.ofFin n) = false ∧
        UInt8.ofFin n ≠ '.'.toUInt8 := by decide +kernel
  exact hall my c.toFin (h.imp_right And.right)

theorem isIdentCont_lower (h : isIdentCont b = true) : isIdentCont (asciiLower b) = true := by
  have hall : ∀ n : Fin 256, isIdentCont (UInt8.ofFin n) = true → isIdentCont (asciiLower (UInt8.ofFin n)) = true := by
    decide +kernel
  exact hall b.toFin h

theorem asciiLower_lower (b : Byte) : asciiLower (asciiLower b) = asciiLower b := by
  have hall : ∀ n : Fin 256, asciiLower (asciiLower (UInt8.ofFin n)) = asciiLower (UInt8.ofFin n) := by decide +kernel
  exact hall b.toFin

theorem IdentHead.lower (h : IdentHead my c) : IdentHead my (asciiLower c) := by
  have hall : ∀ n : Fin 256, isIdentStart (UInt8.ofFin n) = true → isIdentStart (asciiLower (UInt8.ofFin n)) = true := by
    decide +kernel
  rcases h with hstart | ⟨hmy, rfl⟩
  · exact .inl (hall c.toFin hstart)
  · exact .inr ⟨hmy, rfl⟩

theorem sqlStep_ident (hc : IdentHead my c) (hw : ∀ b ∈ w, isIdentCont b = true) (hrest : Spaced rest) :
    sqlStep my 0 c (w ++ rest) = ⟨some (.other ((c :: w).map asciiLower)), false, 0, rest⟩ := by
  obtain ⟨hspace, hcomment, hquote, hdouble, hident, hdigit, hpoint⟩ := identHead_classes hc
  obtain ⟨htake, hdrop⟩ := hrest.run hw (by decide)
  have hstart : isIdentStart c = true ∨ my = true ∧ c = '$'.toUInt8 := hc
  have hnext : (w ++ rest).head? ≠ some singleQuote := by
    cases w with
    | nil =>
      intro hhead
      exact absurd (hrest _ hhead) (by decide)
    | cons b w =>
      intro hhead
      have hb := hw b (List.mem_cons_self ..)
      rw [Option.some.inj hhead] at hb
      exact absurd hb (by decide)
  have hdollar : ¬ (¬ my = true ∧ c = '$'.toUInt8) := by
    rintro ⟨hmy, rfl⟩
    rcases hc with hstart | hand
    · exact absurd hstart (by decide)
    · exact hmy hand.1
  rw [sqlStep, sqlBlank_none my 0 hspace hcomment, Option.getD_none, sqlToken,
    sqlString_none my hquote (fun _ => hdouble) fun hhead => absurd hhead hnext]
  dsimp only
  rw [if_neg hident, if_neg hdollar, hdigit, if_neg fun hor => hor.elim Bool.false_ne_true fun hand => hpoint hand.1,
    if_pos hstart, sqlIdent, htake, hdrop]
  rcases hrest.cases with rfl | ⟨rest', rfl⟩
  · rfl
  · dsimp only
    rw [if_neg]
    rintro ⟨-, -, hq | hq⟩
    · exact absurd hq (by decide)
    · exact absurd hq (by decide)

theorem sqlStands_ident (hc : IdentHead my c) (hw : ∀ b ∈ w, isIdentCont b = true) :
    SqlStands my (.other ((c :: w).map asciiLower)) := by
  intro rest hrest
  have hlower : ∀ b ∈ w.map asciiLower, isIdentCont b = true := by
    intro b hb
    obtain ⟨b', hb', rfl⟩ := List.mem_map.mp hb
    exact isIdentCont_lower (hw b' hb')
  refine ⟨asciiLower c, w.map asciiLower ++ rest, false, rfl, ?_⟩
  have hidem : asciiLower ∘ asciiLower = asciiLower := funext asciiLower_lower
  rw [sqlStep_ident hc.lower hlower hrest, ← List.map_cons, List.map_map, hidem]

theorem sqlIdent_tok (hc : IdentHead my c) (h : (sqlIdent my ver c p).tok = some t) : SqlStands my t := by
  have hw : ∀ b ∈ p.takeWhile isIdentCont, isIdentCont b = true := fun b hb => List.mem_takeWhile_imp hb
  rw [sqlIdent] at h
  split at h
  · cases h
    exact sqlStands_ident hc hw
  · split at h
    · cases h
      exact sqlStands_ph my
    · cases h
      exact sqlStands_ident hc hw

theorem sqlBlank_tok (h : sqlBlank my ver c p = some st) : st.tok = none := by
  rw [sqlBlank] at h
  split at h
  · cases h
    rfl
  · split at h
    · cases h
      rfl
    · split at h
      · cases h
        rfl
      · split at h
        · cases h
          rfl
        · split at h
          · split at h
            · cases h
              rfl
            · cases h
              rfl
          · cases h

theorem sqlBlank_none_inv (h : sqlBlank my ver c p = none) :
    sqlIsSpace c = false ∧ ¬ (c = '-'.toUInt8 ∧ p.head? = some '-'.toUInt8) ∧ ¬ (my = true ∧ c = '#'.toUInt8) ∧
      ¬ (c = '/'.toUInt8 ∧ p.head? = some '*'.toUInt8) := by
  rw [sqlBlank] at h
  split at h
  · cases h
  · next hspace =>
    split at h
    · cases h
    · split at h
      · cases h
      · next hdash =>
        split at h
        · cases h
        · next hhash =>
          split at h
          · split at h <;> cases h
          · next hblock => exact ⟨by simpa using hspace, hdash, hhash, hblock⟩

theorem mayComment_op (h : mayComment c = true) : isOpChar c = true := by
  have hall : ∀ n : Fin 256, mayComment (UInt8.ofFin n) = true → isOpChar (UInt8.ofFin n) = true := by decide +kernel
  exact hall c.toFin h

theorem sqlPunct_tok (hblank : sqlBlank my ver c p = none) (hword : NoWord my c)
    (h : (sqlPunct my ver c p).tok = some t) : SqlStands my t := by
  obtain ⟨hspace, hdash, hhash, hblock⟩ := sqlBlank_none_inv hblank
  rw [sqlPunct] at h
  split at h
  · cases h
    exact sqlStands_lp my
  · next hlp =>
    split at h
    · cases h
      exact sqlStands_rp my
    · next hrp =>
      split at h
      · cases h
        exact sqlStands_comma my
      · next hcomma =>
        split at h
        · cases h
          exact sqlStands_semi my
        · next hsemi =>
          split at h
          · cases h
            exact sqlStands_ph my
          · next hph =>
            split at h
            · next hop =>
              cases h
              intro rest hrest
              refine ⟨c, opRun my ver p ++ rest, false, rfl, ?_⟩
              have hnone : sqlBlank my 0 c (opRun my ver p ++ rest) = none := by
                rw [sqlBlank, if_neg (by rw [hspace]; decide), if_neg (by simp), if_neg, if_neg hhash, if_neg]
                · exact fun hand => hblock ⟨hand.1, opRun_next hrest hand.2 (by decide)⟩
                · exact fun hand => hdash ⟨hand.1, opRun_next hrest hand.2 (by decide)⟩
              have hpoint : c ≠ '.'.toUInt8 := by
                rintro rfl
                exact absurd hop (by decide)
              rw [sqlStep, hnone, Option.getD_none, hword.token fun hc => absurd hc hpoint]
              rw [sqlPunct, if_neg hlp, if_neg hrp, if_neg hcomma, if_neg hsemi, if_neg hph, if_pos hop,
                opRun_spaced hrest, List.drop_left]
            · next hop =>
              cases h
              intro rest hrest
              refine ⟨c, rest, false, rfl, ?_⟩
              have hcomment : mayComment c = false := by
                rw [← Bool.not_eq_true]
                intro hmay
                exact hop (mayComment_op hmay)
              rw [sqlStep, sqlBlank_none my 0 hspace hcomment, Option.getD_none,
                hword.token fun _ => hrest.head_any (by decide)]
              rw [sqlPunct, if_neg hlp, if_neg hrp, if_neg hcomma, if_neg hsemi, if_neg hph, if_neg hop]

theorem sqlStep_tok (h : (sqlStep my ver c p).tok = some t) :
    SqlStands my t ∨ (Relexes my t [] ∧ (sqlStep my ver c p).rest = []) := by
  cases hblank : sqlBlank my ver c p with
  | some st =>
    rw [sqlStep, hblank, Option.getD_some, sqlBlank_tok hblank] at h
    cases h
  | none =>
    by_cases hident : c = identQuote my
    · rw [hident] at h ⊢
      exact sqlStep_quoted_tok h
    · left
      rw [sqlStep, hblank, Option.getD_none, sqlToken] at h
      cases hstring : sqlString my c p with
      | some r =>
        rw [hstring] at h
        cases h
        exact sqlStands_ph my
      | none =>
        rw [hstring] at h
        dsimp only at h
        rw [if_neg hident] at h
        split at h
        · next hdollar =>
          obtain ⟨hmy, rfl⟩ := hdollar
          split at h
          · cases h
            exact sqlStands_ph my
          · cases h
            intro rest hrest
            rw [Bool.not_eq_true] at hmy
            rw [hmy]
            exact ⟨_, rest, false, rfl, sqlStep_lone_dollar hrest⟩
        · next hdollar =>
          split at h
          · cases h
            exact sqlStands_ph my
          · next hnumber =>
            split at h
            · next hstart => exact sqlIdent_tok hstart h
            · next hstart =>
              rw [not_or] at hnumber hstart
              refine sqlPunct_tok hblank ⟨?_, ?_, hident, ?_, by simpa using hnumber.1, by simpa using hstart.1⟩ h
              · rintro rfl
                rw [sqlString_quote] at hstring
                cases hstring
              · rintro rfl rfl
                rw [sqlString_double] at hstring
                cases hstring
              · rintro rfl
                cases my with
                | true => exact hstart.2 ⟨rfl, rfl⟩
                | false => exact hdollar ⟨by decide, rfl⟩

structure Printable (my : Bool) (toks : List SqlTok) : Prop where
  relexes : ∀ t ∈ toks, Relexes my t []
  stands : toks.Pairwise fun t _ => SqlStands my t

theorem Printable.sublist (h : Printable my toks) (hsub : toks'.Sublist toks) : Printable my toks' :=
  ⟨fun t ht => h.relexes t (hsub.subset ht), h.stands.sublist hsub⟩

theorem SqlStands.relexes (h : SqlStands my t) : Relexes my t [] := h [] nofun

theorem sqlLex_printable (my : Bool) (ver : Nat) (p : List Byte) : Printable my (sqlLex my ver p).1 := by
  fun_induction sqlLex my ver p with
  | case1 => exact ⟨nofun, .nil⟩
  | case2 ver c p st r ih =>
    cases htok : st.tok with
    | none => exact ih
    | some t =>
      rcases sqlStep_tok htok with hstands | ⟨hopen, hrest⟩
      · refine ⟨?_, .cons (fun _ _ => hstands) ih.stands⟩
        intro u hu
        rcases List.mem_cons.mp hu with rfl | hu
        · exact hstands.relexes
        · exact ih.relexes u hu
      · have hr : r.1 = [] := by
          change (sqlLex my st.ver st.rest).1 = []
          rw [hrest, sqlLex]
        rw [hr]
        refine ⟨?_, List.pairwise_singleton _ _⟩
        intro u hu
        rw [List.mem_singleton.mp hu]
        exact hopen

theorem sqlLex_space (my : Bool) (p : List Byte) : sqlLex my 0 (sqlSpace :: p) = sqlLex my 0 p := by
  have hstep : sqlStep my 0 sqlSpace p = { ver := 0, rest := p } := by
    rw [sqlStep, sqlBlank, if_pos (by decide), Option.getD_some]
  rw [sqlLex, hstep]
  rfl

theorem sqlLex_sqlJoin (h : Printable my toks) : (sqlLex my 0 (sqlJoin toks)).1 = toks := by
  induction toks with
  | nil =>
    rw [sqlJoin, sqlLex]
  | cons t toks ih =>
    cases toks with
    | nil =>
      obtain ⟨c, p, trunc, htext, hstep⟩ := h.relexes t (List.mem_singleton_self t)
      have hjoin : sqlJoin [t] = c :: p := htext
      rw [hjoin, sqlLex, hstep]
      dsimp only
      rw [sqlLex]
      rfl
    | cons u toks =>
      have hstands : SqlStands my t := (List.pairwise_cons.mp h.stands).1 u (List.mem_cons_self ..)
      obtain ⟨c, p, trunc, htext, hstep⟩ := hstands (sqlSpace :: sqlJoin (u :: toks)) (by rintro b ⟨⟩; rfl)
      have hjoin : sqlJoin (t :: u :: toks) = c :: p := htext
      rw [hjoin, sqlLex, hstep]
      dsimp only
      rw [sqlLex_space, ih (h.sublist (List.sublist_cons_self t _))]
      rfl

/-- The canonical text, if it was not clipped, is its own canonical text, with the same fingerprint. -/
theorem sql_normalisation_idempotent (xxh3 : List Byte → UInt64) (my : Bool) (sql : List Byte)
    (hclip : (sqlJoin (sqlPrinted my sql)).length ≤ lkNormTextMax - 1) :
    (lkNormSql xxh3 my (lkNormSql xxh3 my sql).text).text = (lkNormSql xxh3 my sql).text ∧
      (lkNormSql xxh3 my (lkNormSql xxh3 my sql).text).fp = (lkNormSql xxh3 my sql).fp := by
  have htext : (lkNormSql xxh3 my sql).text = sqlJoin (sqlPrinted my sql) := by
    rw [(lkNormSql_eq xxh3 my sql).1, List.take_of_length_le hclip]
  have hprinted : sqlPrinted my (lkNormSql xxh3 my sql).text = sqlPrinted my sql := by
    have hprintable : Printable my (sqlPrinted my sql) := (sqlLex_printable my 0 sql).sublist (sqlFilter_sublist _)
    rw [htext]
    change sqlFilter (sqlLex my 0 (sqlJoin (sqlPrinted my sql))).1 = _
    rw [sqlLex_sqlJoin hprintable]
    exact sqlFilter_sqlFilter _
  rw [(lkNormSql_eq xxh3 my _).1, (lkNormSql_eq xxh3 my (lkNormSql xxh3 my sql).text).2, hprinted,
    (lkNormSql_eq xxh3 my sql).2, (lkNormSql_eq xxh3 my sql).1]
  exact ⟨rfl, rfl⟩

/-- A query of each dialect. -/
theorem sql_normalisation_idempotent_queries :
    let norm := lkNormSql (fun w => UInt64.ofNat w.length)
    let pg := "SELECT \"A\", b FROM t WHERE id IN (1, 2) AND c >= $1 -- x".toUTF8.toList
    let my := "insert /*!50000 ignore */ into t values (1,'a'),(2,'b');".toUTF8.toList
    ((norm false (norm false pg).text).text = (norm false pg).text ∧
        (norm false (norm false pg).text).fp = (norm false pg).fp) ∧
      ((norm true (norm true my).text).text = (norm true my).text ∧
        (norm true (norm true my).text).fp = (norm true my).fp) :=
  ⟨sql_normalisation_idempotent _ false _ (by decide +kernel), sql_normalisation_idempotent _ true _ (by decide +kernel)⟩

end Latkit
