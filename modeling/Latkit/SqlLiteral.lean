import Latkit.SqlTopLevel

namespace Latkit

/-! No byte of a literal reaches the canonical text. -/

/-- The contents of a quoted literal: a quote in it is doubled, and a backslash, where it counts, has a
byte behind it. -/
inductive QuotedBody (q : Byte) (esc : Bool) : List Byte → Prop where
  | nil : QuotedBody q esc []
  | byte (hb : b ≠ q) (hesc : esc = true → b ≠ backslash) (h : QuotedBody q esc p) : QuotedBody q esc (b :: p)
  | doubled (h : QuotedBody q esc p) : QuotedBody q esc (q :: q :: p)
  | escaped (hesc : esc = true) (h : QuotedBody q esc p) : QuotedBody q esc (backslash :: b :: p)

/-- The forms of literals: strings of PostgreSQL, with escapes and in dollar quotes, and strings of MySQL
in either quote. -/
inductive SqlForm where
  | string
  | escape
  | dollar
  | mySingle
  | myDouble
  deriving DecidableEq, Repr

def SqlForm.my : SqlForm → Bool
  | mySingle => true
  | myDouble => true
  | _ => false

def SqlForm.quote : SqlForm → Byte
  | dollar => '$'.toUInt8
  | myDouble => doubleQuote
  | _ => singleQuote

def dollarDelim (tag : List Byte) : List Byte := '$'.toUInt8 :: tag ++ ['$'.toUInt8]

/-- A literal: its opening, its contents and its closing. The delimiter of a dollar quote does not occur
before the end, not even in part inside the contents. -/
inductive SqlForm.Literal : SqlForm → (opening body closing : List Byte) → Prop where
  | string (h : QuotedBody singleQuote false body) : Literal .string [singleQuote] body [singleQuote]
  | escape (he : isExpMark e = true) (h : QuotedBody singleQuote true body) :
      Literal .escape [e, singleQuote] body [singleQuote]
  | dollar (htag : tag.all inTag) (hstart : ∀ b ∈ tag.head?, isIdentStart b = true)
      (hbody : ¬ dollarDelim tag <:+: body ++ (dollarDelim tag).dropLast) :
      Literal .dollar (dollarDelim tag) body (dollarDelim tag)
  | mySingle (h : QuotedBody singleQuote true body) : Literal .mySingle [singleQuote] body [singleQuote]
  | myDouble (h : QuotedBody doubleQuote true body) : Literal .myDouble [doubleQuote] body [doubleQuote]

theorem QuotedBody.skip (h : QuotedBody q esc body) (hq : esc = true → q ≠ backslash)
    (hrest : rest.head? ≠ some q) : skipQuoted q esc (body ++ q :: rest) = rest := by
  induction h with
  | nil =>
    cases rest with
    | nil => rfl
    | cons c rest =>
      have hc : c ≠ q := by simpa using hrest
      have hesc : ¬ (esc && q == backslash) = true := by simpa using hq
      rw [List.nil_append, skipQuoted, if_neg hesc, if_pos rfl, if_neg hc]
  | @byte b p hb hesc h ih =>
    have hesc' : ¬ (esc && b == backslash) = true := by simpa using hesc
    cases hp : p ++ q :: rest with
    | nil => exact absurd hp (by simp)
    | cons c p' =>
      rw [List.cons_append, hp, skipQuoted, if_neg hesc', if_neg hb, ← hp, ih]
  | @doubled p h ih =>
    have hesc : ¬ (esc && q == backslash) = true := by simpa using hq
    rw [List.cons_append, List.cons_append, skipQuoted, if_neg hesc, if_pos rfl, if_pos rfl, ih]
  | @escaped p b hesc h ih =>
    rw [List.cons_append, List.cons_append, skipQuoted, if_pos (by rw [hesc]; decide), ih]

theorem QuotedBody.cut (h : QuotedBody q esc body) (hq : esc = true → q ≠ backslash) (n : Nat) :
    skipQuoted q esc (body.take n) = [] := by
  induction h generalizing n with
  | nil => rw [List.take_nil, skipQuoted]
  | @byte b p hb hesc h ih =>
    have hesc' : ¬ (esc && b == backslash) = true := by simpa using hesc
    cases n with
    | zero => rfl
    | succ n =>
      rw [List.take_succ_cons]
      cases hp : p.take n with
      | nil => rfl
      | cons c p' => rw [skipQuoted, if_neg hesc', if_neg hb, ← hp, ih]
  | @doubled p h ih =>
    have hesc : ¬ (esc && q == backslash) = true := by simpa using hq
    obtain _ | _ | n := n
    · rfl
    · rfl
    · rw [List.take_succ_cons, List.take_succ_cons, skipQuoted, if_neg hesc, if_pos rfl, if_pos rfl, ih]
  | @escaped p b hesc h ih =>
    obtain _ | _ | n := n
    · rfl
    · rfl
    · rw [List.take_succ_cons, List.take_succ_cons, skipQuoted, if_pos (by rw [hesc]; decide), ih]

theorem dollarClose_first (h : ¬ delim <:+: body ++ delim.dropLast) (hne : delim ≠ []) (rest : List Byte) :
    dollarClose delim (body ++ (delim ++ rest)) = some rest := by
  induction body with
  | nil =>
    obtain ⟨b, delim', rfl⟩ := List.exists_cons_of_ne_nil hne
    have hpre : (b :: delim').isPrefixOf (b :: (delim' ++ rest)) = true :=
      List.isPrefixOf_iff_prefix.mpr ⟨rest, rfl⟩
    rw [List.nil_append, List.cons_append, dollarClose, if_pos hpre, ← List.cons_append, List.drop_left]
  | cons b body ih =>
    have hpre : ¬ delim.isPrefixOf (b :: (body ++ (delim ++ rest))) = true := by
      intro hyes
      -- an occurrence here would end inside the closing delimiter
      have hshort : b :: (body ++ delim.dropLast) <+: b :: (body ++ (delim ++ rest)) := by
        refine ⟨[delim.getLast hne] ++ rest, ?_⟩
        rw [List.cons_append, List.append_assoc, ← List.append_assoc delim.dropLast, List.dropLast_append_getLast hne]
      apply h
      refine (List.prefix_of_prefix_length_le (List.isPrefixOf_iff_prefix.mp hyes) hshort ?_).isInfix
      rw [List.length_cons, List.length_append, List.length_dropLast]
      omega
    rw [List.cons_append, dollarClose, if_neg hpre]
    exact ih fun hin => h (hin.trans (List.suffix_cons b _).isInfix)

theorem dollarClose_none (h : ¬ delim <:+: p) : dollarClose delim p = none := by
  induction p with
  | nil => rfl
  | cons b p ih =>
    rw [dollarClose, if_neg]
    · exact ih fun hp => h (hp.trans (List.suffix_cons b p).isInfix)
    · intro hpre
      exact h (List.isPrefixOf_iff_prefix.mp hpre).isInfix

theorem sqlDollar_open (htag : tag.all inTag = true) (hstart : ∀ b ∈ tag.head?, isIdentStart b = true)
    (p : List Byte) :
    sqlDollar (tag ++ '$'.toUInt8 :: p) =
      match dollarClose (dollarDelim tag) p with
      | some rest => some (false, rest)
      | none => some (true, []) := by
  have htake : (tag ++ '$'.toUInt8 :: p).takeWhile inTag = tag := by
    rw [List.takeWhile_append_of_pos (List.all_eq_true.mp htag), List.takeWhile_cons_of_neg (by decide), List.append_nil]
  have hdrop : (tag ++ '$'.toUInt8 :: p).dropWhile inTag = '$'.toUInt8 :: p := by
    rw [List.dropWhile_append_of_pos (List.all_eq_true.mp htag), List.dropWhile_cons_of_neg (by decide)]
  have hhead : ∃ b, (tag ++ '$'.toUInt8 :: p).head? = some b ∧ sqlIsDigit b = false ∧
      (b == '$'.toUInt8 || isIdentStart b) = true := by
    cases tag with
    | nil => exact ⟨'$'.toUInt8, rfl, by decide, by decide⟩
    | cons b tag =>
      have hb := hstart b rfl
      exact ⟨b, rfl, identStart_not_digit hb, by rw [hb, Bool.or_true]⟩
  obtain ⟨b, hb, hdigit, hopens⟩ := hhead
  rw [sqlDollar, hb, Option.any_some, Option.any_some, hdigit, if_neg Bool.false_ne_true, hopens, if_pos rfl, hdrop,
    htake]
  rfl

theorem sqlString_quote (my : Bool) (p : List Byte) : sqlString my singleQuote p = some (singleQuote, my, p) := by
  rw [sqlString, if_pos rfl]

theorem sqlString_double (p : List Byte) : sqlString true doubleQuote p = some (doubleQuote, true, p) := by
  rw [sqlString, if_neg (by decide), if_pos ⟨rfl, rfl⟩]

theorem sqlString_escape (he : isExpMark e = true) (p : List Byte) :
    sqlString false e (singleQuote :: p) = some (singleQuote, true, p) := by
  have hne : e ≠ singleQuote := by
    rintro rfl
    exact absurd he (by decide)
  rw [sqlString, if_neg hne, if_neg (by simp), if_pos (List.head?_cons ..), if_pos ⟨by decide, he⟩, List.tail_cons]

section
variable (my : Bool) (ver : Nat) (c : Byte) (opened body : List Byte)

/-- From an opening the lexer reads to the end of the literal, and from a cut one to the end of the input. -/
structure ReadsWhole (closing : List Byte) (quote : Byte) (atEnd : Bool) : Prop where
  whole : ∀ rest, rest.head? ≠ some quote →
    sqlStep my ver c (opened ++ (body ++ (closing ++ rest))) = ⟨some .ph, atEnd && rest.isEmpty, ver, rest⟩
  cut : ∀ n, ∃ trunc, sqlStep my ver c (opened ++ body.take n) = ⟨some .ph, trunc, ver, []⟩

variable {my c opened body}

theorem QuotedBody.readsWhole (h : QuotedBody q esc body) (hq : q ≠ backslash) (hspace : sqlIsSpace c = false)
    (hc : mayComment c = false) (hstring : ∀ p, sqlString my c (opened ++ p) = some (q, esc, p)) :
    ReadsWhole my ver c opened body [q] q true := by
  constructor
  · intro rest hrest
    rw [sqlStep_string hspace hc (hstring _), List.singleton_append, h.skip (fun _ => hq) hrest]
    rfl
  · intro n
    rw [sqlStep_string hspace hc (hstring _), h.cut (fun _ => hq)]
    exact ⟨true, rfl⟩

theorem sqlStep_dollar (p : List Byte) (h : sqlDollar p = some (trunc, rest)) :
    sqlStep false ver '$'.toUInt8 p = ⟨some .ph, trunc, ver, rest⟩ := by
  rw [sqlStep, sqlBlank_none false ver (by decide) (by decide), Option.getD_none, sqlToken,
    sqlString_none false (by decide) (by decide) fun _ => by decide]
  dsimp only
  rw [if_neg (by decide), if_pos ⟨by decide, rfl⟩, h]

theorem dollar_readsWhole (htag : tag.all inTag = true) (hstart : ∀ b ∈ tag.head?, isIdentStart b = true)
    (hbody : ¬ dollarDelim tag <:+: body ++ (dollarDelim tag).dropLast) :
    ReadsWhole false ver '$'.toUInt8 (tag ++ ['$'.toUInt8]) body (dollarDelim tag) '$'.toUInt8 false := by
  constructor
  · intro rest _
    apply sqlStep_dollar
    rw [List.append_assoc, List.singleton_append, sqlDollar_open htag hstart,
      dollarClose_first hbody (List.cons_ne_nil _ _)]
    rfl
  · intro n
    have hcut : ¬ dollarDelim tag <:+: body.take n := by
      intro hin
      exact hbody (hin.trans ((List.take_prefix n body).trans (List.prefix_append body _)).isInfix)
    refine ⟨true, sqlStep_dollar ver _ ?_⟩
    rw [List.append_assoc, List.singleton_append, sqlDollar_open htag hstart, dollarClose_none hcut]

end

theorem SqlForm.Literal.readsWhole {form : SqlForm} (h : form.Literal opening body closing) (ver : Nat) :
    ∃ c opened, opening = c :: opened ∧ ReadsWhole form.my ver c opened body closing form.quote (form != .dollar) := by
  cases h with
  | string h =>
    exact ⟨singleQuote, [], rfl, h.readsWhole ver (by decide) (by decide) (by decide) (sqlString_quote false)⟩
  | @escape e body he h =>
    have hclass : sqlIsSpace e = false ∧ mayComment e = false := by
      rw [isExpMark, Bool.or_eq_true, beq_iff_eq, beq_iff_eq] at he
      rcases he with rfl | rfl <;> decide
    exact ⟨e, [singleQuote], rfl, h.readsWhole ver (by decide) hclass.1 hclass.2 (sqlString_escape he)⟩
  | dollar htag hstart hbody =>
    exact ⟨'$'.toUInt8, _, rfl, dollar_readsWhole ver htag hstart hbody⟩
  | mySingle h =>
    exact ⟨singleQuote, [], rfl, h.readsWhole ver (by decide) (by decide) (by decide) (sqlString_quote true)⟩
  | myDouble h =>
    exact ⟨doubleQuote, [], rfl, h.readsWhole ver (by decide) (by decide) (by decide) sqlString_double⟩

/-- The text, the fingerprint and the flag are the same for every literal of a form, and a cut inside one
leaves the text of a placeholder in its place. -/
theorem sql_literal_noninterference (xxh3 : List Byte → UInt64) {form : SqlForm} (hp : TopLevel form.my 0 p)
    (hlit : form.Literal opening body closing) :
    (∀ opening' body' closing' rest, form.Literal opening' body' closing' → rest.head? ≠ some form.quote →
        lkNormSql xxh3 form.my (p ++ (opening ++ body ++ closing) ++ rest) =
          lkNormSql xxh3 form.my (p ++ (opening' ++ body' ++ closing') ++ rest)) ∧
      ∀ n, (lkNormSql xxh3 form.my (p ++ opening ++ body.take n)).text =
        (lkNormSql xxh3 form.my (p ++ ['?'.toUInt8])).text := by
  obtain ⟨toks, trunc, ver, hlex⟩ := hp.lex
  obtain ⟨c, opened, rfl, hreads⟩ := hlit.readsWhole ver
  constructor
  · intro opening' body' closing' rest hlit' hrest
    obtain ⟨c', opened', rfl, hreads'⟩ := hlit'.readsWhole ver
    have hsame : sqlLex form.my 0 (p ++ (c :: opened ++ body ++ closing) ++ rest) =
        sqlLex form.my 0 (p ++ (c' :: opened' ++ body' ++ closing') ++ rest) := by
      simp only [List.append_assoc, List.cons_append, hlex]
      rw [sqlLex, sqlLex, hreads.whole rest hrest, hreads'.whole rest hrest]
    rw [lkNormSql, lkNormSql, sqlPrinted, sqlPrinted, hsame]
  · intro n
    have hcut : (sqlLex form.my 0 (p ++ (c :: opened) ++ body.take n)).1 = toks ++ [.ph] := by
      obtain ⟨open', hstep⟩ := hreads.cut n
      rw [List.append_assoc, hlex, List.cons_append, sqlLex, hstep]
      dsimp only
      rw [sqlLex]
      rfl
    have hmark : (sqlLex form.my 0 (p ++ ['?'.toUInt8])).1 = toks ++ [.ph] := by
      have hpunct : sqlPunct form.my ver '?'.toUInt8 [] = ⟨some .ph, false, ver, []⟩ := rfl
      rw [hlex, sqlLex, sqlStep, sqlBlank_none form.my ver (by decide) (by decide), Option.getD_none,
        sqlToken_punct form.my ver (by decide), hpunct]
      dsimp only
      rw [sqlLex]
      rfl
    rw [(lkNormSql_eq xxh3 _ _).1, (lkNormSql_eq xxh3 _ _).1, sqlPrinted, sqlPrinted, hcut, hmark]

theorem QuotedBody.plain (h : ∀ b ∈ p, b ≠ q ∧ b ≠ backslash) : QuotedBody q esc p := by
  induction p with
  | nil => exact .nil
  | cons b p ih =>
    have hb := h b (List.mem_cons_self ..)
    exact .byte hb.1 (fun _ => hb.2) (ih fun c hc => h c (List.mem_cons_of_mem b hc))

/-- Two strings in a list of values, and one that the capture has cut. -/
theorem sql_literal_noninterference_values :
    let norm := lkNormSql (fun _ => 0) false
    let values := "values (".toUTF8.toList
    norm (values ++ ([singleQuote] ++ "secret".toUTF8.toList ++ [singleQuote]) ++ ")".toUTF8.toList) =
        norm (values ++ ([singleQuote] ++ "x".toUTF8.toList ++ [singleQuote]) ++ ")".toUTF8.toList) ∧
      (norm (values ++ [singleQuote] ++ "secret".toUTF8.toList.take 3)).text =
        (norm (values ++ ['?'.toUInt8])).text := by
  have htop : TopLevel SqlForm.string.my 0 "values (".toUTF8.toList := by
    change TopLevel false 0 _
    have hbytes : "values (".toUTF8.toList = 'v'.toUInt8 :: "alues (".toUTF8.toList := by decide +kernel
    have hword : sqlStep false 0 'v'.toUInt8 "alues (".toUTF8.toList =
        ⟨some (.other "values".toUTF8.toList), false, 0, [sqlSpace, '('.toUInt8]⟩ := by decide +kernel
    rw [hbytes]
    apply TopLevel.step
    rw [hword]
    exact .step (.gap rfl)
  have hlit : ∀ body : List Byte, (∀ b ∈ body, b ≠ singleQuote ∧ b ≠ backslash) →
      SqlForm.string.Literal [singleQuote] body [singleQuote] := fun body h => .string (.plain h)
  have hall := sql_literal_noninterference (fun _ => 0) htop (hlit "secret".toUTF8.toList (by decide +kernel))
  exact ⟨hall.1 _ _ _ _ (hlit "x".toUTF8.toList (by decide +kernel)) (by decide +kernel), hall.2 3⟩

/-- A dollar quote whose contents end in a part of the delimiter is closed too early, as PostgreSQL does. -/
theorem sql_dollar_overlap :
    ¬ dollarDelim [] <:+: "a$".toUTF8.toList ∧ ¬ dollarDelim [] <:+: "b".toUTF8.toList ∧
      (lkNormSql (fun _ => 0) false
          ("(".toUTF8.toList ++ (dollarDelim [] ++ "a$".toUTF8.toList ++ dollarDelim []))).text =
        "( ? $".toUTF8.toList ∧
      (lkNormSql (fun _ => 0) false
          ("(".toUTF8.toList ++ (dollarDelim [] ++ "b".toUTF8.toList ++ dollarDelim []))).text =
        "( ?".toUTF8.toList := by
  decide +kernel

end Latkit
