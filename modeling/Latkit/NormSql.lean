import Latkit.QueryObs
import Latkit.Sieve

namespace Latkit

/-! The SQL normaliser: a lexer, two filters that collapse lists, and a sink with text and fingerprint. -/

/-- The canonical text is clipped; the fingerprint is not. -/
def lkNormTextMax : Nat := 1024

inductive SqlKind where
  | other
  | lp
  | rp
  | comma
  | ph
  | semi
  deriving DecidableEq, Repr

inductive SqlTok where
  | other (text : List Byte)
  | lp
  | rp
  | comma
  | ph
  | semi
  deriving DecidableEq, Repr

namespace SqlTok

def kind : SqlTok → SqlKind
  | other _ => .other
  | lp => .lp
  | rp => .rp
  | comma => .comma
  | ph => .ph
  | semi => .semi

def text : SqlTok → List Byte
  | other text => text
  | lp => ['('.toUInt8]
  | rp => [')'.toUInt8]
  | comma => [','.toUInt8]
  | ph => ['?'.toUInt8]
  | semi => [';'.toUInt8]

end SqlTok

def sqlSpace : Byte := ' '.toUInt8
def sqlNewline : Byte := 0x0a
def singleQuote : Byte := 0x27
def doubleQuote : Byte := 0x22
def backQuote : Byte := 0x60
def backslash : Byte := 0x5c

def sqlIsSpace (b : Byte) : Bool := ([sqlSpace, 0x09, sqlNewline, 0x0d, 0x0c, 0x0b] : List Byte).contains b

def sqlIsDigit (b : Byte) : Bool := '0'.toUInt8 ≤ b && b ≤ '9'.toUInt8

def sqlIsAlpha (b : Byte) : Bool :=
  ('a'.toUInt8 ≤ b && b ≤ 'z'.toUInt8) || ('A'.toUInt8 ≤ b && b ≤ 'Z'.toUInt8)

def isIdentStart (b : Byte) : Bool := sqlIsAlpha b || b == '_'.toUInt8 || 0x80 ≤ b

def isIdentCont (b : Byte) : Bool := isIdentStart b || sqlIsDigit b || b == '$'.toUInt8

def isOpChar (b : Byte) : Bool :=
  ([0x2b, 0x2d, 0x2a, 0x2f, 0x3c, 0x3e, 0x3d, 0x7e, 0x21, 0x40, 0x23, 0x25, 0x5e, 0x26, 0x7c, backQuote, 0x3a] :
    List Byte).contains b

def skipQuoted (q : Byte) (esc : Bool) : List Byte → List Byte
  | [] => []
  | [_] => []
  | b :: c :: p =>
    if esc && b == backslash then skipQuoted q esc p
    else if b = q then if c = q then skipQuoted q esc p else c :: p
    else skipQuoted q esc (c :: p)

/-- Past a block comment, `depth` openers deep, and whether it was left open. Only PostgreSQL nests them. -/
def skipBlock (my : Bool) : (depth : Nat) → List Byte → Bool × List Byte
  | 0, p => (false, p)
  | _ + 1, [] => (true, [])
  | _ + 1, [_] => (true, [])
  | depth + 1, a :: b :: p =>
    if !my && a == '/'.toUInt8 && b == '*'.toUInt8 then skipBlock my (depth + 2) p
    else if a = '*'.toUInt8 ∧ b = '/'.toUInt8 then skipBlock my depth p
    else skipBlock my (depth + 1) (b :: p)

def dollarClose (delim : List Byte) : List Byte → Option (List Byte)
  | [] => none
  | b :: p => if delim.isPrefixOf (b :: p) then some ((b :: p).drop delim.length) else dollarClose delim p

def inTag (b : Byte) : Bool := isIdentCont b && b != '$'.toUInt8

/-- What follows a dollar sign of PostgreSQL, if it is a parameter or a quoted string, and whether that
was left open. -/
def sqlDollar (p : List Byte) : Option (Bool × List Byte) :=
  if p.head?.any sqlIsDigit then some (false, p.dropWhile sqlIsDigit)
  else if p.head?.any fun b => b == '$'.toUInt8 || isIdentStart b then
    match p.dropWhile inTag with
    | [] => none
    | b :: body =>
      if b = '$'.toUInt8 then
        match dollarClose ('$'.toUInt8 :: p.takeWhile inTag ++ ['$'.toUInt8]) body with
        | some rest => some (false, rest)
        | none => some (true, [])
      else none
  else none

def inNumber (b : Byte) : Bool := sqlIsDigit b || b == '_'.toUInt8

def isExpMark (b : Byte) : Bool := b == 'e'.toUInt8 || b == 'E'.toUInt8

def sqlExponent (p : List Byte) : List Byte :=
  if p.head?.any isExpMark then
    let e := p.tail
    let e := if e.head?.any fun b => b == '+'.toUInt8 || b == '-'.toUInt8 then e.tail else e
    if e.head?.any sqlIsDigit then e.tail.dropWhile inNumber else p
  else p

def isRadix (b : Byte) : Bool :=
  (['x'.toUInt8, 'X'.toUInt8, 'o'.toUInt8, 'O'.toUInt8, 'b'.toUInt8, 'B'.toUInt8] : List Byte).contains b

def sqlNumber (c : Byte) (p : List Byte) : List Byte :=
  if c = '0'.toUInt8 ∧ p.head?.any isRadix then p.tail.dropWhile inTag
  else
    let p := p.dropWhile inNumber
    sqlExponent (if p.head? = some '.'.toUInt8 then p.tail.dropWhile inNumber else p)

def opRun (my : Bool) (ver : Nat) : List Byte → List Byte
  | [] => []
  | b :: p =>
    if !isOpChar b then []
    else if b = '-'.toUInt8 ∧ p.head? = some '-'.toUInt8 then []
    else if b = '/'.toUInt8 ∧ p.head? = some '*'.toUInt8 then []
    else if my ∧ (b = '#'.toUInt8 ∨ b = backQuote) then []
    else if 0 < ver ∧ b = '*'.toUInt8 ∧ p.head? = some '/'.toUInt8 then []
    else b :: opRun my ver p

/-- The quote of a string that opens with `c`, whether a backslash escapes in it, and its body. -/
def sqlString (my : Bool) (c : Byte) (p : List Byte) : Option (Byte × Bool × List Byte) :=
  let letters : List Byte := ['b'.toUInt8, 'B'.toUInt8, 'x'.toUInt8, 'X'.toUInt8]
  if c = singleQuote then some (singleQuote, my, p)
  else if my ∧ c = doubleQuote then some (doubleQuote, true, p)
  else if p.head? = some singleQuote then
    if ¬ my ∧ isExpMark c then some (singleQuote, true, p.tail)
    else if letters.contains c ∨ my ∧ (c = 'n'.toUInt8 ∨ c = 'N'.toUInt8) then some (singleQuote, my, p.tail)
    else none
  else none

def identQuote (my : Bool) : Byte := if my then backQuote else doubleQuote

/-- One turn of the lexer: the token, if there is one, whether the input ran out in it, the versioned
comments that are open, and the input that is left. -/
structure SqlStep where
  tok : Option SqlTok := none
  trunc : Bool := false
  ver : Nat
  rest : List Byte
  deriving DecidableEq, Repr

def sqlBlank (my : Bool) (ver : Nat) (c : Byte) (p : List Byte) : Option SqlStep :=
  if sqlIsSpace c then some { ver := ver, rest := p }
  else if 0 < ver ∧ c = '*'.toUInt8 ∧ p.head? = some '/'.toUInt8 then some { ver := ver - 1, rest := p.tail }
  else if c = '-'.toUInt8 ∧ p.head? = some '-'.toUInt8 then
    some { ver := ver, rest := p.tail.dropWhile (· != sqlNewline) }
  else if my ∧ c = '#'.toUInt8 then some { ver := ver, rest := p.dropWhile (· != sqlNewline) }
  else if c = '/'.toUInt8 ∧ p.head? = some '*'.toUInt8 then
    if my ∧ p.tail.head? = some '!'.toUInt8 then
      some { ver := ver + 1, rest := p.tail.tail.dropWhile sqlIsDigit }
    else some { trunc := (skipBlock my 1 p.tail).1, ver := ver, rest := (skipBlock my 1 p.tail).2 }
  else none

/-- A quoted string or identifier: what is behind it, and the mark that the input may have ended in it. -/
def sqlQuoted (tok : SqlTok) (ver : Nat) (rest : List Byte) : SqlStep := ⟨some tok, rest.isEmpty, ver, rest⟩

/-- An identifier. In MySQL a quote behind one with a leading underscore makes it a string. -/
def sqlIdent (my : Bool) (ver : Nat) (c : Byte) (p : List Byte) : SqlStep :=
  let rest := p.dropWhile isIdentCont
  match rest with
  | [] => ⟨some (.other ((c :: p.takeWhile isIdentCont).map asciiLower)), false, ver, rest⟩
  | q :: body =>
    if my ∧ c = '_'.toUInt8 ∧ (q = singleQuote ∨ q = doubleQuote) then sqlQuoted .ph ver (skipQuoted q true body)
    else ⟨some (.other ((c :: p.takeWhile isIdentCont).map asciiLower)), false, ver, rest⟩

def sqlPunct (my : Bool) (ver : Nat) (c : Byte) (p : List Byte) : SqlStep :=
  if c = '('.toUInt8 then ⟨some .lp, false, ver, p⟩
  else if c = ')'.toUInt8 then ⟨some .rp, false, ver, p⟩
  else if c = ','.toUInt8 then ⟨some .comma, false, ver, p⟩
  else if c = ';'.toUInt8 then ⟨some .semi, false, ver, p⟩
  else if c = '?'.toUInt8 then ⟨some .ph, false, ver, p⟩
  else if isOpChar c then ⟨some (.other (c :: opRun my ver p)), false, ver, p.drop (opRun my ver p).length⟩
  else ⟨some (.other [c]), false, ver, p⟩

def sqlToken (my : Bool) (ver : Nat) (c : Byte) (p : List Byte) : SqlStep :=
  match sqlString my c p with
  | some (q, esc, body) => sqlQuoted .ph ver (skipQuoted q esc body)
  | none =>
    if c = identQuote my then
      let rest := skipQuoted c false p
      sqlQuoted (.other (c :: p.take (p.length - rest.length))) ver rest
    else if ¬ my ∧ c = '$'.toUInt8 then
      match sqlDollar p with
      | some (trunc, rest) => ⟨some .ph, trunc, ver, rest⟩
      | none => ⟨some (.other [c]), false, ver, p⟩
    else if sqlIsDigit c ∨ c = '.'.toUInt8 ∧ p.head?.any sqlIsDigit then ⟨some .ph, false, ver, sqlNumber c p⟩
    else if isIdentStart c ∨ my ∧ c = '$'.toUInt8 then sqlIdent my ver c p
    else sqlPunct my ver c p

def sqlStep (my : Bool) (ver : Nat) (c : Byte) (p : List Byte) : SqlStep :=
  (sqlBlank my ver c p).getD (sqlToken my ver c p)

/-! Every turn reads at least one byte, and what it leaves is the end of the input. -/

theorem suffix_behind_two {x p : List Byte} (h : x <:+ p) (a b : Byte) : x <:+ a :: b :: p :=
  h.trans ((List.suffix_cons b p).trans (List.suffix_cons a _))

theorem skipQuoted_suffix (q : Byte) (esc : Bool) (p : List Byte) : skipQuoted q esc p <:+ p := by
  fun_induction skipQuoted q esc p with
  | case1 => exact List.suffix_refl _
  | case2 => exact List.nil_suffix
  | case3 b c p _ ih => exact suffix_behind_two ih b c
  | case4 p _ ih => exact suffix_behind_two ih q q
  | case5 c p => exact List.suffix_cons q _
  | case6 b c p _ _ ih => exact ih.trans (List.suffix_cons b _)

theorem skipBlock_suffix (my : Bool) (depth : Nat) (p : List Byte) : (skipBlock my depth p).2 <:+ p := by
  fun_induction skipBlock my depth p with
  | case1 => exact List.suffix_refl _
  | case2 => exact List.nil_suffix
  | case3 => exact List.nil_suffix
  | case4 depth a b p _ ih => exact suffix_behind_two ih a b
  | case5 depth a b p _ _ ih => exact suffix_behind_two ih a b
  | case6 depth a b p _ _ ih => exact ih.trans (List.suffix_cons a _)

theorem dollarClose_suffix (h : dollarClose delim p = some rest) : rest <:+ p := by
  induction p with
  | nil => cases h
  | cons b p ih =>
    rw [dollarClose] at h
    split at h
    · cases h
      exact List.drop_suffix _ _
    · exact (ih h).trans (List.suffix_cons b p)

theorem sqlDollar_suffix (h : sqlDollar p = some (trunc, rest)) : rest <:+ p := by
  rw [sqlDollar] at h
  split at h
  · cases h
    exact List.dropWhile_suffix _
  · split at h
    · split at h
      · cases h
      · next b body hdrop =>
        have hbody : body <:+ p := (List.suffix_cons b body).trans (hdrop ▸ List.dropWhile_suffix inTag)
        split at h
        · split at h
          · next rest' hclose =>
            cases h
            exact (dollarClose_suffix hclose).trans hbody
          · cases h
            exact List.nil_suffix
        · cases h
    · cases h

theorem sqlExponent_suffix (p : List Byte) : sqlExponent p <:+ p := by
  rw [sqlExponent]
  split
  · dsimp only
    split
    · split
      · exact (List.dropWhile_suffix _).trans
          ((List.tail_suffix _).trans ((List.tail_suffix _).trans (List.tail_suffix p)))
      · exact List.suffix_refl p
    · split
      · exact (List.dropWhile_suffix _).trans ((List.tail_suffix _).trans (List.tail_suffix p))
      · exact List.suffix_refl p
  · exact List.suffix_refl p

theorem sqlNumber_suffix (c : Byte) (p : List Byte) : sqlNumber c p <:+ p := by
  rw [sqlNumber]
  split
  · exact (List.dropWhile_suffix _).trans (List.tail_suffix p)
  · apply (sqlExponent_suffix _).trans
    split
    · exact (List.dropWhile_suffix _).trans ((List.tail_suffix _).trans (List.dropWhile_suffix _))
    · exact List.dropWhile_suffix _

theorem sqlString_suffix (h : sqlString my c p = some (q, esc, body)) : body <:+ p := by
  rw [sqlString] at h
  split at h
  · cases h
    exact List.suffix_refl p
  · split at h
    · cases h
      exact List.suffix_refl p
    · split at h
      · split at h
        · cases h
          exact List.tail_suffix p
        · split at h
          · cases h
            exact List.tail_suffix p
          · cases h
      · cases h

theorem sqlBlank_suffix (h : sqlBlank my ver c p = some st) : st.rest <:+ p := by
  rw [sqlBlank] at h
  split at h
  · cases h
    exact List.suffix_refl p
  · split at h
    · cases h
      exact List.tail_suffix p
    · split at h
      · cases h
        exact (List.dropWhile_suffix _).trans (List.tail_suffix p)
      · split at h
        · cases h
          exact List.dropWhile_suffix _
        · split at h
          · split at h
            · cases h
              exact (List.dropWhile_suffix _).trans ((List.tail_suffix _).trans (List.tail_suffix p))
            · cases h
              exact (skipBlock_suffix _ _ _).trans (List.tail_suffix p)
          · cases h

theorem sqlIdent_suffix (my : Bool) (ver : Nat) (c : Byte) (p : List Byte) : (sqlIdent my ver c p).rest <:+ p := by
  rw [sqlIdent]
  split
  · exact List.dropWhile_suffix _
  · next q body hdrop =>
    have hbody : body <:+ p := (List.suffix_cons q body).trans (hdrop ▸ List.dropWhile_suffix isIdentCont)
    split
    · exact (skipQuoted_suffix q true body).trans hbody
    · exact List.dropWhile_suffix _

theorem sqlPunct_suffix (my : Bool) (ver : Nat) (c : Byte) (p : List Byte) : (sqlPunct my ver c p).rest <:+ p := by
  rw [sqlPunct]
  iterate 5
    split
    · exact List.suffix_refl p
  split
  · exact List.drop_suffix _ p
  · exact List.suffix_refl p

theorem sqlToken_suffix (my : Bool) (ver : Nat) (c : Byte) (p : List Byte) : (sqlToken my ver c p).rest <:+ p := by
  rw [sqlToken]
  split
  · next q esc body hstring => exact (skipQuoted_suffix q esc body).trans (sqlString_suffix hstring)
  · split
    · exact skipQuoted_suffix c false p
    · split
      · split
        · next trunc rest hdollar => exact sqlDollar_suffix hdollar
        · exact List.suffix_refl p
      · split
        · exact sqlNumber_suffix c p
        · split
          · exact sqlIdent_suffix my ver c p
          · exact sqlPunct_suffix my ver c p

theorem sqlStep_suffix (my : Bool) (ver : Nat) (c : Byte) (p : List Byte) : (sqlStep my ver c p).rest <:+ p := by
  rw [sqlStep]
  cases hblank : sqlBlank my ver c p with
  | none => exact sqlToken_suffix my ver c p
  | some st => exact sqlBlank_suffix hblank

def sqlLex (my : Bool) (ver : Nat) : List Byte → List SqlTok × Bool
  | [] => ([], decide (0 < ver))
  | c :: p =>
    let st := sqlStep my ver c p
    let r := sqlLex my st.ver st.rest
    (st.tok.toList ++ r.1, st.trunc || r.2)
termination_by p => p.length
decreasing_by exact Nat.lt_succ_of_le (sqlStep_suffix my ver c p).length_le

structure F1 where
  prev : SqlKind := .other
  depth : Nat := 0
  heldComma : Bool := false
  deriving DecidableEq, Repr

def f1Forward (s : F1) (t : SqlTok) : List SqlTok × F1 :=
  if t = .comma ∧ s.prev = .ph ∧ 0 < s.depth then ([], { s with heldComma := true })
  else
    ([t],
      { s with
        prev := t.kind
        depth := if t = .lp then s.depth + 1 else if t = .rp then s.depth - 1 else s.depth })

def f1Push (s : F1) (t : SqlTok) : List SqlTok × F1 :=
  if s.heldComma then
    if t = .ph then ([], { s with prev := .ph, heldComma := false })
    else
      let (out, s) := f1Forward { s with prev := .comma, heldComma := false } t
      (.comma :: out, s)
  else f1Forward s t

def f1 : Sieve.Stage SqlTok F1 where
  push := f1Push
  finish s := if s.heldComma then [.comma] else []

inductive F2Grp where
  | none
  | lp
  | lpq
  deriving DecidableEq, Repr

inductive F2Match where
  | none
  | comma
  | lp
  | qmark
  deriving DecidableEq, Repr

structure F2 where
  grp : F2Grp := .none
  held : F2Match := .none
  haveGroup : Bool := false
  deriving DecidableEq, Repr

def f2Emit (s : F2) : SqlTok → F2
  | .lp => { s with grp := .lp, haveGroup := false }
  | .ph => { s with grp := if s.grp = .lp then .lpq else .none, haveGroup := false }
  | .rp => { s with grp := .none, haveGroup := decide (s.grp = .lpq) }
  | _ => { s with grp := .none, haveGroup := false }

def F2Match.toks : F2Match → List SqlTok
  | .none => []
  | .comma => [.comma]
  | .lp => [.comma, .lp]
  | .qmark => [.comma, .lp, .ph]

def f2FlushMatch (s : F2) : F2 := s.held.toks.foldl f2Emit { s with held := .none }

def f2Push (s : F2) (t : SqlTok) : List SqlTok × F2 :=
  match s.held, t with
  | .comma, .lp => ([], { s with held := .lp })
  | .lp, .ph => ([], { s with held := .qmark })
  | .qmark, .rp => ([], { s with held := .none })
  | _, t =>
    let s' := f2FlushMatch s
    if s'.haveGroup ∧ t = .comma then (s.held.toks, { s' with held := .comma })
    else (s.held.toks ++ [t], f2Emit s' t)

def f2 : Sieve.Stage SqlTok F2 where
  push := f2Push
  finish s := s.held.toks

def sink : Sieve.Stage SqlTok Nat where
  push pending t := if t = .semi then ([], pending + 1) else (List.replicate pending .semi ++ [t], 0)
  finish _ := []

structure NormCtx where
  text : List Byte := []
  trunc : Bool := false
  first : Bool := true
  fed : List Byte := []
  deriving DecidableEq, Repr

def putBytes (nx : NormCtx) (s : List Byte) : NormCtx :=
  let room := lkNormTextMax - 1 - nx.text.length
  { nx with text := nx.text ++ s.take room, trunc := nx.trunc || room < s.length }

def outToken (nx : NormCtx) (t : SqlTok) : NormCtx :=
  let nx := if nx.first then nx else putBytes nx [sqlSpace]
  { putBytes nx t.text with first := false, fed := nx.fed ++ t.text ++ [0] }

structure LkNormOut where
  text : List Byte
  fp : UInt64
  trunc : Bool
  deriving DecidableEq, Repr

def sqlPrinted (my : Bool) (sql : List Byte) : List SqlTok := sink.run 0 (f2.run {} (f1.run {} (sqlLex my 0 sql).1))

def lkNormSql (xxh3 : List Byte → UInt64) (my : Bool) (sql : List Byte) : LkNormOut :=
  let nx := (sqlPrinted my sql).foldl outToken { trunc := (sqlLex my 0 sql).2 }
  ⟨nx.text, xxh3 nx.fed, nx.trunc⟩

def sqlJoin : List SqlTok → List Byte
  | [] => []
  | t :: toks => t.text ++ toks.flatMap fun t => sqlSpace :: t.text

def sqlFeed (toks : List SqlTok) : List Byte := toks.flatMap fun t => t.text ++ [0]

theorem putBytes_text (nx : NormCtx) (s : List Byte) (h : nx.text = w.take (lkNormTextMax - 1)) :
    (putBytes nx s).text = (w ++ s).take (lkNormTextMax - 1) := by
  rw [putBytes]
  dsimp only
  rw [h, List.length_take, List.take_append]
  congr 2
  omega

theorem foldl_outToken (toks : List SqlTok) (nx : NormCtx) (hfirst : nx.first = false)
    (htext : nx.text = w.take (lkNormTextMax - 1)) :
    (toks.foldl outToken nx).text = (w ++ toks.flatMap fun t => sqlSpace :: t.text).take (lkNormTextMax - 1) ∧
      (toks.foldl outToken nx).fed = nx.fed ++ sqlFeed toks := by
  induction toks generalizing nx w with
  | nil => exact ⟨by rw [List.flatMap_nil, List.append_nil]; exact htext, (List.append_nil _).symm⟩
  | cons t toks ih =>
    have hstep : (outToken nx t).text = (w ++ [sqlSpace] ++ t.text).take (lkNormTextMax - 1) := by
      rw [outToken, hfirst]
      exact putBytes_text _ _ (putBytes_text nx [sqlSpace] htext)
    have hfed : (outToken nx t).fed = nx.fed ++ t.text ++ [0] := by
      rw [outToken, hfirst]
      rfl
    obtain ⟨ihtext, ihfed⟩ := ih (outToken nx t) rfl hstep
    rw [List.foldl_cons, ihtext, ihfed, hfed]
    simp [sqlFeed]

theorem lkNormSql_eq (xxh3 : List Byte → UInt64) (my : Bool) (sql : List Byte) :
    (lkNormSql xxh3 my sql).text = (sqlJoin (sqlPrinted my sql)).take (lkNormTextMax - 1) ∧
      (lkNormSql xxh3 my sql).fp = xxh3 (sqlFeed (sqlPrinted my sql)) := by
  rw [lkNormSql]
  dsimp only
  cases sqlPrinted my sql with
  | nil => exact ⟨rfl, rfl⟩
  | cons t toks =>
    have hstep : ∀ trunc, (outToken { trunc := trunc } t).text = t.text.take (lkNormTextMax - 1) :=
      fun trunc => putBytes_text (w := []) { trunc := trunc } t.text rfl
    obtain ⟨htext, hfed⟩ := foldl_outToken toks (outToken { trunc := (sqlLex my 0 sql).2 } t) rfl (hstep _)
    rw [List.foldl_cons, htext, hfed]
    exact ⟨rfl, rfl⟩

end Latkit
