import Latkit.RedisWire
import Latkit.QueryObs
import Latkit.Delimited

namespace Latkit
open Delimited (tail_dropWhile_lt)

/-! The text of an HTTP head: lines, fields and start lines. -/

def httpIsDigit (b : Byte) : Bool := '0'.toUInt8 ≤ b && b ≤ '9'.toUInt8

def httpIsOws (b : Byte) : Bool := b == ' '.toUInt8 || b == '\t'.toUInt8

def httpIsAlpha (b : Byte) : Bool :=
  ('a'.toUInt8 ≤ b && b ≤ 'z'.toUInt8) || ('A'.toUInt8 ≤ b && b ≤ 'Z'.toUInt8)

/-- The bytes of a method and of a field name. The thirteenth of the marks is the backtick. -/
def httpIsTchar (b : Byte) : Bool :=
  httpIsAlpha b || httpIsDigit b ||
    ([0x21, 0x23, 0x24, 0x25, 0x26, 0x27, 0x2a, 0x2b, 0x2d, 0x2e, 0x5e, 0x5f, 0x60, 0x7c, 0x7e] : List Byte).contains b

def httpHexVal (b : Byte) : Option Nat :=
  if httpIsDigit b then some (b - '0'.toUInt8).toNat
  else if 'a'.toUInt8 ≤ b ∧ b ≤ 'f'.toUInt8 then some ((b - 'a'.toUInt8).toNat + 10)
  else if 'A'.toUInt8 ≤ b ∧ b ≤ 'F'.toUInt8 then some ((b - 'A'.toUInt8).toNat + 10)
  else none

def spanEqCi (s : List Byte) (lit : String) : Bool := keyIs (s.map asciiLower) lit

def httpTrimOws (s : List Byte) : List Byte := (s.dropWhile httpIsOws).rdropWhile httpIsOws

/-- The members of a comma-separated list, trimmed; between commas there may be none. -/
def httpListMembers (v : List Byte) : List (List Byte) :=
  ((v.splitOnP (· == ','.toUInt8)).map httpTrimOws).filter (· ≠ [])

def httpListHas (v : List Byte) (tok : String) : Bool := (httpListMembers v).any (spanEqCi · tok)

def httpListLast (v : List Byte) : List Byte := (httpListMembers v).getLastD []

def httpDigit (b : Byte) : Option Nat := if httpIsDigit b then some (b - '0'.toUInt8).toNat else none

def httpParseU64 (s : List Byte) : Option Nat :=
  if s = [] then none else Numeral.read 10 httpDigit (2 ^ 62 / 10) 0 s

def httpParseContentLength (v : List Byte) : Option Nat :=
  match (httpListMembers v).map httpParseU64 with
  | [] => none
  | first :: more => if more.all (· == first) then first else none

structure HttpHead where
  rest : List Byte
  lfOnly : Bool := false
  bad : Bool := false
  noEol : Bool := false
  deriving DecidableEq, Repr

def httpHeadLine (h : HttpHead) : Option (List Byte × HttpHead) :=
  if h.rest = [] then none
  else
    let line := h.rest.takeWhile (· != lf)
    match h.rest.dropWhile (· != lf) with
    | [] => some (line, { h with rest := [], noEol := true })
    | _ :: rest =>
      if line.getLast? = some cr then some (line.dropLast, { h with rest := rest })
      else some (line, { h with rest := rest, lfOnly := true })

structure HttpField where
  name : List Byte
  val : List Byte
  deriving DecidableEq, Repr

def httpField (line : List Byte) : Option HttpField :=
  let name := line.takeWhile (· != ':'.toUInt8)
  if line.head?.any httpIsOws || !name.all httpIsTchar || name = [] || name.length = line.length then none
  else some ⟨name, httpTrimOws (line.drop (name.length + 1))⟩

def httpHeadField (h : HttpHead) : Option HttpField × HttpHead :=
  if h.bad then (none, h)
  else
    match httpHeadLine h with
    | none => (none, h)
    | some (line, h) =>
      if line = [] then (none, h)
      else
        match httpField line with
        | none => (none, { h with bad := true })
        | some f => (some f, h)

theorem httpHeadLine_lt (h : httpHeadLine hd = some (line, hd')) : hd'.rest.length < hd.rest.length := by
  rw [httpHeadLine] at h
  split at h
  · cases h
  · next hne =>
    have hpos := List.length_pos_iff.mpr hne
    dsimp only at h
    split at h
    · cases h
      exact hpos
    · next c rest hdrop =>
      have hle := (List.dropWhile_suffix (· != lf) (l := hd.rest)).length_le
      rw [hdrop, List.length_cons] at hle
      split at h
      · cases h
        exact hle
      · cases h
        exact hle

theorem httpHeadField_lt (h : httpHeadField hd = (some f, hd')) : hd'.rest.length < hd.rest.length := by
  rw [httpHeadField] at h
  split at h
  · cases h
  · split at h
    · cases h
    · next line hd₁ hline =>
      split at h
      · cases h
      · split at h
        · cases h
        · cases h
          exact httpHeadLine_lt hline

def httpHeadFields (h : HttpHead) : List HttpField × HttpHead :=
  match _heq : httpHeadField h with
  | (none, h') => ([], h')
  | (some f, h') =>
    let (fs, h'') := httpHeadFields h'
    (f :: fs, h'')
termination_by h.rest.length
decreasing_by exact httpHeadField_lt _heq

inductive HttpMethod where
  | other
  | get
  | head
  | post
  | put
  | delete
  | connect
  | options
  | trace
  | patch
  deriving DecidableEq, Repr

def httpMethodId (m : List Byte) : HttpMethod :=
  if keyIs m "GET" then .get
  else if keyIs m "HEAD" then .head
  else if keyIs m "POST" then .post
  else if keyIs m "PUT" then .put
  else if keyIs m "DELETE" then .delete
  else if keyIs m "CONNECT" then .connect
  else if keyIs m "OPTIONS" then .options
  else if keyIs m "TRACE" then .trace
  else if keyIs m "PATCH" then .patch
  else .other

def httpIsCtl (b : Byte) : Bool := b ≤ 0x20 || b == 0x7f

structure HttpReqLine where
  method : List Byte
  target : List Byte
  minor : Nat
  deriving DecidableEq, Repr

def httpMinor (v : List Byte) : Option Nat :=
  if keyIs v "HTTP/1.0" then some 0 else if keyIs v "HTTP/1.1" then some 1 else none

def httpParseReqLine (line : List Byte) : Option HttpReqLine :=
  let method := line.takeWhile (· != ' '.toUInt8)
  let rest := line.drop (method.length + 1)
  let target := rest.takeWhile (· != ' '.toUInt8)
  if !method.all httpIsTchar || method = [] || method.length = line.length then none
  else if target.any httpIsCtl || target = [] || target.length = rest.length then none
  else (httpMinor (rest.drop (target.length + 1))).map fun minor => ⟨method, target, minor⟩

def httpParseStatusLine (text : List Byte) : Option (Nat × Nat) := do
  let minor ← httpMinor (text.take 8)
  if text[8]? ≠ some ' '.toUInt8 then none
  let a ← text[9]?.bind httpDigit
  let b ← text[10]?.bind httpDigit
  let c ← text[11]?.bind httpDigit
  if a < 1 ∨ 5 < a then none
  else if 12 < text.length ∧ text[12]? ≠ some ' '.toUInt8 then none
  else some (a * 100 + b * 10 + c, minor)

structure HttpTarget where
  path : List Byte
  query : List Byte
  authority : List Byte
  deriving DecidableEq, Repr

/-- Path and query, behind the authority of an absolute form. An authority form has neither. -/
def httpTargetSplit (t : List Byte) : HttpTarget :=
  let scheme := t.takeWhile fun b => b != ':'.toUInt8 && b != '/'.toUInt8 && b != '?'.toUInt8
  let split (authority t : List Byte) : HttpTarget :=
    ⟨t.takeWhile (· != '?'.toUInt8), (t.dropWhile (· != '?'.toUInt8)).tail, authority⟩
  if scheme ≠ [] ∧ keyIs ((t.drop scheme.length).take 3) "://" then
    let rest := t.drop (scheme.length + 3)
    let inAuthority (b : Byte) : Bool := b != '/'.toUInt8 && b != '?'.toUInt8
    split (rest.takeWhile inAuthority) (rest.dropWhile inAuthority)
  else if t ≠ [] ∧ t.head? ≠ some '/'.toUInt8 ∧ t.head? ≠ some '*'.toUInt8 then ⟨[], [], t⟩
  else split [] t

def httpFirstToken (v : List Byte) : List Byte :=
  httpTrimOws (v.takeWhile fun b => b != ';'.toUInt8 && b != ','.toUInt8)

/-- A span as a label in `cap` bytes; control bytes are dropped, and what is too long is cut. -/
def httpCopyLabel (cap : Nat) (s : List Byte) : List Byte :=
  (s.filter fun b => !(b < 0x20 || b == 0x7f)).take (cap - 1)

end Latkit
