import Latkit.RedisFrame
import Latkit.NormRedis

namespace Latkit

/-! The first elements of a value, read from the part of it that was captured, and the mask of those
that are credentials. -/

def rdLine : List Byte → Option (List Byte × List Byte)
  | b :: b' :: p =>
    if b = cr ∧ b' = lf then some ([], p) else (rdLine (b' :: p)).map fun (line, rest) => (b :: line, rest)
  | _ => none

/-- The next element, a bulk or a line, and what follows it; `off` is where `p` stands in the buffer.
A value cut within its payload is none. -/
def rdElem (off : Nat) : List Byte → Option (LkRedisArg × List Byte)
  | [] => none
  | t :: p =>
    match redisVshape t with
    | .bulk => do
      let (line, rest) ← rdLine p
      let v ← redisParseI64 line
      let payload ← (redisBulkLen v).join
      if rest.length < payload then none
      else some (⟨off + (p.length + 1 - rest.length), rest.take payload⟩, (rest.drop payload).drop 2)
    | .line => do
      let (line, rest) ← rdLine p
      some (⟨off + 1, line⟩, rest)
    | _ => none

def rdElems (size : Nat) : Nat → List Byte → LkRedisArgv
  | 0, _ => []
  | n + 1, p =>
    match rdElem (size - p.length) p with
    | none => []
    | some (t, rest) => t :: rdElems size n rest

def blankByte (b : Byte) : Bool := b == ' '.toUInt8 || b == '\t'.toUInt8

def wordByte (b : Byte) : Bool := !blankByte b && b != cr && b != lf

def readInline (size : Nat) : Nat → List Byte → LkRedisArgv
  | 0, _ => []
  | n + 1, p =>
    let p := p.dropWhile blankByte
    let word := p.takeWhile wordByte
    if word = [] then [] else ⟨size - p.length, word⟩ :: readInline size n (p.drop word.length)

def redisReadArgv (type : Byte) (body : List Byte) (max : Nat) : LkRedisArgv × Option Nat :=
  let max := min max lkRedisArgvMax
  let sh := redisVshape type
  if body = [] then ([], none)
  else if type = lkRedisMsgInline then (readInline body.length max body, none)
  else if sh ≠ .agg ∧ sh ≠ .aggPair then ([], none)
  else
    match rdLine body.tail with
    | none => ([], none)
    | some (line, rest) =>
      match (redisParseI64 line).bind (redisAggCount · (sh = .aggPair)) with
      | none => ([], none)
      | some elems => (rdElems body.length (min max elems) rest, some elems)

def redisReadWord (type : Byte) (body : List Byte) : List Byte :=
  let word (p : List Byte) : List Byte :=
    let w := p.takeWhile fun b => b != ' '.toUInt8 && b != cr && b != lf
    if w.length = p.length then [] else w
  match redisVshape type with
  | .line => word body.tail
  | .bulk => match rdLine body.tail with
    | none => []
    | some (_, rest) => word rest
  | _ => []

def blank (p : List Byte) (s : LkRedisArg) : List Byte :=
  if s.off < p.length ∧ s.text.length ≤ p.length - s.off then
    p.take s.off ++ List.replicate s.text.length '*'.toUInt8 ++ p.drop (s.off + s.text.length)
  else p

def redisMaskBody (type : Byte) (p : List Byte) : List Byte :=
  if p = [] then p
  else if type ≠ redisTArray ∧ type ≠ lkRedisMsgInline then p
  else
    let v := (redisReadArgv type p lkRedisArgvMax).1
    let mask := lkRedisSecretMask (lkRedisCmd v) v
    ((List.range v.length).filter (· ∈ mask)).foldl (fun p i => blank p (v.getD i {})) p

def lkMsgBodyForDisplay (maskBody : Option (Byte → List Byte → List Byte)) (m : Msg) (outcap : Nat) : List Byte :=
  let out := m.body.take outcap
  match maskBody with
  | none => out
  | some mask => if out = [] then out else mask m.type out

end Latkit
