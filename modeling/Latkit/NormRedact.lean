import Latkit.Delimited
import Latkit.QueryObs

namespace Latkit
open Delimited (tail_dropWhile_lt)

/-! Redaction of query strings: the values of keys that name a credential. -/

def secretKeys : List String := ["token", "sig", "password", "passwd", "secret", "key", "code", "auth"]

def spanContainsCi (p : List Byte) (needle : String) : Bool :=
  needle ≠ "" && p.tails.any fun t => needle.toUTF8.toList.isPrefixOf (t.map asciiLower)

def keyIsSecret (p : List Byte) : Bool := secretKeys.any (spanContainsCi p)

def isEq (b : Byte) : Bool := b == '='.toUInt8

def isSep (b : Byte) : Bool := b == '&'.toUInt8 || b == ';'.toUInt8

def inKey (b : Byte) : Bool := !isEq b && !isSep b

def neededLoop (q : List Byte) : Bool :=
  if q = [] then false
  else
    let rest := q.dropWhile inKey
    if rest.head? = some '='.toUInt8 then
      keyIsSecret (q.takeWhile inKey) || neededLoop (rest.dropWhile (!isSep ·)).tail
    else neededLoop rest.tail
termination_by q.length
decreasing_by
  · exact tail_dropWhile_lt _ ‹¬ q = []› (List.dropWhile_suffix _)
  · exact tail_dropWhile_lt _ ‹¬ q = []› (List.suffix_refl q)

@[simp] theorem neededLoop_nil : neededLoop [] = false := by rw [neededLoop, if_pos rfl]

def lkUrlRedactNeeded (t : List Byte) : Bool :=
  match t.dropWhile (· != '?'.toUInt8) with
  | [] => false
  | _ :: q => neededLoop q

def inplaceLoop (q : List Byte) : List Byte :=
  if q = [] then []
  else
    let k := q.takeWhile inKey
    let rest := q.dropWhile inKey
    if rest.head? = some '='.toUInt8 then
      let v := rest.tail.takeWhile (!isSep ·)
      let rest' := rest.tail.dropWhile (!isSep ·)
      k ++ '='.toUInt8 :: (if keyIsSecret k then v.map fun _ => '*'.toUInt8 else v) ++ rest'.take 1 ++
        inplaceLoop rest'.tail
    else k ++ rest.take 1 ++ inplaceLoop rest.tail
termination_by q.length
decreasing_by
  · exact tail_dropWhile_lt _ ‹¬ q = []› ((List.tail_suffix _).trans (List.dropWhile_suffix _))
  · exact tail_dropWhile_lt _ ‹¬ q = []› (List.suffix_refl q)

@[simp] theorem inplaceLoop_nil : inplaceLoop [] = [] := by rw [inplaceLoop, if_pos rfl]

def lkUrlRedactInplace (t : List Byte) : List Byte :=
  match t.dropWhile (· != '?'.toUInt8) with
  | [] => t
  | c :: q => t.takeWhile (· != '?'.toUInt8) ++ c :: inplaceLoop q

def put (outcap : Nat) (out p : List Byte) : List Byte := out ++ p.take (outcap - out.length)

theorem put_take (outcap : Nat) (w p : List Byte) : put outcap (w.take outcap) p = (w ++ p).take outcap := by
  rw [put, List.take_append, List.length_take]
  by_cases hle : outcap ≤ w.length
  · simp [Nat.min_eq_left hle, Nat.sub_eq_zero_of_le hle]
  · rw [Nat.min_eq_right (by omega)]

def lkRedactMark : List Byte := "***".toUTF8.toList

def redactLoop (outcap : Nat) (q out : List Byte) : List Byte :=
  if q = [] then out
  else
    let k := q.takeWhile inKey
    let rest := q.dropWhile inKey
    let out := put outcap out k
    if rest.head? = some '='.toUInt8 then
      let out := put outcap out ['='.toUInt8]
      let v := rest.tail.takeWhile (!isSep ·)
      let rest' := rest.tail.dropWhile (!isSep ·)
      let out := put outcap out (if keyIsSecret k then lkRedactMark else v)
      redactLoop outcap rest'.tail (put outcap out (rest'.take 1))
    else redactLoop outcap rest.tail (put outcap out (rest.take 1))
termination_by q.length
decreasing_by
  · exact tail_dropWhile_lt _ ‹¬ q = []› ((List.tail_suffix _).trans (List.dropWhile_suffix _))
  · exact tail_dropWhile_lt _ ‹¬ q = []› (List.suffix_refl q)

@[simp] theorem redactLoop_nil (outcap : Nat) (out : List Byte) : redactLoop outcap [] out = out := by
  rw [redactLoop, if_pos rfl]

def lkUrlRedact (t : List Byte) (outcap : Nat) : List Byte :=
  let out := put outcap [] (t.takeWhile (· != '?'.toUInt8))
  match t.dropWhile (· != '?'.toUInt8) with
  | [] => out
  | _ :: q => redactLoop outcap q (put outcap out ['?'.toUInt8])

end Latkit
