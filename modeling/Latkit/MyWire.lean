import Latkit.MyFrame
import Latkit.PgWire

namespace Latkit

/-! The bounded cursor over a captured packet is the list of its unread bytes. A getter that runs out
fails; every caller then stops. -/

def le16 (p : List Byte) : Nat := (p.getD 1 0).toNat * 2 ^ 8 + (p.getD 0 0).toNat

def le64 (p : List Byte) : Nat := le32 (p.drop 4) * 2 ^ 32 + le32 p

def myWireGetU8 : List Byte → Option (Byte × List Byte)
  | [] => none
  | b :: w => some (b, w)

def myWireGetU16 (w : List Byte) : Option (Nat × List Byte) :=
  if w.length < 2 then none else some (le16 w, w.drop 2)

def myWireGetU24 (w : List Byte) : Option (Nat × List Byte) :=
  if w.length < 3 then none else some (le24 w, w.drop 3)

def myWireGetU32 (w : List Byte) : Option (Nat × List Byte) :=
  if w.length < 4 then none else some (le32 w, w.drop 4)

def myWireGetU64 (w : List Byte) : Option (Nat × List Byte) :=
  if w.length < 8 then none else some (le64 w, w.drop 8)

def myWireSkip (w : List Byte) (n : Nat) : Option (List Byte) :=
  if w.length < n then none else some (w.drop n)

theorem myWireSkip_append (v w : List Byte) : myWireSkip (v ++ w) v.length = some w := by
  rw [myWireSkip, if_neg (by rw [List.length_append]; omega), List.drop_left]

def myWireGetLenenc : List Byte → Option (Nat × List Byte)
  | [] => none
  | head :: w =>
    if head = 0xfb ∨ head = 0xff then none
    else if head < 0xfb then some (head.toNat, w)
    else if head = 0xfc then myWireGetU16 w
    else if head = 0xfd then myWireGetU24 w
    else myWireGetU64 w

def myWireGetLenencStr (w : List Byte) : Option (List Byte × List Byte) :=
  match myWireGetLenenc w with
  | none => none
  | some (sz, w) => if w.length < sz then none else some (w.take sz, w.drop sz)

def myWireCstring (w : List Byte) : Bool × List Byte × List Byte := pgWireCstring w

end Latkit
