import Latkit.MyPrep

namespace Latkit

def skipBinaryValue (w : List Byte) (type : Byte) : Option (List Byte) :=
  if type = 0x01 then myWireSkip w 1
  else if type = 0x02 ∨ type = 0x0d then myWireSkip w 2
  else if type = 0x03 ∨ type = 0x04 ∨ type = 0x09 then myWireSkip w 4
  else if type = 0x05 ∨ type = 0x08 then myWireSkip w 8
  else if type = 0x06 then some w
  else if type = 0x07 ∨ type = 0x0a ∨ type = 0x0b ∨ type = 0x0c then
    match myWireGetU8 w with
    | none => none
    | some (l, w) => myWireSkip w l.toNat
  else (myWireGetLenencStr w).map Prod.snd

def myAttrMax : Nat := 64

def attrTypes : Nat → List Byte → Option (List Byte × List Byte)
  | 0, w => some ([], w)
  | n + 1, w => do
    let (type, w) ← myWireGetU8 w
    let w ← myWireSkip w 1
    let (_, w) ← myWireGetLenencStr w
    let (types, w) ← attrTypes n w
    some (type :: types, w)

def skipAttrValues (bitmap : List Byte) : Nat → List Byte → List Byte → Option (List Byte)
  | _, [], w => some w
  | i, type :: types, w =>
    if (bitmap.getD (i / 8) 0).toNat.testBit (i % 8) then skipAttrValues bitmap (i + 1) types w
    else do
      let w ← skipBinaryValue w type
      skipAttrValues bitmap (i + 1) types w

def skipAttrs (w : List Byte) : Option (List Byte) := do
  let w ← myWireSkip w 1
  let (pcount, w) ← myWireGetLenenc w
  let (_, w) ← myWireGetLenenc w
  if pcount > myAttrMax then none
  else if pcount = 0 then some w
  else
    let nb := (pcount + 7) / 8
    let bitmap := w
    let w ← myWireSkip w nb
    let (bound, w) ← myWireGetU8 w
    if bound = 0 then none
    else
      let (types, w) ← attrTypes pcount w
      skipAttrValues bitmap 0 types w

def queryTextOff (pc : MyConn) (m : Msg) : Option Nat :=
  let plain := if pc.capsKnown then !myCapQueryAttributes pc.caps
    else !(m.body.length ≥ 3 && m.body.getD 1 0 == 0 && m.body.getD 2 0 == 1)
  if plain then some 1 else (skipAttrs m.body).map fun w => m.body.length - w.length

end Latkit
