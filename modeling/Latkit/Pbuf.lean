import Latkit.Frame
import Latkit.Protobuf

/-! The append-only protobuf writer of `pbuf.c`. -/

namespace Latkit
open Protobuf

def pbWireVarint : UInt64 := 0
def pbWireI64 : UInt64 := 1
def pbWireLen : UInt64 := 2

theorem shiftRight_seven (v : UInt64) : (v >>> 7).toNat = v.toNat / 128 := by
  rw [UInt64.toNat_shiftRight]
  exact Nat.shiftRight_eq_div_pow v.toNat 7

theorem shiftRight_lt {v : UInt64} (h : v >>> 7 ≠ 0) : (v >>> 7).toNat < v.toNat := by
  have hne : (v >>> 7).toNat ≠ 0 := fun he => h (UInt64.toNat_inj.mp he)
  rw [shiftRight_seven] at hne ⊢
  omega

def varintBytes (v : UInt64) : List Byte :=
  if v >>> 7 ≠ 0 then ((v &&& 0x7f).toUInt8 ||| 0x80) :: varintBytes (v >>> 7) else [(v &&& 0x7f).toUInt8]
termination_by v.toNat
decreasing_by exact shiftRight_lt ‹_›

def varintLen (v : UInt64) : Nat := if v >>> 7 ≠ 0 then varintLen (v >>> 7) + 1 else 1
termination_by v.toNat
decreasing_by exact shiftRight_lt ‹_›

abbrev Pbuf := List Byte

def pbRaw (p : Pbuf) (data : List Byte) : Pbuf := p ++ data

def pbVarint (p : Pbuf) (v : UInt64) : Pbuf := pbRaw p (varintBytes v)

def pbTag (p : Pbuf) (field : UInt32) (wire : UInt64) : Pbuf := pbVarint p ((field.toUInt64 <<< 3) ||| wire)

def pbFieldVarint (p : Pbuf) (field : UInt32) (v : UInt64) : Pbuf := pbVarint (pbTag p field pbWireVarint) v

def pbFieldSint32 (p : Pbuf) (field : UInt32) (v : Int32) : Pbuf :=
  let zz := (v.toUInt32 <<< 1) ^^^ (v >>> 31).toUInt32
  pbVarint (pbTag p field pbWireVarint) zz.toUInt64

def pbFieldBool (p : Pbuf) (field : UInt32) (v : Bool) : Pbuf :=
  pbVarint (pbTag p field pbWireVarint) (if v then 1 else 0)

def pbFixed64 (p : Pbuf) (v : UInt64) : Pbuf :=
  pbRaw p ((List.range 8).map fun i => (v >>> UInt64.ofNat (8 * i)).toUInt8)

def pbFieldFixed64 (p : Pbuf) (field : UInt32) (v : UInt64) : Pbuf := pbFixed64 (pbTag p field pbWireI64) v

def pbDouble (p : Pbuf) (bits : UInt64) : Pbuf := pbFixed64 p bits

def pbFieldDouble (p : Pbuf) (field : UInt32) (bits : UInt64) : Pbuf := pbDouble (pbTag p field pbWireI64) bits

def pbFieldBytes (p : Pbuf) (field : UInt32) (data : List Byte) : Pbuf :=
  pbRaw (pbVarint (pbTag p field pbWireLen) (UInt64.ofNat data.length)) data

def CText : Type := { s : List Byte // (0 : Byte) ∉ s }

def pbFieldString (p : Pbuf) (field : UInt32) (s : CText) : Pbuf := pbFieldBytes p field s.1

def pbSubmsgBegin (p : Pbuf) (field : UInt32) : Pbuf × Nat :=
  let p := pbTag p field pbWireLen
  (p, p.length)

def putAt (p : Pbuf) (i : Nat) (data : List Byte) : Pbuf := p.take i ++ (data ++ p.drop (i + data.length))

def pbSubmsgEnd (p : Pbuf) (start : Nat) : Pbuf :=
  let body := UInt64.ofNat (p.length - start)
  let vlen := varintLen body
  -- the room is made at the end, and the body moved up into it
  let moved := putAt (p ++ List.replicate vlen 0) (start + vlen) (p.drop start)
  putAt moved start (varintBytes body)

end Latkit
