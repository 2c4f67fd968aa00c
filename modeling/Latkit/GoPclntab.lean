import Latkit.MyWire

/-! The lookup of a function in Go's pclntab, over a buffer whose reads are checked: `none` is a read beyond it. -/

namespace Latkit

def goMagic118 : Nat := 0xfffffff0
def goMagic120 : Nat := 0xfffffff1

def hdrNfunc : Nat := 8
def hdrTextstart : Nat := 24
def hdrFuncname : Nat := 32
def hdrPcln : Nat := 64
def hdrSize : Nat := 72
def funcNameoff : Nat := 4

def readAt (tab : List Byte) (i k : Nat) : Option (List Byte) :=
  if i + k ≤ tab.length then some ((tab.drop i).take k) else none

def rd8 (tab : List Byte) (i : Nat) : Option Byte := (readAt tab i 1).map (·.getD 0 0)
def rd32 (tab : List Byte) (i : Nat) : Option Nat := (readAt tab i 4).map le32
def rd64 (tab : List Byte) (i : Nat) : Option Nat := (readAt tab i 8).map le64

def u64 (x : Nat) : Nat := x % 2 ^ 64

def nameIs (tab : List Byte) (off : Nat) (name : List Byte) : Option Bool :=
  if tab.length ≤ off ∨ tab.length - off ≤ name.length then some false
  else do
    let found ← readAt tab off name.length
    if found ≠ name then some false
    else
      let last ← rd8 tab (off + name.length)
      some (last == 0)

inductive PclntabResult where
  | found (vaddr size : Nat)
  | absent
  | refused
  deriving DecidableEq, Repr

def pclntabWalk (tab name : List Byte) (textStart funcnameOff pclnOff : Nat) : Nat → Nat → Option PclntabResult
  | 0, _ => some .absent
  | left + 1, i => do
    let ent := pclnOff + u64 (i * 8)
    let funcOff := u64 (pclnOff + (← rd32 tab (ent + 4)))
    let entryOff ← rd32 tab ent
    if tab.length < u64 (funcOff + 8) then some .refused
    else
      let nameOff ← rd32 tab (funcOff + funcNameoff)
      -- negative as an `int32_t`
      if 2 ^ 31 ≤ nameOff then pclntabWalk tab name textStart funcnameOff pclnOff left (i + 1)
      else if !(← nameIs tab (u64 (funcnameOff + nameOff)) name) then
        pclntabWalk tab name textStart funcnameOff pclnOff left (i + 1)
      else
        let nextOff ← rd32 tab (pclnOff + u64 ((i + 1) * 8))
        if nextOff ≤ entryOff then some .refused
        else some (.found (u64 (textStart + entryOff)) (nextOff - entryOff))

def lkGoPclntabFind (tab : List Byte) (textBase : Nat) (name : List Byte) : Option PclntabResult :=
  if tab.length < hdrSize then some .refused
  else do
    let magic ← rd32 tab 0
    if magic ≠ goMagic118 ∧ magic ≠ goMagic120 then some .refused
    else if (← rd8 tab 4) ≠ 0 ∨ (← rd8 tab 5) ≠ 0 ∨ (← rd8 tab 7) ≠ 8 then some .refused
    else if (← rd8 tab 6) = 0 then some .refused
    else
      let nfunc ← rd64 tab hdrNfunc
      let textStart ← rd64 tab hdrTextstart
      let textStart := if textStart = 0 then textBase else textStart
      let funcnameOff ← rd64 tab hdrFuncname
      let pclnOff ← rd64 tab hdrPcln
      if tab.length ≤ funcnameOff ∨ tab.length ≤ pclnOff then some .refused
      else if nfunc = 0 ∨ (tab.length - pclnOff) / 8 < u64 (nfunc + 1) then some .refused
      else pclntabWalk tab name textStart funcnameOff pclnOff nfunc 0

end Latkit
