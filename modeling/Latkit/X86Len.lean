import Latkit.Frame

/-! The instruction-length decoder of `x86_len.c` and the search for returns. -/

namespace Latkit

def opModrm : Byte := 0x01
def opImm8 : Byte := 0x02
def opImm16 : Byte := 0x04
def opImmZ : Byte := 0x08
def opImmV : Byte := 0x10
def opImmA : Byte := 0x20
def opBad : Byte := 0x40
def opGrp1 : Byte := 0x80

def op1 : List Byte :=
  let B := opBad; let M := opModrm; let I := opImm8; let W := opImm16; let Z := opImmZ
  let V := opImmV; let A := opImmA; let G := opGrp1; let O := 0
  [
    M, M, M, M, I, Z, B, B, M, M, M, M, I, Z, B, O,
    M, M, M, M, I, Z, B, B, M, M, M, M, I, Z, B, B,
    M, M, M, M, I, Z, O, B, M, M, M, M, I, Z, O, B,
    M, M, M, M, I, Z, O, B, M, M, M, M, I, Z, O, B,
    O, O, O, O, O, O, O, O, O, O, O, O, O, O, O, O,
    O, O, O, O, O, O, O, O, O, O, O, O, O, O, O, O,
    B, B, B, M, O, O, O, O, Z, M ||| Z, I, M ||| I, O, O, O, O,
    I, I, I, I, I, I, I, I, I, I, I, I, I, I, I, I,
    M ||| I, M ||| Z, B, M ||| I, M, M, M, M, M, M, M, M, M, M, M, M,
    O, O, O, O, O, O, O, O, O, O, B, O, O, O, O, O,
    A, A, A, A, O, O, O, O, I, Z, O, O, O, O, O, O,
    I, I, I, I, I, I, I, I, V, V, V, V, V, V, V, V,
    M ||| I, M ||| I, W, O, B, B, M ||| I, M ||| Z, W ||| I, O, W, O, O, I, B, O,
    M, M, M, M, B, B, B, O, M, M, M, M, M, M, M, M,
    I, I, I, I, I, I, I, I, Z, Z, B, I, O, O, O, O,
    O, O, O, O, O, O, M ||| G, M ||| G, O, O, O, O, O, O, M, M]

def op2 : List Byte :=
  let B := opBad; let M := opModrm; let I := opImm8; let Z := opImmZ; let O := 0
  [
    M, M, M, M, B, O, O, O, O, O, B, O, B, M, O, B,
    M, M, M, M, M, M, M, M, M, M, M, M, M, M, M, M,
    M, M, M, M, B, B, B, B, M, M, M, M, M, M, M, M,
    O, O, O, O, O, O, B, O, O, B, O, B, B, B, B, B,
    M, M, M, M, M, M, M, M, M, M, M, M, M, M, M, M,
    M, M, M, M, M, M, M, M, M, M, M, M, M, M, M, M,
    M, M, M, M, M, M, M, M, M, M, M, M, M, M, M, M,
    M ||| I, M ||| I, M ||| I, M ||| I, M, M, M, O, M, M, B, B, M, M, M, M,
    Z, Z, Z, Z, Z, Z, Z, Z, Z, Z, Z, Z, Z, Z, Z, Z,
    M, M, M, M, M, M, M, M, M, M, M, M, M, M, M, M,
    O, O, O, M, M ||| I, M, B, B, O, O, O, M, M ||| I, M, M, M,
    M, M, M, M, M, M, M, M, M, M, M ||| I, M, M, M, M, M,
    M, M, M ||| I, M, M ||| I, M ||| I, M ||| I, M, O, O, O, O, O, O, O, O,
    M, M, M, M, M, M, M, M, M, M, M, M, M, M, M, M,
    M, M, M, M, M, M, M, M, M, M, M, M, M, M, M, M,
    M, M, M, M, M, M, M, M, M, M, M, M, M, M, M, M]

def x86MaxInsn : Nat := 15

def hasFlag (flags flag : Byte) : Bool := flags &&& flag != 0

/-- The prefixes: the cursor behind them, the two size overrides, and the bytes from there on. -/
def x86Prefixes : Nat → Bool → Bool → List Byte → Option (Nat × Bool × Bool × List Byte)
  | _, _, _, [] => none
  | i, opsz, addrsz, b :: p =>
    if x86MaxInsn ≤ i then none
    else if b = 0x66 then x86Prefixes (i + 1) true addrsz p
    else if b = 0x67 then x86Prefixes (i + 1) opsz true p
    else if [0xf0, 0xf2, 0xf3, 0x2e, 0x36, 0x3e, 0x26, 0x64, 0x65].contains b then x86Prefixes (i + 1) opsz addrsz p
    else some (i, opsz, addrsz, b :: p)

def x86Rex (i : Nat) (p : List Byte) : Option (Nat × Bool × List Byte) :=
  match p with
  | [] => none
  | b :: p =>
    if b &&& 0xf0 = 0x40 then if p = [] then none else some (i + 1, b &&& 0x08 != 0, p)
    else some (i, false, b :: p)

/-- The cursor behind the opcode, its last byte that is looked up, its flags, and the bytes from there on. -/
def x86Opcode (i : Nat) (p : List Byte) : Option (Nat × Byte × Byte × List Byte) :=
  match p with
  | [] => none
  | op :: p =>
    if op = 0x0f then
      match p with
      | [] => none
      | op :: p =>
        if op = 0x38 ∨ op = 0x3a then
          match p with
          | [] => none
          | _ :: p => some (i + 3, op, opModrm ||| (if op = 0x3a then opImm8 else 0), p)
        else some (i + 2, op, op2.getD op.toNat 0, p)
    else some (i + 1, op, op1.getD op.toNat 0, p)

/-- Past ModRM, SIB and displacement; the tests of F6 and F7 get their immediate here. -/
def x86Modrm (i : Nat) (op flags : Byte) (p : List Byte) : Option (Nat × Byte) :=
  if hasFlag flags opModrm then
    match p with
    | [] => none
    | modrm :: p =>
      let mod := modrm >>> 6
      let rm := modrm &&& 7
      let flags := if hasFlag flags opGrp1 ∧ (modrm >>> 3) &&& 7 ≤ 1 then
          flags ||| (if op = 0xf6 then opImm8 else opImmZ) else flags
      let tail := if mod = 1 then 1 else if mod = 2 then 4 else 0
      if mod ≠ 3 then
        if rm = 4 then
          match p with
          | [] => none
          | sib :: _ => some (i + 2 + (if mod = 0 ∧ sib &&& 7 = 5 then 4 else 0) + tail, flags)
        else some (i + 1 + (if mod = 0 ∧ rm = 5 then 4 else 0) + tail, flags)
      else some (i + 1, flags)
  else some (i, flags)

def x86Imm (flags : Byte) (opsz addrsz rexW : Bool) : Nat :=
  (if hasFlag flags opImm8 then 1 else 0) + (if hasFlag flags opImm16 then 2 else 0) +
    (if hasFlag flags opImmZ then if opsz then 2 else 4 else 0) +
    (if hasFlag flags opImmV then if rexW then 8 else if opsz then 2 else 4 else 0) +
    (if hasFlag flags opImmA then if addrsz then 4 else 8 else 0)

def insnLen (p : List Byte) : Option (Nat × Nat) := do
  let (i, opsz, addrsz, q) ← x86Prefixes 0 false false p
  let (opOff, rexW, q) ← x86Rex i q
  let (i, op, flags, q) ← x86Opcode opOff q
  if hasFlag flags opBad then none
  else
    let (i, flags) ← x86Modrm i op flags q
    let i := i + x86Imm flags opsz addrsz rexW
    if p.length < i ∨ x86MaxInsn < i then none else some (i, opOff)

def x86Walk (len max : Nat) (off : Nat) (out : List UInt32) (code : List Byte) : Option (List UInt32) :=
  if code = [] then if off ≠ len then none else some out
  else
    match insnLen code with
    | none => none
    | some (l, opOff) =>
      if l = 0 then none
      else
        let op := code.getD opOff 0
        if op = 0xc3 ∨ op = 0xc2 then
          if out.length = max then none
          else x86Walk len max (off + l) (out ++ [UInt32.ofNat off]) (code.drop l)
        else x86Walk len max (off + l) out (code.drop l)
termination_by code.length
decreasing_by
  all_goals
    have hpos := List.length_pos_iff.mpr ‹¬code = []›
    rw [List.length_drop]
    omega

def lkX86FindRets (code : List Byte) (max : Nat) : Option (List UInt32) :=
  if max = 0 ∨ code = [] then none else x86Walk code.length max 0 [] code

end Latkit
