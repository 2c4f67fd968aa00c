import Latkit.Checked
import Latkit.FrameWf

/-! The framer with its slab pointers: every subtraction of unsigned numbers and every write through a slab is checked,
and whether `buf_get` yields a slab is open each time it is called. -/

namespace Latkit
open Checked (Turn Goes)

structure SlabState (φ : Type) where
  c : FConn φ
  r : Reasm := {}
  slab : Dir → Bool := fun _ => false
  /-- how often a slab was asked for -/
  asked : Nat := 0

namespace SlabState

def put (s : SlabState φ) (dir : Dir) (f : Frame) (slab : Bool) : SlabState φ :=
  { s with c := s.c.setFrame dir f, slab := Function.update s.slab dir slab }

def upd (s : SlabState φ) (dir : Dir) (g : Frame → Frame) : SlabState φ :=
  s.put dir (g (s.c.frame dir)) (s.slab dir)

def bufGet (s : SlabState φ) (grant : Nat → Bool) (dir : Dir) : SlabState φ :=
  if s.slab dir then s
  else { s with slab := Function.update s.slab dir (grant s.asked), asked := s.asked + 1 }

def writable (s : SlabState φ) (dir : Dir) (p : List Byte) : Option Unit :=
  if s.slab dir = true ∧ (s.c.frame dir).buf.length + p.length ≤ lkMsgBodyMax then some () else none

def msgReset (s : SlabState φ) (dir : Dir) : SlabState φ := s.put dir (Latkit.msgReset (s.c.frame dir)) false

def goDirty (s : SlabState φ) (dir : Dir) (counter : ReasmStats → ReasmStats) : SlabState φ :=
  { s.put dir (dirtied (s.c.frame dir)) false with r := s.r.bump counter }

def doResync (env : Env φ) (s : SlabState φ) (dir : Dir) : SlabState φ :=
  let (r, c) := Latkit.doResync env s.r s.c dir
  { s with r, c, slab := Function.update s.slab dir false }

def emit (env : Env φ) (ops : ProtoOps φ) (s : SlabState φ) (dir : Dir) (body : List Byte) : SlabState φ :=
  let (r, c) := Latkit.emit env ops s.r s.c dir body
  { s with r, c }

/-- The end of a message: the rest is dropped if the connection went blind. -/
def ending (entryFlags : ConnFlags) (s : SlabState φ) (rest : ι) : Turn (SlabState φ) ι :=
  if wentBlind entryFlags s.c then .ret { s with r := s.r.bump (countTls s.c.flags.tls) } else .next s rest

end SlabState

def endFragment (skip : Nat) (f : Frame) : Frame :=
  skipOver skip { f with prefixClosed := true, hdr := [], st := .header }

def skipTake (f : Frame) (take : Nat) : Option Frame := do
  let skipLeft ← Checked.sub f.skipLeft take
  return { f with skipLeft, st := if skipLeft = 0 then .header else f.st }

section
variable (env : Env φ) (ops : ProtoOps φ) (grant : Nat → Bool) (entryFlags : ConnFlags) (dir : Dir) (ts : Nat)

def headerStep (s : SlabState φ) (p : List Byte) : Option (Turn (SlabState φ) (List Byte)) := do
  let f := s.c.frame dir
  let rem ← Checked.sub (ops.hdrSize dir f) f.hdr.length
  let take := min rem p.length
  let rest ← Checked.advance p take
  let s := s.put dir (takeHdr ts f (p.take take)) (s.slab dir)
  if f.hdr.length + take < ops.hdrSize dir f then return .ret s
  else
    match ops.parseHdr dir (s.c.frame dir) with
    | none => return .ret (s.goDirty dir fun st => { st with badLen := st.badLen + 1 })
    | some g =>
      let s := s.put dir g (s.slab dir)
      if g.bodyLen = 0 then return ((s.emit env ops dir g.buf).msgReset dir).ending entryFlags rest
      else return .next (s.upd dir fun f => { f with st := .body }) rest

def bodyFinish (s : SlabState φ) (rem target : Nat) (p : List Byte) : Option (Turn (SlabState φ) (List Byte)) := do
  let f := s.c.frame dir
  let skip ← Checked.sub f.bodyLen (if f.prefixClosed then 0 else target)
  let rest ← Checked.advance p rem
  if f.msgCont then
    let s := if rem = 0 then s else s.bufGet grant dir
    if rem ≠ 0 ∧ s.slab dir = true then
      s.writable dir (p.take rem)
      return .next ((s.upd dir (spill (p.take rem))).upd dir (endFragment skip)) rest
    else return .next (s.upd dir (endFragment skip)) rest
  else
    if s.slab dir = true ∧ rem ≠ 0 then s.writable dir (p.take rem)
    let s := s.emit env ops dir (if s.slab dir then f.buf ++ p.take rem else p.take target)
    return ((s.msgReset dir).upd dir (skipOver skip)).ending entryFlags rest

def bodyStep (s : SlabState φ) (p : List Byte) : Option (Turn (SlabState φ) (List Byte)) := do
  let f := s.c.frame dir
  let target := if f.prefixClosed then f.buf.length else bodyTarget f
  let rem ← Checked.sub target f.buf.length
  if p.length < rem then
    let s := s.bufGet grant dir
    if s.slab dir then
      s.writable dir p
      return .ret (s.upd dir (spill p))
    else bodyFinish env ops grant entryFlags dir s p.length (f.buf.length + p.length) p
  else bodyFinish env ops grant entryFlags dir s rem target p

def bytesStep (s : SlabState φ) (p : List Byte) : Option (Turn (SlabState φ) (List Byte)) :=
  match (s.c.frame dir).st with
  | .header => headerStep env ops entryFlags dir ts s p
  | .body => bodyStep env ops grant entryFlags dir s p
  | .skip => do
    let take := min (s.c.frame dir).skipLeft p.length
    let rest ← Checked.advance p take
    let f ← skipTake (s.c.frame dir) take
    return .next (s.put dir f (s.slab dir)) rest
  | .dirty => do
    let (f, used, found) := ops.resyncScan dir (s.c.frame dir) p
    let rest ← Checked.advance p used
    let s := s.put dir f (s.slab dir)
    if found then return .next (s.doResync env dir) rest else return .ret s

def holeStep (s : SlabState φ) (n : Nat) : Option (Turn (SlabState φ) Nat) :=
  let f := s.c.frame dir
  match f.st with
  | .header => some (.ret (s.goDirty dir fun st => { st with hdrHoles := st.hdrHoles + 1 }))
  | .body => do
    let rem ← Checked.sub f.bodyLen (if f.prefixClosed then 0 else f.buf.length)
    let take := min rem n
    let left ← Checked.sub n take
    let skip ← Checked.sub rem take
    if f.msgCont then return .next (s.upd dir (endFragment skip)) left
    else return (((s.emit env ops dir f.buf).msgReset dir).upd dir (skipOver skip)).ending entryFlags left
  | .skip => do
    let take := min f.skipLeft n
    let left ← Checked.sub n take
    let f ← skipTake f take
    return .next (s.put dir f (s.slab dir)) left
  | .dirty => some (.ret s)

end

section
variable (env : Env φ) (ops : ProtoOps φ) (grant : Nat → Bool)

def slabBytes (s : SlabState φ) (dir : Dir) (p : List Byte) (ts : Nat) : Option (SlabState φ) :=
  if p = [] then some s
  else
    match ops.interceptBytes s.r s.c dir p ts with
    | (r, c, none) => some { s with r, c }
    | (r, c, some p) =>
      Checked.loop List.length (bytesStep env ops grant s.c.flags dir ts) (2 * p.length + 1) { s with r, c } p

def slabHole (s : SlabState φ) (dir : Dir) (n : Nat) : Option (SlabState φ) :=
  if n = 0 then some s
  else
    match ops.interceptHole s.c dir with
    | some c => some ({ s with c }.goDirty dir fun st => { st with hdrHoles := st.hdrHoles + 1 })
    | none =>
      if (s.c.frame dir).st = .dirty then some (s.upd dir fun f => { f with resyncMatched := 0 })
      else Checked.loop id (holeStep env ops s.c.flags dir) n { s with r := s.r.bump (countHole n) } n

/-- What can happen to the frames of a connection, within the framer and in the connection table. -/
inductive FrameAct where
  | bytes (dir : Dir) (p : List Byte) (ts : Nat)
  | hole (dir : Dir) (n : Nat)
  | offAnomaly (dir : Dir)
  | resync (dir : Dir)
  | markDirty
  | tlsReset (midstream : Bool)
  | setFlags (fl : ConnFlags)

/-- The connection table's own dirtying: what is kept of a message stays where it is. -/
def SlabState.markDirty (s : SlabState φ) : SlabState φ :=
  let dirty (f : Frame) : Frame := { f with st := .dirty, resyncMatched := 0 }
  (s.upd .send dirty).upd .recv dirty

def SlabState.tlsReset (s : SlabState φ) (midstream : Bool) : SlabState φ :=
  let s := { (s.put .send {} false).put .recv {} false with c.frameState := none }
  if midstream then s.markDirty else s

def slabAct (s : SlabState φ) : FrameAct → Option (SlabState φ)
  | .bytes dir p ts => slabBytes env ops grant s dir p ts
  | .hole dir n => slabHole env ops s dir n
  | .offAnomaly dir => some (s.goDirty dir fun st => { st with offAnomalies := st.offAnomalies + 1 })
  | .resync dir => some (s.doResync env dir)
  | .markDirty => some s.markDirty
  | .tlsReset midstream => some (s.tlsReset midstream)
  | .setFlags fl => some { s with c := s.c.mapFlags fun _ => fl }

def slabActs (s : SlabState φ) (acts : List FrameAct) : Option (SlabState φ) := acts.foldlM (slabAct env ops grant) s

end

end Latkit
