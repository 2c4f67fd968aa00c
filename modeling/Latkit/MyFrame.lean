import Latkit.Frame

namespace Latkit

def myPktMax : Nat := 0xFFFFFF

def le24 (p : List Byte) : Nat :=
  (p.getD 2 0).toNat * 2 ^ 16 + (p.getD 1 0).toNat * 2 ^ 8 + (p.getD 0 0).toNat

def le32 (p : List Byte) : Nat :=
  (p.getD 3 0).toNat * 2 ^ 24 + le24 p

def myClientCompress (caps : Nat) : Bool := caps.testBit 5
def myClientSsl (caps : Nat) : Bool := caps.testBit 11
def myClientZstd (caps : Nat) : Bool := caps.testBit 26

def myHdrSize (_ : Dir) (_ : Frame) : Nat := 4

def satAdd32 (a b : Nat) : Nat := min (a + b) (2 ^ 32 - 1)

/-- Any four bytes are a legal header; only a continuation must carry the next sequence id. -/
def myParseHdr (_ : Dir) (f : Frame) : Option Frame :=
  let len := le24 f.hdr
  let seq := f.hdr.getD 3 0
  if f.msgCont then
    if seq ≠ f.msgSeq then none
    else some { f with
      msgSeq := seq + 1
      msgCont := len == myPktMax
      bodyLen := len
      bodyTotal := satAdd32 f.bodyTotal len
      msgLen := satAdd32 f.bodyTotal len }
  else some { f with
    msgType := 0
    msgSeq0 := seq == 0
    msgSeq := seq + 1
    msgCont := len == myPktMax
    bodyLen := len
    bodyTotal := len
    msgLen := len }

def myAuthDone (c : FConn φ) : FConn φ :=
  (c.setFrame .send { c.send with startupDone := true }).mapFlags fun fl =>
    { fl with ignore := fl.ignore || fl.compressPending }

/-- A frontend command proves that the auth exchange is over; with compression negotiated it is
already a compressed frame. -/
def myNoteCommand (c : FConn φ) (dir : Dir) : FConn φ :=
  let f := c.frame dir
  if dir = .recv ∧ f.startupDone = true ∧ f.msgSeq0 = true then myAuthDone c else c

def myFirstPacket (c : FConn φ) (m : Msg) : FConn φ :=
  let done := c.setFrame .recv { c.recv with startupDone := true }
  if m.body.length < 4 then done
  else
    let caps := le32 m.body
    if myClientSsl caps ∧ c.flags.tls = false then c.mapFlags fun fl => { fl with tls := true }
    else if myClientCompress caps ∨ myClientZstd caps then
      done.mapFlags fun fl => { fl with compressPending := true }
    else done

def myStampStartup (c : FConn φ) (m : Msg) : Msg :=
  if c.send.startupDone then m else { m with flags := { m.flags with startup := true } }

def myPacket (c : FConn φ) (dir : Dir) (m : Msg) : FConn φ × Msg :=
  match dir with
  | .recv =>
    if !c.recv.startupDone then (myFirstPacket c m, m)
    else (c, if c.recv.msgSeq0 ∧ m.body ≠ [] then { m with type := m.body.getD 0 0 } else m)
  | .send =>
    (if c.send.startupDone = false ∧ m.body ≠ [] ∧ m.body.getD 0 0 = 0 then myAuthDone c else c, m)

def myPreEmit (c : FConn φ) (dir : Dir) (m : Msg) : FConn φ × Msg :=
  let c := myNoteCommand c dir
  myPacket c dir (myStampStartup c m)

def myResyncScan (_ : Dir) (f : Frame) (p : List Byte) : Frame × Nat × Bool :=
  (f, p.length, false)

def myCmdOk (b : Byte) : Bool :=
  [0x01, 0x02, 0x03, 0x04, 0x09, 0x0a, 0x0d, 0x0e, 0x11, 0x12, 0x15, 0x16, 0x17, 0x18, 0x19, 0x1a,
    0x1b, 0x1c, 0x1e, 0x1f, 0xfa].contains b

def myResyncBoundary (dir : Dir) (ev : EvData) : Bool :=
  if ev.off ≠ 0 ∨ ev.payload.length < 4 then false
  else
    let len := le24 ev.payload
    match dir with
    | .recv =>
      ev.payload.getD 3 0 = 0 ∧ 1 ≤ len ∧ 5 ≤ ev.payload.length ∧ myCmdOk (ev.payload.getD 4 0)
    | .send => ev.payload.getD 3 0 = 1 ∧ 1 ≤ len ∧ len < myPktMax

def lkProtoMyOps : ProtoOps φ where
  stream := false
  hdrSize := myHdrSize
  parseHdr := myParseHdr
  preEmit := myPreEmit
  interceptBytes := fun r c _ p _ => (r, c, some p)
  interceptHole := fun _ _ => none
  resyncScan := myResyncScan
  resyncBoundary := myResyncBoundary
  streamBytes := fun r c _ _ _ => (r, c)
  streamHole := fun r c _ _ => (r, c)

end Latkit
