import Mathlib

namespace Latkit

abbrev Byte := UInt8

/-- The port filter captures the server side: `recv` is the frontend stream, `send` the backend one. -/
inductive Dir where
  | send
  | recv
  deriving DecidableEq, Repr

def Dir.other : Dir → Dir
  | .send => .recv
  | .recv => .send

inductive Proto where
  | pg
  | mysql
  | http
  | s3
  | redis
  deriving DecidableEq, Repr

structure ConnFlags where
  synthetic : Bool := false
  tls : Bool := false
  sslReply : Bool := false
  cancel : Bool := false
  replication : Bool := false
  capHeaders : Bool := false
  ignore : Bool := false
  compressPending : Bool := false
  deriving DecidableEq, Repr

structure MsgFlags where
  bodyTrunc : Bool := false
  afterResync : Bool := false
  startup : Bool := false
  deriving DecidableEq, Repr

/-- A framed message; `body_cap` is the length of `body`. -/
structure Msg where
  ts : Nat
  type : Byte := 0
  flags : MsgFlags := {}
  len : Nat := 0
  body : List Byte := []
  deriving DecidableEq, Repr

def lkMsgBodyMax : Nat := 16 * 1024

inductive FrameState where
  | header
  | body
  | skip
  | dirty
  deriving DecidableEq, Repr

/-- Framer state of one direction. The accumulators hold their valid bytes only, so `hdr_len` and
`buf_len` are their lengths, and an empty `buf` is the absent slab. -/
structure Frame where
  st : FrameState := .header
  skipLeft : Nat := 0
  callPos : Nat := 0
  callTotal : Nat := 0
  msgTs : Nat := 0
  msgLen : Nat := 0
  bodyLen : Nat := 0
  bodyTotal : Nat := 0
  msgType : Byte := 0
  msgCont : Bool := false
  prefixClosed : Bool := false
  msgSeq : Byte := 0
  msgSeq0 : Bool := false
  startupDone : Bool := false
  afterResync : Bool := false
  resyncMatched : Nat := 0
  hdr : List Byte := []
  buf : List Byte := []
  deriving DecidableEq, Repr

/-- The part of `lk_conn` that framing reads and writes; `φ` is a stream framer's own state. -/
structure FConn (φ : Type) where
  cookie : UInt64
  ops : Option Proto := none
  flags : ConnFlags := {}
  send : Frame := {}
  recv : Frame := {}
  frameState : Option φ := none
  deriving DecidableEq, Repr

def FConn.frame (c : FConn φ) : Dir → Frame
  | .send => c.send
  | .recv => c.recv

def FConn.setFrame (c : FConn φ) (dir : Dir) (f : Frame) : FConn φ :=
  match dir with
  | .send => { c with send := f }
  | .recv => { c with recv := f }

def FConn.mapFlags (c : FConn φ) (g : ConnFlags → ConnFlags) : FConn φ :=
  { c with flags := g c.flags }

/-- What the framer's consumer is called with, in call order. -/
inductive SinkEvent where
  | msg (cookie : UInt64) (dir : Dir) (flags : ConnFlags) (m : Msg)
  | resync (cookie : UInt64) (dir : Dir) (flags : ConnFlags)
  | close (cookie : UInt64) (flags : ConnFlags)
  deriving DecidableEq, Repr

structure ReasmStats where
  msgs : Nat := 0
  msgsTrunc : Nat := 0
  holes : Nat := 0
  holeBytes : Nat := 0
  badLen : Nat := 0
  hdrHoles : Nat := 0
  offAnomalies : Nat := 0
  resyncs : Nat := 0
  tlsConns : Nat := 0
  deriving DecidableEq, Repr

/-- The framer. The slab pool is reduced to whether `buf_get` yields a slab. -/
structure Reasm where
  trace : List SinkEvent := []
  st : ReasmStats := {}
  slabOk : Bool := true
  deriving DecidableEq, Repr

/-- A data event after decoding: `payload` is already clamped to `cap_len`. -/
structure EvData where
  ts : Nat
  totalLen : Nat
  off : Nat
  payload : List Byte
  decrypted : Bool := false
  deriving DecidableEq, Repr

inductive Prim where
  | bytes (p : List Byte) (ts : Nat)
  | hole (n : Nat)
  deriving DecidableEq, Repr

/-- The framer's surroundings: the stream framers behind `LK_PROTO_F_STREAM`, and what the consumer
does to a connection's flags when the last event of the trace is handed to it. -/
structure Env (φ : Type) where
  react : List SinkEvent → ConnFlags → ConnFlags
  streamBytes : Proto → Reasm → FConn φ → Dir → List Byte → Nat → Reasm × FConn φ
  streamHole : Proto → Reasm → FConn φ → Dir → Nat → Reasm × FConn φ

/-- One protocol's vtable. `parse_hdr`, `hdr_size` and the resync hooks ignore the connection in
every message-framed protocol, so only the frame is passed. -/
structure ProtoOps (φ : Type) where
  stream : Bool
  hdrSize : Dir → Frame → Nat
  parseHdr : Dir → Frame → Option Frame
  preEmit : FConn φ → Dir → Msg → FConn φ × Msg
  interceptBytes : Reasm → FConn φ → Dir → List Byte → Nat → Reasm × FConn φ × Option (List Byte)
  interceptHole : FConn φ → Dir → Option (FConn φ)
  resyncScan : Dir → Frame → List Byte → Frame × Nat × Bool
  resyncBoundary : Dir → EvData → Bool
  streamBytes : Reasm → FConn φ → Dir → List Byte → Nat → Reasm × FConn φ
  streamHole : Reasm → FConn φ → Dir → Nat → Reasm × FConn φ

def deliver (env : Env φ) (r : Reasm) (c : FConn φ) (e : SinkEvent) : Reasm × FConn φ :=
  let trace := r.trace ++ [e]
  ({ r with trace }, c.mapFlags (env.react trace))

def Reasm.bump (r : Reasm) (g : ReasmStats → ReasmStats) : Reasm :=
  { r with st := g r.st }

@[simp] theorem FConn.frame_setFrame (c : FConn φ) (dir : Dir) (f : Frame) :
    (c.setFrame dir f).frame dir = f := by
  cases dir <;> rfl

@[simp] theorem FConn.setFrame_setFrame (c : FConn φ) (dir : Dir) (f g : Frame) :
    (c.setFrame dir f).setFrame dir g = c.setFrame dir g := by
  cases dir <;> rfl

@[simp] theorem FConn.setFrame_frame (c : FConn φ) (dir : Dir) :
    c.setFrame dir (c.frame dir) = c := by
  cases dir <;> rfl

@[simp] theorem FConn.setFrame_flags (c : FConn φ) (dir : Dir) (f : Frame) :
    (c.setFrame dir f).flags = c.flags := by
  cases dir <;> rfl

@[simp] theorem FConn.setFrame_cookie (c : FConn φ) (dir : Dir) (f : Frame) :
    (c.setFrame dir f).cookie = c.cookie := by
  cases dir <;> rfl

@[simp] theorem FConn.setFrame_ops (c : FConn φ) (dir : Dir) (f : Frame) :
    (c.setFrame dir f).ops = c.ops := by
  cases dir <;> rfl

@[simp] theorem FConn.setFrame_frameState (c : FConn φ) (dir : Dir) (f : Frame) :
    (c.setFrame dir f).frameState = c.frameState := by
  cases dir <;> rfl

@[simp] theorem FConn.frame_mapFlags (c : FConn φ) (dir : Dir) (g : ConnFlags → ConnFlags) :
    (c.mapFlags g).frame dir = c.frame dir := by
  cases dir <;> rfl

@[simp] theorem FConn.mapFlags_setFrame (c : FConn φ) (dir : Dir) (f : Frame)
    (g : ConnFlags → ConnFlags) : (c.setFrame dir f).mapFlags g = (c.mapFlags g).setFrame dir f := by
  cases dir <;> rfl

@[simp] theorem FConn.mapFlags_flags (c : FConn φ) (g : ConnFlags → ConnFlags) :
    (c.mapFlags g).flags = g c.flags := rfl

@[simp] theorem FConn.mapFlags_ops (c : FConn φ) (g : ConnFlags → ConnFlags) :
    (c.mapFlags g).ops = c.ops := rfl

@[simp] theorem FConn.mapFlags_cookie (c : FConn φ) (g : ConnFlags → ConnFlags) :
    (c.mapFlags g).cookie = c.cookie := rfl

end Latkit
