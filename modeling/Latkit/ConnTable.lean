import Latkit.Reassembly

namespace Latkit

/-- Of an address tuple the table reads the local port only. -/
structure Tuple where
  sport : UInt16 := 0
  deriving DecidableEq, Repr

structure Conn (φ : Type) where
  framing : FConn φ
  tuple : Tuple := {}
  lastSeq : UInt32
  dropped : UInt32 := 0
  tlsLastSeq : UInt32 := 0
  tlsDropped : UInt32 := 0
  tlsSeqSeen : Bool := false
  lastActivityNs : Nat
  deriving DecidableEq, Repr

def Conn.cookie (c : Conn φ) : UInt64 := c.framing.cookie
def Conn.tls (c : Conn φ) : Bool := c.framing.flags.tls

structure ConnTableStats where
  created : Nat := 0
  closed : Nat := 0
  evictedLru : Nat := 0
  evictedIdle : Nat := 0
  seqGaps : Nat := 0
  lostEvents : Nat := 0
  tlsSocketDropped : Nat := 0
  tlsOpened : Nat := 0
  tlsActive : UInt32 := 0
  active : UInt32 := 0
  deriving DecidableEq, Repr

/-- The connection table. `conns` is the LRU list, most recently touched first; an entry is found in
it by its cookie. `gone` collects the cookie and flags of the entries handed to the removal hook. -/
structure ConnTable (φ : Type) where
  conns : List (Conn φ) := []
  maxConns : UInt32 := 1
  idleTimeoutNs : Nat := 0
  protos : List (UInt16 × Proto) := []
  protoDflt : Option Proto := none
  st : ConnTableStats := {}
  gone : List (UInt64 × ConnFlags) := []
  allocOk : Bool := true
  deriving DecidableEq, Repr

def dirtyMark (f : Frame) : Frame := { f with st := .dirty, resyncMatched := 0 }

/-- A hole in the sequence is the connection's, so both directions lose sync. -/
def FConn.markDirty (c : FConn φ) : FConn φ :=
  { c with send := dirtyMark c.send, recv := dirtyMark c.recv }

/-- The events missing before `seq`, in the arithmetic of `u32`. -/
def seqLost (last seq : UInt32) : UInt32 := if seq > last + 1 then seq - (last + 1) else 0

def seqMax (last seq : UInt32) : UInt32 := if seq > last then seq else last

namespace ConnTable

def bump (t : ConnTable φ) (g : ConnTableStats → ConnTableStats) : ConnTable φ :=
  { t with st := g t.st }

def resolveProto (t : ConnTable φ) (tuple : Tuple) : Option Proto :=
  match t.protos.find? (fun p => p.1 == tuple.sport) with
  | some p => some p.2
  | none => t.protoDflt

def lookup (t : ConnTable φ) (cookie : UInt64) : Option (Conn φ) :=
  t.conns.find? fun c => c.cookie == cookie

def unlink (t : ConnTable φ) (cookie : UInt64) : ConnTable φ :=
  { t with conns := t.conns.filter fun c => c.cookie != cookie }

def pushFront (t : ConnTable φ) (c : Conn φ) : ConnTable φ := { t with conns := c :: t.conns }

def mapFront (t : ConnTable φ) (g : Conn φ → Conn φ) : ConnTable φ :=
  { t with conns := t.conns.modifyHead g }

def destroy (t : ConnTable φ) (c : Conn φ) : ConnTable φ :=
  { t.unlink c.cookie with
    gone := t.gone ++ [(c.cookie, c.framing.flags)]
    st := { t.st with
      tlsActive := if c.tls then t.st.tlsActive - 1 else t.st.tlsActive
      active := t.st.active - 1 } }

def countLost (t : ConnTable φ) (lost : UInt32) : ConnTable φ :=
  if lost = 0 then t
  else t.bump fun s => { s with seqGaps := s.seqGaps + 1, lostEvents := s.lostEvents + lost.toNat }

def dirtyIf (lost : UInt32) (f : FConn φ) : FConn φ := if lost = 0 then f else f.markDirty

def touch (t : ConnTable φ) (c : Conn φ) (seq : UInt32) (ts : Nat) : ConnTable φ × UInt32 :=
  let lost := seqLost c.lastSeq seq
  (((t.countLost lost).unlink c.cookie).pushFront { c with
    dropped := c.dropped + lost
    framing := dirtyIf lost c.framing
    lastSeq := seqMax c.lastSeq seq
    lastActivityNs := ts }, lost)

def touchTls (t : ConnTable φ) (c : Conn φ) (seq : UInt32) (ts : Nat) : ConnTable φ × UInt32 :=
  let lost := if c.tlsSeqSeen then seqLost c.tlsLastSeq seq else 0
  (((t.countLost lost).unlink c.cookie).pushFront { c with
    tlsSeqSeen := true
    tlsDropped := c.tlsDropped + lost
    framing := dirtyIf lost c.framing
    tlsLastSeq := if c.tlsSeqSeen then seqMax c.tlsLastSeq seq else seq
    lastActivityNs := ts }, lost)

def makeRoom (t : ConnTable φ) : ConnTable φ :=
  match t.conns.getLast? with
  | some c =>
    if t.maxConns ≤ t.st.active then
      (t.destroy c).bump fun s => { s with evictedLru := s.evictedLru + 1 }
    else t
  | none => t

def create (t : ConnTable φ) (cookie : UInt64) (seq : UInt32) (ts : Nat) (init : Conn φ → Conn φ) :
    ConnTable φ × Bool :=
  let t := t.makeRoom
  if t.allocOk then
    ((t.bump fun s => { s with created := s.created + 1, active := s.active + 1 }).pushFront
      (init { framing := { cookie }, lastSeq := seq, lastActivityNs := ts }), true)
  else (t, false)

def opened (ops : Option Proto) (tuple : Tuple) (synthetic : Bool) (c : Conn φ) : Conn φ :=
  let f := { c.framing with ops, flags := { c.framing.flags with synthetic } }
  { c with tuple, framing := if synthetic then f.markDirty else f }

/-- Event entry points: the table with the event's entry, if there is one, at the front; whether there
is one; and the events lost before this one. -/
def lkConnTableOpen (t : ConnTable φ) (cookie : UInt64) (seq : UInt32) (ts : Nat) (tuple : Tuple)
    (synthetic : Bool) : ConnTable φ × Bool × UInt32 :=
  match t.lookup cookie with
  | some c =>
    let (t, lost) := t.touch c seq ts
    (t, true, lost)
  | none =>
    let (t, ok) := t.create cookie seq ts (opened (t.resolveProto tuple) tuple synthetic)
    (t, ok, 0)

def adopted (ops : Option Proto) (c : Conn φ) : Conn φ :=
  { c with framing := { c.framing with ops }.markDirty }

def lkConnTableData (t : ConnTable φ) (cookie : UInt64) (seq : UInt32) (ts : Nat) :
    ConnTable φ × Bool × UInt32 :=
  match t.lookup cookie with
  | some c =>
    let (t, lost) := t.touch c seq ts
    (t, true, lost)
  | none =>
    let (t, ok) := t.create cookie seq ts (adopted t.protoDflt)
    (t, ok, 0)

def lkConnTableDataDecrypted (t : ConnTable φ) (cookie : UInt64) (seq : UInt32) (ts : Nat) :
    ConnTable φ × Bool × UInt32 :=
  match t.lookup cookie with
  | some c =>
    let (t, lost) := t.touchTls c seq ts
    (t, true, lost)
  | none =>
    let (t, ok) := t.create cookie seq ts fun c =>
      { adopted t.protoDflt c with tlsSeqSeen := true, tlsLastSeq := seq }
    (t, ok, 0)

/-- Dropped ciphertext moves the raw baseline along without a check. -/
def lkConnTableNoteTlsDrop (t : ConnTable φ) (c : Conn φ) (seq : UInt32) (ts : Nat) : ConnTable φ :=
  ((t.bump fun s => { s with tlsSocketDropped := s.tlsSocketDropped + 1 }).unlink c.cookie).pushFront
    { c with lastSeq := seqMax c.lastSeq seq, lastActivityNs := ts }

def lkConnTableNoteTlsOpen (t : ConnTable φ) : ConnTable φ :=
  t.bump fun s => { s with tlsOpened := s.tlsOpened + 1, tlsActive := s.tlsActive + 1 }

def lkConnTableClose (t : ConnTable φ) (cookie : UInt64) (seq : UInt32) (ts : Nat) :
    ConnTable φ × UInt32 :=
  match t.lookup cookie with
  | none => (t, 0)
  | some c =>
    let (t, lost) := t.touch c seq ts
    match t.conns with
    | c :: _ => ((t.destroy c).bump fun s => { s with closed := s.closed + 1 }, lost)
    | [] => (t, lost)

def idle (t : ConnTable φ) (now : Nat) (c : Conn φ) : Bool := (c.lastActivityNs + t.idleTimeoutNs) % 2 ^ 64 ≤ now

def sweepTail (now : Nat) : Nat → ConnTable φ → ConnTable φ × Nat
  | 0, t => (t, 0)
  | n + 1, t =>
    match t.conns.getLast? with
    | none => (t, 0)
    | some c =>
      if t.idle now c then
        let (t, evicted) := sweepTail now n ((t.destroy c).bump fun s => { s with evictedIdle := s.evictedIdle + 1 })
        (t, evicted + 1)
      else (t, 0)

def lkConnTableSweep (t : ConnTable φ) (now : Nat) : ConnTable φ × Nat := sweepTail now t.conns.length t

end ConnTable

/-- The decrypted stream starts afresh; adopted in mid-session it has no first message to find. -/
def lkConnTlsResetFraming (midstream : Bool) (c : FConn φ) : FConn φ :=
  let c := { c with frameState := none, send := {}, recv := {} }
  if midstream then c.markDirty else c

end Latkit
