import Latkit.ConnTable

namespace Latkit

structure EvHdr where
  connId : UInt64
  seq : UInt32
  ts : Nat
  deriving DecidableEq, Repr

/-- A decoded record; one that is short or unknown routes nothing. -/
inductive EvView where
  | connOpen (hdr : EvHdr) (tuple : Tuple) (synthetic : Bool)
  | connClose (hdr : EvHdr)
  | data (hdr : EvHdr) (dir : Dir) (totalLen off : Nat) (payload : List Byte) (decrypted : Bool)
  | unknown
  | short
  deriving DecidableEq, Repr

structure Pipeline (φ : Type) where
  conns : ConnTable φ
  reasm : Reasm
  deriving DecidableEq, Repr

structure PipelineEv where
  conn : Bool := false
  lost : UInt32 := 0
  tlsNow : Bool := false
  tlsSocketDropped : Bool := false
  decryptedEarly : Bool := false
  deriving DecidableEq, Repr

namespace Pipeline

def onDestroy (p : Pipeline φ) : Pipeline φ where
  conns := { p.conns with gone := [] }
  reasm := { p.reasm with
    trace := p.reasm.trace ++ (p.conns.gone.map fun c => .close c.1 c.2) }

def withConns (p : Pipeline φ) (t : ConnTable φ) : Pipeline φ := onDestroy { p with conns := t }

def mapFraming (p : Pipeline φ) (g : FConn φ → FConn φ) : Pipeline φ :=
  { p with conns := p.conns.mapFront fun c => { c with framing := g c.framing } }

def reasmData (env : Env φ) (p : Pipeline φ) (dir : Dir) (ev : EvData) : Pipeline φ :=
  match p.conns.conns with
  | [] => p
  | c :: _ =>
    let s := (lkReasmData env p.reasm c.framing dir ev).1
    { mapFraming p (fun _ => s.2) with reasm := s.1 }

def frontTls (p : Pipeline φ) : Bool := p.conns.conns.head?.any Conn.tls

def tlsOpen (p : Pipeline φ) (midstream : Bool) : Pipeline φ :=
  let p := p.mapFraming (lkConnTlsResetFraming midstream)
  { p with conns := p.conns.lkConnTableNoteTlsOpen }

/-- A decrypted event proves the connection encrypted, whatever its flag says. -/
def feedDecrypted (env : Env φ) (p : Pipeline φ) (hdr : EvHdr) (dir : Dir) (ev : EvData) :
    Pipeline φ × PipelineEv :=
  let (t, conn, lost) := p.conns.lkConnTableDataDecrypted hdr.connId hdr.seq hdr.ts
  let p := p.withConns t
  if conn then
    let decryptedEarly := !p.frontTls
    let p := if decryptedEarly then
        tlsOpen (p.mapFraming (·.mapFlags fun fl => { fl with tls := true })) true
      else p
    (p.reasmData env dir ev, { conn, lost, decryptedEarly })
  else (p, { lost })

def feedPlain (env : Env φ) (p : Pipeline φ) (hdr : EvHdr) (dir : Dir) (ev : EvData) :
    Pipeline φ × PipelineEv :=
  let (t, conn, lost) := p.conns.lkConnTableData hdr.connId hdr.seq hdr.ts
  let p := p.withConns t
  if conn then
    let wasTls := p.frontTls
    let p := p.reasmData env dir ev
    let tlsNow := !wasTls && p.frontTls
    (if tlsNow then p.tlsOpen false else p, { conn, lost, tlsNow })
  else (p, { lost })

def lkPipelineFeed (env : Env φ) (p : Pipeline φ) : EvView → Pipeline φ × PipelineEv
  | .connOpen hdr tuple synthetic =>
    let (t, conn, lost) := p.conns.lkConnTableOpen hdr.connId hdr.seq hdr.ts tuple synthetic
    (p.withConns t, { conn, lost })
  | .connClose hdr =>
    let (t, lost) := p.conns.lkConnTableClose hdr.connId hdr.seq hdr.ts
    (p.withConns t, { lost })
  | .data hdr dir totalLen off payload decrypted =>
    let ev := { ts := hdr.ts, totalLen, off, payload, decrypted }
    match p.conns.lookup hdr.connId with
    | some c =>
      -- ciphertext of a TLS connection is dropped before the sequence check
      if c.tls && !decrypted then
        (p.withConns (p.conns.lkConnTableNoteTlsDrop c hdr.seq hdr.ts),
          { conn := true, tlsSocketDropped := true })
      else if decrypted then p.feedDecrypted env hdr dir ev
      else p.feedPlain env hdr dir ev
    | none => if decrypted then p.feedDecrypted env hdr dir ev else p.feedPlain env hdr dir ev
  | .unknown => (p, {})
  | .short => (p, {})

end Pipeline

end Latkit
