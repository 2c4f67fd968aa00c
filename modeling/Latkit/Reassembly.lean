import Latkit.Chunked
import Latkit.MyFrame
import Latkit.PgFrame

namespace Latkit
open Chunked (Turn)

def streamOps (env : Env φ) (proto : Proto) : ProtoOps φ where
  stream := true
  hdrSize := fun _ _ => 0
  parseHdr := fun _ _ => none
  preEmit := fun c _ m => (c, m)
  interceptBytes := fun r c _ p _ => (r, c, some p)
  interceptHole := fun _ _ => none
  resyncScan := fun _ f p => (f, p.length, false)
  resyncBoundary := fun _ _ => false
  streamBytes := env.streamBytes proto
  streamHole := env.streamHole proto

def protoOps (env : Env φ) : Proto → ProtoOps φ
  | .pg => lkProtoPgOps env
  | .mysql => lkProtoMyOps
  | proto => streamOps env proto

/-- Resolve and pin the protocol: without one the connection frames as PG. -/
def FConn.pin (c : FConn φ) : FConn φ :=
  { c with ops := some (c.ops.getD .pg) }

def connOps (env : Env φ) (c : FConn φ) : ProtoOps φ :=
  protoOps env (c.ops.getD .pg)

def FConn.updFrame (c : FConn φ) (dir : Dir) (g : Frame → Frame) : FConn φ :=
  c.setFrame dir (g (c.frame dir))

def msgReset (f : Frame) : Frame :=
  { f with buf := [], hdr := [], bodyLen := 0, msgCont := false, prefixClosed := false, st := .header }

def dirtied (f : Frame) : Frame :=
  { msgReset f with skipLeft := 0, resyncMatched := 0, st := .dirty }

def goDirty (r : Reasm) (c : FConn φ) (dir : Dir) (counter : ReasmStats → ReasmStats) :
    Reasm × FConn φ :=
  (r.bump counter, c.updFrame dir dirtied)

def resynced (f : Frame) : Frame :=
  { msgReset f with skipLeft := 0, resyncMatched := 0, afterResync := true, startupDone := true }

def doResync (env : Env φ) (r : Reasm) (c : FConn φ) (dir : Dir) : Reasm × FConn φ :=
  let c := c.updFrame dir resynced
  deliver env (r.bump fun s => { s with resyncs := s.resyncs + 1 }) c (.resync c.cookie dir c.flags)

def stampMsg (f : Frame) (body : List Byte) (m : Msg) : Msg :=
  { m with flags := { m.flags with
      afterResync := m.flags.afterResync || f.afterResync
      bodyTrunc := m.flags.bodyTrunc || body.length < f.bodyTotal } }

def countMsg (trunc : Bool) (s : ReasmStats) : ReasmStats :=
  { s with msgs := s.msgs + 1, msgsTrunc := s.msgsTrunc + trunc.toNat }

def Frame.msg (f : Frame) (body : List Byte) : Msg :=
  { ts := f.msgTs, type := f.msgType, len := f.msgLen, body := body }

def emit (env : Env φ) (ops : ProtoOps φ) (r : Reasm) (c : FConn φ) (dir : Dir)
    (body : List Byte) : Reasm × FConn φ :=
  let (c, m) := ops.preEmit c dir ((c.frame dir).msg body)
  let f := c.frame dir
  let c := c.setFrame dir { f with afterResync := false }
  deliver env (r.bump (countMsg (body.length < f.bodyTotal))) c
    (.msg c.cookie dir c.flags (stampMsg f body m))

def bodyTarget (f : Frame) : Nat := min f.bodyLen lkMsgBodyMax

def ConnFlags.blind (fl : ConnFlags) : Bool := fl.tls || fl.ignore

def wentBlind (entryFlags : ConnFlags) (c : FConn φ) : Bool :=
  !entryFlags.blind && c.flags.blind

def countTls (tls : Bool) (s : ReasmStats) : ReasmStats :=
  { s with tlsConns := s.tlsConns + tls.toNat }

/-- End of a message: drop the rest of the chunk if the connection went blind, else go on. -/
def afterEmit (entryFlags : ConnFlags) (s : Reasm × FConn φ) (rest : List Byte) :
    Turn (Reasm × FConn φ) Byte :=
  if wentBlind entryFlags s.2 then
    .ret (s.1.bump (countTls s.2.flags.tls), s.2)
  else .next s rest

section
variable (env : Env φ) (ops : ProtoOps φ) (entryFlags : ConnFlags) (dir : Dir) (ts : Nat)

def takeHdr (f : Frame) (p : List Byte) : Frame :=
  { f with
    msgTs := if f.hdr.isEmpty && !f.msgCont then ts else f.msgTs
    hdr := f.hdr ++ p }

def headerEnd (r : Reasm) (c : FConn φ) (f : Frame) (rest : List Byte) :
    Turn (Reasm × FConn φ) Byte :=
  match ops.parseHdr dir f with
  | none => .ret (goDirty r (c.setFrame dir f) dir fun s => { s with badLen := s.badLen + 1 })
  | some f =>
    if f.bodyLen = 0 then
      let (r, c) := emit env ops r (c.setFrame dir f) dir f.buf
      afterEmit entryFlags (r, c.updFrame dir msgReset) rest
    else .next (r, c.setFrame dir { f with st := .body }) rest

def hdrRem (f : Frame) : Nat := ops.hdrSize dir f - f.hdr.length

def headerTurn (r : Reasm) (c : FConn φ) (p : List Byte) : Turn (Reasm × FConn φ) Byte :=
  let f := c.frame dir
  let take := hdrRem ops dir f
  if p.length < take then .ret (r, c.setFrame dir (takeHdr ts f p))
  else headerEnd env ops entryFlags dir r c (takeHdr ts f (p.take take)) (p.drop take)

def skipOver (skip : Nat) (f : Frame) : Frame :=
  if skip = 0 then f else { f with st := .skip, skipLeft := skip }

/-- The body of a fragment that does not end its message: pin what belongs to the prefix. -/
def closePrefix (slab : Bool) (p : List Byte) (skip : Nat) (f : Frame) : Frame :=
  skipOver skip { f with
    buf := if slab || !f.buf.isEmpty then f.buf ++ p else f.buf
    prefixClosed := true
    hdr := []
    st := .header }

def bodyRem (f : Frame) : Nat :=
  if f.prefixClosed then 0 else bodyTarget f - f.buf.length

/-- The prefix takes the first `rem` bytes; the fragment's other bytes are an arithmetic skip. -/
def bodyEnd (r : Reasm) (c : FConn φ) (rem : Nat) (p : List Byte) : Turn (Reasm × FConn φ) Byte :=
  let f := c.frame dir
  let skip := f.bodyLen - (if f.prefixClosed then 0 else f.buf.length + rem)
  if f.msgCont then
    .next (r, c.updFrame dir (closePrefix r.slabOk (p.take rem) skip)) (p.drop rem)
  else
    let (r, c) := emit env ops r c dir (f.buf ++ p.take rem)
    afterEmit entryFlags (r, c.updFrame dir fun f => skipOver skip (msgReset f)) (p.drop rem)

def spill (p : List Byte) (f : Frame) : Frame := { f with buf := f.buf ++ p }

/-- An incomplete prefix is spilled into the slab; without one the message is cut to what this chunk
holds. -/
def bodyTurn (r : Reasm) (c : FConn φ) (p : List Byte) : Turn (Reasm × FConn φ) Byte :=
  let f := c.frame dir
  if p.length < bodyRem f then
    if r.slabOk = true ∨ f.buf ≠ [] then .ret (r, c.updFrame dir (spill p))
    else bodyEnd env ops entryFlags dir r c p.length p
  else bodyEnd env ops entryFlags dir r c (bodyRem f) p

def skipped (n : Nat) (f : Frame) : Frame :=
  { f with skipLeft := f.skipLeft - n, st := if f.skipLeft ≤ n then .header else f.st }

def skipTurn (r : Reasm) (c : FConn φ) (p : List Byte) : Turn (Reasm × FConn φ) Byte :=
  .next (r, c.updFrame dir (skipped p.length)) (p.drop (c.frame dir).skipLeft)

def dirtyTurn (r : Reasm) (c : FConn φ) (p : List Byte) : Turn (Reasm × FConn φ) Byte :=
  let (f, used, found) := ops.resyncScan dir (c.frame dir) p
  if found then .next (doResync env r (c.setFrame dir f) dir) (p.drop used)
  else .ret (r, c.setFrame dir f)

def frameTurn (s : Reasm × FConn φ) (p : List Byte) : Turn (Reasm × FConn φ) Byte :=
  match (s.2.frame dir).st with
  | .header => headerTurn env ops entryFlags dir ts s.1 s.2 p
  | .body => bodyTurn env ops entryFlags dir s.1 s.2 p
  | .skip => skipTurn dir s.1 s.2 p
  | .dirty => dirtyTurn env ops dir s.1 s.2 p

end

def frameChunk (env : Env φ) (ops : ProtoOps φ) (r : Reasm) (c : FConn φ) (dir : Dir)
    (p : List Byte) (ts : Nat) : Reasm × FConn φ :=
  let entryFlags := c.flags
  if p = [] then (r, c)
  else
    match ops.interceptBytes r c dir p ts with
    | (r, c, none) => (r, c)
    | (r, c, some p) => Chunked.run (frameTurn env ops entryFlags dir ts) (r, c) p

def lkFrameBytes (env : Env φ) (r : Reasm) (c : FConn φ) (dir : Dir) (p : List Byte) (ts : Nat) :
    Reasm × FConn φ :=
  let ops := connOps env c
  let c := c.pin
  if ops.stream then if p = [] then (r, c) else ops.streamBytes r c dir p ts
  else frameChunk env ops r c dir p ts

section
variable (env : Env φ) (ops : ProtoOps φ) (entryFlags : ConnFlags) (dir : Dir)

/-- A hole over a body: the header is known, so the message ends with what was captured, or, in the
middle of a glued message, its prefix stays pinned. -/
def holeBody (r : Reasm) (c : FConn φ) (rem take : Nat) : Turn (Reasm × FConn φ) Byte :=
  let f := c.frame dir
  if f.msgCont then .next (r, c.updFrame dir (closePrefix r.slabOk [] (rem - take))) []
  else
    let (r, c) := emit env ops r c dir f.buf
    afterEmit entryFlags (r, c.updFrame dir fun f => skipOver (rem - take) (msgReset f)) []

def holeLoop : Nat → Reasm × FConn φ → Nat → Reasm × FConn φ
  | 0, s, _ => s
  | _ + 1, s, 0 => s
  | fuel + 1, (r, c), n + 1 =>
    let f := c.frame dir
    match f.st with
    | .header => goDirty r c dir fun s => { s with hdrHoles := s.hdrHoles + 1 }
    | .body =>
      let rem := f.bodyLen - (if f.prefixClosed then 0 else f.buf.length)
      let take := min rem (n + 1)
      match holeBody env ops entryFlags dir r c rem take with
      | .ret s => s
      | .next s _ => holeLoop fuel s (n + 1 - take)
    | .skip => holeLoop fuel (r, c.updFrame dir (skipped (n + 1))) (n + 1 - f.skipLeft)
    | .dirty => (r, c)

end

def countHole (n : Nat) (s : ReasmStats) : ReasmStats :=
  { s with holes := s.holes + 1, holeBytes := s.holeBytes + n }

def lkFrameHole (env : Env φ) (r : Reasm) (c : FConn φ) (dir : Dir) (n : Nat) : Reasm × FConn φ :=
  let ops := connOps env c
  let c := c.pin
  if n = 0 then (r, c)
  else if ops.stream then ops.streamHole (r.bump (countHole n)) c dir n
  else
    match ops.interceptHole c dir with
    | some c => goDirty r c dir fun s => { s with hdrHoles := s.hdrHoles + 1 }
    | none =>
      if (c.frame dir).st = .dirty then (r, c.updFrame dir fun f => { f with resyncMatched := 0 })
      else holeLoop env ops c.flags dir (n + 1) (r.bump (countHole n), c) n

def framePrim (env : Env φ) (dir : Dir) (s : Reasm × FConn φ) : Prim → Reasm × FConn φ
  | .bytes p ts => lkFrameBytes env s.1 s.2 dir p ts
  | .hole n => lkFrameHole env s.1 s.2 dir n

def framePrims (env : Env φ) (dir : Dir) (s : Reasm × FConn φ) (ps : List Prim) : Reasm × FConn φ :=
  ps.foldl (framePrim env dir) s

/-- The first chunk of a call closes the previous one: its uncaptured tail is a hole of known size.
A chunk with no call in progress adopts its call. -/
def openCall (env : Env φ) (dir : Dir) (ev : EvData) (s : Reasm × FConn φ) :
    (Reasm × FConn φ) × List Prim :=
  let f := s.2.frame dir
  let adopt (s : Reasm × FConn φ) : Reasm × FConn φ :=
    (s.1, s.2.updFrame dir fun f => { f with callTotal := ev.totalLen, callPos := 0 })
  if ev.off = 0 then
    let tail := if f.callTotal > f.callPos then [Prim.hole (f.callTotal - f.callPos)] else []
    (adopt (framePrims env dir s tail), tail)
  else if f.callTotal = 0 then (adopt s, [])
  else (s, [])

/-- Bring the call position to the chunk's offset: over a hole, or dirty when the arithmetic
diverged. -/
def alignChunk (env : Env φ) (dir : Dir) (ev : EvData) (s : Reasm × FConn φ) :
    (Reasm × FConn φ) × List Prim :=
  let f := s.2.frame dir
  if ev.totalLen ≠ f.callTotal ∨ ev.off < f.callPos ∨ ev.off + ev.payload.length > ev.totalLen then
    let s := if f.st ≠ .dirty then
        goDirty s.1 s.2 dir fun st => { st with offAnomalies := st.offAnomalies + 1 }
      else s
    ((s.1, s.2.updFrame dir fun f => { f with callTotal := ev.totalLen, callPos := ev.off }), [])
  else if ev.off > f.callPos then
    let gap := [Prim.hole (ev.off - f.callPos)]
    let s := framePrims env dir s gap
    ((s.1, s.2.updFrame dir fun f => { f with callPos := ev.off }), gap)
  else (s, [])

def boundaryResync (env : Env φ) (ops : ProtoOps φ) (dir : Dir) (ev : EvData)
    (s : Reasm × FConn φ) : Reasm × FConn φ :=
  if (s.2.frame dir).st = .dirty ∧ ops.stream = false ∧ ops.resyncBoundary dir ev = true then
    doResync env s.1 s.2 dir
  else s

def closeChunk (ev : EvData) (f : Frame) : Frame :=
  let pos := (ev.off + ev.payload.length) % 2 ^ 32
  if f.callTotal ≤ pos then { f with callPos := 0, callTotal := 0 } else { f with callPos := pos }

/-- One data event of a direction. Beside the new state, the primitives handed to the framer. -/
def lkReasmData (env : Env φ) (r : Reasm) (c : FConn φ) (dir : Dir) (ev : EvData) :
    (Reasm × FConn φ) × List Prim :=
  let ops := connOps env c
  let c := c.pin
  if c.flags.cancel || c.flags.ignore || (c.flags.tls && !ev.decrypted) then ((r, c), [])
  else
    let (s, tail) := openCall env dir ev (r, c)
    let (s, gap) := alignChunk env dir ev s
    let s := boundaryResync env ops dir ev s
    let data := if ev.payload = [] then [] else [Prim.bytes ev.payload ev.ts]
    let s := framePrims env dir s data
    ((s.1, s.2.updFrame dir (closeChunk ev)), tail ++ gap ++ data)

end Latkit
