import Latkit.FrameSlab
import Latkit.RedisFrame

/-! RESP framing behind the stream hooks, over the slabs of the connection: one message for each top-level value. A
decrement below zero, a write without a slab and a machine that stands still have no result. -/

namespace Latkit
open Checked (Turn)

def lkRedisMaxDepth : Nat := 32
def lkRedisLineMax : Nat := 64 * 1024
def lkRedisInlineMax : Nat := 64 * 1024
def lkRedisAnchorElems : Nat := 1024

def redisLineAt : Nat → List Byte → Option (List Byte × List Byte)
  | max, b :: b' :: p =>
    if b = cr ∧ b' = lf then some ([], p)
    else
      match max with
      | 0 => none
      | max + 1 => (redisLineAt max (b' :: p)).map fun (line, rest) => (b :: line, rest)
  | _, _ => none

def redisHeaderAt (t : Byte) : List Byte → Option (Int × List Byte)
  | [] => none
  | b :: p => do
    if b = t then
      let (line, rest) ← redisLineAt lkRedisNumMax p
      let v ← redisParseI64 line
      return (v, rest)
    else none

def redisAnchorFe (p : List Byte) : Bool :=
  match redisHeaderAt redisTArray p with
  | none => false
  | some (v, rest) =>
    1 ≤ v ∧ v ≤ lkRedisAnchorElems ∧ (redisHeaderAt redisTBulk rest).any fun (v, _) => (redisBulkLen v).join.isSome

def redisAnchorBe (p : List Byte) : Bool := p.head?.any fun t => redisVshape t ≠ .bad

def redisAnchor (dir : Dir) (p : List Byte) : Bool := if dir = .recv then redisAnchorFe p else redisAnchorBe p

def lkReasmEmit (env : Env φ) (r : Reasm) (c : FConn φ) (dir : Dir) (m : Msg) : Reasm × FConn φ :=
  let f := c.frame dir
  let m := { m with flags := { m.flags with afterResync := m.flags.afterResync || f.afterResync } }
  let c := c.setFrame dir { f with afterResync := false }
  deliver env (r.bump (countMsg m.flags.bodyTrunc)) c (.msg c.cookie dir c.flags m)

def RedisFrame.setDir (rf : RedisFrame) (dir : Dir) (rd : RedisDir) : RedisFrame :=
  match dir with
  | .send => { rf with send := rd }
  | .recv => { rf with recv := rd }

abbrev RespState := SlabState RedisFrame

namespace RespState

def rd (s : RespState) (dir : Dir) : RedisDir := (s.c.frameState.getD {}).dir dir

def setRd (s : RespState) (dir : Dir) (rd : RedisDir) : RespState :=
  { s with c.frameState := some ((s.c.frameState.getD {}).setDir dir rd) }

def frameGet (alloc : Bool) (s : RespState) : RespState :=
  if s.c.frameState = none ∧ alloc = true then { s with c.frameState := some {} } else s

end RespState

def redisEmit (env : Env RedisFrame) (dir : Dir) (m : Msg) (s : RespState) : RespState :=
  let (r, c) := lkReasmEmit env s.r s.c dir m
  { s with r, c }

def redisPop : List Nat → Option (List Nat)
  | [] => some []
  | n :: stack => do
    let left ← Checked.sub n 1
    if left ≠ 0 then return left :: stack else redisPop stack

section
variable (env : Env RedisFrame) (grant : Nat → Bool) (dir : Dir)
open RespState

def redisNote (n : LkRedisNote) (ts : Nat) (s : RespState) : RespState :=
  redisEmit env dir { ts, type := lkRedisMsgNote, len := n.code, flags := { afterResync := (s.c.frame dir).st = .dirty } } s

def bufPut (s : RespState) : RespState := s.put dir { s.c.frame dir with buf := [] } false

def goScan (s : RespState) : RespState :=
  let s := (bufPut dir s).upd dir fun f => { f with st := .dirty }
  setRd s dir { rd s dir with
    st := .scan, stack := [], bulkLeft := 0, eolLeft := 0, lineN := 0, num := [], numBad := false, sawCr := false
    lostPrefix := false }

def noteScan (n : LkRedisNote) (ts : Nat) (s : RespState) : RespState := goScan dir (redisNote env dir n ts s)

def redisBadLen (ts : Nat) (s : RespState) : RespState :=
  noteScan env dir .badLen ts { s with r := s.r.bump fun st => { st with badLen := st.badLen + 1 } }

def slabFor (s : RespState) : RespState :=
  if s.slab dir then s
  else
    let fresh : RespState := s.bufGet grant dir
    if fresh.slab dir then fresh.upd dir fun f => { f with buf := [] } else fresh

def stash (p : List Byte) (stop : Nat) (s : RespState) : Option RespState :=
  let d := rd s dir
  let f := s.c.frame dir
  if stop ≤ d.cur then some s
  else if d.lostPrefix ∨ lkMsgBodyMax ≤ f.buf.length then some (setRd s dir { d with cur := stop })
  else
    let s := slabFor grant dir s
    if s.slab dir then do
      let room ← Checked.sub lkMsgBodyMax (s.c.frame dir).buf.length
      let q := (p.drop d.cur).take (min room (stop - d.cur))
      s.writable dir q
      return setRd (s.upd dir (spill q)) dir { d with cur := stop }
    else some (redisNote env dir .noMem d.lastTs (setRd s dir { d with lostPrefix := true, cur := stop }))

def prefixRelease (stop : Nat) (s : RespState) : RespState :=
  let s := bufPut dir s
  setRd s dir { rd s dir with lostPrefix := false, cur := stop }

/-- What is published of a complete value, with the slab caught up. The chunk is absent where a hole completed the
value. -/
def valueBody (p : Option (List Byte)) (stop : Nat) (s : RespState) : Option (RespState × List Byte) :=
  if (s.c.frame dir).buf ≠ [] ∨ (rd s dir).lostPrefix then do
    let s ← p.elim (some s) fun p => stash env grant dir p stop s
    return (s, (s.c.frame dir).buf)
  else some (s, p.elim [] fun p => ((p.take stop).drop (rd s dir).cur).take lkMsgBodyMax)

def valueEmit (p : Option (List Byte)) (stop endPos : Nat) (s : RespState) : Option RespState := do
  let d := rd s dir
  let len := endPos - d.vPos
  let (s, body) ← valueBody env grant dir p stop s
  let m := { ts := d.vTs, type := d.vtype, len := min len (2 ^ 32 - 1), body, flags := { bodyTrunc := body.length < len } }
  return prefixRelease dir stop (redisEmit env dir m s)

def valueDone (p : Option (List Byte)) (stop endPos : Nat) (s : RespState) : Option RespState := do
  let stack ← redisPop (rd s dir).stack
  let s := setRd s dir { rd s dir with stack, st := .value }
  if stack = [] then valueEmit env grant dir p stop endPos s else return s

def RedisDir.opens (d : RedisDir) (i : Nat) (b : Byte) (ts : Nat) : RedisDir :=
  if d.stack = [] then
    { d with vPos := d.cbase + i, vTs := ts, vtype := b, cur := i, vCall := d.callNew, callNew := false }
  else d

def valueStart (i : Nat) (b : Byte) (ts : Nat) (s : RespState) : RespState × Nat :=
  let d := rd s dir
  if d.stack = [] ∧ (b = cr ∨ b = lf) then (setRd s dir { d with cur := i + 1 }, i + 1)
  else
    let d := d.opens i b ts
    if redisVshape b = .bad then
      if dir = .recv ∧ d.stack = [] then
        (setRd s dir { d with st := .inline, vtype := lkRedisMsgInline, lineN := 0, inlineArg := false }, i)
      else (noteScan env dir .badType ts (setRd s dir d), i + 1)
    else
      (setRd s dir { d with shape := redisVshape b, st := .line, lineN := 0, num := [], numBad := false, sawCr := false },
        i + 1)

def aggComplete (p : List Byte) (stop elems ts : Nat) (s : RespState) : Option RespState :=
  let d := rd s dir
  if elems = 0 then valueDone env grant dir (some p) stop (d.cbase + stop) s
  else if lkRedisMaxDepth ≤ d.stack.length then some (noteScan env dir .depth ts s)
  else some (setRd s dir { d with stack := elems :: d.stack, st := .value })

def lineComplete (p : List Byte) (stop ts : Nat) (s : RespState) : Option RespState :=
  let d := rd s dir
  if d.shape = .line then valueDone env grant dir (some p) stop (d.cbase + stop) s
  else
    match if d.numBad then none else redisParseI64 d.num with
    | none => some (redisBadLen env dir ts s)
    | some v =>
      if d.shape = .bulk then
        match redisBulkLen v with
        | none => some (redisBadLen env dir ts s)
        | some none => valueDone env grant dir (some p) stop (d.cbase + stop) s
        | some (some payload) => some (setRd s dir { d with bulkLeft := payload, eolLeft := 2, st := .bulk })
      else
        match redisAggCount v (d.shape = .aggPair) with
        | none => some (redisBadLen env dir ts s)
        | some elems => aggComplete env grant dir p stop elems ts s

def RedisDir.lineByte (d : RedisDir) (b : Byte) : RedisDir :=
  { d with
    numBad := d.numBad || d.sawCr || decide (b ≠ cr ∧ lkRedisNumMax ≤ d.num.length)
    sawCr := b = cr
    num := if b ≠ cr ∧ d.num.length < lkRedisNumMax then d.num ++ [b] else d.num
    lineN := d.lineN + 1 }

def lineFeed (p : List Byte) (ts : Nat) : Nat → List Byte → RespState → Option (RespState × Nat)
  | i, [], s => some (s, i)
  | i, b :: rest, s =>
    let d := rd s dir
    if d.sawCr = true ∧ b = lf then (lineComplete env grant dir p (i + 1) ts s).map (·, i + 1)
    else
      let s := setRd s dir (d.lineByte b)
      if lkRedisLineMax < d.lineN + 1 then some (noteScan env dir .lineTooBig ts s, i + 1)
      else lineFeed p ts (i + 1) rest s

def RedisDir.eolTake (d : RedisDir) (n : Nat) : RedisDir := { d with eolLeft := d.eolLeft - n }

def eolFeed (p : List Byte) (ts : Nat) : Nat → List Byte → RespState → Option (RespState × Nat)
  | i, rest, s =>
    let d := rd s dir
    if d.eolLeft = 0 then (valueDone env grant dir (some p) i (d.cbase + i) s).map (·, i)
    else
      match rest with
      | [] => some (s, i)
      | b :: rest =>
        let s := setRd s dir (d.eolTake 1)
        if b ≠ (if d.eolLeft = 2 then cr else lf) then some (noteScan env dir .bulkEol ts s, i + 1)
        else eolFeed p ts (i + 1) rest s

def inlineComplete (p : List Byte) (stop : Nat) (s : RespState) : Option RespState :=
  let d := rd s dir
  let done := if d.inlineArg then valueEmit env grant dir (some p) stop (d.cbase + stop) s else some (prefixRelease dir stop s)
  done.map fun s => setRd s dir { rd s dir with st := .value }

def RedisDir.inlineByte (d : RedisDir) (b : Byte) : RedisDir :=
  { d with inlineArg := d.inlineArg || decide (b ≠ cr ∧ b ≠ ' '.toUInt8 ∧ b ≠ '\t'.toUInt8), lineN := d.lineN + 1 }

def inlineFeed (p : List Byte) (ts : Nat) : Nat → List Byte → RespState → Option (RespState × Nat)
  | i, [], s => some (s, i)
  | i, b :: rest, s =>
    let d := rd s dir
    if b = lf then (inlineComplete env grant dir p (i + 1) s).map (·, i + 1)
    else
      let s := setRd s dir (d.inlineByte b)
      if lkRedisInlineMax < d.lineN + 1 then some (noteScan env dir .inlineTooBig ts s, i + 1)
      else inlineFeed p ts (i + 1) rest s

def bulkTake (n : Nat) (s : RespState) : RespState × Nat :=
  let d := rd s dir
  let take := min d.bulkLeft n
  let left := d.bulkLeft - take
  (setRd s dir { d with bulkLeft := left, st := if left = 0 then .bulkEol else .bulk }, take)

/-- The end of a turn that was at offset `i` in state `st`: a blind zone leaves, and a parked machine has no result. -/
def redisGoOn (i : Nat) (st : RedisFrSt) : RespState × Nat → Option (Turn RespState Nat)
  | (s, i') =>
    if s.c.flags.ignore then some (.ret s)
    else if i' = i ∧ (rd s dir).st = st then none
    else some (.next s i')

def redisTurn (p : List Byte) (ts : Nat) (atCall : Bool) (s : RespState) (i : Nat) : Option (Turn RespState Nat) :=
  let st := (rd s dir).st
  match st with
  | .value => redisGoOn dir i st (valueStart env dir i (p.getD i 0) ts s)
  | .line => lineFeed env grant dir p ts i (p.drop i) s >>= redisGoOn dir i st
  | .bulk =>
    let (s, take) := bulkTake dir (p.length - i) s
    redisGoOn dir i st (s, i + take)
  | .bulkEol => eolFeed env grant dir p ts i (p.drop i) s >>= redisGoOn dir i st
  | .inline => inlineFeed env grant dir p ts i (p.drop i) s >>= redisGoOn dir i st
  | .scan =>
    if i = 0 ∧ atCall ∧ redisAnchor dir p then
      let s : RespState := s.doResync env dir
      redisGoOn dir i st (setRd s dir { rd s dir with st := .value }, i)
    else some (.ret s)

def redisTlsRecordHead (d : RedisDir) (p : List Byte) : Bool :=
  d.events = 1 ∧ d.st = .value ∧ d.stack = [] ∧ tlsHandshakeHead dir p

def RedisDir.enter (d : RedisDir) (n ts : Nat) (atCall : Bool) : RedisDir :=
  { d with
    events := d.events + 1, cbase := d.off, off := d.off + n, lastTs := ts, cur := 0, callNew := d.callNew || atCall }

def connFlags (g : ConnFlags → ConnFlags) (s : RespState) : RespState := { s with c := s.c.mapFlags g }

def redisNoState (ts : Nat) (s : RespState) : RespState :=
  connFlags (fun fl => { fl with ignore := true }) (redisNote env dir .noMem ts s)

def redisStreamBytes (alloc : Bool) (p : List Byte) (ts : Nat) (s : RespState) : Option RespState :=
  let s := frameGet alloc s
  if s.c.frameState = none then some (redisNoState env dir ts s)
  else
    let atCall := decide ((s.c.frame dir).callPos = 0)
    let s := setRd s dir ((rd s dir).enter p.length ts atCall)
    if redisTlsRecordHead dir (rd s dir) p then
      some (connFlags (fun fl => { fl with tls := true }) (redisNote env dir .tls ts s))
    else do
      let s := if (s.c.frame dir).st = .dirty ∧ (rd s dir).st ≠ .scan then goScan dir s else s
      let s ← Checked.loop (p.length - ·) (redisTurn env grant dir p ts atCall) (3 * p.length + 2) s 0
      -- the loop leaves the call where the connection went blind, and a value it leaves open keeps its prefix
      if s.c.flags.ignore = false ∧ redisValueOpen (rd s dir) = true then stash env grant dir p p.length s else return s

def bulkHole (n : Nat) (s : RespState) : Option (RespState × Nat) :=
  let (s, n) :=
    if (rd s dir).st = .bulk then
      let (s, take) := bulkTake dir n s
      (s, n - take)
    else (s, n)
  let d := rd s dir
  if d.st = .bulkEol ∧ n ≠ 0 then
    let take := min d.eolLeft n
    let s := setRd s dir (d.eolTake take)
    if d.eolLeft - take = 0 then (valueDone env grant dir none 0 (d.off - (n - take)) s).map (·, n - take)
    else some (s, n - take)
  else some (s, n)

def redisStreamHole (alloc : Bool) (n : Nat) (s : RespState) : Option RespState :=
  let s := frameGet alloc s
  if s.c.frameState = none then some (redisNoState env dir 0 s)
  else if n = 0 then some s
  else
    let d := rd s dir
    let s := setRd s dir { d with holes := d.holes + 1, off := d.off + n }
    if (s.c.frame dir).st = .dirty ∧ d.st ≠ .scan then some (goScan dir s)
    else if d.st = .scan then some s
    else do
      let (s, n) ← bulkHole env grant dir n s
      if n = 0 then return s
      else
        let s := redisNote env dir .valueHole d.lastTs s
        return goScan dir { s with r := s.r.bump fun st => { st with hdrHoles := st.hdrHoles + 1 } }

end

/-- What a connection that speaks RESP can meet; `callPos` is what the generic layer has put into the frame, and
`alloc` says whether the framer's state could be allocated. -/
inductive RespAct where
  | bytes (dir : Dir) (callPos : Nat) (alloc : Bool) (p : List Byte) (ts : Nat)
  | hole (dir : Dir) (alloc : Bool) (n : Nat)
  | offAnomaly (dir : Dir)
  | markDirty
  | tlsReset (midstream : Bool)
  | setFlags (fl : ConnFlags)

def respAct (env : Env RedisFrame) (grant : Nat → Bool) (s : RespState) : RespAct → Option RespState
  | .bytes dir callPos alloc p ts => redisStreamBytes env grant dir alloc p ts (s.upd dir fun f => { f with callPos })
  | .hole dir alloc n => redisStreamHole env grant dir alloc n s
  | .offAnomaly dir => some (s.goDirty dir fun st => { st with offAnomalies := st.offAnomalies + 1 })
  | .markDirty => some s.markDirty
  | .tlsReset midstream => some (s.tlsReset midstream)
  | .setFlags fl => some (connFlags (fun _ => fl) s)

def respActs (env : Env RedisFrame) (grant : Nat → Bool) (s : RespState) (acts : List RespAct) : Option RespState :=
  acts.foldlM (respAct env grant) s

end Latkit
