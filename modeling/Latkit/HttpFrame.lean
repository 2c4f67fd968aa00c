import Latkit.HttpHandler
import Latkit.RedisFrame

namespace Latkit
open Chunked (Turn)

/-! HTTP/1.x framing behind the stream hooks: heads, counted bodies and the way back after a loss. -/

inductive HttpEvent where
  | msg (dir : Dir) (m : Msg)
  | resync (dir : Dir)
  deriving DecidableEq, Repr

inductive HttpFrSt where
  | head
  | body
  | chunk
  | close
  | scan
  deriving DecidableEq, Repr

inductive HttpChunkSt where
  | size
  | ext
  | sizeLf
  | data
  | dataEol
  | trailer
  deriving DecidableEq, Repr

/-- One direction's machine. `buf`, `dirty` and `afterResync` are those of the direction's `lk_frame`; `anchor` and `buf`
hold their live part only. -/
structure HttpDir where
  st : HttpFrSt := .head
  chunkSt : HttpChunkSt := .size
  chunkDig : Nat := 0
  atline : Bool := false
  errWant : Bool := false
  anchor : List Byte := []
  bodyLeft : Nat := 0
  bodySeen : Nat := 0
  chunkLeft : Nat := 0
  chunkVal : Nat := 0
  headTs : Nat := 0
  lastTs : Nat := 0
  off : Nat := 0
  events : Nat := 0
  holes : Nat := 0
  buf : List Byte := []
  dirty : Bool := false
  afterResync : Bool := false
  deriving DecidableEq, Repr

structure HttpRq where
  head : Bool := false
  connect : Bool := false
  upWs : Bool := false
  upH2c : Bool := false
  upOther : Bool := false
  deriving DecidableEq, Repr

/-- The framer's state of a connection, with the two flags it raises and what it has told the handler. -/
structure HttpFrame where
  send : HttpDir := {}
  recv : HttpDir := {}
  pend : List HttpRq := []
  pendSkew : Bool := false
  lfNoted : Bool := false
  ignore : Bool := false
  tls : Bool := false
  slabOk : Bool := true
  out : List HttpEvent := []
  deriving DecidableEq, Repr

namespace HttpFrame

def d (s : HttpFrame) : Dir → HttpDir
  | .send => s.send
  | .recv => s.recv

def setD (s : HttpFrame) (dir : Dir) (hd : HttpDir) : HttpFrame :=
  match dir with
  | .send => { s with send := hd }
  | .recv => { s with recv := hd }

def mapD (s : HttpFrame) (dir : Dir) (g : HttpDir → HttpDir) : HttpFrame := s.setD dir (g (s.d dir))

end HttpFrame

def lkHttpAnchorMax : Nat := 12
def lkHttpErrbMax : Nat := 256

/-- Consume bytes up to the LF that closes an empty line: how many, whether the next one starts a line, and whether the
block has ended. -/
def scanBlock : List Byte → Bool → Nat × Bool × Bool
  | [], atline => (0, atline, false)
  | b :: p, atline =>
    if b = lf then
      if atline then (1, atline, true)
      else
        let (k, atline, fin) := scanBlock p true
        (k + 1, atline, fin)
    else
      let (k, atline, fin) := scanBlock p (atline && b == cr)
      (k + 1, atline, fin)

structure HttpFraming where
  clen : Nat := 0
  haveCl : Bool := false
  badCl : Bool := false
  tePresent : Bool := false
  teChunked : Bool := false
  rq : HttpRq := {}
  deriving DecidableEq, Repr

def httpFramingField (fr : HttpFraming) (f : HttpField) : HttpFraming :=
  if spanEqCi f.name "content-length" then
    match httpParseContentLength f.val with
    | none => { fr with badCl := true }
    | some v => if fr.haveCl ∧ v ≠ fr.clen then { fr with badCl := true } else { fr with clen := v, haveCl := true }
  else if spanEqCi f.name "transfer-encoding" then
    { fr with tePresent := true, teChunked := spanEqCi (httpListLast f.val) "chunked" }
  else if spanEqCi f.name "upgrade" then
    if httpListHas f.val "websocket" then { fr with rq := { fr.rq with upWs := true } }
    else if httpListHas f.val "h2c" then { fr with rq := { fr.rq with upH2c := true } }
    else if f.val ≠ [] then { fr with rq := { fr.rq with upOther := true } }
    else fr
  else fr

def readFieldsHttp (h : HttpHead) : HttpFraming × HttpHead :=
  ((httpHeadFields h).1.foldl httpFramingField {}, (httpHeadFields h).2)

def asciiBytes (cs : List Char) : List Byte := cs.map Char.toUInt8

def httpReqAnchors : List (List Byte) :=
  [asciiBytes ['G', 'E', 'T', ' '], asciiBytes ['H', 'E', 'A', 'D', ' '], asciiBytes ['P', 'O', 'S', 'T', ' '],
    asciiBytes ['P', 'U', 'T', ' '], asciiBytes ['D', 'E', 'L', 'E', 'T', 'E', ' '],
    asciiBytes ['C', 'O', 'N', 'N', 'E', 'C', 'T', ' '], asciiBytes ['O', 'P', 'T', 'I', 'O', 'N', 'S', ' '],
    asciiBytes ['T', 'R', 'A', 'C', 'E', ' '], asciiBytes ['P', 'A', 'T', 'C', 'H', ' ']]

def httpVersionBytes : List Byte := asciiBytes ['H', 'T', 'T', 'P', '/', '1', '.']

def anchorByte (i : Nat) (b : Byte) : Bool :=
  if i < 7 then httpVersionBytes[i]? == some b
  else if i = 7 then b == '0'.toUInt8 || b == '1'.toUInt8
  else if i = 8 then b == ' '.toUInt8
  else if i = 9 then '1'.toUInt8 ≤ b && b ≤ '5'.toUInt8
  else httpIsDigit b

def anchorOk (dir : Dir) (a : List Byte) : Bool :=
  match dir with
  | .recv => httpReqAnchors.any (a.isPrefixOf ·)
  | .send => (a.zipIdx).all fun (b, i) => anchorByte i b

def anchorFull (dir : Dir) (a : List Byte) : Bool :=
  match dir with
  | .recv => httpReqAnchors.contains a
  | .send => anchorOk .send a && a.length == lkHttpAnchorMax

def anchorShrink (dir : Dir) : List Byte → List Byte
  | [] => []
  | b :: a => if anchorOk dir (b :: a) then b :: a else anchorShrink dir a

def statusLineHead (p : List Byte) : Bool :=
  9 ≤ p.length ∧ p.take 7 = httpVersionBytes ∧ (p[7]? = some '0'.toUInt8 ∨ p[7]? = some '1'.toUInt8) ∧
    p[8]? = some ' '.toUInt8

section
variable (dir : Dir)

def httpEmit (m : Msg) (s : HttpFrame) : HttpFrame :=
  let m := { m with flags := { m.flags with afterResync := m.flags.afterResync || (s.d dir).afterResync } }
  { s.mapD dir fun hd => { hd with afterResync := false } with out := s.out ++ [.msg dir m] }

def httpResync (s : HttpFrame) : HttpFrame :=
  { s.mapD dir fun hd => { hd with buf := [], dirty := false, afterResync := true } with out := s.out ++ [.resync dir] }

def httpNote (n : LkHttpNote) (ts : Nat) (s : HttpFrame) : HttpFrame :=
  httpEmit dir { ts := ts, type := lkHttpMsgNote, len := n.code, flags := { afterResync := (s.d dir).dirty } } s

def httpGoBlind (n : LkHttpNote) (ts : Nat) (s : HttpFrame) : HttpFrame := { httpNote dir n ts s with ignore := true }

def httpGoScan (s : HttpFrame) : HttpFrame :=
  s.mapD dir fun hd =>
    { hd with
      buf := [], dirty := true, st := .scan, anchor := [], errWant := false, bodyLeft := 0, bodySeen := 0
      chunkLeft := 0, chunkVal := 0, chunkDig := 0, chunkSt := .size, atline := true }

/-- Body bytes are counted. The first captured ones of a failing response are shown, if the dialect asked. -/
def httpBodyAdd (src : Option (List Byte)) (n ts : Nat) (s : HttpFrame) : HttpFrame :=
  if n = 0 then s
  else
    let want := (s.d dir).errWant
    let s := s.mapD dir fun hd => { hd with errWant := false }
    let s := match src with
      | some p =>
        if want then
          httpEmit dir { ts := ts, type := lkHttpMsgErrb, len := min n lkHttpErrbMax, body := p.take (min n lkHttpErrbMax) } s
        else s
      | none => s
    let s := s.mapD dir fun hd => { hd with bodySeen := hd.bodySeen + n }
    httpEmit dir { ts := ts, type := lkHttpMsgData, len := min n (2 ^ 32 - 1) } s

def httpBodyEnd (ts : Nat) (s : HttpFrame) : HttpFrame :=
  (httpEmit dir { ts := ts, type := lkHttpMsgEnd, len := min (s.d dir).bodySeen (2 ^ 32 - 1) } s).mapD dir fun hd =>
    { hd with bodySeen := 0, bodyLeft := 0, errWant := false, st := .head, atline := true }

def httpBadHead (n : LkHttpNote) (ts : Nat) (s : HttpFrame) : HttpFrame := httpGoScan dir (httpNote dir n ts s)

end

def pendPush (rq : HttpRq) (ts : Nat) (s : HttpFrame) : HttpFrame :=
  if lkHttpMaxInflight ≤ s.pend.length then httpNote .recv .pipelineOver ts { s with pendSkew := true }
  else { s with pend := s.pend ++ [rq] }

def pendPop (s : HttpFrame) : HttpFrame × HttpRq :=
  match s.pend with
  | [] => (s, {})
  | v :: pend =>
    let skew := s.pendSkew && pend ≠ []
    ({ s with pend := pend, pendSkew := skew }, if skew then {} else v)

section
variable (dir : Dir) (errBody : Bool)

def noteLf (lfOnly : Bool) (ts : Nat) (s : HttpFrame) : HttpFrame :=
  if lfOnly ∧ ¬ s.lfNoted then httpNote dir .lfOnly ts { s with lfNoted := true } else s

def enterChunk (hd : HttpDir) : HttpDir := { hd with st := .chunk, chunkSt := .size, chunkVal := 0, chunkDig := 0 }

def reqMarks (method : List Byte) (rq : HttpRq) : HttpRq :=
  match httpMethodId method with
  | .head => { rq with head := true }
  | .connect => { rq with connect := true }
  | _ => rq

def reqAccept (head method : List Byte) (fr : HttpFraming) (lfOnly : Bool) (ts : Nat) (s : HttpFrame) : HttpFrame :=
  let s := noteLf .recv lfOnly ts s
  let s := httpEmit .recv { ts := (s.d .recv).headTs, type := lkHttpMsgReq, len := head.length, body := head } s
  let s := pendPush (reqMarks method fr.rq) ts s
  if fr.teChunked then s.mapD .recv enterChunk
  else if fr.haveCl ∧ fr.clen ≠ 0 then s.mapD .recv fun hd => { hd with st := .body, bodyLeft := fr.clen }
  else httpBodyEnd .recv ts s

def reqComplete (head : List Byte) (ts : Nat) (s : HttpFrame) : HttpFrame :=
  match httpHeadLine { rest := head } with
  | none => httpBadHead .recv .badHead ts s
  | some (line, h) =>
    if keyIs (head.take 14) "PRI * HTTP/2.0" then httpGoBlind .recv .blindH2 ts s
    else
      match httpParseReqLine line with
      | none => httpBadHead .recv .badHead ts s
      | some rl =>
        let (fr, h) := readFieldsHttp h
        if h.bad then httpBadHead .recv .fieldBad ts s
        else if fr.badCl then httpBadHead .recv .clBad ts s
        else if fr.tePresent ∧ fr.haveCl then httpBadHead .recv .clTe ts s
        else if fr.tePresent ∧ ¬ fr.teChunked then httpBadHead .recv .teBad ts s
        else reqAccept head rl.method fr h.lfOnly ts s

def respBody (fr : HttpFraming) (rq : HttpRq) (code ts : Nat) (s : HttpFrame) : HttpFrame :=
  if rq.connect ∧ code < 300 then httpGoBlind .send .blindConnect ts (httpBodyEnd .send ts s)
  else if rq.head ∨ code = 204 ∨ code = 304 then httpBodyEnd .send ts s
  else if fr.teChunked then s.mapD .send enterChunk
  else if fr.tePresent then s.mapD .send fun hd => { hd with st := .close }
  else if fr.haveCl then
    if fr.clen ≠ 0 then s.mapD .send fun hd => { hd with st := .body, bodyLeft := fr.clen }
    else httpBodyEnd .send ts s
  else s.mapD .send fun hd => { hd with st := .close }

def respAccept (head : List Byte) (code : Nat) (fr : HttpFraming) (lfOnly : Bool) (ts : Nat) (s : HttpFrame) : HttpFrame :=
  let s := noteLf .send lfOnly ts s
  let m : Msg := { ts := (s.d .send).headTs, type := lkHttpMsgResp, len := head.length, body := head }
  if code = 101 then httpGoBlind .send .blindUpgrade ts (httpBodyEnd .send ts (httpEmit .send m (pendPop s).1))
  else if code < 200 then
    (httpEmit .send { m with type := lkHttpMsgInter } s).mapD .send fun hd => { hd with atline := true }
  else
    let (s, rq) := pendPop s
    let s := (httpEmit .send m s).mapD .send fun hd => { hd with errWant := decide (400 ≤ code) && errBody }
    respBody fr rq code ts s

def respComplete (head : List Byte) (ts : Nat) (s : HttpFrame) : HttpFrame :=
  match httpHeadLine { rest := head } with
  | none => httpBadHead .send .badHead ts s
  | some (line, h) =>
    match httpParseStatusLine line with
    | none => httpBadHead .send .badHead ts s
    | some (code, _) =>
      let (fr, h) := readFieldsHttp h
      if h.bad then httpBadHead .send .fieldBad ts s
      else if fr.badCl then httpBadHead .send .clBad ts s
      else if fr.tePresent ∧ fr.haveCl then httpBadHead .send .clTe ts s
      else respAccept errBody head code fr h.lfOnly ts s

def headComplete (head : List Byte) (ts : Nat) (s : HttpFrame) : HttpFrame :=
  match dir with
  | .recv => reqComplete head ts s
  | .send => respComplete errBody head ts s

def strayEol (hd : HttpDir) (p : List Byte) : Nat :=
  if hd.buf = [] then (p.takeWhile fun b => b == cr || b == lf).length else 0

def headFeed (p : List Byte) (ts : Nat) (s : HttpFrame) : HttpFrame × Nat :=
  let hd := s.d dir
  let i := strayEol hd p
  if i = p.length then (s, i)
  else
    let hd := if hd.buf = [] then { hd with headTs := ts, atline := true } else hd
    let (k, atline, fin) := scanBlock (p.drop i) hd.atline
    let s := s.setD dir { hd with atline := atline }
    if lkMsgBodyMax < hd.buf.length + k then (httpBadHead dir .headTooBig ts s, i)
    else
      let head := hd.buf ++ (p.drop i).take k
      if fin then ((headComplete dir errBody head ts s).mapD dir fun hd => { hd with buf := [] }, i + k)
      else if hd.buf = [] ∧ ¬ s.slabOk then (httpBadHead dir .noMem ts s, i)
      else (s.mapD dir fun hd => { hd with buf := head }, i + k)

def chunkSizeDone (hd : HttpDir) : HttpDir :=
  if hd.chunkVal = 0 then { hd with chunkDig := 0, chunkSt := .trailer, atline := true, chunkVal := 0 }
  else { hd with chunkDig := 0, chunkLeft := hd.chunkVal, chunkSt := .data, chunkVal := 0 }

def chunkTurn (b : Byte) (p : List Byte) (ts : Nat) (s : HttpFrame) : HttpFrame × Nat :=
  let hd := s.d dir
  let bad := (httpBadHead dir .chunkBad ts s, 0)
  match hd.chunkSt with
  | .size =>
    match httpHexVal b with
    | some v =>
      if 16 ≤ hd.chunkDig then bad
      else (s.setD dir { hd with chunkVal := hd.chunkVal * 16 + v, chunkDig := hd.chunkDig + 1 }, 1)
    | none =>
      if hd.chunkDig = 0 then bad
      else if b = ';'.toUInt8 then (s.setD dir { hd with chunkSt := .ext }, 1)
      else if b = cr then (s.setD dir { hd with chunkSt := .sizeLf }, 1)
      else if b = lf then (s.setD dir (chunkSizeDone hd), 1)
      else bad
  | .ext =>
    if b = cr then (s.setD dir { hd with chunkSt := .sizeLf }, 1)
    else if b = lf then (s.setD dir (chunkSizeDone hd), 1)
    else (s, 1)
  | .sizeLf => if b ≠ lf then bad else (s.setD dir (chunkSizeDone hd), 1)
  | .data =>
    let take := min hd.chunkLeft (b :: p).length
    let s := httpBodyAdd dir (some (b :: p)) take ts s
    (s.mapD dir fun hd =>
      { hd with chunkLeft := hd.chunkLeft - take, chunkSt := if hd.chunkLeft - take = 0 then .dataEol else .data }, take)
  | .dataEol =>
    if b = cr then (s, 1)
    else if b = lf then (s.setD dir { hd with chunkSt := .size, chunkVal := 0, chunkDig := 0 }, 1)
    else bad
  | .trailer =>
    let (k, atline, fin) := scanBlock (b :: p) hd.atline
    let s := s.setD dir { hd with atline := atline }
    (if fin then httpBodyEnd dir ts s else s, k)

def chunkFeed (ts : Nat) : Nat → List Byte → HttpFrame → HttpFrame × List Byte
  | 0, p, s => (s, p)
  | _ + 1, [], s => (s, [])
  | n + 1, b :: p, s =>
    if (s.d dir).st ≠ .chunk then (s, b :: p)
    else
      let (s, used) := chunkTurn dir b p ts s
      chunkFeed ts n ((b :: p).drop used) s

def scanFeed (ts : Nat) : List Byte → HttpFrame → HttpFrame × List Byte
  | [], s => (s, [])
  | b :: p, s =>
    let anchor := anchorShrink dir ((s.d dir).anchor ++ [b])
    if anchorFull dir anchor then
      let s := httpResync dir (s.mapD dir fun hd => { hd with anchor := [], st := .head })
      ((headFeed dir errBody anchor ts s).1, p)
    else
      scanFeed ts p (s.mapD dir fun hd =>
        { hd with anchor := if lkHttpAnchorMax ≤ anchor.length then [] else anchor })

def httpGoOn (p : List Byte) (st : HttpFrSt) (s : HttpFrame) (rest : List Byte) : Turn HttpFrame Byte :=
  if s.ignore then .ret s
  else if rest.length = p.length ∧ (s.d dir).st = st then .ret s
  else .next s rest

def httpTurn (ts : Nat) (s : HttpFrame) (p : List Byte) : Turn HttpFrame Byte :=
  match (s.d dir).st with
  | .head =>
    let (s, used) := headFeed dir errBody p ts s
    httpGoOn dir p .head s (p.drop used)
  | .body =>
    let take := min (s.d dir).bodyLeft p.length
    let s := (httpBodyAdd dir (some p) take ts s).mapD dir fun hd => { hd with bodyLeft := hd.bodyLeft - take }
    let s := if (s.d dir).bodyLeft = 0 then httpBodyEnd dir ts s else s
    httpGoOn dir p .body s (p.drop take)
  | .chunk =>
    let (s, rest) := chunkFeed dir ts (2 * p.length + 1) p s
    httpGoOn dir p .chunk s rest
  | .close => httpGoOn dir p .close (httpBodyAdd dir (some p) p.length ts s) []
  | .scan =>
    let (s, rest) := scanFeed dir errBody ts p s
    httpGoOn dir p .scan s rest

def tlsRecordHead (hd : HttpDir) (p : List Byte) : Bool := hd.events = 1 ∧ hd.st = .head ∧ tlsHandshakeHead dir p

def httpStreamBytes (p : List Byte) (ts : Nat) (s : HttpFrame) : HttpFrame :=
  let s := s.mapD dir fun hd => { hd with events := hd.events + 1, off := hd.off + p.length, lastTs := ts }
  if tlsRecordHead dir (s.d dir) p then { httpNote dir .tls ts s with tls := true }
  else
    let s := if (s.d dir).dirty ∧ (s.d dir).st ≠ .scan then httpGoScan dir s else s
    -- the body went out behind the socket's back, and the next status line says so
    let unseen := dir = .send ∧ (s.d dir).st = .body ∧ (s.d dir).bodySeen = 0 ∧ statusLineHead p
    let s := if unseen then httpBodyEnd dir ts (httpNote dir .bodyUnseen ts s) else s
    Chunked.run (httpTurn dir errBody ts) s p

def httpStreamHole (n : Nat) (s : HttpFrame) : HttpFrame :=
  if n = 0 then s
  else
    let s := s.mapD dir fun hd => { hd with holes := hd.holes + 1, off := hd.off + n }
    let ts := (s.d dir).lastTs
    let headHole (s : HttpFrame) : HttpFrame := httpGoScan dir (httpNote dir .headHole ts s)
    if (s.d dir).dirty ∧ (s.d dir).st ≠ .scan then httpGoScan dir s
    else
      match (s.d dir).st with
      | .head =>
        let hd := s.d dir
        -- what did arrive of the head is published as a prefix
        headHole (if hd.buf = [] then s
          else httpEmit dir
            { ts := hd.headTs, type := if dir = .recv then lkHttpMsgReq else lkHttpMsgResp, len := hd.buf.length
              body := hd.buf, flags := { bodyTrunc := true } } s)
      | .body =>
        let take := min (s.d dir).bodyLeft n
        let s := (httpBodyAdd dir none take ts s).mapD dir fun hd => { hd with bodyLeft := hd.bodyLeft - take }
        let s := if (s.d dir).bodyLeft = 0 then httpBodyEnd dir ts s else s
        if n - take = 0 then s else headHole s
      | .chunk => httpGoScan dir (httpNote dir .chunkHole ts s)
      | .close => httpBodyAdd dir none n ts s
      | .scan => s.mapD dir fun hd => { hd with anchor := [] }

end

end Latkit
