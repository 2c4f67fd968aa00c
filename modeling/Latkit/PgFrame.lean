import Latkit.Frame

namespace Latkit

def lkPgMsgLenMax : Nat := 2 ^ 30
def lkPgProtoV3 : Nat := 0x00030000
def lkPgCancelRequest : Nat := 80877102
def lkPgSslRequest : Nat := 80877103
def lkPgGssencRequest : Nat := 80877104

def be32 (p : List Byte) : Nat :=
  (p.getD 0 0).toNat * 2 ^ 24 + (p.getD 1 0).toNat * 2 ^ 16 + (p.getD 2 0).toNat * 2 ^ 8 +
    (p.getD 3 0).toNat

def inStartup (f : Frame) (dir : Dir) : Bool :=
  dir == .recv && !f.startupDone

def pgHdrSize (dir : Dir) (f : Frame) : Nat :=
  if inStartup f dir then 4 else 5

def pgHdrLen (startup : Bool) (hdr : List Byte) : Nat :=
  be32 (hdr.drop (if startup then 0 else 1))

/-- `len` counts itself, so the shortest typed message has `len = 4` and a startup message, which
carries a code, has `len = 8`. -/
def pgLenOk (startup : Bool) (len : Nat) : Bool :=
  (if startup then 8 else 4) ≤ len && len ≤ lkPgMsgLenMax

def pgParseHdr (dir : Dir) (f : Frame) : Option Frame :=
  let startup := inStartup f dir
  let len := pgHdrLen startup f.hdr
  if pgLenOk startup len then
    some { f with
      msgType := bif startup then 0 else f.hdr.getD 0 0
      msgLen := len
      bodyLen := len - 4
      bodyTotal := len - 4 }
  else none

def pgPreEmit (c : FConn φ) (dir : Dir) (m : Msg) : FConn φ × Msg :=
  let f := c.frame dir
  if !inStartup f dir then (c, m)
  else
    let m := { m with flags := { m.flags with startup := true } }
    if m.body.length < 4 then (c, m)
    else
      let code := be32 m.body
      if code = lkPgProtoV3 then (c.setFrame dir { f with startupDone := true }, m)
      else if code = lkPgSslRequest ∨ code = lkPgGssencRequest then
        (c.mapFlags fun fl => { fl with sslReply := true }, m)
      else if code = lkPgCancelRequest then
        (c.mapFlags fun fl => { fl with cancel := true }, m)
      else (c, m)

def pgSslReply (env : Env φ) (r : Reasm) (c : FConn φ) (b : Byte) (ts : Nat) : Reasm × FConn φ :=
  let c := c.mapFlags fun fl => { fl with sslReply := false }
  deliver env (r.bump fun s => { s with msgs := s.msgs + 1 }) c
    (.msg c.cookie .send c.flags { ts := ts, type := b })

def pgInterceptBytes (env : Env φ) (r : Reasm) (c : FConn φ) (dir : Dir) (p : List Byte) (ts : Nat) :
    Reasm × FConn φ × Option (List Byte) :=
  match dir, p with
  | .send, b :: rest =>
    if c.flags.sslReply then
      let (r, c) := pgSslReply env r c b ts
      if b = 'S'.toUInt8 ∨ b = 'G'.toUInt8 then
        (r.bump fun s => { s with tlsConns := s.tlsConns + 1 },
          c.mapFlags fun fl => { fl with tls := true }, none)
      else (r, c, some rest)
    else (r, c, some (b :: rest))
  | _, p => (r, c, some p)

def pgInterceptHole (c : FConn φ) (dir : Dir) : Option (FConn φ) :=
  if dir = .send ∧ c.flags.sslReply = true then
    some (c.mapFlags fun fl => { fl with sslReply := false })
  else none

def resyncPat : List Byte := ['Z'.toUInt8, 0, 0, 0, 5]

/-- One byte of the backend scan for `'Z' 00 00 00 05 [ITE]`: the new match length, or `none` when
the anchor is complete. -/
def pgScanByte (matched : Nat) (b : Byte) : Option Nat :=
  if matched < 5 then
    some (if b = resyncPat.getD matched 0 then matched + 1 else if b = 'Z'.toUInt8 then 1 else 0)
  else if b = 'I'.toUInt8 ∨ b = 'T'.toUInt8 ∨ b = 'E'.toUInt8 then none
  else some (if b = 'Z'.toUInt8 then 1 else 0)

def pgScan (matched : Nat) : List Byte → Nat × Nat × Bool
  | [] => (matched, 0, false)
  | b :: p =>
    match pgScanByte matched b with
    | none => (matched, 1, true)
    | some matched =>
      let (matched, used, found) := pgScan matched p
      (matched, used + 1, found)

def pgResyncScan (dir : Dir) (f : Frame) (p : List Byte) : Frame × Nat × Bool :=
  if dir ≠ .send then (f, p.length, false)
  else
    let (matched, used, found) := pgScan f.resyncMatched p
    ({ f with resyncMatched := matched }, used, found)

def feTypeOk (b : Byte) : Bool :=
  ("QPBESXCDFHdcfp".toList.map Char.toUInt8).contains b

def pgResyncBoundary (dir : Dir) (ev : EvData) : Bool :=
  if dir ≠ .recv ∨ ev.off ≠ 0 ∨ ev.payload.length < 5 ∨ !feTypeOk (ev.payload.getD 0 0) then false
  else
    let len := be32 (ev.payload.drop 1)
    4 ≤ len ∧ len ≤ lkPgMsgLenMax

def lkProtoPgOps (env : Env φ) : ProtoOps φ where
  stream := false
  hdrSize := pgHdrSize
  parseHdr := pgParseHdr
  preEmit := pgPreEmit
  interceptBytes := pgInterceptBytes env
  interceptHole := pgInterceptHole
  resyncScan := pgResyncScan
  resyncBoundary := pgResyncBoundary
  streamBytes := fun r c _ _ _ => (r, c)
  streamHole := fun r c _ _ => (r, c)

end Latkit
