import Latkit.Reassembly
import Latkit.RedisWire

namespace Latkit

/-! The state of RESP framing in one direction and the notes that the framer sends. -/

def lkRedisMsgInline : Byte := 'i'.toUInt8
def lkRedisMsgNote : Byte := '?'.toUInt8

inductive LkRedisNote where
  | badType
  | badLen
  | bulkEol
  | lineTooBig
  | inlineTooBig
  | depth
  | valueHole
  | noMem
  | tls
  deriving DecidableEq, Repr

def LkRedisNote.code : LkRedisNote → Nat
  | .badType => 1
  | .badLen => 2
  | .bulkEol => 3
  | .lineTooBig => 4
  | .inlineTooBig => 5
  | .depth => 6
  | .valueHole => 7
  | .noMem => 8
  | .tls => 9

inductive RedisFrSt where
  | value
  | line
  | bulk
  | bulkEol
  | inline
  | scan
  deriving DecidableEq, Repr

/-- One direction's machine. `num` and `stack` hold their live part only, the innermost level of the
stack first, so `num_n` and `depth` are their lengths. Stream positions do not wrap. -/
structure RedisDir where
  st : RedisFrSt := .value
  shape : RedisVshape := .bad
  callNew : Bool := false
  vCall : Bool := false
  sawCr : Bool := false
  num : List Byte := []
  numBad : Bool := false
  vtype : Byte := 0
  eolLeft : Nat := 0
  lostPrefix : Bool := false
  inlineArg : Bool := false
  lineN : Nat := 0
  cur : Nat := 0
  bulkLeft : Nat := 0
  vPos : Nat := 0
  vTs : Nat := 0
  cbase : Nat := 0
  lastTs : Nat := 0
  off : Nat := 0
  events : Nat := 0
  holes : Nat := 0
  stack : List Nat := []
  deriving DecidableEq, Repr

structure RedisFrame where
  send : RedisDir := {}
  recv : RedisDir := {}
  deriving DecidableEq, Repr

def RedisFrame.dir (rf : RedisFrame) : Dir → RedisDir
  | .send => rf.send
  | .recv => rf.recv

def redisValueOpen (rd : RedisDir) : Bool :=
  match rd.st with
  | .line | .bulk | .bulkEol | .inline => true
  | .value => rd.stack != []
  | .scan => false

/-- The bytes of a handshake record of SSL 3.0 / TLS 1.0 to 1.3, and of the message that this side sends. -/
def tlsHandshakeHead (dir : Dir) (p : List Byte) : Bool :=
  3 ≤ p.length ∧ p.getD 0 0 = 0x16 ∧ p.getD 1 0 = 0x03 ∧ p.getD 2 0 ≤ 0x04 ∧
    (6 ≤ p.length → p.getD 5 0 = if dir = .recv then 0x01 else 0x02)

end Latkit
