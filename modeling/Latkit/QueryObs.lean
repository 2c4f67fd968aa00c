import Latkit.Frame

namespace Latkit

inductive QueryKind where
  | simple
  | extended
  | function
  | copyIn
  | copyOut
  | cancel
  deriving DecidableEq, Repr

structure ObsFlags where
  error : Bool := false
  textTrunc : Bool := false
  noText : Bool := false
  multiStmt : Bool := false
  empty : Bool := false
  suspended : Bool := false
  aborted : Bool := false
  pipelined : Bool := false
  deriving DecidableEq, Repr

structure Session where
  user : List Byte := []
  database : List Byte := []
  app : List Byte := []
  serverVersion : List Byte := []
  complete : Bool := false
  deriving DecidableEq, Repr

def copyField (size : Nat) (src : List Byte) : List Byte := src.take (size - 1)

def keyIs (key : List Byte) (lit : String) : Bool := key == lit.toUTF8.toList

def asciiUpper (b : Byte) : Byte := if 'a'.toUInt8 ≤ b ∧ b ≤ 'z'.toUInt8 then b - 32 else b

def asciiLower (b : Byte) : Byte := if 'A'.toUInt8 ≤ b ∧ b ≤ 'Z'.toUInt8 then b + 32 else b

/-- One completed unit of work. An absent text has length 0. -/
structure QueryObs where
  tsStart : Nat := 0
  tsFirstRow : Nat := 0
  tsComplete : Nat := 0
  tsReady : Nat := 0
  text : List Byte := []
  rows : UInt64 := 0
  bytes : UInt64 := 0
  sqlstate : List Byte := []
  errCode : UInt16 := 0
  kind : QueryKind
  txnStatus : Byte := 0
  flags : ObsFlags := {}
  deriving DecidableEq, Repr

inductive Upcall where
  | query (session : Session) (obs : QueryObs)
  | session (session : Session)
  | txn (start stop : Nat) (status : Byte)
  deriving DecidableEq, Repr

def queries (out : List Upcall) : List QueryObs :=
  out.filterMap fun
    | .query _ o => some o
    | _ => none

structure ProtoStats where
  msgs : Nat := 0
  startupMsgs : Nat := 0
  resyncs : Nat := 0
  conns : Nat := 0
  sessions : Nat := 0
  queries : Nat := 0
  errorsSql : Nat := 0
  parseErrors : Nat := 0
  unknownMsgs : Nat := 0
  unitsDroppedResync : Nat := 0
  unitsDroppedClose : Nat := 0
  unitsDroppedOverflow : Nat := 0
  prepEvictions : Nat := 0
  replicationConns : Nat := 0
  compressedConns : Nat := 0
  deriving DecidableEq, Repr

structure LkProto where
  st : ProtoStats := {}
  out : List Upcall := []
  deriving DecidableEq, Repr

def LkProto.bump (p : LkProto) (g : ProtoStats → ProtoStats) : LkProto := { p with st := g p.st }

def LkProto.call (p : LkProto) (e : Upcall) : LkProto := { p with out := p.out ++ [e] }

end Latkit
