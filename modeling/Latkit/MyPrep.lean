import Latkit.MyWire
import Latkit.QueryObs

namespace Latkit

def lkMyPrepCache : Nat := 256

/-! Bit tests on the client's capability words and on a terminator's status word. -/

def myCapMysql (caps : Nat) : Bool := caps.testBit 0
def myCapConnectWithDb (caps : Nat) : Bool := caps.testBit 3
def myCapPluginAuth (caps : Nat) : Bool := caps.testBit 19
def myCapConnectAttrs (caps : Nat) : Bool := caps.testBit 20
def myCapPluginAuthLenenc (caps : Nat) : Bool := caps.testBit 21
def myCapQueryAttributes (caps : Nat) : Bool := caps.testBit 27

inductive MyPhase where
  | handshake
  | ready
  | infile
  | ignore
  deriving DecidableEq, Repr

inductive MySess where
  | greeting
  | response
  | auth
  | done
  deriving DecidableEq, Repr

inductive MyReply where
  | none
  | head
  | cols
  | rows
  | prepareOk
  | prepMeta
  | string
  | fieldList
  deriving DecidableEq, Repr

structure MyUnit where
  tsStart : Nat
  tsFirstRow : Nat := 0
  tsComplete : Nat := 0
  rows : UInt64 := 0
  bytes : UInt64 := 0
  ncomplete : Nat := 0
  kind : QueryKind
  copyKind : Option QueryKind := none
  flags : ObsFlags := {}
  sqlstate : List Byte := []
  errCode : UInt16 := 0
  prepIdx : Option Nat := none
  prepGen : UInt32 := 0
  ownText : List Byte := []
  deriving DecidableEq, Repr

structure MyPrep where
  used : Bool := false
  trunc : Bool := false
  gen : UInt32 := 0
  lru : UInt64 := 0
  stmtId : Nat := 0
  text : List Byte := []
  deriving DecidableEq, Repr

structure MyPrepCache where
  e : List MyPrep := List.replicate lkMyPrepCache {}
  clock : UInt64 := 0
  count : UInt32 := 0
  deriving DecidableEq, Repr

/-- Per-connection parser state. `unit` is the open unit; the staged labels and the text of a
COM_STMT_PREPARE wait for the OK that commits them. -/
structure MyConn where
  phase : MyPhase := .handshake
  sess : MySess := .greeting
  reply : MyReply := .none
  session : Session := {}
  caps : Nat := 0
  mcaps : Nat := 0
  capsKnown : Bool := false
  sessionEmitted : Bool := false
  unit : Option MyUnit := none
  colsLeft : Nat := 0
  metaLeft : Nat := 0
  pendingDb : Option (List Byte) := none
  pendingUser : Option (List Byte) := none
  pendingPrep : Option (List Byte × Bool) := none
  prep : Option MyPrepCache := none
  txnStatus : Byte := 0
  txnStartNs : Nat := 0
  deriving DecidableEq, Repr

namespace MyPrepCache

def slot (c : MyPrepCache) (i : Nat) : MyPrep := c.e.getD i {}

def freeSlot (e : MyPrep) : MyPrep := { e with used := false, gen := e.gen + 1, text := [] }

end MyPrepCache

def myQueryRescueRef (pc : MyConn) (cache : MyPrepCache) (slot : Nat) : MyConn :=
  { pc with unit := pc.unit.map fun u =>
      if u.prepIdx = some slot ∧ u.prepGen = (cache.slot slot).gen then
        { u with ownText := (cache.slot slot).text, prepIdx := none }
      else u }

def myPrepDropAll (pc : MyConn) : MyConn :=
  match pc.prep with
  | none => pc
  | some cache =>
    let rescued := (List.range lkMyPrepCache).foldl (fun pc i =>
      if (cache.slot i).used then myQueryRescueRef pc cache i else pc) pc
    { rescued with
      prep := some { cache with
        e := cache.e.map fun e => if e.used then MyPrepCache.freeSlot e else e
        count := 0 } }

end Latkit
