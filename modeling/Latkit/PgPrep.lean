import Latkit.Inflight
import Latkit.PgWire
import Latkit.QueryObs

namespace Latkit

def lkPgMaxInflight : Nat := 64
def lkPgPrepCache : Nat := 256

inductive PgPhase where
  | startup
  | auth
  | ready
  | copyIn
  | copyOut
  | skipToSync
  | ignore
  deriving DecidableEq, Repr

/-- One query unit. `prepIdx` refers to a slot of the statement cache as it was at generation
`prepGen`; without one the unit's text is its own copy. -/
structure PgUnit where
  tsStart : Nat
  tsFirstRow : Nat := 0
  tsComplete : Nat := 0
  rows : UInt64 := 0
  bytes : UInt64 := 0
  ncomplete : Nat := 0
  kind : QueryKind
  copyKind : Option QueryKind := none
  flags : ObsFlags := {}
  sqlstate : List Byte := []
  prepIdx : Option Nat := none
  prepGen : UInt32 := 0
  ownText : List Byte := []
  deriving DecidableEq, Repr

/-- One cached statement; the name buffer holds 63 bytes. -/
structure PgPrep where
  used : Bool := false
  trunc : Bool := false
  gen : UInt32 := 0
  lru : UInt64 := 0
  name : List Byte := []
  text : List Byte := []
  deriving DecidableEq, Repr

structure PgPrepCache where
  e : List PgPrep := List.replicate lkPgPrepCache {}
  clock : UInt64 := 0
  count : UInt32 := 0
  deriving DecidableEq, Repr

/-- Per-connection parser state. The units of the ring from `head` on are `ring.closed`, as many as
`nclosed` says, then `ring.opened`. -/
structure PgConn where
  phase : PgPhase
  session : Session := {}
  ring : Inflight.UnitRing PgUnit := {}
  lossy : Bool := false
  degraded : Bool := false
  prep : Option PgPrepCache := none
  txnStatus : Byte := 0
  txnStartNs : Nat := 0
  deriving DecidableEq, Repr

structure PgState where
  p : LkProto := {}
  flags : ConnFlags := {}
  pc : PgConn
  deriving DecidableEq, Repr

namespace PgPrepCache

def slot (c : PgPrepCache) (i : Nat) : PgPrep := c.e.getD i {}

def findByName (c : PgPrepCache) (name : List Byte) : Option Nat :=
  c.e.findIdx? fun e => e.used && e.name == name

def older (c : PgPrepCache) (lru i : Nat) : Nat :=
  if (c.slot i).lru < (c.slot lru).lru then i else lru

def pickSlot (c : PgPrepCache) : PgPrepCache × Nat × Bool :=
  match c.e.findIdx? fun e => !e.used with
  | some i => ({ c with count := c.count + 1 }, i, false)
  | none => (c, (List.range lkPgPrepCache).tail.foldl c.older 0, true)

def fillSlot (name text : List Byte) (trunc : Bool) (lru : UInt64) (e : PgPrep) : PgPrep :=
  { used := true
    trunc
    gen := e.gen + 1
    lru
    name := name.take 63
    text := text.take lkMsgBodyMax }

def freeSlot (e : PgPrep) : PgPrep :=
  { e with used := false, gen := e.gen + 1, name := [], text := [] }

end PgPrepCache

def PgUnit.rescue (slot : Nat) (e : PgPrep) (u : PgUnit) : PgUnit :=
  if u.prepIdx = some slot ∧ u.prepGen = e.gen then { u with ownText := e.text, prepIdx := none } else u

def pgQueryRescueRefs (pc : PgConn) (cache : PgPrepCache) (slot : Nat) : PgConn :=
  { pc with ring := pc.ring.map (PgUnit.rescue slot (cache.slot slot)) }

/-- A slot taken over by another statement, or freed: the cache as the rescue of the units that refer to
the slot finds it, and as it is left. -/
structure SlotReuse where
  before : PgPrepCache
  slot : Nat
  after : PgPrepCache
  evicted : Bool := false
  deriving DecidableEq, Repr

def PgConn.reuse (pc : PgConn) (r : SlotReuse) : PgConn :=
  { pgQueryRescueRefs pc r.before r.slot with prep := some r.after }

/-- The slot a Parse writes: that of the same name, else a free or evicted one. A name that was cut
short cannot key a slot. -/
def parseReuse (prep : Option PgPrepCache) (m : Msg) : Option SlotReuse :=
  let (haveName, name, w) := pgWireCstring m.body
  if !haveName then none
  else
    let (haveQuery, query, _) := pgWireCstring w
    let trunc := !haveQuery || m.flags.bodyTrunc
    let cache := prep.getD {}
    let (cache, slot, evicted) :=
      match cache.findByName name with
      | some slot => (cache, slot, false)
      | none => cache.pickSlot
    let clock := cache.clock + 1
    some {
      before := cache
      slot
      after := { cache with
        clock
        e := cache.e.modify slot (PgPrepCache.fillSlot name query trunc clock) }
      evicted }

def pgPrepParse (s : PgState) (m : Msg) : PgState :=
  match parseReuse s.pc.prep m with
  | none => s
  | some r =>
    { s with
      p := if r.evicted then s.p.bump fun st => { st with prepEvictions := st.prepEvictions + 1 }
        else s.p
      pc := s.pc.reuse r }

def closeReuse (prep : Option PgPrepCache) (m : Msg) : Option SlotReuse :=
  match pgWireGetU8 m.body, prep with
  | some (kind, w), some cache =>
    let (haveName, name, _) := pgWireCstring w
    if kind ≠ 'S'.toUInt8 || !haveName then none
    else
      match cache.findByName name with
      | none => none
      | some slot => some {
          before := cache
          slot
          after := { cache with
            e := cache.e.modify slot PgPrepCache.freeSlot
            count := cache.count - 1 } }
  | _, _ => none

def pgPrepClose (pc : PgConn) (m : Msg) : PgConn :=
  match closeReuse pc.prep m with
  | none => pc
  | some r => pc.reuse r

def pgPrepLookup (prep : Option PgPrepCache) (name : List Byte) :
    Option (Nat × UInt32 × Bool × PgPrepCache) :=
  match prep with
  | none => none
  | some cache =>
    match cache.findByName name with
    | none => none
    | some slot =>
      let clock := cache.clock + 1
      let e := cache.slot slot
      some (slot, e.gen, e.trunc,
        { cache with clock, e := cache.e.modify slot fun e => { e with lru := clock } })

end Latkit
