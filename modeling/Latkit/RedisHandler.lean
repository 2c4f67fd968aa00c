import Latkit.RedisArgv

namespace Latkit

/-! The handler of RESP: the queue of commands in flight, and what becomes of a command and its reply. -/

def lkRedisMaxInflight : Nat := 256
def lkRedisMaxEarly : Nat := 4
def lkRedisUnitTimeoutNs : Nat := 30 * 1000000000

structure RedisQo where
  error : Bool := false
  clientErr : Bool := false
  queued : Bool := false
  pipelined : Bool := false
  blocking : Bool := false
  noText : Bool := false
  deriving DecidableEq, Repr

def RedisQo.or (a b : RedisQo) : RedisQo where
  error := a.error || b.error
  clientErr := a.clientErr || b.clientErr
  queued := a.queued || b.queued
  pipelined := a.pipelined || b.pipelined
  blocking := a.blocking || b.blocking
  noText := a.noText || b.noText

structure RedisUflags where
  sub : Bool := false
  select : Bool := false
  auth : Bool := false
  reset : Bool := false
  multi : Bool := false
  exec : Bool := false
  discard : Bool := false
  deriving DecidableEq, Repr

structure RedisReply where
  errName : Option String := none
  endNs : Nat := 0
  bytes : Nat := 0
  flags : RedisQo := {}
  redirect : LkRedisRedirect := .none
  err : Bool := false
  null : Bool := false
  deriving DecidableEq, Repr

structure RedisUnit where
  tsStart : Nat
  bytes : Nat := 0
  flags : RedisQo := {}
  depth : Nat := 0
  cmd : Nat := lkRedisCmdOther
  db : Nat := 0
  argc : Nat := 0
  uflags : RedisUflags := {}
  deriving DecidableEq, Repr

/-- The connection's state. The units in flight, oldest first, have the sequence numbers from `headSeq`
on. -/
structure RedisConn where
  session : Session := {}
  authUser : List Byte := []
  authSeq : Nat := 0
  units : List RedisUnit := []
  headSeq : Nat := 0
  batchSeq0 : Nat := 0
  batchN : Nat := 0
  owed : Nat := 0
  early : List RedisReply := []
  txnStart : Nat := 0
  txnN : Nat := 0
  sub : Bool := false
  degraded : Bool := false
  deriving DecidableEq, Repr

def RedisConn.openSeq (rc : RedisConn) : Nat := rc.headSeq + rc.units.length

structure LkRedisObs where
  pipelineDepth : Nat
  txnSize : Nat
  argc : Nat
  redirect : LkRedisRedirect
  deriving DecidableEq, Repr

structure RedisQueryObs where
  tsStart : Nat
  tsComplete : Nat
  tsReady : Nat
  bytesIn : Nat
  bytesOut : Nat
  redis : LkRedisObs
  route : String
  errName : Option String
  flags : RedisQo
  deriving DecidableEq, Repr

inductive RedisUpcall where
  | query (session : Session) (obs : RedisQueryObs)
  | txn (start stop : Nat) (status : Byte)
  deriving DecidableEq, Repr

structure RedisStats where
  msgs : Nat := 0
  resyncs : Nat := 0
  queries : Nat := 0
  errorsSql : Nat := 0
  parseErrors : Nat := 0
  unitsDroppedResync : Nat := 0
  unitsDroppedClose : Nat := 0
  unitsDroppedOverflow : Nat := 0
  orphanMsgs : Nat := 0
  redirects : Nat := 0
  pushes : Nat := 0
  replicationConns : Nat := 0
  monitorConns : Nat := 0
  deriving DecidableEq, Repr

structure RedisHs where
  st : RedisStats := {}
  out : List RedisUpcall := []
  flags : ConnFlags := {}
  rc : RedisConn := {}
  deriving DecidableEq, Repr

namespace RedisHs

def bump (s : RedisHs) (g : RedisStats → RedisStats) : RedisHs := { s with st := g s.st }
def call (s : RedisHs) (e : RedisUpcall) : RedisHs := { s with out := s.out ++ [e] }
def mapRc (s : RedisHs) (g : RedisConn → RedisConn) : RedisHs := { s with rc := g s.rc }

end RedisHs

structure LkRedisCfg where
  noUser : Bool := false
  deriving DecidableEq, Repr

def tokIs (t : LkRedisArg) (lit : String) : Bool := keyIs (t.text.map asciiLower) lit

def kindIsConfirm (t : LkRedisArg) : Bool :=
  tokIs t "subscribe" || tokIs t "unsubscribe" || tokIs t "psubscribe" || tokIs t "punsubscribe" ||
    tokIs t "ssubscribe" || tokIs t "sunsubscribe"

def kindIsDelivery (t : LkRedisArg) : Bool :=
  tokIs t "message" || tokIs t "pmessage" || tokIs t "smessage" || tokIs t "invalidate"

def unknownLabel : List Byte := "?".toUTF8.toList
def defaultUser : List Byte := "default".toUTF8.toList

def decimalDigits (n : Nat) : List Byte := (toString n).toUTF8.toList

def sessionSetDb (rc : RedisConn) (db : Nat) : RedisConn :=
  { rc with session := { rc.session with
      database := if db = lkRedisDbUnknown then unknownLabel else decimalDigits db } }

section
variable (cfg : LkRedisCfg)

def sessionInit (rc : RedisConn) (synthetic : Bool) : RedisConn :=
  { rc with session := { rc.session with
      database := if synthetic then unknownLabel else decimalDigits 0
      user := if cfg.noUser then [] else if synthetic then unknownLabel else defaultUser } }

def sessionUserUnknown (rc : RedisConn) : RedisConn :=
  if cfg.noUser then rc else { rc with session := { rc.session with user := unknownLabel } }

def sessionSetUser (rc : RedisConn) (p : List Byte) : RedisConn :=
  if cfg.noUser then rc
  else
    { rc with session := { rc.session with
        user := if p = [] then defaultUser else if lkRedisUserValid p then p else "other".toUTF8.toList } }

def unitForget (rc : RedisConn) (u : RedisUnit) : RedisConn :=
  let rc := if u.uflags.select || u.uflags.reset then sessionSetDb rc lkRedisDbUnknown else rc
  if u.uflags.auth || u.uflags.reset then sessionUserUnknown cfg rc else rc

def unitsDropAll (rc : RedisConn) : RedisConn :=
  let rc := rc.units.foldl (unitForget cfg) rc
  { rc with
    headSeq := rc.openSeq, units := [], txnStart := 0, txnN := 0, owed := 0, early := []
    batchSeq0 := rc.openSeq, batchN := 0 }

def batchNew (rc : RedisConn) : RedisConn :=
  let k := rc.batchSeq0 - rc.headSeq
  { rc with
    units := rc.units.take k ++ (rc.units.drop k).map fun u => { u with depth := min rc.batchN 0xffff }
    batchSeq0 := rc.openSeq, batchN := 0 }

def markPipelined (u : RedisUnit) : RedisUnit := { u with flags := { u.flags with pipelined := true } }

def unitPush (units : List RedisUnit) (u : RedisUnit) : List RedisUnit :=
  if units = [] then [u] else units.modifyLast markPipelined ++ [markPipelined u]

def unitsExpire (now : Nat) (s : RedisHs) : RedisHs :=
  match s.rc.units.head? with
  | none => s
  | some u =>
    if u.tsStart < now ∧ lkRedisUnitTimeoutNs < now - u.tsStart then
      (s.bump fun st => { st with unitsDroppedClose := st.unitsDroppedClose + s.rc.units.length }).mapRc
        (unitsDropAll cfg)
    else s

def unitArgc (u : RedisUnit) : Nat := if '|' ∈ (lkRedisCmdName u.cmd).toList then u.argc - 1 else u.argc

def unitObs (rc : RedisConn) (u : RedisUnit) (r : RedisReply) : RedisQueryObs where
  tsStart := u.tsStart
  tsComplete := r.endNs
  tsReady := r.endNs
  bytesIn := u.bytes
  bytesOut := r.bytes
  redis :=
    { pipelineDepth := if rc.batchSeq0 ≤ rc.headSeq then rc.batchN else u.depth
      txnSize := if u.uflags.exec then rc.txnN else 0
      argc := unitArgc u
      redirect := r.redirect }
  route := lkRedisCmdName u.cmd
  errName := r.errName
  flags := { u.flags.or r.flags with noText := true }

def unitEmit (s : RedisHs) (u : RedisUnit) (r : RedisReply) : RedisHs :=
  let o := unitObs s.rc u r
  (s.bump fun st =>
    { st with
      queries := st.queries + 1
      errorsSql := st.errorsSql + o.flags.error.toNat
      redirects := st.redirects + (r.redirect != .none).toNat }).call (.query s.rc.session o)

def txnApply (s : RedisHs) (u : RedisUnit) (r : RedisReply) : RedisHs :=
  if u.uflags.multi then
    if !r.err && s.rc.txnStart == 0 then s.mapRc fun rc => { rc with txnStart := u.tsStart, txnN := 0 } else s
  else if r.flags.queued && s.rc.txnStart != 0 then s.mapRc fun rc => { rc with txnN := (rc.txnN + 1) % 2 ^ 32 }
  else if !(u.uflags.exec || u.uflags.discard || u.uflags.reset) then s
  else if s.rc.txnStart == 0 || (r.err && !u.uflags.exec) then s
  else
    let aborted := !u.uflags.exec || r.err || r.null
    (s.call (.txn s.rc.txnStart r.endNs (if aborted then 'E'.toUInt8 else 'I'.toUInt8))).mapRc fun rc =>
      { rc with txnStart := 0, txnN := 0 }

def sessionApply (rc : RedisConn) (u : RedisUnit) (seq : Nat) (err : Bool) : RedisConn :=
  if !(u.uflags.select || u.uflags.auth || u.uflags.reset) || err then rc
  else if u.uflags.reset then sessionSetUser cfg (sessionSetDb rc 0) []
  else
    let rc := if u.uflags.select then sessionSetDb rc u.db else rc
    if u.uflags.auth then
      if seq = rc.authSeq then sessionSetUser cfg rc (rc.authUser.takeWhile (· ≠ 0))
      else sessionUserUnknown cfg rc
    else rc

/-- What a reply says, read when it arrives. A RESP2 null is told by its sign. -/
def replyVerdict (m : Msg) (endNs : Nat) : RedisReply :=
  let r : RedisReply := { endNs := endNs, bytes := m.len }
  if m.type = redisTError ∨ m.type = redisTBloberr then
    let (name, redirect) := lkRedisErr (redisReadWord m.type m.body)
    { r with
      err := true, errName := some name, redirect := redirect
      flags := if redirect = .none then { error := true } else { clientErr := true } }
  else if m.type = redisTSimple then
    { r with flags := { queued := keyIs (redisReadWord m.type m.body) "QUEUED" } }
  else if m.type = redisTNull then { r with null := true }
  else if m.type = redisTArray then { r with null := m.body[1]? == some '-'.toUInt8 }
  else r

def unitAnswer (s : RedisHs) (u : RedisUnit) (r : RedisReply) : RedisHs :=
  let seq := s.rc.headSeq
  let s := unitEmit s u r
  let s := s.mapRc fun rc => sessionApply cfg rc u seq r.err
  (txnApply s u r).mapRc fun rc => { rc with headSeq := rc.headSeq + 1, units := rc.units.tail }

def redisOrphan (s : RedisHs) : RedisHs :=
  if s.rc.degraded then s else s.bump fun st => { st with orphanMsgs := st.orphanMsgs + 1 }

/-- A reply for the oldest unit. With none in flight it is one that is owed, or the answer to a command
that is still being assembled, or nobody's. -/
def unitClose (fr : Option RedisFrame) (m : Msg) (endNs : Nat) (s : RedisHs) : RedisHs :=
  let r := replyVerdict m endNs
  match s.rc.units with
  | u :: _ => unitAnswer cfg s u r
  | [] =>
    if s.rc.owed ≠ 0 then s.mapRc fun rc => { rc with owed := rc.owed - 1 }
    else if (fr.any fun fr => redisValueOpen fr.recv) ∧ s.rc.early.length < lkRedisMaxEarly then
      s.mapRc fun rc => { rc with early := rc.early ++ [r] }
    else redisOrphan s

def earlyClaim (s : RedisHs) : RedisHs :=
  match s.rc.early, s.rc.units with
  | r :: early, [u] => unitAnswer cfg (s.mapRc fun rc => { rc with early := early }) u r
  | [], _ => s
  | _, _ => redisOrphan (s.mapRc fun rc => { rc with early := [] })

def ignoreConn (s : RedisHs) : RedisHs :=
  let s := (s.bump fun st => { st with unitsDroppedClose := st.unitsDroppedClose + s.rc.units.length }).mapRc
    (unitsDropAll cfg)
  { s with flags := { s.flags with ignore := true } }

def commandUnit (m : Msg) (v : LkRedisArgv) (nelem : Option Nat) : RedisUnit :=
  let id := lkRedisCmd v
  let cflags := lkRedisCmdFlags id
  let deep := if .argblock ∈ cflags then (redisReadArgv m.type m.body lkRedisArgvMax).1 else v
  let sess := lkRedisSession id v
  { tsStart := m.ts
    bytes := m.len
    flags := { blocking := lkRedisCmdBlocking id deep }
    cmd := id
    db := match sess with | .db db => db | _ => 0
    argc := min (nelem.getD v.length - 1) 0xffff
    uflags :=
      { sub := .subfam ∈ cflags
        select := match sess with | .db _ => true | _ => false
        auth := match sess with | .user _ => true | _ => false
        reset := sess = .reset
        multi := .multi ∈ cflags
        exec := .multi ∉ cflags ∧ .exec ∈ cflags
        discard := .multi ∉ cflags ∧ .exec ∉ cflags ∧ .discard ∈ cflags } }

def authPark (rc : RedisConn) (seq : Nat) (user : Option LkRedisArg) : RedisConn :=
  { rc with authUser := (user.elim [] LkRedisArg.text).take (lkRedisUserMax - 1), authSeq := seq }

def redisCommand (m : Msg) (batchFirst : Bool) (s : RedisHs) : RedisHs :=
  let s := if batchFirst then s.mapRc batchNew else s
  let (v, nelem) := redisReadArgv m.type m.body lkRedisArgvLabels
  if nelem = some 0 then s
  else
    let cflags := lkRedisCmdFlags (lkRedisCmd v)
    if .repl ∈ cflags then
      (ignoreConn cfg s).bump fun st => { st with replicationConns := st.replicationConns + 1 }
    else if .monitor ∈ cflags then
      (ignoreConn cfg s).bump fun st => { st with monitorConns := st.monitorConns + 1 }
    else
      let s := s.mapRc fun rc =>
        { rc with
          sub := if .reset ∈ cflags then false else rc.sub || .subon ∈ cflags
          batchN := (rc.batchN + 1) % 2 ^ 32 }
      if lkRedisMaxInflight ≤ s.rc.units.length then
        (s.bump fun st => { st with unitsDroppedOverflow := st.unitsDroppedOverflow + 1 }).mapRc fun rc =>
          { rc with owed := (rc.owed + 1) % 2 ^ 32 }
      else
        let s := s.mapRc fun rc =>
          let rc := match lkRedisSession (lkRedisCmd v) v with
            | .user user => authPark rc rc.openSeq user
            | _ => rc
          { rc with degraded := false, units := unitPush rc.units (commandUnit m v nelem) }
        if s.rc.early = [] then s else earlyClaim cfg s

inductive RedisRkind where
  | reply
  | confirm
  | push
  | attr
  deriving DecidableEq, Repr

/-- What a server value is. A RESP2 connection tells a delivery from an array by its first word, and
only once it has subscribed. -/
def replyKind (rc : RedisConn) (m : Msg) : RedisRkind :=
  let first := (redisReadArgv m.type m.body 1).1.head?
  if m.type = redisTAttr then .attr
  else if m.type = redisTPush then if first.any kindIsConfirm then .confirm else .push
  else if m.type = redisTArray ∧ rc.sub then
    if first.any kindIsDelivery then .push else if first.any kindIsConfirm then .confirm else .reply
  else .reply

def redisReply (fr : Option RedisFrame) (m : Msg) (endNs : Nat) (s : RedisHs) : RedisHs :=
  let pushed (s : RedisHs) : RedisHs := s.bump fun st => { st with pushes := st.pushes + 1 }
  match replyKind s.rc m with
  | .attr => s
  | .push => pushed s
  | .confirm =>
    let s := s.mapRc fun rc => { rc with sub := true }
    if s.rc.units.head?.any fun u => u.uflags.sub then unitClose cfg fr m endNs s else pushed s
  | .reply => unitClose cfg fr m endNs s

def lkRedisNoteIsParseErr (n : Nat) : Bool :=
  n ∈ [LkRedisNote.badType.code, LkRedisNote.badLen.code, LkRedisNote.bulkEol.code,
    LkRedisNote.lineTooBig.code, LkRedisNote.inlineTooBig.code]

def framerNote (m : Msg) (s : RedisHs) : RedisHs :=
  if lkRedisNoteIsParseErr m.len then s.bump fun st => { st with parseErrors := st.parseErrors + 1 } else s

/-- A message of the framer, whose state tells when the value's last byte arrived and whether it opened
a batch. -/
def redisOnMsg (fr : Option RedisFrame) (dir : Dir) (m : Msg) (s : RedisHs) : RedisHs :=
  let s := s.bump fun st => { st with msgs := st.msgs + 1 }
  if m.type = lkRedisMsgNote then framerNote m s
  else
    let endNs := fr.elim m.ts fun fr => max m.ts (fr.dir dir).lastTs
    let batchFirst := fr.any fun fr => (fr.dir dir).vCall
    match dir with
    | .recv => redisCommand cfg m batchFirst (unitsExpire cfg m.ts s)
    | .send => redisReply cfg fr m endNs s

def redisOnResync (s : RedisHs) : RedisHs :=
  ((s.bump fun st =>
    { st with
      resyncs := st.resyncs + 1
      unitsDroppedResync := st.unitsDroppedResync + s.rc.units.length }).mapRc (unitsDropAll cfg)).mapRc
    fun rc => { rc with degraded := true }

def redisConnGet (flags : ConnFlags) : RedisConn := sessionInit cfg { degraded := flags.synthetic } flags.synthetic

end

end Latkit
