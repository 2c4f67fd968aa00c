import Latkit.NormRedisTable

namespace Latkit

/-! Classification of commands and errors, by closed tables. -/

def lkRedisArgvMax : Nat := 16
def lkRedisArgvLabels : Nat := 5
def lkRedisNameMax : Nat := 32
def lkRedisUserMax : Nat := 64
def lkRedisMaxDb : Nat := 1024
def lkRedisDbUnknown : Nat := 0xffff

structure LkRedisArg where
  off : Nat := 0
  text : List Byte := []
  deriving DecidableEq, Repr

abbrev LkRedisArgv := List LkRedisArg

def upper (t : LkRedisArg) : Option (List Byte) :=
  if t.text = [] ∨ lkRedisNameMax ≤ t.text.length then none else some (t.text.map asciiUpper)

def argIs (t : LkRedisArg) (lit : String) : Bool := keyIs (t.text.map asciiLower) lit

def bytesCmp : List Byte → List Byte → Ordering
  | [], [] => .eq
  | [], _ :: _ => .lt
  | _ :: _, [] => .gt
  | a :: as, b :: bs => if a < b then .lt else if b < a then .gt else bytesCmp as bs

def redisEntAt (id : Nat) : RedisEnt := redisTab.getD id ⟨"other", [], 0, 0, 0, 5, 0⟩

def RedisEnt.key (e : RedisEnt) : List Byte := (e.name.toUTF8.toList.take e.nameLen).drop e.keyOff

def entSearch (key : List Byte) : Nat → Nat → Nat → Option Nat
  | 0, _, _ => none
  | n + 1, l, r =>
    if l < r then
      let mid := l + (r - l) / 2
      match bytesCmp (redisEntAt mid).key key with
      | .eq => some mid
      | .lt => entSearch key n (mid + 1) r
      | .gt => entSearch key n l mid
    else none

def entFind (lo n : Nat) (key : List Byte) : Nat := (entSearch key n lo (lo + n)).getD (lo + n)

def lkRedisCmdOther : Nat := redisTab.length - 1

/-- The identity of a command. A second element is read for containers only. -/
def lkRedisCmd (v : LkRedisArgv) : Nat :=
  match v.head?.bind upper with
  | none => lkRedisCmdOther
  | some key =>
    let id := entFind 0 lkRedisNcmd key
    let e := redisEntAt id
    if lkRedisNcmd ≤ id then lkRedisCmdOther
    else if .container ∉ e.flags then id
    else
      match v[1]?.bind upper with
      | none => id
      | some key =>
        let sub := entFind e.subFirst e.subN key
        if e.subFirst + e.subN ≤ sub then e.subOther else sub

def lkRedisCmdName (id : Nat) : String := (redisEntAt id).name

def lkRedisCmdFlags (id : Nat) : List LkRedisC := (redisEntAt id).flags

def argsBlock : LkRedisArgv → Bool
  | [] => false
  | t :: v => if argIs t "streams" then false else if argIs t "block" then true else argsBlock v

def lkRedisCmdBlocking (id : Nat) (v : LkRedisArgv) : Bool :=
  let flags := lkRedisCmdFlags id
  if .blocking ∉ flags then false
  else if .argblock ∉ flags then true
  else argsBlock v.tail

def parseDb (t : LkRedisArg) : Nat :=
  if t.text = [] ∨ 5 < t.text.length ∨ t.text.any (fun b => b < '0'.toUInt8 || '9'.toUInt8 < b) then
    lkRedisDbUnknown
  else
    let v := t.text.foldl (fun v b => v * 10 + (b.toNat - 48)) 0
    if v ≤ lkRedisMaxDb then v else lkRedisDbUnknown

def helloAuth (v : LkRedisArgv) : Option Nat :=
  (List.range' 1 (v.length - 3)).find? fun i => argIs (v.getD i {}) "auth"

/-- What a command would do to the session's labels. A USER of no name is `default`. -/
inductive LkRedisSess where
  | none
  | db (db : Nat)
  | user (user : Option LkRedisArg)
  | reset
  deriving DecidableEq, Repr

def lkRedisSession (id : Nat) (v : LkRedisArgv) : LkRedisSess :=
  let flags := lkRedisCmdFlags id
  if .select ∈ flags then .db (if 1 < v.length then parseDb (v.getD 1 {}) else lkRedisDbUnknown)
  else if .reset ∈ flags then .reset
  else if .auth ∈ flags then .user (if 2 < v.length then some (v.getD 1 {}) else none)
  else if .hello ∈ flags then
    match helloAuth v with
    | none => .none
    | some i => .user (some (v.getD (i + 1) {}))
  else .none

def lkRedisUserValid (p : List Byte) : Bool :=
  p ≠ [] && p.length < lkRedisUserMax &&
    p.all fun c => ' '.toUInt8 < c && c ≤ '~'.toUInt8 && c != '"'.toUInt8 && c != '\\'.toUInt8

inductive LkRedisRedirect where
  | none
  | moved
  | ask
  deriving DecidableEq, Repr

def redisErrs : List (String × LkRedisRedirect) :=
  [("ASK", .ask), ("BUSY", .none), ("BUSYGROUP", .none), ("CLUSTERDOWN", .none), ("CROSSSLOT", .none),
    ("ERR", .none), ("EXECABORT", .none), ("LOADING", .none), ("MASTERDOWN", .none), ("MISCONF", .none),
    ("MOVED", .moved), ("NOAUTH", .none), ("NOGOODSLAVE", .none), ("NOPERM", .none), ("NOPROTO", .none),
    ("NOREPLICAS", .none), ("NOSCRIPT", .none), ("NOTBUSY", .none), ("OOM", .none), ("READONLY", .none),
    ("TRYAGAIN", .none), ("UNBLOCKED", .none), ("WRONGPASS", .none), ("WRONGTYPE", .none), ("other", .none)]

def errSearch (word : List Byte) : Nat → Nat → Nat → Option (String × LkRedisRedirect)
  | 0, _, _ => none
  | n + 1, lo, hi =>
    if lo < hi then
      let mid := lo + (hi - lo) / 2
      let e := redisErrs.getD mid ("other", .none)
      match bytesCmp e.1.toUTF8.toList word with
      | .eq => some e
      | .lt => errSearch word n (mid + 1) hi
      | .gt => errSearch word n lo mid
    else none

def lkRedisErr (word : List Byte) : String × LkRedisRedirect :=
  if word = [] then ("other", .none)
  else (errSearch word redisErrs.length 0 (redisErrs.length - 1)).getD ("other", .none)

def paramIsSecret (t : LkRedisArg) : Bool :=
  argIs t "requirepass" || argIs t "masterauth" || argIs t "primaryauth" || argIs t "masteruser" ||
    argIs t "tls-key-file-pass" || argIs t "tls-client-key-file-pass"

def ruleIsSecret (t : LkRedisArg) : Bool :=
  match t.text with
  | [] => false
  | b :: _ => b == '>'.toUInt8 || b == '<'.toUInt8 || b == '#'.toUInt8 || b == '!'.toUInt8

def lkRedisSecretMask (id : Nat) (v : LkRedisArgv) : List Nat :=
  let flags := lkRedisCmdFlags id
  let arg (i : Nat) : LkRedisArg := v.getD i {}
  if v = [] then []
  else if .secRule ∈ flags then (List.range v.length).filter fun i => 2 ≤ i && ruleIsSecret (arg i)
  else if .secParam ∈ flags then
    ((List.range v.length).filter fun i =>
      2 ≤ i && i % 2 == 0 && i + 1 < v.length && paramIsSecret (arg i)).map (· + 1)
  else if .secKw ∈ flags then
    (List.range' 1 (v.length - 1)).flatMap fun i =>
      if argIs (arg i) "auth" && i + 1 < v.length then [i + 1]
      else if argIs (arg i) "auth2" && i + 2 < v.length then [i + 1, i + 2]
      else []
  else if .auth ∈ flags then List.range' 1 (v.length - 1)
  else if .hello ∈ flags then
    match helloAuth v with
    | none => []
    | some i => [i + 2]
  else []

end Latkit
