import Latkit.Frame
import Latkit.Numeral

namespace Latkit

/-! The type bytes of RESP2 and RESP3 and the numbers behind them. -/

inductive RedisVshape where
  | bad
  | line
  | bulk
  | agg
  | aggPair
  deriving DecidableEq, Repr

def redisTError : Byte := '-'.toUInt8
def redisTSimple : Byte := '+'.toUInt8
def redisTBulk : Byte := '$'.toUInt8
def redisTArray : Byte := '*'.toUInt8
def redisTNull : Byte := '_'.toUInt8
def redisTBloberr : Byte := '!'.toUInt8
def redisTPush : Byte := '>'.toUInt8
def redisTAttr : Byte := '|'.toUInt8

def redisVshape (t : Byte) : RedisVshape :=
  if t ∈ [redisTSimple, redisTError, ':'.toUInt8, redisTNull, '#'.toUInt8, ','.toUInt8, '('.toUInt8] then .line
  else if t ∈ [redisTBulk, '='.toUInt8, redisTBloberr] then .bulk
  else if t ∈ [redisTArray, '~'.toUInt8, redisTPush] then .agg
  else if t ∈ ['%'.toUInt8, redisTAttr] then .aggPair
  else .bad

def lkRedisMaxBulk : Nat := 512 * 1024 * 1024
def lkRedisMaxElems : Nat := 2147483647
def lkRedisNumMax : Nat := 24

def decDigit (b : Byte) : Option Nat :=
  if '0'.toUInt8 ≤ b ∧ b ≤ '9'.toUInt8 then some (b.toNat - 48) else none

def redisI64Limit : Nat := (2 ^ 62 - 9) / 10

def redisParseI64 (p : List Byte) : Option Int :=
  if p = [] ∨ lkRedisNumMax < p.length then none
  else if p.head? = some '-'.toUInt8 then
    if p.length = 1 then none
    else (Numeral.read 10 decDigit redisI64Limit 0 p.tail).map fun v => -(v : Int)
  else (Numeral.read 10 decDigit redisI64Limit 0 p).map fun v => (v : Int)

def redisBulkLen (v : Int) : Option (Option Nat) :=
  if v < 0 then some none
  else if lkRedisMaxBulk < v.toNat then none
  else some (some v.toNat)

def redisAggCount (v : Int) (pairs : Bool) : Option Nat :=
  let lim := if pairs then lkRedisMaxElems / 2 else lkRedisMaxElems
  if v < 0 then some 0
  else if lim < v.toNat then none
  else some (v.toNat * if pairs then 2 else 1)

def cr : Byte := '\r'.toUInt8
def lf : Byte := '\n'.toUInt8

end Latkit
