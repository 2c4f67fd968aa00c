import Latkit.QueryObs

namespace Latkit

/-! The closed table of command identities. -/

inductive LkRedisC where
  | write
  | blocking
  | container
  | subfam
  | subon
  | select
  | auth
  | hello
  | reset
  | repl
  | monitor
  | secRule
  | secParam
  | secKw
  | argblock
  | multi
  | exec
  | discard
  deriving DecidableEq, Repr

/-- One identity. `keyOff` is where the lookup key starts in the name: behind the `|` of a subcommand.
A container names its subcommands' entries by index. -/
structure RedisEnt where
  name : String
  flags : List LkRedisC
  subFirst : Nat
  subN : Nat
  subOther : Nat
  nameLen : Nat
  keyOff : Nat
  deriving DecidableEq, Repr

def lkRedisNcmd : Nat := 250
def lkRedisNsub : Nat := 144

def redisCommands : List RedisEnt :=
  [⟨"ACL", [.container], 250, 13, 263, 3, 0⟩, ⟨"APPEND", [.write], 0, 0, 0, 6, 0⟩,
    ⟨"ASKING", [], 0, 0, 0, 6, 0⟩, ⟨"AUTH", [.auth], 0, 0, 0, 4, 0⟩,
    ⟨"BGREWRITEAOF", [], 0, 0, 0, 12, 0⟩, ⟨"BGSAVE", [], 0, 0, 0, 6, 0⟩,
    ⟨"BITCOUNT", [], 0, 0, 0, 8, 0⟩, ⟨"BITFIELD", [.write], 0, 0, 0, 8, 0⟩,
    ⟨"BITFIELD_RO", [], 0, 0, 0, 11, 0⟩, ⟨"BITOP", [.write], 0, 0, 0, 5, 0⟩,
    ⟨"BITPOS", [], 0, 0, 0, 6, 0⟩, ⟨"BLMOVE", [.write, .blocking], 0, 0, 0, 6, 0⟩,
    ⟨"BLMPOP", [.write, .blocking], 0, 0, 0, 6, 0⟩, ⟨"BLPOP", [.write, .blocking], 0, 0, 0, 5, 0⟩,
    ⟨"BRPOP", [.write, .blocking], 0, 0, 0, 5, 0⟩,
    ⟨"BRPOPLPUSH", [.write, .blocking], 0, 0, 0, 10, 0⟩,
    ⟨"BZMPOP", [.write, .blocking], 0, 0, 0, 6, 0⟩,
    ⟨"BZPOPMAX", [.write, .blocking], 0, 0, 0, 8, 0⟩,
    ⟨"BZPOPMIN", [.write, .blocking], 0, 0, 0, 8, 0⟩, ⟨"CLIENT", [.container], 264, 18, 282, 6, 0⟩,
    ⟨"CLUSTER", [.container], 283, 28, 311, 7, 0⟩, ⟨"COMMAND", [.container], 312, 7, 319, 7, 0⟩,
    ⟨"CONFIG", [.container], 320, 5, 325, 6, 0⟩, ⟨"COPY", [.write], 0, 0, 0, 4, 0⟩,
    ⟨"DBSIZE", [], 0, 0, 0, 6, 0⟩, ⟨"DEBUG", [], 0, 0, 0, 5, 0⟩, ⟨"DECR", [.write], 0, 0, 0, 4, 0⟩,
    ⟨"DECRBY", [.write], 0, 0, 0, 6, 0⟩, ⟨"DEL", [.write], 0, 0, 0, 3, 0⟩,
    ⟨"DISCARD", [.discard], 0, 0, 0, 7, 0⟩, ⟨"DUMP", [], 0, 0, 0, 4, 0⟩,
    ⟨"ECHO", [], 0, 0, 0, 4, 0⟩, ⟨"EVAL", [], 0, 0, 0, 4, 0⟩, ⟨"EVALSHA", [], 0, 0, 0, 7, 0⟩,
    ⟨"EVALSHA_RO", [], 0, 0, 0, 10, 0⟩, ⟨"EVAL_RO", [], 0, 0, 0, 7, 0⟩,
    ⟨"EXEC", [.exec], 0, 0, 0, 4, 0⟩, ⟨"EXISTS", [], 0, 0, 0, 6, 0⟩,
    ⟨"EXPIRE", [.write], 0, 0, 0, 6, 0⟩, ⟨"EXPIREAT", [.write], 0, 0, 0, 8, 0⟩,
    ⟨"EXPIRETIME", [], 0, 0, 0, 10, 0⟩, ⟨"FAILOVER", [], 0, 0, 0, 8, 0⟩,
    ⟨"FCALL", [], 0, 0, 0, 5, 0⟩, ⟨"FCALL_RO", [], 0, 0, 0, 8, 0⟩,
    ⟨"FLUSHALL", [.write], 0, 0, 0, 8, 0⟩, ⟨"FLUSHDB", [.write], 0, 0, 0, 7, 0⟩,
    ⟨"FUNCTION", [.container], 326, 9, 335, 8, 0⟩, ⟨"GEOADD", [.write], 0, 0, 0, 6, 0⟩,
    ⟨"GEODIST", [], 0, 0, 0, 7, 0⟩, ⟨"GEOHASH", [], 0, 0, 0, 7, 0⟩, ⟨"GEOPOS", [], 0, 0, 0, 6, 0⟩,
    ⟨"GEORADIUS", [.write], 0, 0, 0, 9, 0⟩, ⟨"GEORADIUSBYMEMBER", [.write], 0, 0, 0, 17, 0⟩,
    ⟨"GEORADIUSBYMEMBER_RO", [], 0, 0, 0, 20, 0⟩, ⟨"GEORADIUS_RO", [], 0, 0, 0, 12, 0⟩,
    ⟨"GEOSEARCH", [], 0, 0, 0, 9, 0⟩, ⟨"GEOSEARCHSTORE", [.write], 0, 0, 0, 14, 0⟩,
    ⟨"GET", [], 0, 0, 0, 3, 0⟩, ⟨"GETBIT", [], 0, 0, 0, 6, 0⟩, ⟨"GETDEL", [.write], 0, 0, 0, 6, 0⟩,
    ⟨"GETEX", [.write], 0, 0, 0, 5, 0⟩, ⟨"GETRANGE", [], 0, 0, 0, 8, 0⟩,
    ⟨"GETSET", [.write], 0, 0, 0, 6, 0⟩, ⟨"HDEL", [.write], 0, 0, 0, 4, 0⟩,
    ⟨"HELLO", [.hello], 0, 0, 0, 5, 0⟩, ⟨"HEXISTS", [], 0, 0, 0, 7, 0⟩,
    ⟨"HEXPIRE", [.write], 0, 0, 0, 7, 0⟩, ⟨"HEXPIREAT", [.write], 0, 0, 0, 9, 0⟩,
    ⟨"HEXPIRETIME", [], 0, 0, 0, 11, 0⟩, ⟨"HGET", [], 0, 0, 0, 4, 0⟩,
    ⟨"HGETALL", [], 0, 0, 0, 7, 0⟩, ⟨"HINCRBY", [.write], 0, 0, 0, 7, 0⟩,
    ⟨"HINCRBYFLOAT", [.write], 0, 0, 0, 12, 0⟩, ⟨"HKEYS", [], 0, 0, 0, 5, 0⟩,
    ⟨"HLEN", [], 0, 0, 0, 4, 0⟩, ⟨"HMGET", [], 0, 0, 0, 5, 0⟩, ⟨"HMSET", [.write], 0, 0, 0, 5, 0⟩,
    ⟨"HPERSIST", [.write], 0, 0, 0, 8, 0⟩, ⟨"HPEXPIRE", [.write], 0, 0, 0, 8, 0⟩,
    ⟨"HPEXPIREAT", [.write], 0, 0, 0, 10, 0⟩, ⟨"HPEXPIRETIME", [], 0, 0, 0, 12, 0⟩,
    ⟨"HPTTL", [], 0, 0, 0, 5, 0⟩, ⟨"HRANDFIELD", [], 0, 0, 0, 10, 0⟩, ⟨"HSCAN", [], 0, 0, 0, 5, 0⟩,
    ⟨"HSET", [.write], 0, 0, 0, 4, 0⟩, ⟨"HSETNX", [.write], 0, 0, 0, 6, 0⟩,
    ⟨"HSTRLEN", [], 0, 0, 0, 7, 0⟩, ⟨"HTTL", [], 0, 0, 0, 4, 0⟩, ⟨"HVALS", [], 0, 0, 0, 5, 0⟩,
    ⟨"INCR", [.write], 0, 0, 0, 4, 0⟩, ⟨"INCRBY", [.write], 0, 0, 0, 6, 0⟩,
    ⟨"INCRBYFLOAT", [.write], 0, 0, 0, 11, 0⟩, ⟨"INFO", [], 0, 0, 0, 4, 0⟩,
    ⟨"KEYS", [], 0, 0, 0, 4, 0⟩, ⟨"LASTSAVE", [], 0, 0, 0, 8, 0⟩,
    ⟨"LATENCY", [.container], 336, 7, 343, 7, 0⟩, ⟨"LCS", [], 0, 0, 0, 3, 0⟩,
    ⟨"LINDEX", [], 0, 0, 0, 6, 0⟩, ⟨"LINSERT", [.write], 0, 0, 0, 7, 0⟩,
    ⟨"LLEN", [], 0, 0, 0, 4, 0⟩, ⟨"LMOVE", [.write], 0, 0, 0, 5, 0⟩,
    ⟨"LMPOP", [.write], 0, 0, 0, 5, 0⟩, ⟨"LOLWUT", [], 0, 0, 0, 6, 0⟩,
    ⟨"LPOP", [.write], 0, 0, 0, 4, 0⟩, ⟨"LPOS", [], 0, 0, 0, 4, 0⟩,
    ⟨"LPUSH", [.write], 0, 0, 0, 5, 0⟩, ⟨"LPUSHX", [.write], 0, 0, 0, 6, 0⟩,
    ⟨"LRANGE", [], 0, 0, 0, 6, 0⟩, ⟨"LREM", [.write], 0, 0, 0, 4, 0⟩,
    ⟨"LSET", [.write], 0, 0, 0, 4, 0⟩, ⟨"LTRIM", [.write], 0, 0, 0, 5, 0⟩,
    ⟨"MEMORY", [.container], 344, 6, 350, 6, 0⟩, ⟨"MGET", [], 0, 0, 0, 4, 0⟩,
    ⟨"MIGRATE", [.write, .secKw], 0, 0, 0, 7, 0⟩, ⟨"MODULE", [.container], 351, 5, 356, 6, 0⟩,
    ⟨"MONITOR", [.monitor], 0, 0, 0, 7, 0⟩, ⟨"MOVE", [.write], 0, 0, 0, 4, 0⟩,
    ⟨"MSET", [.write], 0, 0, 0, 4, 0⟩, ⟨"MSETNX", [.write], 0, 0, 0, 6, 0⟩,
    ⟨"MULTI", [.multi], 0, 0, 0, 5, 0⟩, ⟨"OBJECT", [.container], 357, 5, 362, 6, 0⟩,
    ⟨"PERSIST", [.write], 0, 0, 0, 7, 0⟩, ⟨"PEXPIRE", [.write], 0, 0, 0, 7, 0⟩,
    ⟨"PEXPIREAT", [.write], 0, 0, 0, 9, 0⟩, ⟨"PEXPIRETIME", [], 0, 0, 0, 11, 0⟩,
    ⟨"PFADD", [.write], 0, 0, 0, 5, 0⟩, ⟨"PFCOUNT", [], 0, 0, 0, 7, 0⟩,
    ⟨"PFDEBUG", [.write], 0, 0, 0, 7, 0⟩, ⟨"PFMERGE", [.write], 0, 0, 0, 7, 0⟩,
    ⟨"PFSELFTEST", [], 0, 0, 0, 10, 0⟩, ⟨"PING", [], 0, 0, 0, 4, 0⟩,
    ⟨"PSETEX", [.write], 0, 0, 0, 6, 0⟩, ⟨"PSUBSCRIBE", [.subfam, .subon], 0, 0, 0, 10, 0⟩,
    ⟨"PSYNC", [.repl], 0, 0, 0, 5, 0⟩, ⟨"PTTL", [], 0, 0, 0, 4, 0⟩, ⟨"PUBLISH", [], 0, 0, 0, 7, 0⟩,
    ⟨"PUBSUB", [.container], 363, 6, 369, 6, 0⟩, ⟨"PUNSUBSCRIBE", [.subfam], 0, 0, 0, 12, 0⟩,
    ⟨"QUIT", [], 0, 0, 0, 4, 0⟩, ⟨"RANDOMKEY", [], 0, 0, 0, 9, 0⟩, ⟨"READONLY", [], 0, 0, 0, 8, 0⟩,
    ⟨"READWRITE", [], 0, 0, 0, 9, 0⟩, ⟨"RENAME", [.write], 0, 0, 0, 6, 0⟩,
    ⟨"RENAMENX", [.write], 0, 0, 0, 8, 0⟩, ⟨"REPLCONF", [.repl], 0, 0, 0, 8, 0⟩,
    ⟨"REPLICAOF", [], 0, 0, 0, 9, 0⟩, ⟨"RESET", [.reset], 0, 0, 0, 5, 0⟩,
    ⟨"RESTORE", [.write], 0, 0, 0, 7, 0⟩, ⟨"RESTORE-ASKING", [.write], 0, 0, 0, 14, 0⟩,
    ⟨"ROLE", [], 0, 0, 0, 4, 0⟩, ⟨"RPOP", [.write], 0, 0, 0, 4, 0⟩,
    ⟨"RPOPLPUSH", [.write], 0, 0, 0, 9, 0⟩, ⟨"RPUSH", [.write], 0, 0, 0, 5, 0⟩,
    ⟨"RPUSHX", [.write], 0, 0, 0, 6, 0⟩, ⟨"SADD", [.write], 0, 0, 0, 4, 0⟩,
    ⟨"SAVE", [], 0, 0, 0, 4, 0⟩, ⟨"SCAN", [], 0, 0, 0, 4, 0⟩, ⟨"SCARD", [], 0, 0, 0, 5, 0⟩,
    ⟨"SCRIPT", [.container], 370, 6, 376, 6, 0⟩, ⟨"SDIFF", [], 0, 0, 0, 5, 0⟩,
    ⟨"SDIFFSTORE", [.write], 0, 0, 0, 10, 0⟩, ⟨"SELECT", [.select], 0, 0, 0, 6, 0⟩,
    ⟨"SET", [.write], 0, 0, 0, 3, 0⟩, ⟨"SETBIT", [.write], 0, 0, 0, 6, 0⟩,
    ⟨"SETEX", [.write], 0, 0, 0, 5, 0⟩, ⟨"SETNX", [.write], 0, 0, 0, 5, 0⟩,
    ⟨"SETRANGE", [.write], 0, 0, 0, 8, 0⟩, ⟨"SHUTDOWN", [], 0, 0, 0, 8, 0⟩,
    ⟨"SINTER", [], 0, 0, 0, 6, 0⟩, ⟨"SINTERCARD", [], 0, 0, 0, 10, 0⟩,
    ⟨"SINTERSTORE", [.write], 0, 0, 0, 11, 0⟩, ⟨"SISMEMBER", [], 0, 0, 0, 9, 0⟩,
    ⟨"SLAVEOF", [], 0, 0, 0, 7, 0⟩, ⟨"SLOWLOG", [.container], 377, 4, 381, 7, 0⟩,
    ⟨"SMEMBERS", [], 0, 0, 0, 8, 0⟩, ⟨"SMISMEMBER", [], 0, 0, 0, 10, 0⟩,
    ⟨"SMOVE", [.write], 0, 0, 0, 5, 0⟩, ⟨"SORT", [.write], 0, 0, 0, 4, 0⟩,
    ⟨"SORT_RO", [], 0, 0, 0, 7, 0⟩, ⟨"SPOP", [.write], 0, 0, 0, 4, 0⟩,
    ⟨"SPUBLISH", [], 0, 0, 0, 8, 0⟩, ⟨"SRANDMEMBER", [], 0, 0, 0, 11, 0⟩,
    ⟨"SREM", [.write], 0, 0, 0, 4, 0⟩, ⟨"SSCAN", [], 0, 0, 0, 5, 0⟩,
    ⟨"SSUBSCRIBE", [.subfam, .subon], 0, 0, 0, 10, 0⟩, ⟨"STRLEN", [], 0, 0, 0, 6, 0⟩,
    ⟨"SUBSCRIBE", [.subfam, .subon], 0, 0, 0, 9, 0⟩, ⟨"SUBSTR", [], 0, 0, 0, 6, 0⟩,
    ⟨"SUNION", [], 0, 0, 0, 6, 0⟩, ⟨"SUNIONSTORE", [.write], 0, 0, 0, 11, 0⟩,
    ⟨"SUNSUBSCRIBE", [.subfam], 0, 0, 0, 12, 0⟩, ⟨"SWAPDB", [.write], 0, 0, 0, 6, 0⟩,
    ⟨"SYNC", [.repl], 0, 0, 0, 4, 0⟩, ⟨"TIME", [], 0, 0, 0, 4, 0⟩, ⟨"TOUCH", [], 0, 0, 0, 5, 0⟩,
    ⟨"TTL", [], 0, 0, 0, 3, 0⟩, ⟨"TYPE", [], 0, 0, 0, 4, 0⟩, ⟨"UNLINK", [.write], 0, 0, 0, 6, 0⟩,
    ⟨"UNSUBSCRIBE", [.subfam], 0, 0, 0, 11, 0⟩, ⟨"UNWATCH", [], 0, 0, 0, 7, 0⟩,
    ⟨"WAIT", [.blocking], 0, 0, 0, 4, 0⟩, ⟨"WAITAOF", [.blocking], 0, 0, 0, 7, 0⟩,
    ⟨"WATCH", [], 0, 0, 0, 5, 0⟩, ⟨"XACK", [.write], 0, 0, 0, 4, 0⟩,
    ⟨"XADD", [.write], 0, 0, 0, 4, 0⟩, ⟨"XAUTOCLAIM", [.write], 0, 0, 0, 10, 0⟩,
    ⟨"XCLAIM", [.write], 0, 0, 0, 6, 0⟩, ⟨"XDEL", [.write], 0, 0, 0, 4, 0⟩,
    ⟨"XGROUP", [.container], 382, 6, 388, 6, 0⟩, ⟨"XINFO", [.container], 389, 4, 393, 5, 0⟩,
    ⟨"XLEN", [], 0, 0, 0, 4, 0⟩, ⟨"XPENDING", [], 0, 0, 0, 8, 0⟩, ⟨"XRANGE", [], 0, 0, 0, 6, 0⟩,
    ⟨"XREAD", [.blocking, .argblock], 0, 0, 0, 5, 0⟩,
    ⟨"XREADGROUP", [.write, .blocking, .argblock], 0, 0, 0, 10, 0⟩,
    ⟨"XREVRANGE", [], 0, 0, 0, 9, 0⟩, ⟨"XSETID", [.write], 0, 0, 0, 6, 0⟩,
    ⟨"XTRIM", [.write], 0, 0, 0, 5, 0⟩, ⟨"ZADD", [.write], 0, 0, 0, 4, 0⟩,
    ⟨"ZCARD", [], 0, 0, 0, 5, 0⟩, ⟨"ZCOUNT", [], 0, 0, 0, 6, 0⟩, ⟨"ZDIFF", [], 0, 0, 0, 5, 0⟩,
    ⟨"ZDIFFSTORE", [.write], 0, 0, 0, 10, 0⟩, ⟨"ZINCRBY", [.write], 0, 0, 0, 7, 0⟩,
    ⟨"ZINTER", [], 0, 0, 0, 6, 0⟩, ⟨"ZINTERCARD", [], 0, 0, 0, 10, 0⟩,
    ⟨"ZINTERSTORE", [.write], 0, 0, 0, 11, 0⟩, ⟨"ZLEXCOUNT", [], 0, 0, 0, 9, 0⟩,
    ⟨"ZMPOP", [.write], 0, 0, 0, 5, 0⟩, ⟨"ZMSCORE", [], 0, 0, 0, 7, 0⟩,
    ⟨"ZPOPMAX", [.write], 0, 0, 0, 7, 0⟩, ⟨"ZPOPMIN", [.write], 0, 0, 0, 7, 0⟩,
    ⟨"ZRANDMEMBER", [], 0, 0, 0, 11, 0⟩, ⟨"ZRANGE", [], 0, 0, 0, 6, 0⟩,
    ⟨"ZRANGEBYLEX", [], 0, 0, 0, 11, 0⟩, ⟨"ZRANGEBYSCORE", [], 0, 0, 0, 13, 0⟩,
    ⟨"ZRANGESTORE", [.write], 0, 0, 0, 11, 0⟩, ⟨"ZRANK", [], 0, 0, 0, 5, 0⟩,
    ⟨"ZREM", [.write], 0, 0, 0, 4, 0⟩, ⟨"ZREMRANGEBYLEX", [.write], 0, 0, 0, 14, 0⟩,
    ⟨"ZREMRANGEBYRANK", [.write], 0, 0, 0, 15, 0⟩, ⟨"ZREMRANGEBYSCORE", [.write], 0, 0, 0, 16, 0⟩,
    ⟨"ZREVRANGE", [], 0, 0, 0, 9, 0⟩, ⟨"ZREVRANGEBYLEX", [], 0, 0, 0, 14, 0⟩,
    ⟨"ZREVRANGEBYSCORE", [], 0, 0, 0, 16, 0⟩, ⟨"ZREVRANK", [], 0, 0, 0, 8, 0⟩,
    ⟨"ZSCAN", [], 0, 0, 0, 5, 0⟩, ⟨"ZSCORE", [], 0, 0, 0, 6, 0⟩, ⟨"ZUNION", [], 0, 0, 0, 6, 0⟩,
    ⟨"ZUNIONSTORE", [.write], 0, 0, 0, 11, 0⟩]

/-- The subcommands, grouped by container and C-sorted in each group; a group's `|other` is last and
out of the search's reach. -/
def redisSubcommands : List RedisEnt :=
  [⟨"ACL|CAT", [], 0, 0, 0, 7, 4⟩, ⟨"ACL|DELUSER", [], 0, 0, 0, 11, 4⟩,
    ⟨"ACL|DRYRUN", [], 0, 0, 0, 10, 4⟩, ⟨"ACL|GENPASS", [], 0, 0, 0, 11, 4⟩,
    ⟨"ACL|GETUSER", [], 0, 0, 0, 11, 4⟩, ⟨"ACL|HELP", [], 0, 0, 0, 8, 4⟩,
    ⟨"ACL|LIST", [], 0, 0, 0, 8, 4⟩, ⟨"ACL|LOAD", [], 0, 0, 0, 8, 4⟩,
    ⟨"ACL|LOG", [], 0, 0, 0, 7, 4⟩, ⟨"ACL|SAVE", [], 0, 0, 0, 8, 4⟩,
    ⟨"ACL|SETUSER", [.secRule], 0, 0, 0, 11, 4⟩, ⟨"ACL|USERS", [], 0, 0, 0, 9, 4⟩,
    ⟨"ACL|WHOAMI", [], 0, 0, 0, 10, 4⟩, ⟨"ACL|other", [], 0, 0, 0, 9, 4⟩,
    ⟨"CLIENT|CACHING", [], 0, 0, 0, 14, 7⟩, ⟨"CLIENT|GETNAME", [], 0, 0, 0, 14, 7⟩,
    ⟨"CLIENT|GETREDIR", [], 0, 0, 0, 15, 7⟩, ⟨"CLIENT|HELP", [], 0, 0, 0, 11, 7⟩,
    ⟨"CLIENT|ID", [], 0, 0, 0, 9, 7⟩, ⟨"CLIENT|INFO", [], 0, 0, 0, 11, 7⟩,
    ⟨"CLIENT|KILL", [], 0, 0, 0, 11, 7⟩, ⟨"CLIENT|LIST", [], 0, 0, 0, 11, 7⟩,
    ⟨"CLIENT|NO-EVICT", [], 0, 0, 0, 15, 7⟩, ⟨"CLIENT|NO-TOUCH", [], 0, 0, 0, 15, 7⟩,
    ⟨"CLIENT|PAUSE", [], 0, 0, 0, 12, 7⟩, ⟨"CLIENT|REPLY", [], 0, 0, 0, 12, 7⟩,
    ⟨"CLIENT|SETINFO", [], 0, 0, 0, 14, 7⟩, ⟨"CLIENT|SETNAME", [], 0, 0, 0, 14, 7⟩,
    ⟨"CLIENT|TRACKING", [], 0, 0, 0, 15, 7⟩, ⟨"CLIENT|TRACKINGINFO", [], 0, 0, 0, 19, 7⟩,
    ⟨"CLIENT|UNBLOCK", [], 0, 0, 0, 14, 7⟩, ⟨"CLIENT|UNPAUSE", [], 0, 0, 0, 14, 7⟩,
    ⟨"CLIENT|other", [], 0, 0, 0, 12, 7⟩, ⟨"CLUSTER|ADDSLOTS", [], 0, 0, 0, 16, 8⟩,
    ⟨"CLUSTER|ADDSLOTSRANGE", [], 0, 0, 0, 21, 8⟩, ⟨"CLUSTER|BUMPEPOCH", [], 0, 0, 0, 17, 8⟩,
    ⟨"CLUSTER|COUNT-FAILURE-REPORTS", [], 0, 0, 0, 29, 8⟩,
    ⟨"CLUSTER|COUNTKEYSINSLOT", [], 0, 0, 0, 23, 8⟩, ⟨"CLUSTER|DELSLOTS", [], 0, 0, 0, 16, 8⟩,
    ⟨"CLUSTER|DELSLOTSRANGE", [], 0, 0, 0, 21, 8⟩, ⟨"CLUSTER|FAILOVER", [], 0, 0, 0, 16, 8⟩,
    ⟨"CLUSTER|FLUSHSLOTS", [], 0, 0, 0, 18, 8⟩, ⟨"CLUSTER|FORGET", [], 0, 0, 0, 14, 8⟩,
    ⟨"CLUSTER|GETKEYSINSLOT", [], 0, 0, 0, 21, 8⟩, ⟨"CLUSTER|HELP", [], 0, 0, 0, 12, 8⟩,
    ⟨"CLUSTER|INFO", [], 0, 0, 0, 12, 8⟩, ⟨"CLUSTER|KEYSLOT", [], 0, 0, 0, 15, 8⟩,
    ⟨"CLUSTER|LINKS", [], 0, 0, 0, 13, 8⟩, ⟨"CLUSTER|MEET", [], 0, 0, 0, 12, 8⟩,
    ⟨"CLUSTER|MYID", [], 0, 0, 0, 12, 8⟩, ⟨"CLUSTER|MYSHARDID", [], 0, 0, 0, 17, 8⟩,
    ⟨"CLUSTER|NODES", [], 0, 0, 0, 13, 8⟩, ⟨"CLUSTER|REPLICAS", [], 0, 0, 0, 16, 8⟩,
    ⟨"CLUSTER|REPLICATE", [], 0, 0, 0, 17, 8⟩, ⟨"CLUSTER|RESET", [], 0, 0, 0, 13, 8⟩,
    ⟨"CLUSTER|SAVECONFIG", [], 0, 0, 0, 18, 8⟩, ⟨"CLUSTER|SET-CONFIG-EPOCH", [], 0, 0, 0, 24, 8⟩,
    ⟨"CLUSTER|SETSLOT", [], 0, 0, 0, 15, 8⟩, ⟨"CLUSTER|SHARDS", [], 0, 0, 0, 14, 8⟩,
    ⟨"CLUSTER|SLAVES", [], 0, 0, 0, 14, 8⟩, ⟨"CLUSTER|SLOTS", [], 0, 0, 0, 13, 8⟩,
    ⟨"CLUSTER|other", [], 0, 0, 0, 13, 8⟩, ⟨"COMMAND|COUNT", [], 0, 0, 0, 13, 8⟩,
    ⟨"COMMAND|DOCS", [], 0, 0, 0, 12, 8⟩, ⟨"COMMAND|GETKEYS", [], 0, 0, 0, 15, 8⟩,
    ⟨"COMMAND|GETKEYSANDFLAGS", [], 0, 0, 0, 23, 8⟩, ⟨"COMMAND|HELP", [], 0, 0, 0, 12, 8⟩,
    ⟨"COMMAND|INFO", [], 0, 0, 0, 12, 8⟩, ⟨"COMMAND|LIST", [], 0, 0, 0, 12, 8⟩,
    ⟨"COMMAND|other", [], 0, 0, 0, 13, 8⟩, ⟨"CONFIG|GET", [], 0, 0, 0, 10, 7⟩,
    ⟨"CONFIG|HELP", [], 0, 0, 0, 11, 7⟩, ⟨"CONFIG|RESETSTAT", [], 0, 0, 0, 16, 7⟩,
    ⟨"CONFIG|REWRITE", [], 0, 0, 0, 14, 7⟩, ⟨"CONFIG|SET", [.secParam], 0, 0, 0, 10, 7⟩,
    ⟨"CONFIG|other", [], 0, 0, 0, 12, 7⟩, ⟨"FUNCTION|DELETE", [], 0, 0, 0, 15, 9⟩,
    ⟨"FUNCTION|DUMP", [], 0, 0, 0, 13, 9⟩, ⟨"FUNCTION|FLUSH", [], 0, 0, 0, 14, 9⟩,
    ⟨"FUNCTION|HELP", [], 0, 0, 0, 13, 9⟩, ⟨"FUNCTION|KILL", [], 0, 0, 0, 13, 9⟩,
    ⟨"FUNCTION|LIST", [], 0, 0, 0, 13, 9⟩, ⟨"FUNCTION|LOAD", [], 0, 0, 0, 13, 9⟩,
    ⟨"FUNCTION|RESTORE", [], 0, 0, 0, 16, 9⟩, ⟨"FUNCTION|STATS", [], 0, 0, 0, 14, 9⟩,
    ⟨"FUNCTION|other", [], 0, 0, 0, 14, 9⟩, ⟨"LATENCY|DOCTOR", [], 0, 0, 0, 14, 8⟩,
    ⟨"LATENCY|GRAPH", [], 0, 0, 0, 13, 8⟩, ⟨"LATENCY|HELP", [], 0, 0, 0, 12, 8⟩,
    ⟨"LATENCY|HISTOGRAM", [], 0, 0, 0, 17, 8⟩, ⟨"LATENCY|HISTORY", [], 0, 0, 0, 15, 8⟩,
    ⟨"LATENCY|LATEST", [], 0, 0, 0, 14, 8⟩, ⟨"LATENCY|RESET", [], 0, 0, 0, 13, 8⟩,
    ⟨"LATENCY|other", [], 0, 0, 0, 13, 8⟩, ⟨"MEMORY|DOCTOR", [], 0, 0, 0, 13, 7⟩,
    ⟨"MEMORY|HELP", [], 0, 0, 0, 11, 7⟩, ⟨"MEMORY|MALLOC-STATS", [], 0, 0, 0, 19, 7⟩,
    ⟨"MEMORY|PURGE", [], 0, 0, 0, 12, 7⟩, ⟨"MEMORY|STATS", [], 0, 0, 0, 12, 7⟩,
    ⟨"MEMORY|USAGE", [], 0, 0, 0, 12, 7⟩, ⟨"MEMORY|other", [], 0, 0, 0, 12, 7⟩,
    ⟨"MODULE|HELP", [], 0, 0, 0, 11, 7⟩, ⟨"MODULE|LIST", [], 0, 0, 0, 11, 7⟩,
    ⟨"MODULE|LOAD", [], 0, 0, 0, 11, 7⟩, ⟨"MODULE|LOADEX", [], 0, 0, 0, 13, 7⟩,
    ⟨"MODULE|UNLOAD", [], 0, 0, 0, 13, 7⟩, ⟨"MODULE|other", [], 0, 0, 0, 12, 7⟩,
    ⟨"OBJECT|ENCODING", [], 0, 0, 0, 15, 7⟩, ⟨"OBJECT|FREQ", [], 0, 0, 0, 11, 7⟩,
    ⟨"OBJECT|HELP", [], 0, 0, 0, 11, 7⟩, ⟨"OBJECT|IDLETIME", [], 0, 0, 0, 15, 7⟩,
    ⟨"OBJECT|REFCOUNT", [], 0, 0, 0, 15, 7⟩, ⟨"OBJECT|other", [], 0, 0, 0, 12, 7⟩,
    ⟨"PUBSUB|CHANNELS", [], 0, 0, 0, 15, 7⟩, ⟨"PUBSUB|HELP", [], 0, 0, 0, 11, 7⟩,
    ⟨"PUBSUB|NUMPAT", [], 0, 0, 0, 13, 7⟩, ⟨"PUBSUB|NUMSUB", [], 0, 0, 0, 13, 7⟩,
    ⟨"PUBSUB|SHARDCHANNELS", [], 0, 0, 0, 20, 7⟩, ⟨"PUBSUB|SHARDNUMSUB", [], 0, 0, 0, 18, 7⟩,
    ⟨"PUBSUB|other", [], 0, 0, 0, 12, 7⟩, ⟨"SCRIPT|DEBUG", [], 0, 0, 0, 12, 7⟩,
    ⟨"SCRIPT|EXISTS", [], 0, 0, 0, 13, 7⟩, ⟨"SCRIPT|FLUSH", [], 0, 0, 0, 12, 7⟩,
    ⟨"SCRIPT|HELP", [], 0, 0, 0, 11, 7⟩, ⟨"SCRIPT|KILL", [], 0, 0, 0, 11, 7⟩,
    ⟨"SCRIPT|LOAD", [], 0, 0, 0, 11, 7⟩, ⟨"SCRIPT|other", [], 0, 0, 0, 12, 7⟩,
    ⟨"SLOWLOG|GET", [], 0, 0, 0, 11, 8⟩, ⟨"SLOWLOG|HELP", [], 0, 0, 0, 12, 8⟩,
    ⟨"SLOWLOG|LEN", [], 0, 0, 0, 11, 8⟩, ⟨"SLOWLOG|RESET", [], 0, 0, 0, 13, 8⟩,
    ⟨"SLOWLOG|other", [], 0, 0, 0, 13, 8⟩, ⟨"XGROUP|CREATE", [], 0, 0, 0, 13, 7⟩,
    ⟨"XGROUP|CREATECONSUMER", [], 0, 0, 0, 21, 7⟩, ⟨"XGROUP|DELCONSUMER", [], 0, 0, 0, 18, 7⟩,
    ⟨"XGROUP|DESTROY", [], 0, 0, 0, 14, 7⟩, ⟨"XGROUP|HELP", [], 0, 0, 0, 11, 7⟩,
    ⟨"XGROUP|SETID", [], 0, 0, 0, 12, 7⟩, ⟨"XGROUP|other", [], 0, 0, 0, 12, 7⟩,
    ⟨"XINFO|CONSUMERS", [], 0, 0, 0, 15, 6⟩, ⟨"XINFO|GROUPS", [], 0, 0, 0, 12, 6⟩,
    ⟨"XINFO|HELP", [], 0, 0, 0, 10, 6⟩, ⟨"XINFO|STREAM", [], 0, 0, 0, 12, 6⟩,
    ⟨"XINFO|other", [], 0, 0, 0, 11, 6⟩]

/-- The last entry is for everything the table does not know. -/
def redisTab : List RedisEnt := redisCommands ++ redisSubcommands ++ [⟨"other", [], 0, 0, 0, 5, 0⟩]

end Latkit
