import Poolbeg.Cache.Keys
import Poolbeg.Cache.Redis

/-!
# Cache policies and the cache layer

The embedding of `cache/policy.rs` and `cache/mod.rs`. A policy list decides the TTL of a response;
each operation of the cache layer is the list of Redis commands it issues, in order. All durations
are in milliseconds.

## Policies

The first policy that matches the method and the finality of a request decides, and a method that
none matches has a default of its own for either finality. The order of the list is therefore part
of the configuration, and a policy for `"*"` hides whatever comes after it. `TtlValue.never` and
`TtlValue.forever` are both kinds of TTL, but not kinds of expiry: the one issues no command at all,
and the other a `SET` without `PX`.

## Commands

An operation is not atomic. A write stores its value first and enters the key into the set of its
chain afterwards, and between these two commands anything can happen to Redis. That is why an
operation is a list here and not a function on databases: the systems that use it put the commands
of other operations, and failures, in between.

## Main definitions

* `Finality`, `TtlValue`, `CachePolicy`, `CacheConfig`, `resolveTtl` — the policies
* `CacheLayer.set` — a response, under the key of its request
* `CacheLayer.cacheBlock`, `CacheLayer.cacheLogs` — what the block tracker stores

## Main results

* `cacheKey_ne_headCacheSetKey`, `blockByNumberKey_ne_headCacheSetKey`,
  `blockByHashKey_ne_headCacheSetKey`, `blockLogsKey_ne_headCacheSetKey` — nothing is stored under
  the key of the set
-/

namespace Poolbeg

/-- Which responses a policy is for. The finality of a request is one of the first two. -/
inductive Finality
  | finalized
  | unfinalized
  | any
  deriving DecidableEq

/-- When a response expires: `never` cached, cached `forever`, or for some milliseconds. -/
inductive TtlValue
  | never
  | forever
  | duration (ms : ℕ)
  deriving DecidableEq

/-- A policy: the methods and the finality it is for, and the TTL it gives. -/
structure CachePolicy where
  methods : List String
  finality : Finality
  ttl : TtlValue

/-- The policies, the first one first. -/
structure CacheConfig where
  policies : List CachePolicy

/-- `matches_method`: `"*"` stands for every method, and other patterns for themselves. -/
def matchesMethod (patterns : List String) (method : String) : Bool :=
  patterns.any fun p => p == "*" || p == method

/-- `matches_finality`. -/
def matchesFinality (policyFinality requestFinality : Finality) : Bool :=
  policyFinality == .any || policyFinality == requestFinality

/-- The TTL of a method's response; `none` means that it is not cached and `0` that it does not
expire. The first policy that matches decides. -/
def resolveTtl (config : CacheConfig) (method : String) (isUnfinalized : Bool) : Option ℕ :=
  let finality : Finality := if isUnfinalized then .unfinalized else .finalized
  match config.policies.find? fun policy =>
      matchesMethod policy.methods method && matchesFinality policy.finality finality with
  | some policy =>
    match policy.ttl with
    | .never => none
    | .forever => some 0
    | .duration d => some d
  | none => if isUnfinalized then some 3000 else some 3600000

namespace CacheLayer

variable {Text : Type} (serde : SerdeJson Text) (blake3 : Blake3 Text)

/-- `CacheLayer::set`: store a response if the policy gives it a TTL, and track it for invalidation
when it is not final. -/
def set (config : CacheConfig) (chainId : ℕ) (req : JsonRpcRequest) (resp : JsonRpcResponse)
    (isUnfinalized : Bool) : List (Command Text) :=
  match resolveTtl config req.method isUnfinalized with
  | none => []
  | some ttl =>
    let key := cacheKey serde blake3 chainId req
    RedisClient.set key (resp.toText serde) ttl ::
      if isUnfinalized then [.sadd (headCacheSetKey chainId) key] else []

/-- `CacheLayer::cache_block`: under the number for a minute and under the hash for an hour. -/
def cacheBlock (chainId number : ℕ) (hash : String) (block : Value) : List (Command Text) :=
  let value := serde.toString block
  let numKey := blockByNumberKey chainId number
  let hashKey := blockByHashKey chainId hash
  let setKey := headCacheSetKey chainId
  [RedisClient.set numKey value 60000, RedisClient.set hashKey value 3600000,
    .sadd setKey numKey, .sadd setKey hashKey]

/-- `CacheLayer::cache_logs`: the logs of a block, for a minute. Like the two keys of a block, they
go into the set of the chain. -/
def cacheLogs (chainId blockNumber : ℕ) (logs : Value) : List (Command Text) :=
  let key := blockLogsKey chainId blockNumber
  [RedisClient.set key (serde.toString logs) 60000, .sadd (headCacheSetKey chainId) key]

end CacheLayer

/-! ### What the operations store -/

section Keys

variable {Text : Type} (serde : SerdeJson Text) (blake3 : Blake3 Text)

/-- No response is stored under the key of a set, whatever its request and whichever the chains: the
name of the set has a letter that no digest has. -/
theorem cacheKey_ne_headCacheSetKey (c d : ℕ) (req : JsonRpcRequest) :
    cacheKey serde blake3 c req ≠ headCacheSetKey d :=
  cacheKey_ne_chainKey serde blake3 (x := 'h') (by decide) (by decide)

theorem blockByNumberKey_ne_headCacheSetKey (c d n : ℕ) :
    blockByNumberKey c n ≠ headCacheSetKey d :=
  chainKey_ne_of_head (by simp)

/-- Nor under its hash, whatever the upstream has sent as one. -/
theorem blockByHashKey_ne_headCacheSetKey (c d : ℕ) (hash : String) :
    blockByHashKey c hash ≠ headCacheSetKey d :=
  chainKey_ne_of_head (by simp)

theorem blockLogsKey_ne_headCacheSetKey (c d n : ℕ) : blockLogsKey c n ≠ headCacheSetKey d :=
  chainKey_ne_of_head (by simp)

end Keys

end Poolbeg
