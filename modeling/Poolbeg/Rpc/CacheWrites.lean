import Poolbeg.Rpc.Tasks

/-!
# What is written to the cache

Two parts of the program write to Redis while requests are served. `forward_to_upstream` stores a
response under the key of its request, and the block tracker stores blocks and logs under keys of
their own, which are the key of no request.

## Why the keys cannot meet

A key of a request is the chain id and a digest, and the keys of the tracker have a word between the
two: of the set of the head, of blocks by number and by hash, of the logs of a block. The texts of
digests are hexadecimal and have no colon, so no key is of both kinds, on one chain or across
chains. That is proved with the keys themselves; here it is brought to the form in which an
invariant about stored responses uses it, for each command the tracker may give.

Deleting a key of a request is harmless as well, whoever does it. What a command must not do is
write something else under it.

## Main definitions

* `HarmlessFor` — commands that do not write under a key

## Main results

* `eq_of_mem_storeAnswer`, `key_of_mem_storeAnswer` — the commands of an answer
* `harmless_cacheWrite` — the tracker writes under the key of no request
-/

namespace Poolbeg

variable {ι Text : Type} {serde : SerdeJson Text} {blake3 : Blake3 Text} {app : AppConfig ι}

/-- A command that writes elsewhere, or deletes. Under the key there is then what was there before,
or nothing. -/
def HarmlessFor (key : String) (c : Command Text) : Prop := key ≠ c.key ∨ c = .del key

theorem HarmlessFor.exec {key : String} {c : Command Text} {r : Redis Text}
    (h : HarmlessFor key c) : r.exec c key = r key ∨ r.exec c key = none := by
  rcases h with hne | rfl
  · exact .inl (r.exec_of_ne c hne)
  · exact .inr (r.exec_del_self key)

theorem HarmlessFor.get {key : String} {c : Command Text} {r : Redis Text} {text : Text}
    (h : HarmlessFor key c) (hget : (r.exec c).get key = some text) : r.get key = some text := by
  rcases Redis.get_exec hget with hget | ⟨px, rfl⟩
  · exact hget
  · rcases h with hne | hdel
    · exact absurd rfl hne
    · cases hdel

/-- The commands of an answer: the response goes under the key of the request, and the key into the
set. -/
theorem eq_of_mem_storeAnswer {cache : CacheConfig} {chain : ChainConfig} {req : JsonRpcRequest}
    {answer : Answer} {c : Command Text} (h : c ∈ storeAnswer serde blake3 cache chain req answer) :
    (∃ isUnfinalized, resolveTtl cache req.method isUnfinalized ≠ none) ∧
      ∃ resp, answer = .ok resp ∧ resp.error = none ∧
        ((∃ px, c = .set (cacheKey serde blake3 chain.chainId req) (resp.toText serde) px) ∨
          c = .sadd (headCacheSetKey chain.chainId) (cacheKey serde blake3 chain.chainId req)) := by
  cases answer with
  | error e => exact absurd h List.not_mem_nil
  | ok resp =>
    simp only [storeAnswer] at h
    split_ifs at h with hstored
    · rw [Bool.and_eq_true, Option.isNone_iff_eq_none] at hstored
      rw [CacheLayer.set] at h
      split at h
      · exact absurd h List.not_mem_nil
      · rename_i ttl httl
        refine ⟨⟨_, httl ▸ Option.some_ne_none ttl⟩, resp, rfl, hstored.2, ?_⟩
        rcases List.mem_cons.mp h with rfl | h
        · rw [RedisClient.set]
          split_ifs
          · exact .inl ⟨_, rfl⟩
          · exact .inl ⟨_, rfl⟩
        · split_ifs at h
          · exact .inr (List.mem_singleton.mp h)
          · exact absurd h List.not_mem_nil
    · exact absurd h List.not_mem_nil

/-- What is stored for an answer goes under the key of the request, and into the set. -/
theorem key_of_mem_storeAnswer {cache : CacheConfig} {chain : ChainConfig} {req : JsonRpcRequest}
    {answer : Answer} {c : Command Text} (h : c ∈ storeAnswer serde blake3 cache chain req answer) :
    (∃ isUnfinalized, resolveTtl cache req.method isUnfinalized ≠ none) ∧
      (c.key = cacheKey serde blake3 chain.chainId req ∨
        c.key = headCacheSetKey chain.chainId) := by
  obtain ⟨httl, resp, -, -, ⟨px, rfl⟩ | rfl⟩ := eq_of_mem_storeAnswer h
  · exact ⟨httl, .inl rfl⟩
  · exact ⟨httl, .inr rfl⟩

/-- The tracker's commands are harmless for the key of every request, of its own chain or of another
one. -/
theorem harmless_cacheWrite {chain : ι} {req : JsonRpcRequest} {w : CacheWrite ι} {n : ℕ}
    {c : Command Text} (h : (w.commands serde app)[n]? = some c) :
    HarmlessFor (app.key serde blake3 chain req) c := by
  have hmem := List.mem_of_getElem? h
  cases w with
  | cacheBlock chain' number hash block =>
    refine .inl ?_
    simp only [CacheWrite.commands, CacheLayer.cacheBlock, List.mem_cons, List.not_mem_nil,
      or_false] at hmem
    rcases hmem with rfl | rfl | rfl | rfl
    · rw [RedisClient.set_key]
      exact cacheKey_ne_chainKey serde blake3 (x := 'l') (by simp) (by decide)
    · rw [RedisClient.set_key]
      exact cacheKey_ne_chainKey serde blake3 (x := 'l') (by simp) (by decide)
    · exact cacheKey_ne_headCacheSetKey serde blake3 _ _ _
    · exact cacheKey_ne_headCacheSetKey serde blake3 _ _ _
  | cacheLogs chain' blockNumber logs =>
    refine .inl ?_
    simp only [CacheWrite.commands, CacheLayer.cacheLogs, List.mem_cons, List.not_mem_nil,
      or_false] at hmem
    rcases hmem with rfl | rfl
    · rw [RedisClient.set_key]
      exact cacheKey_ne_chainKey serde blake3 (x := 'l') (by simp) (by decide)
    · exact cacheKey_ne_headCacheSetKey serde blake3 _ _ _
  | delete key =>
    obtain rfl := List.mem_singleton.mp hmem
    by_cases hkey : app.key serde blake3 chain req = key
    · exact .inr (hkey ▸ rfl)
    · exact .inl hkey

end Poolbeg
