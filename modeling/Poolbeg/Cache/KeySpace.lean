import Poolbeg.Cache.Keys
import Poolbeg.JsonText

/-!
# Keys never collide

Five functions of `cache/keys.rs` write into one Redis. A `RedisKey` is a call of one of them, and
`render` is the key it returns. Two calls return one key exactly when they are calls of one function
with the same arguments, where two requests count as the same when they have the same method and the
same parameters.

The block hash of `blockByHashKey` is whatever an upstream sent, so it can hold colons and anything
else. It is the last part of its key, so it cannot run into another part.

## Reading a key back

A key is read from the left. The chain ends at the second colon (`chainKey_inj`). What follows shows
its family by its first letters, for each of the patterns has one that no digest has
(`familyOf_suffix`). Within a family the rest is the argument: a decimal number, a hash as it is, or
a digest.

Digests are the one assumption. `Blake3.Separates` is asked for on a set of requests, and the result
is about the keys of these requests; that the texts which are hashed differ in the first place is
`Value.print_injective`.

## Main definitions

* `RedisKey`, `RedisKey.render` — the calls and the keys they return
* `RedisKey.Same` — calls that should share an entry
* `RedisKey.familyOf` — what the first letters of a suffix show

## Main results

* `RedisKey.familyOf_suffix` — families never meet
* `redisKey_render_iff` — keys are equal exactly when they are the same key
-/

namespace Poolbeg

/-- A call of one of the key functions, with its arguments. There is no other way to make a key. -/
inductive RedisKey
  | cache (chainId : ℕ) (req : JsonRpcRequest)
  | blockByNumber (chainId number : ℕ)
  | blockByHash (chainId : ℕ) (hash : String)
  | blockLogs (chainId blockNumber : ℕ)
  | headCacheSet (chainId : ℕ)

namespace RedisKey

/-- The key that is returned. -/
def render {Text : Type} (serde : SerdeJson Text) (blake3 : Blake3 Text) : RedisKey → String
  | cache chainId req => cacheKey serde blake3 chainId req
  | blockByNumber chainId number => blockByNumberKey chainId number
  | blockByHash chainId hash => blockByHashKey chainId hash
  | blockLogs chainId blockNumber => blockLogsKey chainId blockNumber
  | headCacheSet chainId => headCacheSetKey chainId

/-- One family and one chain, with the same number, the same hash, or the same method and
parameters. The id and the version of a request are no part of this. -/
def Same : RedisKey → RedisKey → Prop
  | cache c a, cache d b => c = d ∧ a.method = b.method ∧ a.params = b.params
  | blockByNumber c m, blockByNumber d n => c = d ∧ m = n
  | blockByHash c g, blockByHash d h => c = d ∧ g = h
  | blockLogs c m, blockLogs d n => c = d ∧ m = n
  | headCacheSet c, headCacheSet d => c = d
  | _, _ => False

/-- The request of a key, if it has one, is among `reqs`. Digests are only assumed to be apart for
these. -/
def Over (reqs : Set JsonRpcRequest) : RedisKey → Prop
  | cache _ req => req ∈ reqs
  | _ => True

/-- The chain a key belongs to. -/
def chainId : RedisKey → ℕ
  | cache chainId _ => chainId
  | blockByNumber chainId _ => chainId
  | blockByHash chainId _ => chainId
  | blockLogs chainId _ => chainId
  | headCacheSet chainId => chainId

/-- What follows the chain in a key. It is a digest for the cache of responses, and names the rest
for the other families. -/
def suffix {Text : Type} (serde : SerdeJson Text) (blake3 : Blake3 Text) : RedisKey → String
  | cache _ req => blake3.hex (serde.toString (normalizeForCache req))
  | blockByNumber _ number => "block:number:" ++ toString number
  | blockByHash _ hash => "block:hash:" ++ hash
  | blockLogs _ blockNumber => "logs:" ++ toString blockNumber
  | headCacheSet _ => "head_cache"

/-- The five functions, without their arguments. -/
inductive Family
  | cache
  | blockByNumber
  | blockByHash
  | blockLogs
  | headCacheSet

/-- The function that was called. -/
def family : RedisKey → Family
  | cache _ _ => .cache
  | blockByNumber _ _ => .blockByNumber
  | blockByHash _ _ => .blockByHash
  | blockLogs _ _ => .blockLogs
  | headCacheSet _ => .headCacheSet

/-- The family that a suffix shows. Every pattern has a letter that no digest has, so a digest is
what is left. -/
def familyOf : List Char → Family
  | 'b' :: 'l' :: 'o' :: 'c' :: 'k' :: ':' :: 'n' :: _ => .blockByNumber
  | 'b' :: 'l' :: 'o' :: 'c' :: 'k' :: ':' :: 'h' :: _ => .blockByHash
  | 'l' :: _ => .blockLogs
  | 'h' :: _ => .headCacheSet
  | _ => .cache

variable {Text : Type} {serde : SerdeJson Text} {blake3 : Blake3 Text}

theorem render_eq_chainKey (k : RedisKey) :
    k.render serde blake3 = chainKey k.chainId (k.suffix serde blake3) := by
  cases k <;> rfl

/-- A digest is taken for a digest: every pattern has a letter that is no hexadecimal digit. -/
theorem familyOf_hex (blake3 : Blake3 Text) (t : Text) :
    familyOf (blake3.hex t).toList = .cache := by
  have hletter : ∀ {x : Char}, toDigit16 x = none → x ∉ (blake3.hex t).toList := by
    intro x hx hmem
    have := blake3.hex_digits t x hmem
    rw [hx] at this
    exact absurd this (by simp)
  unfold familyOf
  split
  · rename_i htext
    exact absurd (by simp [htext]) (hletter (x := 'l') (by decide))
  · rename_i htext
    exact absurd (by simp [htext]) (hletter (x := 'l') (by decide))
  · rename_i htext
    exact absurd (by simp [htext]) (hletter (x := 'l') (by decide))
  · rename_i htext
    exact absurd (by simp [htext]) (hletter (x := 'h') (by decide))
  · rfl

/-- **A key shows its family.** -/
theorem familyOf_suffix (k : RedisKey) : familyOf (k.suffix serde blake3).toList = k.family := by
  cases k with
  | cache c req => exact familyOf_hex blake3 _
  | blockByNumber c n => simp [suffix, familyOf, family]
  | blockByHash c hash => simp [suffix, familyOf, family]
  | blockLogs c n => simp [suffix, familyOf, family]
  | headCacheSet c => simp [suffix, familyOf, family]

theorem family_eq_of_suffix {k k' : RedisKey}
    (h : k.suffix serde blake3 = k'.suffix serde blake3) : k.family = k'.family := by
  rw [← @familyOf_suffix _ serde blake3 k, h, familyOf_suffix]

theorem render_congr {k k' : RedisKey} (h : k.Same k') :
    k.render serde blake3 = k'.render serde blake3 := by
  cases k with
  | cache c a =>
    cases k' with
    | cache d b =>
      obtain ⟨rfl, hmethod, hparams⟩ := h
      exact cacheKey_congr serde blake3 c hmethod hparams
    | _ => exact h.elim
  | blockByNumber c m =>
    cases k' with
    | blockByNumber d n =>
      obtain ⟨rfl, rfl⟩ := h
      rfl
    | _ => exact h.elim
  | blockByHash c g =>
    cases k' with
    | blockByHash d g' =>
      obtain ⟨rfl, rfl⟩ := h
      rfl
    | _ => exact h.elim
  | blockLogs c m =>
    cases k' with
    | blockLogs d n =>
      obtain ⟨rfl, rfl⟩ := h
      rfl
    | _ => exact h.elim
  | headCacheSet c =>
    cases k' with
    | headCacheSet d =>
      obtain rfl : c = d := h
      rfl
    | _ => exact h.elim

/-- And calls that return the same key are the same, where digests are apart. -/
theorem same_of_render {reqs : Set JsonRpcRequest} (hdigests : blake3.Separates serde reqs)
    {k k' : RedisKey} (hk : k.Over reqs) (hk' : k'.Over reqs)
    (h : k.render serde blake3 = k'.render serde blake3) : k.Same k' := by
  have hparts := h
  rw [render_eq_chainKey, render_eq_chainKey, chainKey_inj] at hparts
  obtain ⟨hchain, hsuffix⟩ := hparts
  have hfamily := family_eq_of_suffix hsuffix
  cases k with
  | cache c a =>
    cases k' with
    | cache d b => exact hdigests.eq_of_cacheKey hk hk' h
    | _ => cases hfamily
  | blockByNumber c m =>
    cases k' with
    | blockByNumber d n => exact ⟨hchain, toString_nat_inj ((String.append_right_inj _).mp hsuffix)⟩
    | _ => cases hfamily
  | blockByHash c g =>
    cases k' with
    | blockByHash d g' => exact ⟨hchain, (String.append_right_inj _).mp hsuffix⟩
    | _ => cases hfamily
  | blockLogs c m =>
    cases k' with
    | blockLogs d n => exact ⟨hchain, toString_nat_inj ((String.append_right_inj _).mp hsuffix)⟩
    | _ => cases hfamily
  | headCacheSet c =>
    cases k' with
    | headCacheSet d => exact hchain
    | _ => cases hfamily

end RedisKey

/-- **The key space.** Where the digests of the requests are apart, two keys are equal exactly when
they are one key of one family: the text that is hashed is the compact text of the request with its
id and version left out, and it never makes two requests one. -/
theorem redisKey_render_iff (f : FloatText) {blake3 : Blake3 (List Char)}
    {reqs : Set JsonRpcRequest} (hdigests : blake3.Separates (.compact f) reqs) {k k' : RedisKey}
    (hk : k.Over reqs) (hk' : k'.Over reqs) :
    k.render (.compact f) blake3 = k'.render (.compact f) blake3 ↔ k.Same k' :=
  ⟨RedisKey.same_of_render hdigests hk hk', RedisKey.render_congr⟩

/-- A request without parameters for the newest block number. -/
def newestNumberRequest (id : Value) : JsonRpcRequest where
  jsonrpc := "2.0"
  method := "eth_blockNumber"
  params := .array []
  id := id

/-- A request for the balance of an account. -/
def accountRequest (id : Value) : JsonRpcRequest where
  jsonrpc := "2.0"
  method := "eth_getBalance"
  params := .array [.string "0xabc", .string "latest"]
  id := id

/-- The digests of the texts of these two requests. -/
def twoDigestsHex (text : List Char) : String :=
  if text = Value.print pointedBits (normalizeForCache (newestNumberRequest .null)) then
    "31cc3616b2fccee0ab084addfaa8f53d99fba2279f291569c275f5aaf9fcf6b1"
  else "2a4c222b80fd651378c62764fe596794173dce5f0a430145970c0476f0e1bf34"

theorem twoDigestsHex_digits (text : List Char) :
    ∀ c ∈ (twoDigestsHex text).toList, (toDigit16 c).isSome := by
  unfold twoDigestsHex
  split
  · exact List.all_eq_true.mp (by decide)
  · exact List.all_eq_true.mp (by decide)

/-- A digest that tells these two requests apart. -/
def twoDigests : Blake3 (List Char) := ⟨twoDigestsHex, twoDigestsHex_digits⟩

/-- The two requests have keys of their own on one chain. -/
theorem redisKey_render_iff_twoRequests :
    (RedisKey.cache 1 (newestNumberRequest (.ofU64 1))).render (.compact pointedBits) twoDigests =
        (RedisKey.cache 1 (accountRequest (.ofU64 42))).render (.compact pointedBits) twoDigests ↔
      (RedisKey.cache 1 (newestNumberRequest (.ofU64 1))).Same
        (.cache 1 (accountRequest (.ofU64 42))) := by
  have hdigests : twoDigests.Separates (.compact pointedBits)
      {newestNumberRequest (.ofU64 1), accountRequest (.ofU64 42)} := by
    have hne : twoDigests.hex (Value.print pointedBits
        (normalizeForCache (newestNumberRequest (.ofU64 1)))) ≠
        twoDigests.hex (Value.print pointedBits
          (normalizeForCache (accountRequest (.ofU64 42)))) := by decide +kernel
    rintro _ ⟨a, rfl | rfl, rfl⟩ _ ⟨b, rfl | rfl, rfl⟩ h
    · rfl
    · exact absurd h hne
    · exact absurd h.symm hne
    · rfl
  exact redisKey_render_iff pointedBits hdigests (.inl rfl) (.inr rfl)

end Poolbeg
