import Mathlib.Data.Set.Function
import Poolbeg.Rpc.Types

/-!
# The Redis key space

The embedding of `cache/keys.rs`. Every key is `poolbeg:{chain_id}:` followed by a suffix of its
family. A decimal number has no colon, so the chain id can be read off a key, and what is left to
compare are suffixes (`chainKey_inj`).

`blake3` is a parameter: a `Blake3 Text` is a function from texts to strings of hexadecimal digits.
The suffixes of the other families contain a letter that is not a hexadecimal digit, so they are
never the digest of a request.

## What is asked of the digest

A digest of 256 bits is not injective, and nothing here says that it is. `Blake3.Separates` asks for
no more than that the texts of a given set of requests have different digests; a result about a run
asks it of the requests of that run. What differs in two requests before anything is hashed, on the
other hand, is proved: the text of a value determines the value.

## Main definitions

* `Blake3`, `cacheKey` — the key of a response
* `blockByNumberKey`, `blockByHashKey`, `blockLogsKey` — the keys of the block tracker
* `headCacheSetKey` — the key of the set that names the entries of a chain that are not final
* `Blake3.Separates` — no collisions among given requests

## Main results

* `chainKey_inj` — a key determines its chain and its suffix
* `cacheKey_ne_chainKey` — the key of a request is in a family of its own
* `Blake3.Separates.eq_of_cacheKey` — where digests are apart, keys are as good as requests
-/

namespace Poolbeg

/-- The digest of a text, in lower-case hexadecimal. That it has only such digits is all that is
known of one. -/
structure Blake3 (Text : Type) where
  hex : Text → String
  hex_digits : ∀ t, ∀ c ∈ (hex t).toList, (toDigit16 c).isSome

/-- One digest for every text. It is as far from injective as can be, and serves for runs in which
no digest is compared with another. -/
def Blake3.const {Text : Type} (digest : String)
    (h : digest.toList.all fun c => (toDigit16 c).isSome) : Blake3 Text where
  hex _ := digest
  hex_digits _ := List.all_eq_true.mp h

/-- A key of a chain, by its suffix. -/
def chainKey (chainId : ℕ) (suffix : String) : String :=
  "poolbeg:" ++ toString chainId ++ ":" ++ suffix

/-- `poolbeg:{chain_id}:{blake3_hash}`. The id of the request does not go into the key, so two
clients that ask for the same share it. -/
def cacheKey {Text : Type} (serde : SerdeJson Text) (blake3 : Blake3 Text) (chainId : ℕ)
    (req : JsonRpcRequest) : String :=
  chainKey chainId (blake3.hex (serde.toString (normalizeForCache req)))

/-- Key of a block by number. -/
def blockByNumberKey (chainId number : ℕ) : String :=
  chainKey chainId ("block:number:" ++ toString number)

/-- Key of a block by hash. The hash is what an upstream has sent, and may be any string. -/
def blockByHashKey (chainId : ℕ) (hash : String) : String :=
  chainKey chainId ("block:hash:" ++ hash)

/-- Key of the logs of a block. -/
def blockLogsKey (chainId blockNumber : ℕ) : String :=
  chainKey chainId ("logs:" ++ toString blockNumber)

/-- Key of the set of unfinalized entries of a chain. -/
def headCacheSetKey (chainId : ℕ) : String := chainKey chainId "head_cache"

/-! ### Reading a key -/

theorem colon_not_mem_toString (n : ℕ) : ':' ∉ (toString n).toList := by
  intro h
  rw [Nat.toString_eq_ofList_toDigits, String.toList_ofList] at h
  have hdigit := Nat.isDigit_of_mem_toDigits (by norm_num) (by norm_num) h
  exact absurd hdigit (by decide)

/-- A list determines what stands before and after the first occurrence of a separator. -/
theorem append_cons_inj_of_not_mem {α : Type*} {a : α} {us vs : List α} :
    ∀ {xs ys : List α}, a ∉ xs → a ∉ ys → xs ++ a :: us = ys ++ a :: vs → xs = ys ∧ us = vs
  | [], [], _, _, h => ⟨rfl, List.tail_eq_of_cons_eq h⟩
  | [], y :: ys, _, hys, h => by
    obtain ⟨rfl, -⟩ := List.cons.inj h
    exact absurd List.mem_cons_self hys
  | x :: xs, [], hxs, _, h => by
    obtain ⟨rfl, -⟩ := List.cons.inj h
    exact absurd List.mem_cons_self hxs
  | x :: xs, y :: ys, hxs, hys, h => by
    obtain ⟨rfl, htail⟩ := List.cons.inj h
    obtain ⟨rfl, hrest⟩ := append_cons_inj_of_not_mem
      (fun hmem => hxs (List.mem_cons_of_mem _ hmem))
      (fun hmem => hys (List.mem_cons_of_mem _ hmem)) htail
    exact ⟨rfl, hrest⟩

/-- **A key determines its chain and its suffix.** -/
theorem chainKey_inj {c d : ℕ} {s t : String} : chainKey c s = chainKey d t ↔ c = d ∧ s = t := by
  constructor
  · intro h
    have hlist : (toString c).toList ++ ':' :: s.toList =
        (toString d).toList ++ ':' :: t.toList := by
      simpa [chainKey, String.toList_append] using congrArg String.toList h
    obtain ⟨hchain, hsuffix⟩ :=
      append_cons_inj_of_not_mem (colon_not_mem_toString c) (colon_not_mem_toString d) hlist
    exact ⟨toString_nat_inj (String.toList_inj.mp hchain), String.toList_inj.mp hsuffix⟩
  · rintro ⟨rfl, rfl⟩
    rfl

theorem chainKey_ne_of_head {c d : ℕ} {s t : String} (h : s.toList.head? ≠ t.toList.head?) :
    chainKey c s ≠ chainKey d t := by
  intro hkey
  rw [(chainKey_inj.mp hkey).2] at h
  exact h rfl

/-- A suffix with a character that is no hexadecimal digit belongs to no request. -/
theorem cacheKey_ne_chainKey {Text : Type} (serde : SerdeJson Text) (blake3 : Blake3 Text)
    {c d : ℕ} {req : JsonRpcRequest} {suffix : String} {x : Char} (hx : x ∈ suffix.toList)
    (hdigit : toDigit16 x = none) : cacheKey serde blake3 c req ≠ chainKey d suffix := by
  intro h
  obtain ⟨-, rfl⟩ := chainKey_inj.mp h
  have := blake3.hex_digits _ x hx
  rw [hdigit] at this
  exact absurd this (by simp)

/-! ### What a digest stands for -/

/-- What is hashed of a request is its method and its parameters, and these two only. -/
theorem normalizeForCache_inj {a b : JsonRpcRequest} :
    normalizeForCache a = normalizeForCache b ↔ a.method = b.method ∧ a.params = b.params := by
  simp [normalizeForCache]

theorem SerdeJson.toString_injective {Text : Type} (serde : SerdeJson Text) :
    Function.Injective serde.toString := by
  intro v w h
  have hread := congrArg serde.fromStr h
  rw [serde.fromStr_toString, serde.fromStr_toString] at hread
  exact Option.some.inj hread

/-- The texts of these requests that are hashed have no two with one digest. Two requests with one
text are no exception: they have one digest, as they should. -/
def Blake3.Separates {Text : Type} (blake3 : Blake3 Text) (serde : SerdeJson Text)
    (reqs : Set JsonRpcRequest) : Prop :=
  Set.InjOn blake3.hex ((fun req => serde.toString (normalizeForCache req)) '' reqs)

/-- **Where digests are apart, a key determines the method and the parameters.** -/
theorem Blake3.Separates.eq_of_cacheKey {Text : Type} {blake3 : Blake3 Text}
    {serde : SerdeJson Text} {reqs : Set JsonRpcRequest} (h : blake3.Separates serde reqs)
    {c d : ℕ} {a b : JsonRpcRequest} (ha : a ∈ reqs) (hb : b ∈ reqs)
    (hkey : cacheKey serde blake3 c a = cacheKey serde blake3 d b) :
    c = d ∧ a.method = b.method ∧ a.params = b.params := by
  obtain ⟨hchain, hdigest⟩ := chainKey_inj.mp hkey
  have htext := h (Set.mem_image_of_mem _ ha) (Set.mem_image_of_mem _ hb) hdigest
  exact ⟨hchain, normalizeForCache_inj.mp (serde.toString_injective htext)⟩

theorem cacheKey_congr {Text : Type} (serde : SerdeJson Text) (blake3 : Blake3 Text) (c : ℕ)
    {a b : JsonRpcRequest} (hmethod : a.method = b.method) (hparams : a.params = b.params) :
    cacheKey serde blake3 c a = cacheKey serde blake3 c b := by
  rw [cacheKey, cacheKey, normalizeForCache_inj.mpr ⟨hmethod, hparams⟩]

end Poolbeg
