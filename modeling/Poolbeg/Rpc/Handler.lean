import Poolbeg.Cache.Layer
import Poolbeg.Rpc.ResponseLog

/-!
# The functions of the request handler

The parts of `rpc/handler.rs` that compute without waiting: what is served from memory, which
request goes upstream, what is stored and what is answered once the upstream call has returned, and
the first and third pass over a batch. The waiting parts are steps of the system in
`Poolbeg.Rpc.Tasks`.

The upstream call itself is not modelled: an `Answer` is whatever `ChainManager::forward_request`
returns, a response or the text of an error.

## A batch in three passes

The first pass looks at all items and marks those that have the key of an earlier one. The second
processes the others, one after the other. The third walks over the positions again and fills the
marked ones with a clone of the response that their original got, under their own id. Uncacheable
and blocked requests are never compared, so they are never marked and each is processed by itself.

The third pass unwraps every position. That there is a response for each of them is not something
the types say, so `thirdPass` can fail here, and that it never does is a result about the second
pass.

## Main definitions

* `ChainConfig`, `AppConfig` — what the handler reads of the configuration
* `tryMemoryIntercept`, `resolveForHead` — before the cache
* `storeAnswer`, `respond` — after the upstream call
* `batchKey`, `firstPass`, `thirdPass` — the passes that compute

## Main results

* `tryMemoryIntercept_id`, `respond_id` — the responses made here carry the id they are given
* `thirdPassFrom_getElem?` — the third pass position by position
-/

namespace Poolbeg

/-- What the handler reads of a chain's configuration. -/
structure ChainConfig where
  chainId : ℕ
  finalityDepth : ℕ

/-- What the handler reads of the configuration; `ι` indexes the chains. `debugClient` is the log of
the client's side. -/
structure AppConfig (ι : Type) where
  chains : ι → ChainConfig
  cache : CacheConfig
  blockedMethods : List String
  maxBatchSize : ℕ
  debugClient : DebugLog

/-- The result of `ChainManager::forward_request`. The text of an error becomes part of a message.
-/
abbrev Answer : Type := Except String JsonRpcResponse

/-! ### A single request -/

/-- `try_memory_intercept`: what is answered without asking anybody. `latest` is `None` until a
block has been tracked. -/
def tryMemoryIntercept (chainId : ℕ) (latest : Option ℕ) (method : String) (originalId : Value) :
    Option JsonRpcResponse :=
  if method = "eth_chainId" then
    some (.success originalId (.string (formatHex chainId)))
  else if method = "net_version" then
    some (.success originalId (.string (toString chainId)))
  else if method = "eth_blockNumber" then
    latest.map fun blockNum => .success originalId (.string (formatHex blockNum))
  else none

/-- What is served from memory has the id of the request. -/
theorem tryMemoryIntercept_id {chainId : ℕ} {latest : Option ℕ} {method : String}
    {originalId : Value} {resp : JsonRpcResponse}
    (h : tryMemoryIntercept chainId latest method originalId = some resp) :
    resp.id = originalId := by
  rw [tryMemoryIntercept] at h
  split_ifs at h
  · exact Option.some.inj h ▸ rfl
  · exact Option.some.inj h ▸ rfl
  · obtain ⟨_, -, rfl⟩ := Option.map_eq_some_iff.mp h
    rfl

/-- The request as it is looked up and sent upstream. Before any block has been tracked, tags are
left as they are. -/
def resolveForHead (latest : Option ℕ) (finalityDepth : ℕ) (req : JsonRpcRequest) :
    JsonRpcRequest :=
  match latest with
  | some latestBlock => resolveBlockTags req latestBlock finalityDepth
  | none => req

/-- The method stays, so a request is blocked or uncacheable before as after. -/
@[simp] theorem resolveForHead_method (latest : Option ℕ) (finalityDepth : ℕ)
    (req : JsonRpcRequest) : (resolveForHead latest finalityDepth req).method = req.method := by
  cases latest <;> rfl

/-- The JSON-RPC code of an internal error. -/
def internalError : I64 := ⟨-32603, by norm_num⟩

/-- The JSON-RPC code of a method that does not exist. -/
def methodNotFound : I64 := ⟨-32601, by norm_num⟩

/-- What `forward_to_upstream` returns. An error of the upstream's own is a response like any other;
only a failure of the call becomes an internal error. -/
def respond (originalId : Value) : Answer → JsonRpcResponse
  | .ok resp => resp.withId originalId
  | .error e => .ofError originalId internalError ("upstream error: " ++ e)

@[simp] theorem respond_id (originalId : Value) (answer : Answer) :
    (respond originalId answer).id = originalId := by
  cases answer <;> rfl

variable {Text : Type} (serde : SerdeJson Text) (blake3 : Blake3 Text)

/-- What `forward_to_upstream` stores: nothing for an error, of whichever kind, and nothing for an
uncacheable request. -/
def storeAnswer (cache : CacheConfig) (chain : ChainConfig) (req : JsonRpcRequest) :
    Answer → List (Command Text)
  | .ok resp =>
    if !isUncacheable req.method && resp.error.isNone then
      let isUnfinalized := blockRefIsUnfinalized req chain.finalityDepth
      CacheLayer.set serde blake3 cache chain.chainId req resp isUnfinalized
    else []
  | .error _ => []

/-! ### A batch -/

/-- The key under which a batch item is compared, if it is compared at all. Tags are not resolved
yet, so `latest` and the number it stands for are apart. -/
def batchKey (chainId : ℕ) (blocked : List String) (req : JsonRpcRequest) : Option String :=
  if !isUncacheable req.method && !isMethodBlocked req.method blocked then
    some (cacheKey serde blake3 chainId req)
  else none

/-- The first pass, from position `i` on: `seen` maps a key to the position that has it, and the
result is the `dedup_map`. -/
def firstPassFrom (chainId : ℕ) (blocked : List String) :
    List (String × ℕ) → ℕ → List JsonRpcRequest → List (Option ℕ)
  | _, _, [] => []
  | seen, i, req :: reqs =>
    match batchKey serde blake3 chainId blocked req with
    | none => none :: firstPassFrom chainId blocked seen (i + 1) reqs
    | some key =>
      match seen.lookup key with
      | some first => some first :: firstPassFrom chainId blocked seen (i + 1) reqs
      | none => none :: firstPassFrom chainId blocked ((key, i) :: seen) (i + 1) reqs

/-- For every item the position of the earlier item it duplicates, if any. -/
def firstPass (chainId : ℕ) (blocked : List String) (reqs : List JsonRpcRequest) :
    List (Option ℕ) :=
  firstPassFrom serde blake3 chainId blocked [] 0 reqs

/-- The response at a position, once duplicates have been filled in. A duplicate gets the clone of
its original under an id of its own. -/
def fillDuplicate (responses : List (Option JsonRpcResponse)) (originalId : Value) :
    Option ℕ → Option JsonRpcResponse → Option JsonRpcResponse
  | none, response => response
  | some first, response =>
    match responses[first]? with
    | some (some original) => some (original.withId originalId)
    | _ => response

/-- The third pass over the positions; `none` is the panic of an `unwrap` on a position that has no
response. -/
def thirdPassFrom (responses : List (Option JsonRpcResponse)) :
    List (Option ℕ) → List JsonRpcRequest → List (Option JsonRpcResponse) →
      Option (List JsonRpcResponse)
  | dup :: dedup, req :: reqs, response :: rest =>
    (fillDuplicate responses req.id dup response).bind fun filled =>
      (thirdPassFrom responses dedup reqs rest).map (filled :: ·)
  | _, _, _ => some []

/-- The third pass over a batch, all positions from the first on. -/
def thirdPass (dedup : List (Option ℕ)) (reqs : List JsonRpcRequest)
    (responses : List (Option JsonRpcResponse)) : Option (List JsonRpcResponse) :=
  thirdPassFrom responses dedup reqs responses

/-! ### What the passes do -/

section Passes

variable {chainId : ℕ} {blocked : List String}

theorem length_firstPassFrom (seen : List (String × ℕ)) (i : ℕ) (reqs : List JsonRpcRequest) :
    (firstPassFrom serde blake3 chainId blocked seen i reqs).length = reqs.length := by
  induction reqs generalizing seen i with
  | nil => rfl
  | cons req reqs ih =>
    rw [firstPassFrom]
    split
    · rw [List.length_cons, ih, List.length_cons]
    · split
      · rw [List.length_cons, ih, List.length_cons]
      · rw [List.length_cons, ih, List.length_cons]

theorem length_firstPass (reqs : List JsonRpcRequest) :
    (firstPass serde blake3 chainId blocked reqs).length = reqs.length :=
  length_firstPassFrom serde blake3 [] 0 reqs

/-- The third pass keeps the positions. -/
theorem thirdPassFrom_getElem? {all : List (Option JsonRpcResponse)} {dup : Option ℕ}
    {req : JsonRpcRequest} {response : Option JsonRpcResponse} :
    ∀ {dedup : List (Option ℕ)} {reqs : List JsonRpcRequest}
      {responses : List (Option JsonRpcResponse)} {out : List JsonRpcResponse} {k : ℕ},
      thirdPassFrom all dedup reqs responses = some out → dedup[k]? = some dup →
      reqs[k]? = some req → responses[k]? = some response →
      ∃ filled, out[k]? = some filled ∧ fillDuplicate all req.id dup response = some filled
  | [], _, _, _, _, _, hdup, _, _ => absurd hdup (by simp)
  | _ :: _, [], _, _, _, _, _, hreq, _ => absurd hreq (by simp)
  | _ :: _, _ :: _, [], _, _, _, _, _, hresponse => absurd hresponse (by simp)
  | _ :: dedup, _ :: reqs, _ :: responses, out, k, h, hdup, hreq, hresponse => by
    rw [thirdPassFrom, Option.bind_eq_some_iff] at h
    obtain ⟨filled, hfilled, h⟩ := h
    obtain ⟨rest, hrest, rfl⟩ := Option.map_eq_some_iff.mp h
    cases k with
    | zero =>
      simp only [List.getElem?_cons_zero, Option.some.injEq] at hdup hreq hresponse
      subst hdup hreq hresponse
      exact ⟨filled, rfl, hfilled⟩
    | succ k =>
      simp only [List.getElem?_cons_succ] at hdup hreq hresponse ⊢
      exact thirdPassFrom_getElem? hrest hdup hreq hresponse

end Passes

end Poolbeg
