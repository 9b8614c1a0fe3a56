import Poolbeg.Rpc.Handler

/-!
# Which responses are stored as final

A response stored with `is_unfinalized = false` gets the TTL of the finalized class, up to forever,
and is not recorded in the head cache set, so no reorg invalidates it. The flag is decided by the
block tags among the parameters: first by the one at the method's tag position, then by the first
one in any position.

## Two kinds of tags, and one in between

A tag is *head relative* when it is one of `latest`, `pending` and `safe`, and *final* when it is
`earliest` or `finalized`. Both scans stop at the first tag of either kind, and `finalized` is final
by decision although the block it names moves with the head. At the tag position it is rewritten to
a number as soon as a head is known; before that, and in every other position, it stays. So what a
response stored as final guarantees about its request depends on whether a head was known when the
request was resolved, and on which of the two scans decided.

## What is read off the commands

Whether a response is stored, and whether it is tracked, is visible in the commands that
`forward_to_upstream` issues: one `SET`, and for a tracked one also the `SADD` into the head cache
set. `StoredFinal` is stated with the source's own predicate, and is shown to be the same as the
`SET` alone.

## Main definitions

* `IsHeadTag`, `IsFinalTag`, `MovesWithHead` — kinds of tags
* `StoredFinal` — stored with `is_unfinalized = false`
* `FinalTags` — what the parameters of such a request are like

## Main results

* `blockRefIsUnfinalized_eq_false` — the two ways of being counted as final
* `storedFinal_iff_commands` — such a response is exactly what is stored and not tracked
* `StoredFinal.finalTags` — what the parameters of such a request look like
-/

namespace Poolbeg

/-! ### Tags -/

def IsHeadTag (tag : String) : Prop := tag = "latest" ∨ tag = "pending" ∨ tag = "safe"

def IsFinalTag (tag : String) : Prop := tag = "earliest" ∨ tag = "finalized"

/-- The block a tag names moves with the head. `earliest` is the only tag of the protocol that names
a fixed one. -/
def MovesWithHead (tag : String) : Prop := IsHeadTag tag ∨ tag = "finalized"

theorem tagIsUnfinalized_eq_false {tag : String} :
    tagIsUnfinalized tag = some false ↔ IsFinalTag tag := by
  rw [tagIsUnfinalized, IsFinalTag]
  split_ifs with hhead hfinal
  · refine iff_of_false (by simp) ?_
    rcases hhead with rfl | rfl | rfl <;> simp
  · exact iff_of_true rfl hfinal
  · exact iff_of_false (by simp) hfinal

theorem tagIsUnfinalized_eq_none {tag : String} :
    tagIsUnfinalized tag = none ↔ ¬ IsHeadTag tag ∧ ¬ IsFinalTag tag := by
  rw [tagIsUnfinalized]
  split_ifs with hhead hfinal
  · exact iff_of_false (by simp) fun h => h.1 hhead
  · exact iff_of_false (by simp) fun h => h.2 hfinal
  · exact iff_of_true rfl ⟨hhead, hfinal⟩

theorem IsFinalTag.not_isHeadTag {tag : String} (h : IsFinalTag tag) : ¬ IsHeadTag tag := by
  rcases h with rfl | rfl <;> simp [IsHeadTag]

/-- The scan ends on a final tag before it has met a head-relative one. What comes after that tag is
not looked at. -/
theorem scanTags_eq_false {params : Value} (h : scanTags params = some false) :
    ∃ before tag after, params = .array (before ++ .string tag :: after) ∧ IsFinalTag tag ∧
      ∀ t, .string t ∈ before → ¬ IsHeadTag t := by
  obtain ⟨arr, harr, hscan⟩ := Option.bind_eq_some_iff.mp h
  rw [Value.asArray_eq_some] at harr
  obtain ⟨before, param, after, rfl, hparam, hbefore⟩ := List.findSome?_eq_some_iff.mp hscan
  obtain ⟨tag, htag, hfinal⟩ := Option.bind_eq_some_iff.mp hparam
  rw [Value.asStr_eq_some] at htag
  subst htag
  refine ⟨before, tag, after, harr, tagIsUnfinalized_eq_false.mp hfinal, fun t ht => ?_⟩
  have hnone : tagIsUnfinalized t = none := hbefore (.string t) ht
  exact (tagIsUnfinalized_eq_none.mp hnone).1

/-- The two ways of being counted as final: by the tag at the tag position, or, if it decides
nothing, by the scan over all parameters. -/
theorem blockRefIsUnfinalized_eq_false {req : JsonRpcRequest} {finalityDepth : ℕ} :
    blockRefIsUnfinalized req finalityDepth = false ↔
      (∃ tag, req.tagParam = some tag ∧ IsFinalTag tag) ∨
        (req.tagParam.bind tagIsUnfinalized = none ∧ scanTags req.params = some false) := by
  rw [blockRefIsUnfinalized]
  cases htag : req.tagParam.bind tagIsUnfinalized with
  | none =>
    have hnot : ¬ ∃ tag, req.tagParam = some tag ∧ IsFinalTag tag := by
      rintro ⟨tag, hparam, hfinal⟩
      rw [hparam, Option.bind_some, tagIsUnfinalized_eq_false.mpr hfinal] at htag
      exact absurd htag (by simp)
    cases scanTags req.params <;> simp [hnot]
  | some b =>
    obtain ⟨tag, hparam, hb⟩ := Option.bind_eq_some_iff.mp htag
    cases b with
    | true =>
      have hnot : ¬ IsFinalTag tag := by
        intro hfinal
        rw [tagIsUnfinalized_eq_false.mpr hfinal] at hb
        exact absurd hb (by simp)
      simp [hparam, hnot]
    | false => simpa [hparam] using tagIsUnfinalized_eq_false.mp hb

/-- The string at the tag position is a parameter. -/
theorem JsonRpcRequest.mem_of_tagParam {req : JsonRpcRequest} {tag : String}
    (h : req.tagParam = some tag) : ∃ arr, req.params = .array arr ∧ .string tag ∈ arr := by
  simp only [JsonRpcRequest.tagParam, Option.bind_eq_bind, Option.bind_eq_some_iff] at h
  obtain ⟨idx, -, arr, harr, param, hparam, htag⟩ := h
  rw [Value.asArray_eq_some] at harr
  rw [Value.asStr_eq_some] at htag
  exact ⟨arr, harr, htag ▸ List.mem_of_getElem? hparam⟩

/-! ### Resolving tags -/

/-- What a tag is replaced by is no tag. It is a number in hexadecimal. -/
theorem resolveTag_ne {tag resolved : String} {latestBlock finalityDepth : ℕ}
    (h : resolveTag tag latestBlock finalityDepth = some resolved) : ¬ MovesWithHead resolved := by
  have hex : ∀ n, ¬ MovesWithHead (formatHex n) := by
    rintro n (h | h)
    · rcases h with h | h | h <;> simpa [formatHex_toList] using congrArg String.toList h
    · simpa [formatHex_toList] using congrArg String.toList h
  rw [resolveTag] at h
  split_ifs at h
  · exact Option.some.inj h ▸ hex _
  · exact Option.some.inj h ▸ hex _
  · rw [← Option.some.inj h]
    simp [MovesWithHead, IsHeadTag]

theorem resolveTag_eq_none {tag : String} {latestBlock finalityDepth : ℕ}
    (h : resolveTag tag latestBlock finalityDepth = none) (hmoves : MovesWithHead tag) :
    tag = "pending" := by
  rw [resolveTag] at h
  split_ifs at h with hlatest hsafe hearliest
  rcases hmoves with (h | h | h) | h
  · exact absurd h hlatest
  · exact h
  · exact absurd (.inl h) hsafe
  · exact absurd (.inr h) hsafe

/-- Resolution acts on the string at the tag position. -/
theorem tagParam_resolveBlockTags (req : JsonRpcRequest) (latestBlock finalityDepth : ℕ) :
    (resolveBlockTags req latestBlock finalityDepth).tagParam =
      req.tagParam.map fun tag => (resolveTag tag latestBlock finalityDepth).getD tag := by
  rw [JsonRpcRequest.tagParam, JsonRpcRequest.tagParam, resolveBlockTags_method, resolveBlockTags]
  cases hidx : blockTagParamIndex req.method with
  | none => rfl
  | some idx =>
    cases harr : req.params.asArray with
    | none => simp [harr]
    | some arr =>
      cases hparam : arr[idx]? with
      | none => simp [harr, hparam]
      | some param =>
        cases htag : param.asStr with
        | none => simp [harr, hparam, htag]
        | some tag =>
          cases hresolved : resolveTag tag latestBlock finalityDepth with
          | none => simp [harr, hparam, htag, hresolved]
          | some resolved =>
            have hlt : idx < arr.length := (List.getElem?_eq_some_iff.mp hparam).1
            simp [hparam, htag, hresolved, List.getElem?_set_self hlt]

/-! ### Storing as final -/

/-- What the parameters of a request are like whose response is stored as final, given the head when
the request was resolved: some parameter is a final tag; the tag position holds no head-relative
tag; unless it holds a final tag itself, no parameter before the first final tag is head relative;
and once a head is known the tag position names no block that moves with it. -/
structure FinalTags (latest : Option ℕ) (sent : JsonRpcRequest) : Prop where
  final : ∃ arr tag, sent.params = .array arr ∧ .string tag ∈ arr ∧ IsFinalTag tag
  position : ∀ tag, sent.tagParam = some tag → ¬ IsHeadTag tag
  before : (∃ tag, sent.tagParam = some tag ∧ IsFinalTag tag) ∨
    ∃ before tag after, sent.params = .array (before ++ .string tag :: after) ∧
      IsFinalTag tag ∧ ∀ t, .string t ∈ before → ¬ IsHeadTag t
  resolved : latest ≠ none → ∀ tag, sent.tagParam = some tag → ¬ MovesWithHead tag

section Store

variable {Text : Type} (serde : SerdeJson Text) (blake3 : Blake3 Text) (cache : CacheConfig)
  (chain : ChainConfig)

/-- `forward_to_upstream` stores the response `resp` to the request `req`, with `is_unfinalized =
false`. A TTL of -1 for the class means that nothing is stored. -/
def StoredFinal (req : JsonRpcRequest) (resp : JsonRpcResponse) : Prop :=
  storeAnswer serde blake3 cache chain req (.ok resp) ≠ [] ∧
    blockRefIsUnfinalized req chain.finalityDepth = false

variable {serde blake3 cache chain} {req : JsonRpcRequest} {resp : JsonRpcResponse}

/-- Such a response is one that is stored without being tracked for invalidation: the only command
is a `SET`. -/
theorem storedFinal_iff_commands : StoredFinal serde blake3 cache chain req resp ↔
    ∃ value px, storeAnswer serde blake3 cache chain req (.ok resp) =
      [.set (cacheKey serde blake3 chain.chainId req) value px] := by
  rw [StoredFinal, storeAnswer]
  by_cases hcacheable : (!isUncacheable req.method && resp.error.isNone) = true
  · rw [if_pos hcacheable, CacheLayer.set]
    cases resolveTtl cache req.method (blockRefIsUnfinalized req chain.finalityDepth) with
    | none => simp
    | some ttl =>
      cases blockRefIsUnfinalized req chain.finalityDepth with
      | true => simp
      | false =>
        by_cases httl : ttl = 0
        · simp [RedisClient.set, httl]
        · simp [RedisClient.set, httl]
  · rw [if_neg hcacheable]
    simp

/-- **What a response stored as final says about the parameters of its request.** -/
theorem StoredFinal.finalTags {latest : Option ℕ}
    (h : StoredFinal serde blake3 cache chain (resolveForHead latest chain.finalityDepth req)
      resp) :
    FinalTags latest (resolveForHead latest chain.finalityDepth req) := by
  set sent := resolveForHead latest chain.finalityDepth req with hsent
  have hfinal := blockRefIsUnfinalized_eq_false.mp h.2
  have hscan : (∃ tag, sent.tagParam = some tag ∧ IsFinalTag tag) ∨
      ∃ before tag after, sent.params = .array (before ++ .string tag :: after) ∧
        IsFinalTag tag ∧ ∀ t, .string t ∈ before → ¬ IsHeadTag t :=
    hfinal.imp_right fun hscan => scanTags_eq_false hscan.2
  have hposition : ∀ tag, sent.tagParam = some tag → ¬ IsHeadTag tag := by
    intro tag htag
    rcases hfinal with ⟨tag', htag', hfinal⟩ | ⟨hnone, -⟩
    · obtain rfl := Option.some.inj (htag.symm.trans htag')
      exact hfinal.not_isHeadTag
    · have htag' : tagIsUnfinalized tag = none := by
        rw [← hnone]
        exact (congrArg (·.bind tagIsUnfinalized) htag).symm
      exact (tagIsUnfinalized_eq_none.mp htag').1
  refine ⟨?_, hposition, hscan, ?_⟩
  · rcases hscan with ⟨tag, htag, hfinal⟩ | ⟨before, tag, after, hparams, hfinal, -⟩
    · obtain ⟨arr, harr, hmem⟩ := JsonRpcRequest.mem_of_tagParam htag
      exact ⟨arr, tag, harr, hmem, hfinal⟩
    · exact ⟨_, tag, hparams, List.mem_append_right _ List.mem_cons_self, hfinal⟩
  · intro hlatest tag htag hmoves
    obtain ⟨latestBlock, rfl⟩ := Option.ne_none_iff_exists'.mp hlatest
    have htag' := htag
    rw [hsent, resolveForHead, tagParam_resolveBlockTags, Option.map_eq_some_iff] at htag'
    obtain ⟨original, -, hresolved⟩ := htag'
    cases hr : resolveTag original latestBlock chain.finalityDepth with
    | some resolved =>
      rw [hr, Option.getD_some] at hresolved
      exact resolveTag_ne hr (hresolved ▸ hmoves)
    | none =>
      -- only `pending` survives, and a head-relative tag is not counted as final
      rw [hr, Option.getD_none] at hresolved
      subst hresolved
      obtain rfl := resolveTag_eq_none hr hmoves
      exact hposition "pending" htag (.inr (.inl rfl))

end Store

/-- A balance at the finalized block, asked for before any head is known. -/
def finalizedBalance : JsonRpcRequest where
  jsonrpc := "2.0"
  method := "eth_getBalance"
  params := .array [.string "0xabc", .string "finalized"]
  id := .ofU64 1

/-- The digest of `finalizedBalance`. -/
def finalizedBalanceDigest : Blake3 Value :=
  .const "5cdcb43cdd8397de6d19c29e4b5e16002ca7974d09bfb51dae753745f602ddad" (by decide)

/-- The response to `finalizedBalance` is stored for an hour and is not tracked. -/
theorem storedFinal_finalizedBalance :
    StoredFinal .tree finalizedBalanceDigest ⟨[]⟩ ⟨1, 64⟩
      (resolveForHead none 64 finalizedBalance) (.success (.ofU64 1) (.string "0x10")) := by
  refine ⟨?_, by decide⟩
  exact List.cons_ne_nil _ _

theorem finalizedBalance_finalTags : FinalTags none (resolveForHead none 64 finalizedBalance) :=
  storedFinal_finalizedBalance.finalTags

/-- `finalized` is a parameter of the request that was sent, and its response is stored as final. -/
theorem finalizedBalance_movesWithHead :
    StoredFinal .tree finalizedBalanceDigest ⟨[]⟩ ⟨1, 64⟩
        (resolveForHead none 64 finalizedBalance) (.success (.ofU64 1) (.string "0x10")) ∧
      ∃ arr tag, (resolveForHead none 64 finalizedBalance).params = .array arr ∧
        .string tag ∈ arr ∧ MovesWithHead tag :=
  ⟨storedFinal_finalizedBalance, _, "finalized", rfl, by simp, .inr rfl⟩

end Poolbeg
