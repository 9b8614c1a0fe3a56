import Poolbeg.Rpc.Finality

/-!
# Resolving block tags

What `resolve_block_tags` makes of a request, and how the request it leaves is classified.

It changes the parameter at the method's tag position and nothing else, and that only if it is one
of four tags, each of which stands for a block. A number is no tag, so a second resolution finds
nothing to do, at whatever head; and two tags resolve to the same request just when they stand for
the same block.

## Parameters as a list

The source clones the request, finds the tag position of its method in a table, and writes through
an index if the parameters are an array that is long enough. `resolveParam` is what is written, and
the specification says which position changes and that all others, the length and the other fields
do not. Parameters that are no array are left alone, and so is a position that is missing.

## The class afterwards

`block_ref_is_unfinalized` reads the resolved request. It cannot know what the number at the tag
position stands for and goes on to the other parameters: the first tag among them decides, and where
there is none, the request counts as unfinalized. So a request for `latest` or `safe` keeps its
class, and one for `finalized` or `earliest` loses it, unless some other parameter says otherwise.
The comments of the source say as much: without a tag, the safe side is to track the entry.

## Main definitions

* `IsResolvedTag`, `tagBlock`, `resolveParam` — tags and what replaces them
* `Resolves` — what resolution leaves alone
* `DifferInTag` — two requests with two tags
* `JsonRpcRequest.otherTags` — what the other parameters decide

## Main results

* `resolveBlockTags_idem`, `resolveBlockTags_spec` — what resolution does
* `DifferInTag.normalizeForCache_eq_iff` — when two tags share an entry
* `resolution_class` — what it does to the class of a request
-/

namespace Poolbeg

/-! ### Tags and the blocks they stand for -/

/-- The tags that are replaced. -/
def IsResolvedTag (tag : String) : Prop :=
  tag = "latest" ∨ tag = "safe" ∨ tag = "finalized" ∨ tag = "earliest"

/-- The block a tag stands for, given the head. `safe` and `finalized` stand for the same one, and
at a head below the depth they stand for the block 0. -/
def tagBlock (tag : String) (latestBlock finalityDepth : ℕ) : Option ℕ :=
  if tag = "latest" then some latestBlock
  else if tag = "safe" ∨ tag = "finalized" then some (latestBlock - finalityDepth)
  else if tag = "earliest" then some 0
  else none

/-- A parameter at the tag position, with its tag replaced by the number of the block. Whatever is
no tag, a number or an object among them, stays. -/
def resolveParam (latestBlock finalityDepth : ℕ) (param : Value) : Value :=
  match param.asStr.bind fun tag => tagBlock tag latestBlock finalityDepth with
  | some block => .string (formatHex block)
  | none => param

variable {tag tag' : String} {latestBlock finalityDepth : ℕ} {req other : JsonRpcRequest}
  {arr : List Value} {idx : ℕ}

theorem resolveTag_eq_map (tag : String) (latestBlock finalityDepth : ℕ) :
    resolveTag tag latestBlock finalityDepth =
      (tagBlock tag latestBlock finalityDepth).map formatHex := by
  have hzero : "0x0" = formatHex 0 := rfl
  rw [resolveTag, tagBlock, hzero]
  split_ifs <;> rfl

theorem tagBlock_eq_none : tagBlock tag latestBlock finalityDepth = none ↔ ¬ IsResolvedTag tag := by
  rw [tagBlock, IsResolvedTag]
  split_ifs with hlatest hsafe hearliest
  · simp [hlatest]
  · rcases hsafe with rfl | rfl <;> simp
  · simp [hearliest]
  · exact iff_of_true rfl (by tauto)

/-- A number is no tag. It begins with `0x`. -/
theorem not_isResolvedTag_formatHex (n : ℕ) : ¬ IsResolvedTag (formatHex n) := by
  rintro (h | h | h | h) <;> simpa [formatHex_toList] using congrArg String.toList h

theorem tagBlock_formatHex (n latestBlock finalityDepth : ℕ) :
    tagBlock (formatHex n) latestBlock finalityDepth = none :=
  tagBlock_eq_none.mpr (not_isResolvedTag_formatHex n)

/-- What is left at the tag position is left there again, at any head. -/
theorem resolveParam_idem (latestBlock finalityDepth latestBlock' finalityDepth' : ℕ)
    (param : Value) :
    resolveParam latestBlock' finalityDepth' (resolveParam latestBlock finalityDepth param) =
      resolveParam latestBlock finalityDepth param := by
  cases hblock : param.asStr.bind fun tag => tagBlock tag latestBlock finalityDepth with
  | some block =>
    have hresolved : resolveParam latestBlock finalityDepth param = .string (formatHex block) := by
      rw [resolveParam, hblock]
    rw [hresolved, resolveParam, Value.asStr_string, Option.bind_some, tagBlock_formatHex]
  | none =>
    have hself : resolveParam latestBlock finalityDepth param = param := by
      rw [resolveParam, hblock]
    rw [hself]
    -- which strings are tags does not depend on the head
    have hnone : (param.asStr.bind fun tag => tagBlock tag latestBlock' finalityDepth') = none := by
      rw [Option.bind_eq_none_iff] at hblock ⊢
      exact fun tag htag => tagBlock_eq_none.mpr (tagBlock_eq_none.mp (hblock tag htag))
    rw [resolveParam, hnone]

/-! ### The request that is left -/

theorem set_of_getElem? {param : Value} (h : arr[idx]? = some param) : arr.set idx param = arr := by
  obtain ⟨hlt, rfl⟩ := List.getElem?_eq_some_iff.mp h
  exact List.set_getElem_self hlt

theorem modify_of_getElem? {f : Value → Value} {param : Value} (h : arr[idx]? = some param) :
    arr.modify idx f = arr.set idx (f param) := by
  rw [List.modify_eq_set_getElem?, h]
  rfl

/-- A request with parameters and a tag position among them. -/
theorem resolveBlockTags_of_array (hidx : blockTagParamIndex req.method = some idx)
    (harr : req.params = .array arr) :
    resolveBlockTags req latestBlock finalityDepth =
      { req with params := .array (arr.modify idx (resolveParam latestBlock finalityDepth)) } := by
  rw [resolveBlockTags, hidx, harr]
  cases hparam : arr[idx]? with
  | none => simp [hparam, List.modify_eq_set_getElem?]
  | some param =>
    rw [modify_of_getElem? hparam, resolveParam]
    cases htag : param.asStr with
    | none => simp [hparam, htag, set_of_getElem? hparam]
    | some tag =>
      cases hblock : tagBlock tag latestBlock finalityDepth with
      | none => simp [hparam, htag, resolveTag_eq_map, hblock, set_of_getElem? hparam]
      | some block => simp [hparam, htag, resolveTag_eq_map, hblock]

/-- A request without one. -/
theorem resolveBlockTags_of_not_array
    (h : blockTagParamIndex req.method = none ∨ req.params.asArray = none) :
    resolveBlockTags req latestBlock finalityDepth = req := by
  rw [resolveBlockTags]
  rcases h with h | h
  · rw [h]
    rfl
  · rw [h]
    cases blockTagParamIndex req.method <;> rfl

/-- What resolution makes of a request: the number of parameters stays, and so does every one of
them except the one at the tag position. -/
structure Resolves (latestBlock finalityDepth : ℕ) (req resolved : JsonRpcRequest) : Prop where
  jsonrpc : resolved.jsonrpc = req.jsonrpc
  method : resolved.method = req.method
  id : resolved.id = req.id
  notArray : req.params.asArray = none → resolved.params = req.params
  array : ∀ arr, req.params = .array arr → ∃ arr', resolved.params = .array arr' ∧
    arr'.length = arr.length ∧ ∀ i, arr'[i]? =
      if blockTagParamIndex req.method = some i then
        arr[i]?.map (resolveParam latestBlock finalityDepth)
      else arr[i]?

theorem resolves_resolveBlockTags (req : JsonRpcRequest) (latestBlock finalityDepth : ℕ) :
    Resolves latestBlock finalityDepth req (resolveBlockTags req latestBlock finalityDepth) where
  jsonrpc := rfl
  method := rfl
  id := rfl
  notArray h := by rw [resolveBlockTags_of_not_array (.inr h)]
  array arr harr := by
    cases hidx : blockTagParamIndex req.method with
    | none =>
      rw [resolveBlockTags_of_not_array (.inl hidx)]
      exact ⟨arr, harr, rfl, fun i => by simp⟩
    | some idx =>
      rw [resolveBlockTags_of_array hidx harr]
      refine ⟨_, rfl, List.length_modify _ _ _, fun i => ?_⟩
      rw [List.getElem?_modify]
      by_cases hi : idx = i <;> simp [hi]

/-- **Resolving twice is resolving once**, whatever the second head and depth. After the first time
there is no tag at the position. -/
theorem resolveBlockTags_idem (req : JsonRpcRequest)
    (latestBlock finalityDepth latestBlock' finalityDepth' : ℕ) :
    resolveBlockTags (resolveBlockTags req latestBlock finalityDepth) latestBlock'
        finalityDepth' =
      resolveBlockTags req latestBlock finalityDepth := by
  cases hidx : blockTagParamIndex req.method with
  | none =>
    rw [resolveBlockTags_of_not_array (.inl hidx), resolveBlockTags_of_not_array (.inl hidx)]
  | some idx =>
    cases harr : req.params.asArray with
    | none =>
      rw [resolveBlockTags_of_not_array (.inr harr), resolveBlockTags_of_not_array (.inr harr)]
    | some arr =>
      rw [Value.asArray_eq_some] at harr
      have hagain : resolveBlockTags { req with
          params := .array (arr.modify idx (resolveParam latestBlock finalityDepth)) }
          latestBlock' finalityDepth' = _ := resolveBlockTags_of_array hidx rfl
      rw [resolveBlockTags_of_array hidx harr, hagain, List.modify_modify_eq]
      have hcomp : resolveParam latestBlock' finalityDepth' ∘
          resolveParam latestBlock finalityDepth = resolveParam latestBlock finalityDepth :=
        funext (resolveParam_idem latestBlock finalityDepth latestBlock' finalityDepth')
      rw [hcomp]

/-! ### The cache value -/

/-- Two requests that differ only in which tag stands at the tag position, and both tags are among
those that are replaced. -/
structure DifferInTag (req other : JsonRpcRequest) (tag tag' : String) : Prop where
  resolved : IsResolvedTag tag
  resolved' : IsResolvedTag tag'
  position : ∃ idx arr, blockTagParamIndex req.method = some idx ∧ req.params = .array arr ∧
    arr[idx]? = some (.string tag) ∧
    other = { req with params := .array (arr.set idx (.string tag')) }

theorem resolveParam_of_isResolvedTag (latestBlock finalityDepth : ℕ) (h : IsResolvedTag tag) :
    ∃ block, tagBlock tag latestBlock finalityDepth = some block ∧
      resolveParam latestBlock finalityDepth (.string tag) = .string (formatHex block) := by
  have hsome : tagBlock tag latestBlock finalityDepth ≠ none := fun hnone =>
    tagBlock_eq_none.mp hnone h
  obtain ⟨block, hblock⟩ := Option.ne_none_iff_exists'.mp hsome
  exact ⟨block, hblock, by rw [resolveParam, Value.asStr_string, Option.bind_some, hblock]⟩

/-- **Tags that stand for the same block share a cache entry, and no others do.** -/
theorem DifferInTag.normalizeForCache_eq_iff (h : DifferInTag req other tag tag') :
    normalizeForCache (resolveBlockTags req latestBlock finalityDepth) =
        normalizeForCache (resolveBlockTags other latestBlock finalityDepth) ↔
      tagBlock tag latestBlock finalityDepth = tagBlock tag' latestBlock finalityDepth := by
  obtain ⟨htag, htag', idx, arr, hidx, harr, hparam, rfl⟩ := h
  obtain ⟨block, hblock, hresolved⟩ :=
    resolveParam_of_isResolvedTag latestBlock finalityDepth htag
  obtain ⟨block', hblock', hresolved'⟩ :=
    resolveParam_of_isResolvedTag latestBlock finalityDepth htag'
  have hlt : idx < arr.length := (List.getElem?_eq_some_iff.mp hparam).1
  have hother : resolveBlockTags { req with params := .array (arr.set idx (.string tag')) }
      latestBlock finalityDepth = _ := resolveBlockTags_of_array hidx rfl
  rw [resolveBlockTags_of_array hidx harr, hother, modify_of_getElem? hparam,
    modify_of_getElem? (List.getElem?_set_self hlt), List.set_set, hresolved, hresolved', hblock,
    hblock', Option.some.injEq]
  constructor
  · intro heq
    have harrays : arr.set idx (.string (formatHex block)) =
        arr.set idx (.string (formatHex block')) := by
      simpa [normalizeForCache] using heq
    have hat := congrArg (·[idx]?) harrays
    simp only [List.getElem?_set_self hlt, Option.some.injEq, Value.string.injEq] at hat
    exact formatHex_injective hat
  · rintro rfl
    rfl

/-- **Resolution changes the tag position and nothing else, has nothing left to do afterwards, and
makes two tags one request exactly when they stand for one block.** -/
theorem resolveBlockTags_spec (req : JsonRpcRequest) (latestBlock finalityDepth : ℕ) :
    Resolves latestBlock finalityDepth req (resolveBlockTags req latestBlock finalityDepth) ∧
    (∀ latestBlock' finalityDepth' : ℕ,
      resolveBlockTags (resolveBlockTags req latestBlock finalityDepth) latestBlock'
          finalityDepth' =
        resolveBlockTags req latestBlock finalityDepth) ∧
    ∀ (other : JsonRpcRequest) (tag tag' : String), DifferInTag req other tag tag' →
      (normalizeForCache (resolveBlockTags req latestBlock finalityDepth) =
          normalizeForCache (resolveBlockTags other latestBlock finalityDepth) ↔
        tagBlock tag latestBlock finalityDepth = tagBlock tag' latestBlock finalityDepth) :=
  ⟨resolves_resolveBlockTags req latestBlock finalityDepth,
    resolveBlockTags_idem req latestBlock finalityDepth,
    fun _ _ _ h => h.normalizeForCache_eq_iff⟩

/-- The balance at the safe block. -/
def safeBalance : JsonRpcRequest :=
  { finalizedBalance with params := .array [.string "0xabc", .string "safe"] }

theorem differInTag_finalizedBalance :
    DifferInTag finalizedBalance safeBalance "finalized" "safe" where
  resolved := .inr (.inr (.inl rfl))
  resolved' := .inr (.inl rfl)
  position := ⟨1, _, rfl, rfl, rfl, rfl⟩

/-- The safe and the finalized block have one cache entry. -/
theorem safeBalance_shares_entry :
    normalizeForCache (resolveBlockTags finalizedBalance 1000 64) =
      normalizeForCache (resolveBlockTags safeBalance 1000 64) :=
  ((resolveBlockTags_spec finalizedBalance 1000 64).2.2 safeBalance "finalized" "safe"
    differInTag_finalizedBalance).mpr rfl

/-! ### The class of the request that is left -/

/-- The class the parameters decide that do not stand at the tag position. It is what the scan finds
once a number stands there. -/
def JsonRpcRequest.otherTags (req : JsonRpcRequest) : Option Bool := do
  let idx ← blockTagParamIndex req.method
  let arr ← req.params.asArray
  scanTags (.array (arr.eraseIdx idx))

/-- A parameter that decides nothing may as well be missing. The scan goes from left to right and
passes it over. -/
theorem scanTags_set {param : Value} (hidx : idx < arr.length)
    (hparam : param.asStr.bind tagIsUnfinalized = none) :
    scanTags (.array (arr.set idx param)) = scanTags (.array (arr.eraseIdx idx)) := by
  simp only [scanTags, Value.asArray_array, Option.bind_some]
  rw [List.set_eq_take_append_cons_drop, if_pos hidx, List.eraseIdx_eq_take_drop_succ,
    List.findSome?_append, List.findSome?_append, List.findSome?_cons, hparam]

theorem tagIsUnfinalized_formatHex (n : ℕ) : tagIsUnfinalized (formatHex n) = none := by
  rw [tagIsUnfinalized_eq_none]
  have hne := not_isResolvedTag_formatHex n
  have hpending : formatHex n ≠ "pending" := fun h => by
    simpa [formatHex_toList] using congrArg String.toList h
  rw [IsResolvedTag] at hne
  constructor
  · rintro (h | h | h)
    · exact hne (.inl h)
    · exact hpending h
    · exact hne (.inr (.inl h))
  · rintro (h | h)
    · exact hne (.inr (.inr (.inr h)))
    · exact hne (.inr (.inr (.inl h)))

theorem JsonRpcRequest.tagParam_eq_some : req.tagParam = some tag ↔
    ∃ idx arr, blockTagParamIndex req.method = some idx ∧ req.params = .array arr ∧
      arr[idx]? = some (.string tag) := by
  simp only [JsonRpcRequest.tagParam, Option.bind_eq_bind, Option.bind_eq_some_iff,
    Value.asArray_eq_some, Value.asStr_eq_some]
  constructor
  · rintro ⟨idx, hidx, arr, harr, param, hparam, rfl⟩
    exact ⟨idx, arr, hidx, harr, hparam⟩
  · rintro ⟨idx, arr, hidx, harr, hparam⟩
    exact ⟨idx, hidx, arr, harr, _, hparam, rfl⟩

/-- Without a tag at the tag position there is nothing to resolve. -/
theorem resolveBlockTags_of_no_tag (h : ∀ tag, req.tagParam = some tag → ¬ IsResolvedTag tag) :
    resolveBlockTags req latestBlock finalityDepth = req := by
  cases hidx : blockTagParamIndex req.method with
  | none => exact resolveBlockTags_of_not_array (.inl hidx)
  | some idx =>
    cases harr : req.params.asArray with
    | none => exact resolveBlockTags_of_not_array (.inr harr)
    | some arr =>
      rw [Value.asArray_eq_some] at harr
      have hself : arr.modify idx (resolveParam latestBlock finalityDepth) = arr := by
        cases hparam : arr[idx]? with
        | none => rw [List.modify_eq_set_getElem?, hparam]; rfl
        | some param =>
          rw [modify_of_getElem? hparam, resolveParam]
          have hnone : (param.asStr.bind fun tag => tagBlock tag latestBlock finalityDepth) =
              none := by
            rw [Option.bind_eq_none_iff]
            intro tag htag
            rw [Value.asStr_eq_some] at htag
            exact tagBlock_eq_none.mpr
              (h tag (JsonRpcRequest.tagParam_eq_some.mpr ⟨idx, arr, hidx, harr, htag ▸ hparam⟩))
          rw [hnone]
          exact set_of_getElem? hparam
      rw [resolveBlockTags_of_array hidx harr, hself, ← harr]

/-- With one, the number that replaces it decides nothing. -/
theorem class_of_resolved (htag : req.tagParam = some tag) (h : IsResolvedTag tag) :
    blockRefIsUnfinalized (resolveBlockTags req latestBlock finalityDepth) finalityDepth =
      req.otherTags.getD true := by
  obtain ⟨idx, arr, hidx, harr, hparam⟩ := JsonRpcRequest.tagParam_eq_some.mp htag
  obtain ⟨block, hblock, hresolved⟩ :=
    resolveParam_of_isResolvedTag latestBlock finalityDepth h
  have hlt : idx < arr.length := (List.getElem?_eq_some_iff.mp hparam).1
  have hposition : (resolveBlockTags req latestBlock finalityDepth).tagParam =
      some (formatHex block) := by
    rw [tagParam_resolveBlockTags, htag, Option.map_some, resolveTag_eq_map, hblock]
    rfl
  have hnumber : (Value.string (formatHex block)).asStr.bind tagIsUnfinalized = none :=
    tagIsUnfinalized_formatHex block
  have hscan :
      scanTags (resolveBlockTags req latestBlock finalityDepth).params = req.otherTags := by
    rw [resolveBlockTags_of_array hidx harr, modify_of_getElem? hparam, hresolved,
      scanTags_set hlt hnumber, JsonRpcRequest.otherTags, hidx, harr]
    rfl
  rw [blockRefIsUnfinalized, hposition, Option.bind_some, tagIsUnfinalized_formatHex, hscan]
  cases req.otherTags with
  | none => exact ite_self true
  | some b => rfl

/-- **The class after resolution**: the same if there was no tag at the tag position, and otherwise
the one the other parameters decide, unfinalized if they decide none. So the class is preserved
exactly when that is the class of the tag. -/
theorem resolution_class (req : JsonRpcRequest) (latestBlock finalityDepth : ℕ) :
    ((∀ tag, req.tagParam = some tag → ¬ IsResolvedTag tag) →
      blockRefIsUnfinalized (resolveBlockTags req latestBlock finalityDepth) finalityDepth =
        blockRefIsUnfinalized req finalityDepth) ∧
    (∀ tag, req.tagParam = some tag → IsResolvedTag tag →
      blockRefIsUnfinalized (resolveBlockTags req latestBlock finalityDepth) finalityDepth =
        req.otherTags.getD true) ∧
    (blockRefIsUnfinalized (resolveBlockTags req latestBlock finalityDepth) finalityDepth =
        blockRefIsUnfinalized req finalityDepth ↔
      ∀ tag, req.tagParam = some tag → IsResolvedTag tag →
        tagIsUnfinalized tag = some (req.otherTags.getD true)) := by
  have hnone : (∀ tag, req.tagParam = some tag → ¬ IsResolvedTag tag) →
      blockRefIsUnfinalized (resolveBlockTags req latestBlock finalityDepth) finalityDepth =
        blockRefIsUnfinalized req finalityDepth := fun h => by rw [resolveBlockTags_of_no_tag h]
  refine ⟨hnone, fun tag htag h => class_of_resolved htag h, ?_⟩
  by_cases hsome : ∃ tag, req.tagParam = some tag ∧ IsResolvedTag tag
  · obtain ⟨tag, htag, h⟩ := hsome
    have hclass : tagIsUnfinalized tag = some (blockRefIsUnfinalized req finalityDepth) := by
      rw [blockRefIsUnfinalized, htag, Option.bind_some]
      rcases h with rfl | rfl | rfl | rfl <;> rfl
    rw [class_of_resolved htag h, htag]
    simp only [Option.some.injEq, forall_eq']
    rw [hclass, Option.some.injEq]
    exact ⟨fun heq _ => heq.symm, fun heq => (heq h).symm⟩
  · refine iff_of_true (hnone fun tag htag h => hsome ⟨tag, htag, h⟩) fun tag htag h => ?_
    exact absurd ⟨tag, htag, h⟩ hsome

/-- The balance at the finalized block is counted as final, and not any more when the tag has been
replaced. -/
theorem finalizedBalance_loses_class :
    ¬ ∀ (req : JsonRpcRequest) (latestBlock finalityDepth : ℕ),
      blockRefIsUnfinalized (resolveBlockTags req latestBlock finalityDepth) finalityDepth =
        blockRefIsUnfinalized req finalityDepth := by
  intro h
  exact absurd (h finalizedBalance 1000 64) (by decide)

/-- The balance at the safe block keeps its class. -/
theorem safeBalance_keeps_class :
    blockRefIsUnfinalized (resolveBlockTags safeBalance 1000 64) 64 =
      blockRefIsUnfinalized safeBalance 64 :=
  (resolution_class safeBalance 1000 64).2.2.mpr fun tag htag _ => by
    obtain rfl := Option.some.inj htag
    rfl

end Poolbeg
