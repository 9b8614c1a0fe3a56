import Poolbeg.Json

/-!
# JSON-RPC requests and responses

The embedding of `rpc/types.rs`: the three records, their `serde` encodings, and the pure functions
on requests.

## The encodings

`JsonRpcResponse.deserialize` is what `#[derive(Deserialize)]` generates. It reads an object member
by member, rejects a repeated field, ignores unknown ones, and also accepts the fields as an array
in declaration order. An `Option` field is `None` both when the member is missing and when it is
`null`; `serialize` leaves a `None` field out. So the only thing a round trip can lose is a
`Some(null)`, and `JsonRpcResponse.canonical` says precisely what is left of it.

These are the encodings from a `Value` and into one, as they occur with texts that the program has
written itself. Reading a text that came from outside is a matter of its own, for not every text is
a value: `Poolbeg.Rpc.Parse` has it for requests, and `Poolbeg.Rpc.Relay` for responses.

## Block tags

Three functions look at the block tag of a request, and each in its own way. `resolveBlockTags` and
`JsonRpcRequest.tagParam` look at the place that the method gives to it. `blockRefIsUnfinalized`
looks there first, but goes on to every other parameter when there is no tag it knows, so that a
string that only looks like a tag may decide.

## Main definitions

* `JsonRpcRequest`, `JsonRpcError`, `JsonRpcResponse` — the records
* `JsonRpcResponse.serialize`, `JsonRpcResponse.deserialize` — the encodings
* `normalizeForCache`, `isMethodBlocked`, `isUncacheable` — what a request is compared and refused
  by
* `blockTagParamIndex`, `resolveBlockTags`, `blockRefIsUnfinalized` — block tags

## Main results

* `JsonRpcResponse.deserialize_serialize` — decoding an encoding gives the canonical response
* `JsonRpcResponse.canonical_of_deserialize` — whatever was decoded is canonical already
-/

namespace Poolbeg

/-- A signed 64-bit integer. -/
abbrev I64 : Type := {i : ℤ // -(2 ^ 63) ≤ i ∧ i < 2 ^ 63}

/-- A single JSON-RPC 2.0 request. A missing `params` has been read as `null`; the other three have
to be there, but the id may be any value. -/
structure JsonRpcRequest where
  jsonrpc : String
  method : String
  params : Value
  id : Value

/-- The error of a response. A code is any `i64`, and the data any value, or none. -/
structure JsonRpcError where
  code : I64
  message : String
  data : Option Value

/-- A single JSON-RPC 2.0 response. Nothing keeps it from having both a result and an error, or
neither. -/
structure JsonRpcResponse where
  jsonrpc : String
  id : Value
  result : Option Value
  error : Option JsonRpcError

/-- `JsonRpcResponse::error`. -/
def JsonRpcResponse.ofError (id : Value) (code : I64) (message : String) : JsonRpcResponse where
  jsonrpc := "2.0"
  id := id
  result := none
  error := some { code := code, message := message, data := none }

/-- `JsonRpcResponse::success`. -/
def JsonRpcResponse.success (id : Value) (result : Value) : JsonRpcResponse where
  jsonrpc := "2.0"
  id := id
  result := some result
  error := none

/-- A response with its id replaced, as happens to every answer on its way to a client. -/
def JsonRpcResponse.withId (r : JsonRpcResponse) (id : Value) : JsonRpcResponse :=
  { r with id := id }

@[simp] theorem JsonRpcResponse.withId_id (r : JsonRpcResponse) (id : Value) :
    (r.withId id).id = id := rfl

@[simp] theorem JsonRpcResponse.withId_result (r : JsonRpcResponse) (id : Value) :
    (r.withId id).result = r.result := rfl

@[simp] theorem JsonRpcResponse.withId_error (r : JsonRpcResponse) (id : Value) :
    (r.withId id).error = r.error := rfl

/-! ### Encoding -/

/-- `serde`'s `serialize_i64`. -/
def I64.serialize (i : I64) : Value :=
  if h : 0 ≤ i.val then .number (.posInt i.val.toNat (by have := i.property; omega))
  else .number (.negInt i.val (by have := i.property; omega))

/-- A field under `skip_serializing_if = "Option::is_none"`. -/
def optionalMember (key : String) : Option Value → List (String × Value)
  | none => []
  | some v => [(key, v)]

/-- What `#[derive(Serialize)]` generates for an error. -/
def JsonRpcError.serialize (e : JsonRpcError) : Value :=
  .object (("code", I64.serialize e.code) :: ("message", .string e.message) ::
    optionalMember "data" e.data)

/-- What `#[derive(Serialize)]` generates for a response: the members in declaration order, without
those that are `None`. -/
def JsonRpcResponse.serialize (r : JsonRpcResponse) : Value :=
  .object (("jsonrpc", .string r.jsonrpc) :: ("id", r.id) ::
    (optionalMember "result" r.result ++
      optionalMember "error" (r.error.map JsonRpcError.serialize)))

/-! ### Decoding -/

/-- `serde`'s `deserialize_i64`: an integer in range, never a double. -/
def Value.toI64 : Value → Option I64
  | .number (.posInt n _) => if h : n < 2 ^ 63 then some ⟨n, by omega⟩ else none
  | .number (.negInt i _) => some ⟨i, by omega⟩
  | _ => none

/-- The value of a field in an object, if any; fails when the field is repeated. Members with other
names are skipped. -/
def fieldOf (members : List (String × Value)) (key : String) : Option (Option Value) :=
  match members.filter fun m => m.1 == key with
  | [] => some none
  | [m] => some (some m.2)
  | _ => none

/-- An `Option<Value>` field: missing and `null` both read as `None`. -/
def optionValue : Option Value → Option Value
  | some .null => none
  | v => v

/-- An error from what was found under its names. The code and the message must be there. -/
def JsonRpcError.ofFields (code message data : Option Value) : Option JsonRpcError := do
  let code ← code.bind Value.toI64
  let message ← message.bind Value.asStr
  pure { code := code, message := message, data := optionValue data }

/-- What `#[derive(Deserialize)]` generates for an error: an object, or its fields in declaration
order. -/
def JsonRpcError.deserialize : Value → Option JsonRpcError
  | .object members => do
    let code ← fieldOf members "code"
    let message ← fieldOf members "message"
    let data ← fieldOf members "data"
    JsonRpcError.ofFields code message data
  | .array [code, message, data] => JsonRpcError.ofFields (some code) (some message) (some data)
  | _ => none

/-- An `Option<JsonRpcError>` field. -/
def optionError : Option Value → Option (Option JsonRpcError)
  | none => some none
  | some .null => some none
  | some v => (JsonRpcError.deserialize v).map some

/-- A response from what was found under its names. The id may be `null`, but it must be there; the
others may be missing, but not the version. -/
def JsonRpcResponse.ofFields (jsonrpc id result error : Option Value) : Option JsonRpcResponse := do
  let jsonrpc ← jsonrpc.bind Value.asStr
  let id ← id
  let error ← optionError error
  pure { jsonrpc := jsonrpc, id := id, result := optionValue result, error := error }

/-- What `#[derive(Deserialize)]` generates for a response: an object, or its fields in declaration
order. -/
def JsonRpcResponse.deserialize : Value → Option JsonRpcResponse
  | .object members => do
    let jsonrpc ← fieldOf members "jsonrpc"
    let id ← fieldOf members "id"
    let result ← fieldOf members "result"
    let error ← fieldOf members "error"
    JsonRpcResponse.ofFields jsonrpc id result error
  | .array [jsonrpc, id, result, error] =>
    JsonRpcResponse.ofFields (some jsonrpc) (some id) (some result) (some error)
  | _ => none

/-! ### The round trip -/

@[simp] theorem toI64_serialize (i : I64) : (I64.serialize i).toI64 = some i := by
  obtain ⟨i, hi⟩ := i
  unfold I64.serialize
  split
  · have hlt : i.toNat < 2 ^ 63 := by omega
    have hval : (i.toNat : ℤ) = i := Int.toNat_of_nonneg ‹_›
    simp only [Value.toI64, hlt, dite_true, Option.some.injEq, Subtype.mk.injEq]
    exact hval
  · rfl

theorem optionValue_idem (v : Option Value) : optionValue (optionValue v) = optionValue v := by
  rcases v with _ | v
  · rfl
  · cases v <;> rfl

/-- An `Option<Value>` field never holds `Some(null)` after decoding. -/
theorem optionValue_ne_null (v : Option Value) : optionValue v ≠ some .null := by
  rcases v with _ | v
  · simp [optionValue]
  · cases v <;> simp [optionValue]

theorem optionValue_of_ne_null {v : Option Value} (h : v ≠ some .null) : optionValue v = v := by
  rcases v with _ | v
  · rfl
  · cases v <;> first | rfl | exact absurd rfl h

/-- What a decoded copy of an error holds: a `data` of `null` is gone. -/
def JsonRpcError.canonical (e : JsonRpcError) : JsonRpcError :=
  { e with data := optionValue e.data }

/-- What a decoded copy of a response holds: `Some(null)` has become `None`. -/
def JsonRpcResponse.canonical (r : JsonRpcResponse) : JsonRpcResponse :=
  { r with result := optionValue r.result, error := r.error.map JsonRpcError.canonical }

/-- The id survives a round trip, be it `null`. -/
@[simp] theorem JsonRpcResponse.canonical_id (r : JsonRpcResponse) : r.canonical.id = r.id := rfl

/-- Replacing the id and a round trip do not get in each other's way. -/
@[simp] theorem JsonRpcResponse.canonical_withId (r : JsonRpcResponse) (id : Value) :
    (r.withId id).canonical = r.canonical.withId id := rfl

/-- An error comes back as it was, but for a `data` of `null`. -/
theorem JsonRpcError.deserialize_serialize (e : JsonRpcError) :
    JsonRpcError.deserialize e.serialize = some e.canonical := by
  rcases e with ⟨code, message, _ | data⟩ <;>
    simp [JsonRpcError.serialize, JsonRpcError.deserialize, optionalMember, fieldOf,
      JsonRpcError.ofFields, JsonRpcError.canonical, optionValue]

theorem optionError_serialize (e : Option JsonRpcError) :
    optionError (e.map JsonRpcError.serialize) = some (e.map JsonRpcError.canonical) := by
  rcases e with _ | e
  · rfl
  · have hobj : optionError (some e.serialize) = (JsonRpcError.deserialize e.serialize).map some :=
      rfl
    rw [Option.map_some, hobj, e.deserialize_serialize, Option.map_some, Option.map_some]

/-- What stands under the four names in the encoding of a response. -/
theorem fieldOf_serialize (r : JsonRpcResponse) :
    ∃ members, r.serialize = .object members ∧
      fieldOf members "jsonrpc" = some (some (.string r.jsonrpc)) ∧
      fieldOf members "id" = some (some r.id) ∧
      fieldOf members "result" = some r.result ∧
      fieldOf members "error" = some (r.error.map JsonRpcError.serialize) := by
  refine ⟨_, rfl, ?_⟩
  rcases r with ⟨jsonrpc, id, _ | result, _ | error⟩ <;>
    exact ⟨rfl, rfl, rfl, rfl⟩

/-- **Decoding an encoding gives the canonical response**, so the fields survive the round trip up
to a `null` that the `Option` encoding cannot tell from absence. -/
theorem JsonRpcResponse.deserialize_serialize (r : JsonRpcResponse) :
    JsonRpcResponse.deserialize r.serialize = some r.canonical := by
  obtain ⟨members, hobj, hjsonrpc, hid, hresult, herror⟩ := fieldOf_serialize r
  rw [hobj, JsonRpcResponse.deserialize, hjsonrpc, hid, hresult, herror]
  simp [JsonRpcResponse.ofFields, optionError_serialize, JsonRpcResponse.canonical]

/-- An error that was put together from fields has no `data` of `null`. -/
theorem JsonRpcError.canonical_of_ofFields {code message data : Option Value} {e : JsonRpcError}
    (h : JsonRpcError.ofFields code message data = some e) : e.canonical = e := by
  simp only [JsonRpcError.ofFields, Option.bind_eq_bind, Option.bind_eq_some_iff] at h
  obtain ⟨c, -, m, -, he⟩ := h
  cases he
  simp [JsonRpcError.canonical, optionValue_idem]

theorem JsonRpcError.canonical_of_deserialize {v : Value} {e : JsonRpcError}
    (h : JsonRpcError.deserialize v = some e) : e.canonical = e := by
  unfold JsonRpcError.deserialize at h
  split at h
  · simp only [Option.bind_eq_bind, Option.bind_eq_some_iff] at h
    obtain ⟨c, -, m, -, d, -, h⟩ := h
    exact canonical_of_ofFields h
  · exact canonical_of_ofFields h
  · exact absurd h (by simp)

theorem canonical_of_optionError {v : Option Value} {e : Option JsonRpcError}
    (h : optionError v = some e) : e.map JsonRpcError.canonical = e := by
  unfold optionError at h
  split at h
  · cases h; rfl
  · cases h; rfl
  · obtain ⟨e', he', rfl⟩ := Option.map_eq_some_iff.mp h
    rw [Option.map_some, JsonRpcError.canonical_of_deserialize he']

/-- A response that was put together from fields holds no `Some(null)`. -/
theorem JsonRpcResponse.canonical_of_ofFields {jsonrpc id result error : Option Value}
    {r : JsonRpcResponse} (h : JsonRpcResponse.ofFields jsonrpc id result error = some r) :
    r.canonical = r := by
  simp only [JsonRpcResponse.ofFields, Option.bind_eq_bind, Option.bind_eq_some_iff] at h
  obtain ⟨j, -, i, -, e, he, hr⟩ := h
  cases hr
  simp [JsonRpcResponse.canonical, optionValue_idem, canonical_of_optionError he]

/-- **Whatever was decoded is canonical**, so a second round trip changes nothing. -/
theorem JsonRpcResponse.canonical_of_deserialize {v : Value} {r : JsonRpcResponse}
    (h : JsonRpcResponse.deserialize v = some r) : r.canonical = r := by
  unfold JsonRpcResponse.deserialize at h
  split at h
  · simp only [Option.bind_eq_bind, Option.bind_eq_some_iff] at h
    obtain ⟨j, -, i, -, res, -, e, -, h⟩ := h
    exact canonical_of_ofFields h
  · exact canonical_of_ofFields h
  · exact absurd h (by simp)

/-! ### Texts of responses -/

section Texts

variable {Text : Type} (serde : SerdeJson Text)

/-- `serde_json::to_string(&resp)`. -/
def JsonRpcResponse.toText (r : JsonRpcResponse) : Text := serde.toString r.serialize

/-- `serde_json::from_str::<JsonRpcResponse>(&text)`. -/
def JsonRpcResponse.ofText (t : Text) : Option JsonRpcResponse :=
  (serde.fromStr t).bind JsonRpcResponse.deserialize

/-- A response that is written and read again is its canonical form. -/
@[simp] theorem JsonRpcResponse.ofText_toText (r : JsonRpcResponse) :
    JsonRpcResponse.ofText serde (r.toText serde) = some r.canonical := by
  simp [JsonRpcResponse.ofText, JsonRpcResponse.toText, JsonRpcResponse.deserialize_serialize]

end Texts

/-! ### Requests -/

/-- The value that is hashed into a cache key: the request with its id set to `0`, and with the
version that all requests should have. -/
def normalizeForCache (req : JsonRpcRequest) : Value :=
  .object [("jsonrpc", .string "2.0"), ("method", .string req.method), ("params", req.params),
    ("id", .ofU64 0)]

/-- Whether a method starts with one of the configured prefixes. The empty prefix blocks everything.
-/
def isMethodBlocked (method : String) (blocked : List String) : Bool :=
  blocked.any fun p => p.toList.isPrefixOf method.toList

/-- Methods that are never cached, whatever the policy says. They are not coalesced either, nor
taken for duplicates in a batch. The list is that of the code. -/
def isUncacheable (method : String) : Bool :=
  ["eth_sendRawTransaction", "eth_sendTransaction", "eth_estimateGas", "eth_call",
    "eth_createAccessList", "eth_gasPrice", "eth_maxPriorityFeePerGas", "eth_feeHistory",
    "net_listening", "net_peerCount", "web3_clientVersion", "eth_subscribe",
    "eth_unsubscribe"].contains method

/-- The position of the block tag among a method's parameters, where the method has one: the first
for blocks, the second for accounts, and the third for their storage. -/
def blockTagParamIndex (method : String) : Option ℕ :=
  if ["eth_getBalance", "eth_getCode", "eth_getTransactionCount",
      "eth_getStorageAt"].contains method then
    if method = "eth_getStorageAt" then some 2 else some 1
  else if ["eth_getBlockByNumber", "eth_getBlockTransactionCountByNumber",
      "eth_getUncleCountByBlockNumber", "eth_getUncleByBlockNumber"].contains method then
    some 0
  else none

/-- The string parameter at the method's tag position. -/
def JsonRpcRequest.tagParam (req : JsonRpcRequest) : Option String := do
  let idx ← blockTagParamIndex req.method
  let arr ← req.params.asArray
  let param ← arr[idx]?
  param.asStr

/-- The concrete block a tag stands for; `pending` and block numbers are left alone. The finality
depth is counted back from the head, to block zero at most. -/
def resolveTag (tag : String) (latestBlock finalityDepth : ℕ) : Option String :=
  if tag = "latest" then some (formatHex latestBlock)
  else if tag = "safe" ∨ tag = "finalized" then some (formatHex (latestBlock - finalityDepth))
  else if tag = "earliest" then some "0x0"
  else none

/-- Replace the block tag of a request by a concrete block number. A request without one stays as it
is. -/
def resolveBlockTags (req : JsonRpcRequest) (latestBlock finalityDepth : ℕ) : JsonRpcRequest :=
  let params : Option Value := do
    let idx ← blockTagParamIndex req.method
    let arr ← req.params.asArray
    let param ← arr[idx]?
    let tag ← param.asStr
    let resolved ← resolveTag tag latestBlock finalityDepth
    pure (.array (arr.set idx (.string resolved)))
  { req with params := params.getD req.params }

@[simp] theorem resolveBlockTags_method (req : JsonRpcRequest) (latestBlock finalityDepth : ℕ) :
    (resolveBlockTags req latestBlock finalityDepth).method = req.method := rfl

/-- The finality class a tag decides: `some true` is unfinalized. -/
def tagIsUnfinalized (tag : String) : Option Bool :=
  if tag = "latest" ∨ tag = "pending" ∨ tag = "safe" then some true
  else if tag = "earliest" ∨ tag = "finalized" then some false
  else none

/-- The first block tag the code recognises among the parameters, in order, wherever it stands. It
may be a parameter that is no block. -/
def scanTags (params : Value) : Option Bool :=
  params.asArray.bind fun arr => arr.findSome? fun param => param.asStr.bind tagIsUnfinalized

/-- Whether a request refers to a block that is not final yet. The tag position decides if it holds
a tag; then the first tag among all parameters; everything else counts as unfinalized. The finality
depth is an argument that the source never uses. -/
def blockRefIsUnfinalized (req : JsonRpcRequest) (_finalityDepth : ℕ) : Bool :=
  match req.tagParam.bind tagIsUnfinalized with
  | some b => b
  | none =>
    match scanTags req.params with
    | some b => b
    | none =>
      -- `eth_blockNumber` and `eth_getFilterChanges` return head data; so does the default
      if req.method = "eth_blockNumber" ∨ req.method = "eth_getFilterChanges" then true else true

end Poolbeg
