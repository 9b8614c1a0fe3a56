import Poolbeg.Rpc.CacheHit

/-!
# The responses that survive their encoding

A response in which an `Option` field is `Some(null)` is not what is read back from its text. No
response of the program is one: what was decoded never holds a `null` there, an error the program
makes has no data, and a success it makes has a result. Decoding is then the inverse of encoding,
which is what lets a cache hit, or a call that waits for another one, stand for the call that went
upstream.

## Where the two differ

A field of type `Option` with `skip_serializing_if` is left out if it is `None` and is written as
`null` if it is `Some(null)`; reading either gives `None`. So encoding is not injective on all
values of the type, and the responses on which it has an inverse are exactly those without such a
field. `Held` lists how the program comes by a response, and each way keeps clear of them. It is
closed under giving a response another id, which is what happens to a hit and to an upstream's
answer.

In a run, everything a task returns is such a response, as long as the upstreams' answers were
decoded. The cache may hold anything: what is read from it was decoded too.

## Main definitions

* `JsonRpcResponse.NoNull` — no `Option` field is `Some(null)`
* `Held` — the responses the program holds
* `HeldIn` — the answers and the responses in a state

## Main results

* `roundTrip_iff_noNull`, `held_roundTrip` — decoding undoes encoding
* `read_of_mem_storeAnswer` — what is stored reads as what was stored
* `held_run`, `received_run` — what tasks return, and what waiters read
-/

namespace Poolbeg

open Lts

variable {ι Text : Type} {r resp : JsonRpcResponse}

/-! ### Responses without a null -/

/-- No `Option` field is `Some(null)`. -/
structure JsonRpcResponse.NoNull (r : JsonRpcResponse) : Prop where
  result : r.result ≠ some .null
  data : ∀ e, r.error = some e → e.data ≠ some .null

theorem JsonRpcError.canonical_eq_self_iff {e : JsonRpcError} :
    e.canonical = e ↔ e.data ≠ some .null := by
  constructor
  · intro h hdata
    have hcanonical := optionValue_ne_null e.data
    exact hcanonical ((congrArg JsonRpcError.data h).trans hdata)
  · intro h
    rw [JsonRpcError.canonical, optionValue_of_ne_null h]

theorem JsonRpcResponse.canonical_eq_self_iff : r.canonical = r ↔ r.NoNull := by
  constructor
  · intro h
    refine ⟨fun hresult => ?_, fun e he => ?_⟩
    · exact optionValue_ne_null r.result ((congrArg JsonRpcResponse.result h).trans hresult)
    · have herror : r.error.map JsonRpcError.canonical = r.error := congrArg JsonRpcResponse.error h
      rw [he, Option.map_some, Option.some.injEq] at herror
      exact JsonRpcError.canonical_eq_self_iff.mp herror
  · rintro ⟨hresult, hdata⟩
    have herror : r.error.map JsonRpcError.canonical = r.error := by
      cases he : r.error with
      | none => rfl
      | some e => exact congrArg some (JsonRpcError.canonical_eq_self_iff.mpr (hdata e he))
    rw [JsonRpcResponse.canonical, optionValue_of_ne_null hresult, herror]

/-- **A response is read back from its text exactly when it holds no `Some(null)`.** -/
theorem roundTrip_iff_noNull (serde : SerdeJson Text) :
    JsonRpcResponse.ofText serde (r.toText serde) = some r ↔ r.NoNull := by
  rw [JsonRpcResponse.ofText_toText, Option.some.injEq, JsonRpcResponse.canonical_eq_self_iff]

/-! ### The responses of the program -/

/-- How the program comes by a response: by decoding one, by making one, and by giving one it has
another id. There is no other expression of this type in the source. -/
inductive Held : JsonRpcResponse → Prop
  | decoded {v : Value} {r : JsonRpcResponse} (h : JsonRpcResponse.deserialize v = some r) : Held r
  | success (id : Value) {result : Value} (h : result ≠ .null) : Held (.success id result)
  | error (id : Value) (code : I64) (message : String) : Held (.ofError id code message)
  | withId {r : JsonRpcResponse} (h : Held r) (id : Value) : Held (r.withId id)

theorem Held.noNull (h : Held r) : r.NoNull := by
  induction h with
  | decoded h =>
    exact JsonRpcResponse.canonical_eq_self_iff.mp (JsonRpcResponse.canonical_of_deserialize h)
  | success id h =>
    refine ⟨fun hresult => h (Option.some.inj hresult), fun e he => ?_⟩
    cases he
  | error id code message =>
    refine ⟨fun hresult => (by cases hresult), fun e he hdata => ?_⟩
    obtain rfl := Option.some.inj he
    cases hdata
  | withId _ id ih => exact ⟨ih.result, ih.data⟩

/-- **Decoding undoes encoding on the responses the program holds.** -/
theorem held_roundTrip (serde : SerdeJson Text) (h : Held r) :
    JsonRpcResponse.ofText serde (r.toText serde) = some r :=
  (roundTrip_iff_noNull serde).mpr h.noNull

/-- An upstream's answer with everything in it, in an order of its own. -/
def fullAnswer : Value := .object
  [("error", .object [("data", .array [.null]), ("message", .string "reverted"),
      ("code", I64.serialize internalError)]),
    ("result", .bool false), ("id", .null), ("jsonrpc", .string "2.0")]

/-- What it is decoded to. -/
def fullResponse : JsonRpcResponse where
  jsonrpc := "2.0"
  id := .null
  result := some (.bool false)
  error := some { code := internalError, message := "reverted", data := some (.array [.null]) }

theorem fullResponse_roundTrip :
    JsonRpcResponse.ofText .tree (fullResponse.toText .tree) = some fullResponse :=
  held_roundTrip .tree (.decoded (v := fullAnswer) rfl)

/-! ### What is returned, stored and broadcast -/

section Run

variable {serde : SerdeJson Text} {blake3 : Blake3 Text} {app : AppConfig ι}

theorem held_ofText {text : Text} (h : JsonRpcResponse.ofText serde text = some resp) :
    Held resp := by
  obtain ⟨v, -, hv⟩ := Option.bind_eq_some_iff.mp h
  exact .decoded hv

theorem held_respond {answer : Answer} (h : ∀ resp, answer = .ok resp → Held resp) (id : Value) :
    Held (respond id answer) := by
  cases answer with
  | ok resp => exact (h resp rfl).withId id
  | error e => exact .error _ _ _

theorem held_tryMemoryIntercept {chainId : ℕ} {latest : Option ℕ} {method : String} {id : Value}
    (h : tryMemoryIntercept chainId latest method id = some resp) : Held resp := by
  have hstring : ∀ s, Held (.success id (.string s)) := fun s =>
    .success id fun hnull => by cases hnull
  rw [tryMemoryIntercept] at h
  split_ifs at h
  · exact Option.some.inj h ▸ hstring _
  · exact Option.some.inj h ▸ hstring _
  · obtain ⟨_, -, rfl⟩ := Option.map_eq_some_iff.mp h
    exact hstring _

/-- What an answer stores is read back as the answer. -/
theorem read_of_mem_storeAnswer {cache : CacheConfig} {chain : ChainConfig} {req : JsonRpcRequest}
    {key : String} {text : Text} {px : Option ℤ} (hresp : Held resp)
    (h : .set key text px ∈ storeAnswer serde blake3 cache chain req (.ok resp)) :
    JsonRpcResponse.ofText serde text = some resp := by
  obtain ⟨-, _, hanswer, -, ⟨px', hset⟩ | hadd⟩ := eq_of_mem_storeAnswer h
  · cases hanswer
    obtain ⟨-, rfl, -⟩ := Command.set.inj hset
    exact (roundTrip_iff_noNull serde).mpr hresp.noNull
  · cases hadd

/-- The answers and the responses in a state are such responses. It is an invariant along runs whose
answers are decoded. -/
structure HeldIn (s : ProxyState ι Text) : Prop where
  answers : ∀ i resp, s.answers i = some (.ok resp) → Held resp
  returned : ∀ i task exit resp, s.tasks i = some task → task.phase = .done exit resp → Held resp

variable {s t : ProxyState ι Text} {i : ℕ} {task : Task ι Text} {a : TaskStep} {m : Move Text}

/-- A task only gets an answer when its upstream gives one. -/
theorem TaskMoved.answer_eq (h : TaskMoved serde blake3 app s i task a m) :
    m.answer = s.answers i ∨ ∃ x, a = .answer x ∧ m.answer = some x := by
  cases h with
  | answer => exact .inr ⟨_, rfl, rfl⟩
  | _ => exact .inl rfl

theorem Finishes.held (hs : HeldIn s) {exit : Exit}
    (h : Finishes serde blake3 app s i task a exit resp) : Held resp := by
  cases h with
  | blocked => exact .error _ _ _
  | memoryIntercept h => exact held_tryMemoryIntercept h
  | cacheHit _ _ hresp => exact (held_ofText hresp).withId _
  | coalesced _ hresp => exact held_ofText hresp
  | upstream h => exact held_respond (fun resp hresp => hs.answers i resp (hresp ▸ h)) _

theorem heldIn_apply (hs : HeldIn s) (hinv : ProxyInv serde blake3 app s)
    (hdecoded : (ProxyAction.task i a : ProxyAction ι).Decoded) (htask : s.tasks i = some task)
    (h : taskMove serde blake3 app s i task a = some m) : HeldIn (s.apply i task m) where
  answers := by
    intro j resp hj
    by_cases hji : j = i
    · subst hji
      rw [s.answers_apply_self] at hj
      obtain hkept | ⟨x, rfl, hx⟩ := (taskMoved h).answer_eq
      · exact hs.answers j resp (hkept ▸ hj)
      · obtain rfl := Option.some.inj (hx.symm.trans hj)
        obtain ⟨v, hv⟩ := hdecoded
        exact .decoded hv
    · exact hs.answers j resp ((s.answers_apply_of_ne task m hji).symm.trans hj)
  returned := by
    intro j task' exit resp hj hdone
    obtain ⟨rfl, rfl⟩ | ⟨-, hj⟩ := ProxyState.tasks_apply_eq_some hj
    · exact ((taskMove_spec (hinv.task j task htask) h).finishes exit resp hdone).held hs
    · exact hs.returned j task' exit resp hj hdone

theorem heldIn_withTask (hs : HeldIn s) (chain : ι) (req : JsonRpcRequest)
    (origin : Option (ℕ × ℕ)) : HeldIn (s.withTask i chain req origin) where
  answers := hs.answers
  returned := by
    intro j task' exit resp hj hdone
    obtain ⟨rfl, rfl⟩ | ⟨-, hj⟩ := ProxyState.tasks_withTask_eq_some hj
    · cases hdone
    · exact hs.returned j task' exit resp hj hdone

theorem heldIn_setBatch (hs : HeldIn s) (b : ℕ) (batch : Batch ι) : HeldIn (s.setBatch b batch) :=
  ⟨hs.answers, hs.returned⟩

variable [DecidableEq ι]

/-- Every step keeps to such responses. -/
theorem heldIn_step {b : ProxyAction ι} (hs : HeldIn s) (hinv : ProxyInv serde blake3 app s)
    (hdecoded : b.Decoded) (h : proxyStep serde blake3 app s b = some t) : HeldIn t := by
  cases stepped h with
  | request hfresh => exact heldIn_withTask hs _ _ _
  | move htask hm => exact heldIn_apply hs hinv hdecoded htask hm
  | item => exact heldIn_setBatch (heldIn_withTask hs _ _ _) _ _
  | batch | skip | collect | reply => exact heldIn_setBatch hs _ _
  | head | write => exact ⟨hs.answers, hs.returned⟩

/-- **Whatever the proxy answers, from any cache, is such a response.** A run may start from any
contents of Redis, its own or another program's. -/
theorem held_run {redis : Redis Text} {latest : ι → Option ℕ} {as : List (ProxyAction ι)}
    (hdecoded : ∀ b ∈ as, b.Decoded)
    (hrun : run (proxyStep serde blake3 app) (.init redis latest) as = some s) : HeldIn s := by
  refine (run_inv_along (I := fun s => HeldIn s ∧ ProxyInv serde blake3 app s)
    (fun u b v hu hb hv => ?_) ⟨?_, proxyInv_init redis latest⟩ (along_of_forall hdecoded) hrun).1
  · exact ⟨heldIn_step hu.1 hu.2 hb hv, proxyInv_step hu.2 hv⟩
  · exact ⟨fun _ _ h => (by cases h), fun _ _ _ _ h => (by cases h)⟩

/-- **A waiter reads what the call it waited for returns.** The response is the leader's own, its id
included. -/
theorem received_run {redis : Redis Text} {latest : ι → Option ℕ} {as : List (ProxyAction ι)}
    {c : Channel String Text} {msg : Text} (hdecoded : ∀ b ∈ as, b.Decoded)
    (hrun : run (proxyStep serde blake3 app) (.init redis latest) as = some s)
    (hrecv : ReceivedBy s.coalescer i c msg) :
    ∃ leader answer, s.tasks c.owner = some leader ∧ s.answers c.owner = some answer ∧
      JsonRpcResponse.ofText serde msg = some (respond leader.req.id answer) := by
  obtain ⟨leader, answer, hleader, hanswer, hread⟩ := (proxyInv_run hrun).received hrecv
  have hheld := held_respond (fun resp hresp =>
    (held_run hdecoded hrun).answers c.owner resp (hresp ▸ hanswer)) leader.req.id
  refine ⟨leader, answer, hleader, hanswer, ?_⟩
  rw [hread, JsonRpcResponse.canonical_eq_self_iff.mpr hheld.noNull]

end Run

end Poolbeg
