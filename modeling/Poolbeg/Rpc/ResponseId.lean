import Poolbeg.Rpc.TaskInvariant

/-!
# Whose id a response carries

Every exit of `process_single_request` but one sets the id of the response to the id of the request:
the blocked and the memory exits build the response with it, a cache hit and the return of the
upstream call overwrite it. A call that waits on another one returns what it receives as it is, with
the id that the leader has set.

So a client gets the id of its own request in every state of a run exactly when no waiter receives
the broadcast of a leader whose request has another id.

## How the condition reads

The key of a request is a digest of its method and its parameters. The id is no part of it, so two
clients that ask the same at the same time share a key whatever their ids are. `SameIdReceived` is
asked of a step in the state it is taken in: a step that is not the receiving of a broadcast meets
it trivially, and one that is meets it if the two requests have equal ids. Nothing is asked of
requests that merely share a key. Each move of a task keeps the promise exactly if it meets the
condition, given that it held before, and from there to runs is the general rule about such steps.

## Main definitions

* `ProxyState.OwnIds` — every response carries the id of its own request
* `SameIdReceived` — what that asks of a step

## Main results

* `Finishes.id_eq` — the exits that set the id
* `ownIds_step_iff` — one step
* `always_ownIds_iff` — every run
-/

namespace Poolbeg

open Lts

variable {ι Text : Type}

/-- Every response returned carries the id of the request it answers, the items of batches included.
-/
def ProxyState.OwnIds (s : ProxyState ι Text) : Prop :=
  ∀ i task exit resp, s.tasks i = some task → task.phase = .done exit resp →
    resp.id = task.req.id

/-- A waiter that receives a broadcast has asked with the id the leader has asked with. No other
step can give a response a foreign id. -/
def SameIdReceived (s : ProxyState ι Text) : ProxyAction ι → Prop
  | .task i (.coalesce .recv) => ∀ task leader c msg, s.tasks i = some task →
      ReceivedBy s.coalescer i c msg → s.tasks c.owner = some leader →
      leader.req.id = task.req.id
  | _ => True

variable {serde : SerdeJson Text} {blake3 : Blake3 Text} {app : AppConfig ι}
  {s t : ProxyState ι Text} {i : ℕ} {task : Task ι Text} {m : Move Text} {a : TaskStep}

/-- A move keeps the promise if the response it returns, if any, carries the task's id. -/
theorem ownIds_apply_iff (hs : s.OwnIds) : (s.apply i task m).OwnIds ↔
    ∀ exit resp, m.phase = .done exit resp → resp.id = task.req.id := by
  constructor
  · intro h exit resp hphase
    exact h i { task with phase := m.phase } exit resp (s.tasks_apply_self i task m) hphase
  · intro h j task' exit resp hj hphase
    rcases ProxyState.tasks_apply_eq_some hj with ⟨rfl, rfl⟩ | ⟨-, hj⟩
    · exact h exit resp hphase
    · exact hs j task' exit resp hj hphase

theorem ownIds_withTask (hs : s.OwnIds) (chain : ι) (req : JsonRpcRequest)
    (origin : Option (ℕ × ℕ)) : (s.withTask i chain req origin).OwnIds := by
  intro j task' exit resp hj hphase
  rcases ProxyState.tasks_withTask_eq_some hj with ⟨rfl, rfl⟩ | ⟨-, hj⟩
  · exact absurd hphase nofun
  · exact hs j task' exit resp hj hphase

theorem ownIds_setBatch (hs : s.OwnIds) (b : ℕ) (batch : Batch ι) : (s.setBatch b batch).OwnIds :=
  hs

/-- Every exit but the coalesced one sets the id. -/
theorem Finishes.id_eq {exit : Exit} {resp : JsonRpcResponse}
    (h : Finishes serde blake3 app s i task a exit resp) (hexit : exit ≠ .coalesced) :
    resp.id = task.req.id := by
  cases h with
  | blocked => rfl
  | memoryIntercept h => exact tryMemoryIntercept_id h
  | cacheHit => rfl
  | coalesced => exact absurd rfl hexit
  | upstream => exact respond_id _ _

/-- One move of a task keeps the promise exactly if it meets the condition. The only exit that does
not set the id is the coalesced one. -/
theorem ownIds_move_iff (hs : ProxyInv serde blake3 app s) (hown : s.OwnIds)
    (htask : s.tasks i = some task) (h : taskMove serde blake3 app s i task a = some m) :
    (s.apply i task m).OwnIds ↔ SameIdReceived s (.task i a) := by
  have hfinishes := (taskMove_spec (hs.task i task htask) h).finishes
  rw [ownIds_apply_iff hown]
  by_cases hrecv : a = .coalesce .recv
  · subst hrecv
    constructor
    · intro hid task' leader c msg htask' hreceived hleader
      obtain rfl := Option.some.inj (htask.symm.trans htask')
      obtain ⟨leader', answer, hleader', -, hresp⟩ := hs.received hreceived
      obtain rfl := Option.some.inj (hleader.symm.trans hleader')
      have hdone := hid _ _ (done_of_received hreceived hresp h)
      rwa [JsonRpcResponse.canonical_id, respond_id] at hdone
    · intro hsame exit resp hphase
      cases hfinishes exit resp hphase with
      | @coalesced c msg resp hreceived hresp =>
        obtain ⟨leader, answer, hleader, -, hresp'⟩ := hs.received hreceived
        obtain rfl := Option.some.inj (hresp.symm.trans hresp')
        rw [JsonRpcResponse.canonical_id, respond_id]
        exact hsame task leader c msg htask hreceived hleader
      | upstream => exact respond_id _ _
  · refine iff_of_true (fun exit resp hphase => ?_) ?_
    · refine (hfinishes exit resp hphase).id_eq ?_
      rintro rfl
      cases hfinishes _ resp hphase
      exact hrecv rfl
    · cases a with
      | coalesce op =>
        cases op with
        | recv => exact absurd rfl hrecv
        | _ => trivial
      | _ => trivial

theorem ownIds_step_iff [DecidableEq ι] {a : ProxyAction ι} (hs : ProxyInv serde blake3 app s)
    (hown : s.OwnIds) (h : proxyStep serde blake3 app s a = some t) :
    t.OwnIds ↔ SameIdReceived s a := by
  cases stepped h with
  | request hfresh => exact iff_of_true (ownIds_withTask hown _ _ _) trivial
  | move htask hm => exact ownIds_move_iff hs hown htask hm
  | item hbatch hcurrent hdedup hreq hfresh =>
    exact iff_of_true (ownIds_setBatch (ownIds_withTask hown _ _ _) _ _) trivial
  | _ => exact iff_of_true hown trivial

variable [DecidableEq ι] (serde blake3 app) in
/-- **Every response carries the id of its own request, in every state of a run, exactly when no
waiter receives the broadcast of a leader that has asked with another id.** -/
theorem always_ownIds_iff (redis : Redis Text) (latest : ι → Option ℕ) (as : List (ProxyAction ι)) :
    Always (proxyStep serde blake3 app) ProxyState.OwnIds (.init redis latest) as ↔
      Along (proxyStep serde blake3 app) SameIdReceived (.init redis latest) as :=
  always_iff_along (fun _ _ _ hs ht => proxyInv_step hs ht)
    (fun _ _ _ hs hown ht => ownIds_step_iff hs hown ht) (proxyInv_init redis latest)
    (fun _ _ _ _ h => absurd h (Option.some_ne_none _).symm)

/-- A balance, asked for with a given id. -/
def balanceRequest (id : Value) : JsonRpcRequest where
  jsonrpc := "2.0"
  method := "eth_getBalance"
  params := .array [.string "0xabc", .string "latest"]
  id := id

/-- The digest of every `balanceRequest`. -/
def balanceDigest : Blake3 Value :=
  .const "2a4c222b80fd651378c62764fe596794173dce5f0a430145970c0476f0e1bf34" (by decide)

/-- The texts of two of them are the same, so their digests are apart. -/
theorem balanceDigest_separates : balanceDigest.Separates .tree
    {req | req ∈ [balanceRequest (.ofU64 1), balanceRequest (.ofU64 2)]} := by
  rintro _ ⟨a, ha, rfl⟩ _ ⟨b, hb, rfl⟩ -
  simp only [Set.mem_ofPred_eq, List.mem_cons, List.not_mem_nil, or_false] at ha hb
  rcases ha with rfl | rfl <;> rcases hb with rfl | rfl <;> rfl

/-- One chain, with the default policies. -/
def oneChain : AppConfig Unit where
  chains := fun _ => { chainId := 1, finalityDepth := 64 }
  cache := ⟨[]⟩
  blockedMethods := []
  maxBatchSize := 100
  debugClient := .off

/-- Two clients ask for the same balance at the same time, with the ids 1 and 2. -/
def twoClients : List (ProxyAction Unit) :=
  [.request 0 () (balanceRequest (.ofU64 1)), .request 1 () (balanceRequest (.ofU64 2)),
    .task 0 .enter, .task 0 .resolve, .task 0 (.get true), .task 0 (.coalesce .lookup),
    .task 0 (.coalesce .insert), .task 0 .forward,
    .task 1 .enter, .task 1 .resolve, .task 1 (.get true), .task 1 (.coalesce .lookup),
    .task 0 (.answer (.ok (.success (.ofU64 1) (.string "0x10")))),
    .task 0 (.store true), .task 0 (.store true), .task 0 .finish, .task 0 (.coalesce .broadcast),
    .task 1 (.coalesce .recv)]

/-- The second client gets the response with the id of the first one. -/
theorem twoClients_not_ownIds :
    ∃ s, run (proxyStep .tree balanceDigest oneChain) (.init (fun _ => none) fun _ => none)
        twoClients = some s ∧
      (∃ task, s.tasks 1 = some task ∧ task.req.id = .ofU64 2 ∧
        task.phase = .done .coalesced (.success (.ofU64 1) (.string "0x10"))) ∧
      ¬ s.OwnIds := by
  have hrun : ∃ s, run (proxyStep .tree balanceDigest oneChain)
      (.init (fun _ => none) fun _ => none) twoClients = some s ∧
      s.tasks 1 = some ⟨(), balanceRequest (.ofU64 2), none,
        .done .coalesced (.success (.ofU64 1) (.string "0x10"))⟩ := ⟨_, rfl, rfl⟩
  obtain ⟨s, hrun, htask⟩ := hrun
  refine ⟨s, hrun, ⟨_, htask, rfl, rfl⟩, fun hown => ?_⟩
  have hid : (Value.ofU64 1) = .ofU64 2 := hown 1 _ _ _ htask rfl
  simp [Value.ofU64] at hid

end Poolbeg
