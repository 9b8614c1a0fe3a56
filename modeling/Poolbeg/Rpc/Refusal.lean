import Poolbeg.Rpc.BatchDedup
import Poolbeg.Rpc.CacheHit
import Poolbeg.Rpc.Parse

/-!
# Blocked requests

`process_single_request` compares the method with `blocked_methods` before it does anything else,
and a batch does not compare the keys of blocked requests. So a blocked request has three states
only: its task has not run yet, has been refused, or was dropped with the client. It never gets to
the cache, the coalescer or an upstream, and in a batch it neither is marked as a duplicate nor is
what a duplicate is filled with.

## What is compared

`blocked_methods` are prefixes, and a method is blocked if it starts with one of them, with regard
to case. The list is the configuration's and the same for all chains. A refusal carries the code
-32601 and the id of the request; it is logged like any other response, and since it is an error its
logging cannot fail. A batch is refused as a whole only for its length, before any of its items is
looked at, and a body that is too long or does not parse never gets here.

## How the promise is stated

`ProxyState.Refuses` is about a state and quantifies over all tasks, all batches, and over what the
proxy may do next: a blocked request that is admitted is answered, and answered so, in its first
step, and there is no other step for it. It holds in every reachable state, from any cache.

## Main definitions

* `AppConfig.Blocks`, `refusal` — what is blocked, and what it is answered
* `Task.Refused`, `RefusalInv` — the task of a blocked request
* `ProxyState.Refuses` — how a state treats blocked requests

## Main results

* `refused_moved` — the one step of a blocked request
* `refusalInv_step` — every step keeps to it
* `refuses_run` — every state that is reached treats them so
-/

namespace Poolbeg

open Lts

variable {ι Text : Type}

/-- The method starts with a configured prefix. This is all that the refusal depends on: neither the
chain nor the parameters nor the client count. -/
def AppConfig.Blocks (app : AppConfig ι) (method : String) : Prop :=
  isMethodBlocked method app.blockedMethods = true

instance (app : AppConfig ι) (method : String) : Decidable (app.Blocks method) :=
  inferInstanceAs (Decidable (isMethodBlocked method app.blockedMethods = true))

theorem AppConfig.not_blocks {app : AppConfig ι} {method : String} :
    ¬ app.Blocks method ↔ isMethodBlocked method app.blockedMethods = false := by
  rw [AppConfig.Blocks, Bool.not_eq_true]

/-- What a blocked request is answered. The message is that of the source. -/
def refusal (id : Value) : JsonRpcResponse := .ofError id methodNotFound "Method not allowed"

/-- The task has not run yet, has been refused, or was dropped. A task in any other phase has passed
the comparison. -/
def Task.Refused (task : Task ι Text) : Prop :=
  match task.phase with
  | .entry | .cancelled => True
  | .done exit resp => exit = .blocked ∧ resp = refusal task.req.id
  | _ => False

/-- The work that a body, once read, gives. -/
def RpcRequest.action (chain : ι) (n : ℕ) : RpcRequest → ProxyAction ι
  | .single req => .request n chain req
  | .batch reqs => .batch n chain reqs

/-- The body is not refused for its size. -/
def RpcRequest.Fits (maxBatchSize : ℕ) : RpcRequest → Prop
  | .single _ => True
  | .batch reqs => reqs.length ≤ maxBatchSize

variable {serde : SerdeJson Text} {blake3 : Blake3 Text} {app : AppConfig ι}
  {s t : ProxyState ι Text} {i : ℕ} {task : Task ι Text}

/-! ### The task of a blocked request -/

theorem Forwards.not_refused {req : JsonRpcRequest} {wrap : Forwarding Text → TaskPhase Text}
    {stage : Forwarding Text} (hwrap : Forwards req wrap) (hphase : task.phase = wrap stage) :
    ¬ task.Refused := by
  rw [Task.Refused, hphase]
  cases hwrap <;> exact not_false

theorem Task.Refused.request (h : task.Refused) : task.phase.request = none := by
  rw [Task.Refused] at h
  cases hphase : task.phase with
  | entry | resolving | done | cancelled => rfl
  | lookingUp | coalescing | forwarding =>
    rw [hphase] at h
    exact absurd h not_false

/-- **A blocked request is refused in its first step**, if it is not dropped. The comparison is
before the first await, so nothing comes in between. -/
theorem refused_moved {a : TaskStep} {m : Move Text} (hblocked : app.Blocks task.req.method)
    (hrefused : task.Refused) (h : TaskMoved serde blake3 app s i task a m) :
    (a = .enter ∧ m = s.goTo i (.done .blocked (refusal task.req.id))) ∨
      (a = .cancel ∧ m = s.goTo i .cancelled) := by
  have hnever : ∀ {phase : TaskPhase Text}, task.phase = phase → phase.request ≠ none → False :=
    fun hphase hne => hne (hphase ▸ hrefused.request)
  have hadmitted : isMethodBlocked task.req.method app.blockedMethods ≠ false :=
    fun h => AppConfig.not_blocks.mpr h hblocked
  cases h with
  | blocked hphase => exact .inl ⟨rfl, rfl⟩
  | intercept hphase hunblocked | enter hphase hunblocked => exact absurd hunblocked hadmitted
  | pass hphase | lookUp hphase =>
    rw [Task.Refused, hphase] at hrefused
    exact absurd hrefused not_false
  | hit hphase | miss hphase | coalesce hphase | returned hphase | handOver hphase | finish hphase
  | cancelCall hphase => exact (hnever hphase (Option.some_ne_none _)).elim
  | forward hwrap hphase | answer hwrap hphase | store hwrap hphase =>
    exact absurd hrefused (hwrap.not_refused hphase)
  | cancel => exact .inr ⟨rfl, rfl⟩

/-! ### Every state -/

variable (serde blake3 app) in
/-- The task of a blocked request has no call in the coalescer and no answer of an upstream. The
other two invariants are carried along because the step lemma needs them. -/
structure RefusalInv (s : ProxyState ι Text) : Prop where
  proxy : ProxyInv serde blake3 app s
  batches : BatchInv serde blake3 app s
  refused : ∀ i task, s.tasks i = some task → app.Blocks task.req.method →
    task.Refused ∧ s.coalescer.calls i = none ∧ s.answers i = none

theorem refusalInv_init (redis : Redis Text) (latest : ι → Option ℕ) :
    RefusalInv serde blake3 app (ProxyState.init redis latest) where
  proxy := proxyInv_init redis latest
  batches := batchInv_init redis latest
  refused _ _ h := absurd h (Option.some_ne_none _).symm

theorem refused_apply (hs : RefusalInv serde blake3 app s) {a : TaskStep} {m : Move Text}
    (htask : s.tasks i = some task) (hm : taskMove serde blake3 app s i task a = some m) {j : ℕ}
    {task' : Task ι Text} (hj : (s.apply i task m).tasks j = some task')
    (hblocked : app.Blocks task'.req.method) :
    task'.Refused ∧ (s.apply i task m).coalescer.calls j = none ∧
      (s.apply i task m).answers j = none := by
  rcases ProxyState.tasks_apply_eq_some hj with ⟨rfl, rfl⟩ | ⟨hji, hj⟩
  · have hblocked : app.Blocks task.req.method := hblocked
    obtain ⟨hrefused, hcalls, hanswers⟩ := hs.refused j task htask hblocked
    rw [s.answers_apply_self]
    rcases refused_moved hblocked hrefused (taskMoved hm) with ⟨-, rfl⟩ | ⟨-, rfl⟩
    · exact ⟨⟨rfl, rfl⟩, hcalls, hanswers⟩
    · exact ⟨trivial, hcalls, hanswers⟩
  · rw [calls_apply_of_ne hm hji, s.answers_apply_of_ne task m hji]
    exact hs.refused j task' hj hblocked

theorem refused_withTask (hs : RefusalInv serde blake3 app s) (hfresh : s.tasks i = none)
    {chain : ι} {req : JsonRpcRequest} {origin : Option (ℕ × ℕ)} {j : ℕ} {task' : Task ι Text}
    (hj : (s.withTask i chain req origin).tasks j = some task')
    (hblocked : app.Blocks task'.req.method) :
    task'.Refused ∧ s.coalescer.calls j = none ∧ s.answers j = none := by
  rcases ProxyState.tasks_withTask_eq_some hj with ⟨rfl, rfl⟩ | ⟨-, hj⟩
  · exact ⟨trivial, hs.proxy.fresh j hfresh⟩
  · exact hs.refused j task' hj hblocked

theorem refusalInv_step [DecidableEq ι] {a : ProxyAction ι} (hs : RefusalInv serde blake3 app s)
    (h : proxyStep serde blake3 app s a = some t) : RefusalInv serde blake3 app t := by
  refine ⟨proxyInv_step hs.proxy h, batchInv_step hs.batches h, fun j task hj hblocked => ?_⟩
  cases stepped h with
  | request hfresh => exact refused_withTask hs hfresh hj hblocked
  | move htask hm => exact refused_apply hs htask hm hj hblocked
  | item hbatch hcurrent hdedup hreq hfresh => exact refused_withTask hs hfresh hj hblocked
  | head | write | batch | skip | collect | reply => exact hs.refused j task hj hblocked

/-- What tasks work on has their own method, so it is not blocked. -/
theorem RefusalInv.request (hs : RefusalInv serde blake3 app s) {req : JsonRpcRequest}
    (htask : s.tasks i = some task) (hreq : task.phase.request = some req) :
    ¬ app.Blocks req.method := by
  intro hblocked
  have hmethod : req.method = task.req.method := by
    have hok := hs.proxy.task i task htask
    rw [TaskOk] at hok
    cases hphase : task.phase with
    | lookingUp | coalescing | forwarding =>
      rw [hphase] at hok hreq
      cases hreq
      exact hok.1
    | entry | resolving | done | cancelled =>
      rw [hphase] at hreq
      cases hreq
  have hrefused := (hs.refused i task htask (hmethod ▸ hblocked)).1
  exact absurd (hrefused.request.symm.trans hreq) (Option.some_ne_none _).symm

/-- A position of a batch whose request is blocked is no duplicate. -/
theorem dedup_of_blocked {batch : Batch ι} {k : ℕ} {req : JsonRpcRequest}
    (hreq : batch.reqs[k]? = some req) (hblocked : app.Blocks req.method) :
    (batch.dedup serde blake3 app)[k]? = some none :=
  unmarked_of_batchKey_none serde blake3 _ _ hreq ((batchKey_eq_none_iff ..).mpr (.inr hblocked))

/-- The response of a position that is no duplicate is what its task returned, and the one of a
duplicate is a clone of that. -/
theorem reply_position {b k : ℕ} {batch : Batch ι} {responses : List JsonRpcResponse}
    {req : JsonRpcRequest} (hok : BatchOk serde blake3 app s b batch)
    (hlength : batch.items.length = batch.reqs.length)
    (hresponses : thirdPass (batch.dedup serde blake3 app) batch.reqs batch.responses =
      some responses)
    (hreq : batch.reqs[k]? = some req) (hunblocked : ¬ app.Blocks req.method) :
    ∃ f i task exit resp, s.tasks i = some task ∧ task.origin = some (b, f) ∧
      ¬ app.Blocks task.req.method ∧ task.phase = .done exit resp ∧
      (responses[k]? = some resp ∨ responses[k]? = some (resp.withId req.id)) := by
  have hlt : k < (batch.dedup serde blake3 app).length := by
    rw [Batch.dedup, length_firstPass]
    exact (List.getElem?_eq_some_iff.mp hreq).1
  obtain ⟨dup, hdup⟩ : ∃ dup, (batch.dedup serde blake3 app)[k]? = some dup :=
    ⟨_, List.getElem?_eq_getElem hlt⟩
  cases dup with
  | none =>
    obtain ⟨i, task, exit, resp, htask, horigin, rfl, hdone, hresponse⟩ :=
      reply_item hok hlength hresponses hreq hdup
    exact ⟨k, i, task, exit, resp, htask, horigin, hunblocked, hdone, .inl hresponse⟩
  | some f =>
    obtain ⟨key, orig, -, -, horig, horigKey, hf⟩ :=
      firstPass_duplicate serde blake3 _ _ hreq hdup
    obtain ⟨i, task, exit, resp, htask, horigin, rfl, hdone, hresponse⟩ :=
      responses_item hok hlength horig hf
    have hlt' : k < batch.responses.length := by
      rw [Batch.responses, List.length_map, hlength]
      exact (List.getElem?_eq_some_iff.mp hreq).1
    obtain ⟨filled, hfilled, heq⟩ :=
      thirdPassFrom_getElem? hresponses hdup hreq (List.getElem?_eq_getElem hlt')
    rw [fillDuplicate, hresponse] at heq
    refine ⟨f, i, task, exit, resp, htask, horigin, ?_, hdone, .inr (hfilled.trans heq.symm)⟩
    exact AppConfig.not_blocks.mpr ((batchKey_eq_some_iff ..).mp horigKey).2.1

/-! ### What a client sees -/

variable [DecidableEq ι]

variable (serde blake3 app) in
/-- How a state treats blocked requests. -/
structure ProxyState.Refuses (s : ProxyState ι Text) : Prop where
  /-- Whatever a body is read as is taken up. -/
  body : ∀ reader (text : JsonText) request chain n, RpcRequest.parse reader text = some request →
    request.Fits app.maxBatchSize → s.tasks n = none → s.batches n = none →
    ∃ t, proxyStep serde blake3 app s (request.action chain n) = some t
  /-- A blocked request has no call in the coalescer and no answer of an upstream. -/
  refused : ∀ i task, s.tasks i = some task → app.Blocks task.req.method →
    task.Refused ∧ s.coalescer.calls i = none ∧ s.answers i = none
  /-- No lookup, no call of the coalescer and no upstream call is for a blocked request. -/
  request : ∀ i task req, s.tasks i = some task → task.phase.request = some req →
    ¬ app.Blocks req.method
  /-- The steps of a blocked request leave the cache and the coalescer alone. -/
  step : ∀ i task a t, s.tasks i = some task → app.Blocks task.req.method →
    proxyStep serde blake3 app s (.task i a) = some t →
    (a = .enter ∨ a = .cancel) ∧ t.redis = s.redis ∧ t.coalescer = s.coalescer
  /-- Its first step answers it, with its own id. -/
  enter : ∀ i task, s.tasks i = some task → app.Blocks task.req.method → task.phase = .entry →
    ∃ t, proxyStep serde blake3 app s (.task i .enter) = some t ∧
      t.tasks i = some { task with phase := .done .blocked (refusal task.req.id) }
  /-- A batch that is done with its items is replied to. -/
  answered : ∀ b batch, s.batches b = some batch → batch.current = none →
    batch.items.length = batch.reqs.length → batch.replied = none →
    ∃ t, proxyStep serde blake3 app s (.reply b) = some t
  /-- In the reply to a batch the blocked requests are refused, each with its own id, and the others
  have the responses of tasks of the batch that are not blocked. -/
  reply : ∀ b batch t, s.batches b = some batch → proxyStep serde blake3 app s (.reply b) = some t →
    ∃ responses, t.batches b = some { batch with replied := some responses } ∧
      ∀ (k : ℕ) req, batch.reqs[k]? = some req →
        (app.Blocks req.method → responses[k]? = some (refusal req.id)) ∧
        (¬ app.Blocks req.method → ∃ f i task exit resp, s.tasks i = some task ∧
          task.origin = some (b, f) ∧ ¬ app.Blocks task.req.method ∧ task.phase = .done exit resp ∧
          (responses[k]? = some resp ∨ responses[k]? = some (resp.withId req.id)))

theorem body_taken {request : RpcRequest} {n : ℕ} (chain : ι)
    (hfits : request.Fits app.maxBatchSize) (htask : s.tasks n = none)
    (hbatch : s.batches n = none) :
    ∃ t, proxyStep serde blake3 app s (request.action chain n) = some t := by
  cases request with
  | single req => exact ⟨_, by rw [RpcRequest.action, proxyStep, ProxyState.startTask, htask]⟩
  | batch reqs =>
    have hfits : reqs.length ≤ app.maxBatchSize := hfits
    exact ⟨_, by simp only [RpcRequest.action, proxyStep, hbatch, if_pos hfits]; rfl⟩

theorem RefusalInv.step (hs : RefusalInv serde blake3 app s) {a : TaskStep}
    (htask : s.tasks i = some task) (hblocked : app.Blocks task.req.method)
    (h : proxyStep serde blake3 app s (.task i a) = some t) :
    (a = .enter ∨ a = .cancel) ∧ t.redis = s.redis ∧ t.coalescer = s.coalescer := by
  cases stepped h with
  | move htask' hm =>
    obtain rfl := Option.some.inj (htask.symm.trans htask')
    rcases refused_moved hblocked (hs.refused i task htask hblocked).1 (taskMoved hm) with
      ⟨ha, rfl⟩ | ⟨ha, rfl⟩
    · exact ⟨.inl ha, rfl, rfl⟩
    · exact ⟨.inr ha, rfl, rfl⟩

theorem enter_refused (htask : s.tasks i = some task) (hblocked : app.Blocks task.req.method)
    (hphase : task.phase = .entry) :
    ∃ t, proxyStep serde blake3 app s (.task i .enter) = some t ∧
      t.tasks i = some { task with phase := .done .blocked (refusal task.req.id) } := by
  have hm : taskMove serde blake3 app s i task .enter =
      some (s.goTo i (.done .blocked (refusal task.req.id))) := by
    rw [taskMove, hphase]
    exact if_pos hblocked
  refine ⟨s.apply i task (s.goTo i (.done .blocked (refusal task.req.id))), ?_,
    s.tasks_apply_self i task _⟩
  rw [proxyStep, htask, Option.bind_some, hm, Option.map_some]

theorem RefusalInv.reply (hs : RefusalInv serde blake3 app s) {b : ℕ} {batch : Batch ι}
    (hbatch : s.batches b = some batch) (h : proxyStep serde blake3 app s (.reply b) = some t) :
    ∃ responses, t.batches b = some { batch with replied := some responses } ∧
      ∀ (k : ℕ) req, batch.reqs[k]? = some req →
        (app.Blocks req.method → responses[k]? = some (refusal req.id)) ∧
        (¬ app.Blocks req.method → ∃ f i task exit resp, s.tasks i = some task ∧
          task.origin = some (b, f) ∧ ¬ app.Blocks task.req.method ∧ task.phase = .done exit resp ∧
          (responses[k]? = some resp ∨ responses[k]? = some (resp.withId req.id))) := by
  cases stepped h with
  | @reply b batch' responses hbatch' hcurrent hlength hreplied hresponses =>
    obtain rfl := Option.some.inj (hbatch.symm.trans hbatch')
    have hok := hs.batches.batch b batch hbatch
    refine ⟨responses, s.batches_setBatch_self b _, fun k req hreq => ⟨fun hblocked => ?_, ?_⟩⟩
    · -- the task of a blocked item has been refused
      obtain ⟨i, task, exit, resp, htask, -, rfl, hdone, hresponse⟩ :=
        reply_item hok hlength hresponses hreq (dedup_of_blocked hreq hblocked)
      have hrefused := (hs.refused i task htask hblocked).1
      rw [Task.Refused, hdone] at hrefused
      rw [hresponse, hrefused.2]
    · exact reply_position hok hlength hresponses hreq

theorem RefusalInv.refuses (hs : RefusalInv serde blake3 app s) : s.Refuses serde blake3 app where
  body _ _ _ chain _ _ hfits htask hbatch := body_taken chain hfits htask hbatch
  refused := hs.refused
  request _ _ _ htask hreq := hs.request htask hreq
  step _ _ _ _ htask hblocked h := hs.step htask hblocked h
  enter _ _ htask hblocked hphase := enter_refused htask hblocked hphase
  answered b batch hbatch hcurrent hlength hreplied := by
    have hsome := replyStep_isSome (hs.batches.batch b batch hbatch) hcurrent hlength hreplied
    obtain ⟨t, ht⟩ := Option.isSome_iff_exists.mp hsome
    exact ⟨t, by rw [proxyStep, hbatch, Option.bind_some, ht]⟩
  reply _ _ _ hbatch h := hs.reply hbatch h

/-- **Every state that is reached treats blocked requests so**, whatever the clients, the upstreams
and Redis do. -/
theorem refuses_run {redis : Redis Text} {latest : ι → Option ℕ} {as : List (ProxyAction ι)}
    (hrun : run (proxyStep serde blake3 app) (.init redis latest) as = some s) :
    s.Refuses serde blake3 app :=
  (run_inv (fun _ _ _ hs ht => refusalInv_step hs ht) (refusalInv_init redis latest) hrun).refuses

end Poolbeg
