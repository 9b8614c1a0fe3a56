import Poolbeg.Service.Steps

/-!
# Every answer goes back to an upstream

`Justified` says what the proxy may answer in terms of its own upstream calls, and `FailsOver` what
such a call does with the upstreams. In the service the two are about the same calls.

So every answer is either the proxy's own word, or it is what `forward_request` came to for a
request with the same method and the same resolved parameters, on a chain with the same chain id:
the first response that one of the upstreams of that chain gave in this run, or the failure of all
of them.

## What is traced

An answer leaves `handle_request` on one of its exits. A blocked method and an answer from the head
that the tracker knows (`memoryIntercept`) are the proxy's own word. The others come from upstream:
from the call that the task made itself, from that of the leader which it waited for, or from the
call that put the entry into Redis which it read. The last two were made for another request, and it
is the digest in the key that says it was the same one. That is why digests have to be apart, for
the requests that were resolved in the run.

Nothing here says that the upstream is right; what is traced is whose word an answer is.

## Main definitions

* `ServiceAction.Decoded` — responses are decoded from the bodies that upstreams send
* `callLog`, `Fetched` — a call of `forward_request` in a run of the service
* `Traced` — what may be answered on each of the exits

## Main results

* `fetched_of_answered` — a call that has returned has failed over
* `fetched_of_returned` — an upstream call of the proxy is a call of `forward_request`
* `service_answers` — every answer is traced, in every run from an empty Redis
-/

namespace Poolbeg

open Lts

variable {ι Text : Type} {n : ι → ℕ}

/-- Responses are decoded from the bodies that upstreams send. So none is there that
`JsonRpcResponse.deserialize` cannot make. -/
def ServiceAction.Decoded : ServiceAction n → Prop
  | .pool _ (.move _ (.answer (.ok _ resp))) => ∃ v, JsonRpcResponse.deserialize v = some resp
  | _ => True

variable [DecidableEq ι] (serde : SerdeJson Text) (blake3 : Blake3 Text) (app : AppConfig ι)
  (managers : (chain : ι) → ChainManager (n chain))

/-- What there is to see, in a run, of the upstream call of the task `i`: which upstreams were sent
its request, and what came back. -/
def callLog (start : ServiceState ι Text n) (as : List (ServiceAction n)) (chain : ι) (i : ℕ) :
    List (ForwardEvent (Fin (n chain))) :=
  gather (poolStep (managers chain)) ((managers chain).events i) (start.2 chain)
    (poolActions serde blake3 app managers start as chain)

/-- The task `i` was made for `orig`, which was resolved to `req`; it called `forward_request` on
its chain, and that came to `x`, after it had failed over as `FailsOver` says. -/
structure Fetched (start : ServiceState ι Text n) (as : List (ServiceAction n)) (i : ℕ) (chain : ι)
    (orig req : JsonRpcRequest) (x : Answer) : Prop where
  resolved : Once (proxyStep serde blake3 app) (ResolvedBy app i chain orig req) start.1
    (proxyActions serde blake3 app managers start as)
  called : .forward i req ∈ poolActions serde blake3 app managers start as chain
  failsOver : FailsOver (managers chain) req.method
    (callLog serde blake3 app managers start as chain i) x
  reached : ∀ tier ∈ tiersOf (callLog serde blake3 app managers start as chain i),
    ReachedIn (managers chain) (start.2 chain)
      (poolActions serde blake3 app managers start as chain) i tier
  /-- A response is the reply of an upstream in a step of the run. -/
  replied : ∀ u resp,
    (u, some resp) ∈ sendsOf (callLog serde blake3 app managers start as chain i) →
      ∃ elapsed, .pool chain (.move i (.answer (.ok elapsed resp))) ∈ as

/-- What may be answered to the request of the task `i`, on each of the exits: the proxy's own word,
or what some task fetched for a request that was resolved to the same one. -/
inductive Traced (start : ServiceState ι Text n) (as : List (ServiceAction n)) (i : ℕ)
    (task : Task ι Text) : Exit → JsonRpcResponse → Prop
  | blocked (hblocked : isMethodBlocked task.req.method app.blockedMethods = true) :
      Traced start as i task .blocked
        (.ofError task.req.id methodNotFound "Method not allowed")
  | memoryIntercept {resp : JsonRpcResponse}
      (hintercepted : Once (proxyStep serde blake3 app)
        (InterceptedBy app i task.chain task.req resp) start.1
        (proxyActions serde blake3 app managers start as)) :
      Traced start as i task .memoryIntercept resp
  | cacheHit {j : ℕ} {chain : ι} {orig req req' : JsonRpcRequest} {answered : JsonRpcResponse}
      (hresolved : Once (proxyStep serde blake3 app)
        (ResolvedBy app i task.chain task.req req) start.1
        (proxyActions serde blake3 app managers start as))
      (hfetched : Fetched serde blake3 app managers start as j chain orig req' (.ok answered))
      (hchain : (app.chains chain).chainId = (app.chains task.chain).chainId)
      (hmethod : req'.method = req.method) (hparams : req'.params = req.params)
      (herror : answered.error = none) :
      Traced start as i task .cacheHit (answered.withId task.req.id)
  | coalesced {j : ℕ} {chain : ι} {orig req req' : JsonRpcRequest} {x : Answer} (hother : j ≠ i)
      (hresolved : Once (proxyStep serde blake3 app)
        (ResolvedBy app i task.chain task.req req) start.1
        (proxyActions serde blake3 app managers start as))
      (hfetched : Fetched serde blake3 app managers start as j chain orig req' x)
      (hchain : (app.chains chain).chainId = (app.chains task.chain).chainId)
      (hmethod : req'.method = req.method) (hparams : req'.params = req.params) :
      Traced start as i task .coalesced (respond orig.id x)
  | upstream {req : JsonRpcRequest} {x : Answer}
      (hfetched : Fetched serde blake3 app managers start as i task.chain task.req req x) :
      Traced start as i task .upstream (respond task.req.id x)

variable {serde blake3 app managers}

/-! ### Calls of `forward_request` -/

section Calls

variable {m : ℕ} {manager : ChainManager m} {q q' : PoolState m} {bs : List (PoolAction m)} {i : ℕ}

/-- A call that is there has been made. -/
theorem forward_mem_of_call {call : ForwardCall (Fin m)} (hnone : q.calls i = none)
    (hrun : run (poolStep manager) q bs = some q') (hcall : q'.calls i = some call) :
    .forward i call.req ∈ bs := by
  refine run_history (H := fun bs (q' : PoolState m) => ∀ call, q'.calls i = some call →
    .forward i call.req ∈ bs) (fun call hcall => ?_) (fun bs r b r' _ h hr' call hcall => ?_) hrun
    call hcall
  · cases hnone.symm.trans hcall
  · obtain ⟨req, rfl, -, hnew, -⟩ | ⟨move, call₀, event, r₀, call', -, hold, hnew, hmove, -⟩ |
      ⟨hsame, -⟩ := poolStep_call hr' i
    · obtain rfl := Option.some.inj (hnew.symm.trans hcall)
      exact List.mem_append_right _ List.mem_cons_self
    · obtain rfl := Option.some.inj (hnew.symm.trans hcall)
      have hreq : call'.req = call₀.req := by cases hmove <;> rfl
      rw [hreq]
      exact List.mem_append_left _ (h call₀ hold)
    · exact List.mem_append_left _ (h call (hsame.symm.trans hcall))

/-- A response in the log is the reply of an upstream in a step of the run, to a call that had been
sent to it. -/
theorem reply_mem_of_sent {u : Fin m} {resp : JsonRpcResponse}
    (h : (u, some resp) ∈ sendsOf (gather (poolStep manager) (manager.events i) q bs)) :
    ∃ elapsed, .move i (.answer (.ok elapsed resp)) ∈ bs := by
  obtain ⟨shown, hshown, hsend⟩ := List.mem_filterMap.mp h
  obtain ⟨pre, b, post, r, rfl, -, hb⟩ := once_of_mem_gather hshown
  cases b with
  | move j move =>
    rw [ChainManager.events] at hb
    split_ifs at hb with hj
    · obtain ⟨call, -, hevent⟩ := Option.bind_eq_some_iff.mp (Option.mem_toList.mp hb)
      unfold eventOf at hevent
      split at hevent
      · cases hevent
        cases hsend
      · cases hevent
        cases hsend
      · rename_i reply hphase
        cases hevent
        obtain ⟨-, hresp⟩ := Prod.mk.inj (Option.some.inj hsend)
        cases reply with
        | ok elapsed resp' =>
          cases hresp
          subst hj
          exact ⟨elapsed, List.mem_append_right pre List.mem_cons_self⟩
        | unreachable | httpError | unusable => cases hresp
      · cases hevent
    · cases hb
  | forward | client | latency => cases hb

end Calls

section Service

variable {start s : ServiceState ι Text n} {as : List (ServiceAction n)} {i : ℕ} {chain : ι}

/-- What the upstreams do by themselves is a step of the service. Only the steps that begin or end a
call come from elsewhere. -/
theorem mem_of_mem_poolActions {b : PoolAction (n chain)} (halone : b.alone = true)
    (h : b ∈ poolActions serde blake3 app managers start as chain) : .pool chain b ∈ as := by
  obtain ⟨pre, a, post, u, rfl, -, hb⟩ := once_of_mem_gather (mem_labelsOf.mp h)
  have hparts : ∃ ps qs, a.parts u = some (ps, qs) ∧ ⟨chain, b⟩ ∈ qs := by
    cases hparts : a.parts u with
    | none =>
      rw [sndLabels, hparts] at hb
      cases hb
    | some p =>
      rw [sndLabels, hparts] at hb
      exact ⟨p.1, p.2, rfl, hb⟩
  obtain ⟨ps, qs, hparts, hb⟩ := hparts
  refine List.mem_append_right pre (List.mem_cons.mpr (.inl ?_))
  cases a with
  | proxy a =>
    obtain ⟨-, hparts⟩ := Option.ite_none_right_eq_some.mp hparts
    cases hparts
    cases hb
  | pool chain' b' =>
    obtain ⟨-, hparts⟩ := Option.ite_none_right_eq_some.mp hparts
    cases hparts
    cases List.mem_singleton.mp hb
    rfl
  | forward j =>
    obtain ⟨task, -, hparts⟩ := Option.bind_eq_some_iff.mp hparts
    obtain ⟨req, -, hparts⟩ := Option.map_eq_some_iff.mp hparts
    cases hparts
    cases List.mem_singleton.mp hb
    cases halone
  | answer j =>
    obtain ⟨task, -, hparts⟩ := Option.bind_eq_some_iff.mp hparts
    obtain ⟨x, -, hparts⟩ := Option.map_eq_some_iff.mp hparts
    cases hparts
    cases hb
  | cancel j =>
    obtain ⟨task, -, hparts⟩ := Option.bind_eq_some_iff.mp hparts
    obtain ⟨-, hparts⟩ := Option.ite_none_right_eq_some.mp hparts
    cases hparts
    cases List.mem_singleton.mp hb
    cases halone
  | panic j =>
    obtain ⟨task, -, hparts⟩ := Option.bind_eq_some_iff.mp hparts
    obtain ⟨-, hparts⟩ := Option.ite_none_right_eq_some.mp hparts
    cases hparts
    cases List.mem_singleton.mp hb
    cases halone

/-- **A call that has returned has failed over**, and its task is the one that was resolved to its
request. -/
theorem fetched_of_answered {orig req : JsonRpcRequest} {x : Answer}
    (hnone : (start.2 chain).calls i = none)
    (hrun : run (serviceStep serde blake3 app managers) start as = some s)
    (hanswered : (s.2 chain).Answered i req x)
    (hresolved : Once (proxyStep serde blake3 app) (ResolvedBy app i chain orig req) start.1
      (proxyActions serde blake3 app managers start as)) :
    Fetched serde blake3 app managers start as i chain orig req x := by
  obtain ⟨call, hcall, rfl, hdone⟩ := hanswered
  have hpool := pool_run hrun chain
  have hlog := logged_run hnone hpool
  simp only [hcall] at hlog
  refine ⟨hresolved, forward_mem_of_call hnone hpool hcall,
    failsOver_of_logged hlog hdone fun tier htier => ?_, fun tier htier => reachedIn_of_mem htier,
    fun u resp hsent => ?_⟩
  · obtain ⟨-, mid, random, -, -, hmid⟩ := reachedIn_of_mem htier
    exact ⟨mid, random, hmid⟩
  · obtain ⟨elapsed, hmem⟩ := reply_mem_of_sent hsent
    exact ⟨elapsed, mem_of_mem_poolActions rfl hmem⟩

/-- A call that has returned a response has had it from an upstream. -/
theorem exists_reply {call : ForwardCall (Fin (n chain))} {resp : JsonRpcResponse}
    (hnone : (start.2 chain).calls i = none)
    (hrun : run (serviceStep serde blake3 app managers) start as = some s)
    (hcall : (s.2 chain).calls i = some call) (hdone : call.phase = .done (.ok resp)) :
    ∃ elapsed, .pool chain (.move i (.answer (.ok elapsed resp))) ∈ as := by
  have hlog := logged_run hnone (pool_run hrun chain)
  simp only [hcall, ForwardCall.Logged, hdone] at hlog
  obtain ⟨-, -, u, -, hlast⟩ := hlog
  obtain ⟨elapsed, hmem⟩ := reply_mem_of_sent (List.mem_of_getLast? hlast)
  exact ⟨elapsed, mem_of_mem_poolActions rfl hmem⟩

/-- What the proxy hears from its upstream calls is decoded from what upstreams send, or it is one
of the errors of `forward_request` itself. -/
theorem decoded_proxyActions (hidle : ∀ chain i, (start.2 chain).calls i = none)
    (hrun : run (serviceStep serde blake3 app managers) start as = some s)
    (hdecoded : ∀ a ∈ as, a.Decoded) :
    ∀ b ∈ proxyActions serde blake3 app managers start as, b.Decoded := by
  intro b hb
  obtain ⟨pre, a, post, u, rfl, hu, hb⟩ := once_of_mem_gather hb
  rw [run_append, hu, Option.bind_some] at hrun
  obtain ⟨v, hv, -⟩ := run_cons_eq_some.mp hrun
  cases serviceMove hv with
  | proxy halone =>
    rw [fstLabels_proxy halone, List.mem_singleton] at hb
    subst hb
    cases b with
    | task i step =>
      cases step with
      | answer x => cases halone
      | _ => trivial
    | _ => trivial
  | pool =>
    rw [fstLabels_pool] at hb
    cases hb
  | forward htask hreq =>
    rw [fstLabels_forward htask hreq, List.mem_singleton] at hb
    subst hb
    trivial
  | @answer i task call x htask hcall hdone =>
    rw [fstLabels_answer htask hcall hdone, List.mem_singleton] at hb
    subst hb
    cases x with
    | error text => trivial
    | ok resp =>
      obtain ⟨elapsed, hmem⟩ := exists_reply (hidle task.chain i) hu hcall hdone
      exact hdecoded _ (List.mem_append_left _ hmem)
  | cancel htask hawaits =>
    rw [fstLabels_cancel htask hawaits, List.mem_singleton] at hb
    subst hb
    trivial
  | panic htask hawaits =>
    rw [fstLabels_panic htask hawaits, List.mem_singleton] at hb
    subst hb
    trivial

end Service

/-! ### Upstream calls of the proxy -/

section Proxy

variable {redis : Redis Text} {latest : ι → Option ℕ} {bs : List (ProxyAction ι)}
  {p : ProxyState ι Text} {i : ℕ}

/-- A task stays what it was when its request was resolved. -/
theorem task_of_resolved {start : ProxyState ι Text}
    (hrun : run (proxyStep serde blake3 app) start bs = some p) {chain : ι}
    {orig req : JsonRpcRequest}
    (h : Once (proxyStep serde blake3 app) (ResolvedBy app i chain orig req) start bs) :
    ∃ task, p.tasks i = some task ∧ task.chain = chain ∧ task.req = orig := by
  obtain ⟨pre, b, post, u, rfl, hu, task, -, htask, rfl, rfl, -⟩ := h
  rw [run_append, hu] at hrun
  obtain ⟨phase, htask', -⟩ := tasksKept_run hrun i task htask
  exact ⟨_, htask', rfl, rfl⟩

/-- An upstream call is made for what the request of its task was resolved to, and for nothing else.
-/
theorem resolved_of_returned
    (hrun : run (proxyStep serde blake3 app) (.init redis latest) bs = some p) {chainId : ℕ}
    {req : JsonRpcRequest} {x : Answer}
    (h : Once (proxyStep serde blake3 app) (CallReturned app chainId i req x) (.init redis latest)
      bs) :
    ∃ task, p.tasks i = some task ∧ Once (proxyStep serde blake3 app)
      (ResolvedBy app i task.chain task.req req) (.init redis latest) bs := by
  obtain ⟨pre, b, post, u, rfl, hu, task, wrap, rfl, htask, hwrap, hphase, -⟩ := h
  have hrequest : task.phase.request = some req := by rw [hphase, hwrap.request]
  obtain ⟨req', hworked⟩ :=
    (taskHistory_run hu).task i task htask (.inl (hrequest ▸ Option.some_ne_none req))
  obtain rfl := hworked.only req hrequest
  rw [run_append, hu] at hrun
  obtain ⟨phase, htask', -⟩ := tasksKept_run hrun i task htask
  exact ⟨_, htask', hworked.resolved.append _⟩

end Proxy

/-! ### Every answer is traced -/

section Answers

variable {latest : ι → Option ℕ} {pools : (chain : ι) → PoolState (n chain)}
  {s : ServiceState ι Text n} {as : List (ServiceAction n)}

/-- **An upstream call of the proxy is a call of `forward_request`.** What the proxy takes for the
return of a call is what `Fetched` says of the task that made it. -/
theorem fetched_of_returned {redis : Redis Text} (hidle : ∀ chain i, (pools chain).calls i = none)
    (hrun : run (serviceStep serde blake3 app managers) (.init redis latest, pools) as = some s)
    {chainId i : ℕ} {req : JsonRpcRequest} {x : Answer}
    (h : Once (proxyStep serde blake3 app) (CallReturned app chainId i req x) (.init redis latest)
      (proxyActions serde blake3 app managers (.init redis latest, pools) as)) :
    ∃ task, s.1.tasks i = some task ∧ (app.chains task.chain).chainId = chainId ∧
      Fetched serde blake3 app managers (.init redis latest, pools) as i task.chain task.req req
        x := by
  obtain ⟨task, htask, hchain, hanswered⟩ :=
    (serviceHistory_run hidle hrun).returned chainId i req x h
  obtain ⟨task', htask', hresolved⟩ := resolved_of_returned (proxy_run hrun) h
  obtain rfl := Option.some.inj (htask.symm.trans htask')
  exact ⟨task, htask, hchain, fetched_of_answered (hidle _ _) hrun hanswered hresolved⟩

/-- **Every answer goes back to an upstream, or is the proxy's own word.** In every run of the
service from an empty Redis in which digests are apart, what a task returns is traced, on whichever
exit: to a call of `forward_request` that failed over as it should, and to the reply of an upstream
in a step of the run if it is not an error. -/
theorem service_answers (hidle : ∀ chain i, (pools chain).calls i = none)
    (hrun : run (serviceStep serde blake3 app managers) (.init (fun _ => none) latest, pools) as =
      some s)
    (hdecoded : ∀ a ∈ as, a.Decoded)
    (hdigests : blake3.Separates serde
      {req | req ∈ gather (proxyStep serde blake3 app) app.resolved (.init (fun _ => none) latest)
        (proxyActions serde blake3 app managers (.init (fun _ => none) latest, pools) as)})
    {i : ℕ} {task : Task ι Text} {exit : Exit} {resp : JsonRpcResponse}
    (htask : s.1.tasks i = some task) (hdone : task.phase = .done exit resp) :
    Traced serde blake3 app managers (.init (fun _ => none) latest, pools) as i task exit resp := by
  have hproxy := proxy_run hrun
  have hjustified := justified_run hproxy (decoded_proxyActions hidle hrun hdecoded) hdigests i task
    exit resp htask hdone
  cases hjustified with
  | blocked hblocked => exact .blocked hblocked
  | memoryIntercept hintercepted => exact .memoryIntercept hintercepted
  | cacheHit hresolved hmethod hparams hanswered herror =>
    -- who answered is some task of its own
    obtain ⟨pre, b, post, u, hbs, hu, j, task', wrap, hb, hcalled⟩ := hanswered
    obtain ⟨task'', htask'', hchain, hfetched⟩ :=
      fetched_of_returned hidle hrun ⟨pre, b, post, u, hbs, hu, task', wrap, hb, hcalled⟩
    exact .cacheHit hresolved hfetched hchain hmethod hparams herror
  | coalesced hother hresolved hresolved' hchain hmethod hparams hreturned =>
    obtain ⟨task', htask', hchain', hfetched⟩ := fetched_of_returned hidle hrun hreturned
    obtain ⟨task'', htask'', rfl, rfl⟩ := task_of_resolved hproxy hresolved'
    obtain rfl := Option.some.inj (htask'.symm.trans htask'')
    exact .coalesced hother hresolved hfetched hchain hmethod hparams
  | upstream hresolved hreturned =>
    obtain ⟨task', htask', -, hfetched⟩ := fetched_of_returned hidle hrun hreturned
    obtain rfl := Option.some.inj (htask.symm.trans htask')
    exact .upstream hfetched

end Answers

/-- Two clients ask for the same balance at the same time; the primary upstream does not answer, and
the secondary one does. -/
def twoClientsOneDown : List (ServiceAction fun _ : Unit => 2) :=
  [.proxy (.request 0 () (balanceRequest (.ofU64 1))),
    .proxy (.request 1 () (balanceRequest (.ofU64 2))),
    .proxy (.task 0 .enter), .proxy (.task 0 .resolve), .proxy (.task 0 (.get true)),
    .proxy (.task 0 (.coalesce .lookup)), .proxy (.task 0 (.coalesce .insert)), .forward 0,
    .pool () (.move 0 (.reach 0)), .pool () (.move 0 (.token true)),
    .proxy (.task 1 .enter), .proxy (.task 1 .resolve), .proxy (.task 1 (.get true)),
    .proxy (.task 1 (.coalesce .lookup)),
    .pool () (.move 0 (.answer (.unreachable 1 1))), .pool () (.move 0 (.record 2 2)),
    .pool () (.move 0 (.reach 0)), .pool () (.move 0 (.token true)),
    .pool () (.move 0 (.answer (.ok 900 (.success (.ofU64 1) (.string "0x10"))))),
    .pool () (.move 0 (.record 3 3)), .answer 0,
    .proxy (.task 0 (.store true)), .proxy (.task 0 (.store true)), .proxy (.task 0 .finish),
    .proxy (.task 0 (.coalesce .broadcast)), .proxy (.task 1 (.coalesce .recv))]

/-- The second client's answer is traced to the secondary upstream, though the call was made for the
first. -/
theorem twoClientsOneDown_traced :
    ∃ (s : ServiceState Unit Value fun _ => 2) (task : Task Unit Value),
      run (serviceStep .tree balanceDigest oneChain fun _ => primaryAndSecondary)
          (.init (fun _ => none) fun _ => none, fun _ => .init 2 (86400 * second) 0)
          twoClientsOneDown = some s ∧
        s.1.tasks 1 = some task ∧
        Traced .tree balanceDigest oneChain (fun _ => primaryAndSecondary)
          (.init (fun _ => none) fun _ => none, fun _ => .init 2 (86400 * second) 0)
          twoClientsOneDown 1 task .coalesced (.success (.ofU64 1) (.string "0x10")) := by
  obtain ⟨s, hrun, task, htask, hdone⟩ :
      ∃ s : ServiceState Unit Value fun _ => 2,
        run (serviceStep .tree balanceDigest oneChain fun _ => primaryAndSecondary)
            (.init (fun _ => none) fun _ => none, fun _ => .init 2 (86400 * second) 0)
            twoClientsOneDown = some s ∧
          ∃ task : Task Unit Value, s.1.tasks 1 = some task ∧
            task.phase = .done .coalesced (.success (.ofU64 1) (.string "0x10")) :=
    ⟨_, rfl, _, rfl, rfl⟩
  have hdecoded : ∀ a ∈ twoClientsOneDown, a.Decoded := by
    have hanswer : ∃ v, JsonRpcResponse.deserialize v =
        some (.success (.ofU64 1) (.string "0x10")) :=
      ⟨(JsonRpcResponse.success (.ofU64 1) (.string "0x10")).serialize,
        JsonRpcResponse.deserialize_serialize _⟩
    simpa [twoClientsOneDown, ServiceAction.Decoded] using hanswer
  have hresolved : gather (proxyStep .tree balanceDigest oneChain) oneChain.resolved
      (.init (fun _ => none) fun _ => none)
      (proxyActions .tree balanceDigest oneChain (fun _ => primaryAndSecondary)
        (.init (fun _ => none) fun _ => none, fun _ => .init 2 (86400 * second) 0)
        twoClientsOneDown) =
      [balanceRequest (.ofU64 1), balanceRequest (.ofU64 2)] := rfl
  exact ⟨s, task, hrun, htask, service_answers (fun _ _ => rfl) hrun hdecoded
    (hresolved ▸ balanceDigest_separates) htask hdone⟩

end Poolbeg
