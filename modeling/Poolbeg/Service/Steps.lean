import Poolbeg.Composition
import Poolbeg.Rpc.Replies
import Poolbeg.Rpc.UpstreamCalls
import Poolbeg.Upstream.Failover

/-!
# The proxy and its upstreams

`forward_to_upstream` calls `forward_request` on the manager of its chain, in the same future. The
proxy and the managers of the chains, each a system of its own so far, are put together here.

## How the two are joined

A task that starts its upstream call begins a call of `forward_request` for the request it works on;
what that call returns is what the task is answered; and a task that is cancelled in between drops
it. The other way round a call can end its task: with `debug_upstream` on it may panic, and the
future that it runs in unwinds. These four are steps of both parts at once. Everything else, each of
them does by itself: the proxy may not take a step of the four alone (`ProxyState.alone`), and
neither may the upstreams (`PoolAction.alone`).

The call of `forward_request` has the number of its task. Numbers of tasks are never used again, so
this names a call once and for all.

## What that comes to

A run of the service is, seen from either side, a run of that side, so that what has been proved of
each carries over. What the steps of both add is an invariant: a task that awaits its answer has a
call under way, on its own chain and for its own request, and an upstream call of the proxy that has
returned is a call of `forward_request` that has.

## Main definitions

* `ServiceState`, `ServiceAction`, `serviceStep` — the service and its steps
* `ServiceAction.parts` — what a step is to the proxy, and to the upstreams of each chain
* `proxyActions`, `poolActions` — what a run of the service is to its parts
* `PoolState.Live`, `PoolState.Answered` — a call is under way or returned, or has returned
* `ServiceHistory` — what the steps of a run say about the upstream calls of the tasks

## Main results

* `proxy_run`, `pool_run` — each part makes a run
* `ServiceMove.poolPart`, `ServiceMove.callStarted` — what a step is to the upstreams of one chain
* `serviceHistory_run` — the invariant holds in every state that the service reaches
-/

namespace Poolbeg

open Lts

variable {ι Text : Type} {n : ι → ℕ}

/-! ### The steps of the service -/

/-- The proxy, and the upstreams of each chain. A chain `c` has `n c` upstreams, so the pools of two
chains are of different types. -/
abbrev ServiceState (ι Text : Type) (n : ι → ℕ) : Type :=
  ProxyState ι Text × ((chain : ι) → PoolState (n chain))

/-- Either part does something by itself, or the call of `forward_request` of the task `i` begins,
returns, is dropped or panics. -/
inductive ServiceAction (n : ι → ℕ)
  | proxy (a : ProxyAction ι)
  | pool (chain : ι) (a : PoolAction (n chain))
  | forward (i : ℕ)
  | answer (i : ℕ)
  | cancel (i : ℕ)
  | panic (i : ℕ)

/-- The task is in `forward_request`, as the leader of an entry of `in_flight` or on its own where
there is nothing to coalesce. -/
def TaskPhase.awaits : TaskPhase Text → Bool
  | .coalescing _ .awaiting => true
  | .forwarding _ .awaiting => true
  | _ => false

/-- The proxy does this without the upstreams. It may not begin an upstream call, or take an answer,
or cancel a task that awaits one. -/
def ProxyState.alone (p : ProxyState ι Text) : ProxyAction ι → Bool
  | .task _ .forward => false
  | .task _ (.answer _) => false
  | .task i .cancel => (p.tasks i).all fun task => !task.phase.awaits
  | _ => true

/-- The upstreams do this without the proxy. Calls are begun, dropped and unwound with their tasks
only. -/
def PoolAction.alone {n : ℕ} : PoolAction n → Bool
  | .forward _ _ => false
  | .move _ .drop => false
  | .move _ .panic => false
  | _ => true

/-- What a call of `forward_request` has returned, if it has. One that was dropped or panicked has
returned nothing. -/
def PoolState.returned {n : ℕ} (q : PoolState n) (i : ℕ) : Option Answer :=
  (q.calls i).bind fun call =>
    match call.phase with
    | .done x => some x
    | _ => none

/-- What a step of the service is to the proxy and to the upstreams, as the list of the steps that
either of them takes. It is `none` where the two cannot take it together: no task awaits, or its
call has not returned. -/
def ServiceAction.parts (s : ServiceState ι Text n) : ServiceAction n →
    Option (List (ProxyAction ι) × List (Σ chain, PoolAction (n chain)))
  | .proxy a => if s.1.alone a then some ([a], []) else none
  | .pool chain a => if a.alone then some ([], [⟨chain, a⟩]) else none
  | .forward i =>
    (s.1.tasks i).bind fun task => task.phase.request.map fun req =>
      ([.task i .forward], [⟨task.chain, .forward i req⟩])
  | .answer i =>
    (s.1.tasks i).bind fun task => ((s.2 task.chain).returned i).map fun x =>
      ([.task i (.answer x)], [])
  | .cancel i =>
    (s.1.tasks i).bind fun task =>
      if task.phase.awaits then some ([.task i .cancel], [⟨task.chain, .move i .drop⟩]) else none
  | .panic i =>
    -- a panic drops what the future of the task holds, as the end of its client does
    (s.1.tasks i).bind fun task =>
      if task.phase.awaits then some ([.task i .cancel], [⟨task.chain, .move i .panic⟩]) else none

section Step

variable [DecidableEq ι] (serde : SerdeJson Text) (blake3 : Blake3 Text) (app : AppConfig ι)
  (managers : (chain : ι) → ChainManager (n chain))

/-- One step of the service: each part takes the steps that are its part, and all of them have to be
possible. -/
def serviceStep : ServiceState ι Text n → ServiceAction n → Option (ServiceState ι Text n) :=
  joint (proxyStep serde blake3 app) (family fun chain => poolStep (managers chain))
    ServiceAction.parts

/-- What a run of the service is to the proxy. -/
def proxyActions (start : ServiceState ι Text n) (as : List (ServiceAction n)) :
    List (ProxyAction ι) :=
  gather (serviceStep serde blake3 app managers) (fstLabels ServiceAction.parts) start as

/-- What it is to the upstreams of a chain. -/
def poolActions (start : ServiceState ι Text n) (as : List (ServiceAction n)) (chain : ι) :
    List (PoolAction (n chain)) :=
  labelsOf chain
    (gather (serviceStep serde blake3 app managers) (sndLabels ServiceAction.parts) start as)

variable {serde blake3 app managers} {start s t : ServiceState ι Text n}
  {as : List (ServiceAction n)} {a : ServiceAction n}

/-- **The proxy makes a run in the service.** What holds of all runs of the proxy holds here, with
`proxyActions` for its steps. -/
theorem proxy_run (hrun : run (serviceStep serde blake3 app managers) start as = some s) :
    run (proxyStep serde blake3 app) start.1 (proxyActions serde blake3 app managers start as) =
      some s.1 :=
  run_joint_fst hrun

/-- **The upstreams of each chain make a run in the service.** The same for `poolActions`, which
leaves out what concerns other chains. -/
theorem pool_run (hrun : run (serviceStep serde blake3 app managers) start as = some s)
    (chain : ι) :
    run (poolStep (managers chain)) (start.2 chain)
      (poolActions serde blake3 app managers start as chain) = some (s.2 chain) :=
  run_family chain (run_joint_snd hrun)

theorem proxyActions_concat (hrun : run (serviceStep serde blake3 app managers) start as = some s)
    (a : ServiceAction n) :
    proxyActions serde blake3 app managers start (as ++ [a]) =
      proxyActions serde blake3 app managers start as ++ fstLabels ServiceAction.parts s a :=
  gather_concat hrun a

/-- What a step of the service is, with a case for each kind and what each of them finds and leaves
behind. Later proofs go by these cases and never unfold `serviceStep`. -/
inductive ServiceMove (serde : SerdeJson Text) (blake3 : Blake3 Text) (app : AppConfig ι)
    (managers : (chain : ι) → ChainManager (n chain)) (s t : ServiceState ι Text n) :
    ServiceAction n → Prop
  | proxy {a : ProxyAction ι} (halone : s.1.alone a = true)
      (hproxy : proxyStep serde blake3 app s.1 a = some t.1) (hpools : t.2 = s.2) :
      ServiceMove serde blake3 app managers s t (.proxy a)
  | pool {chain : ι} {a : PoolAction (n chain)} {q : PoolState (n chain)}
      (halone : a.alone = true) (hpool : poolStep (managers chain) (s.2 chain) a = some q)
      (hproxy : t.1 = s.1) (hpools : t.2 = Function.update s.2 chain q) :
      ServiceMove serde blake3 app managers s t (.pool chain a)
  | forward {i : ℕ} {task : Task ι Text} {req : JsonRpcRequest} {q : PoolState (n task.chain)}
      (htask : s.1.tasks i = some task) (hreq : task.phase.request = some req)
      (hproxy : proxyStep serde blake3 app s.1 (.task i .forward) = some t.1)
      (hpool : poolStep (managers task.chain) (s.2 task.chain) (.forward i req) = some q)
      (hpools : t.2 = Function.update s.2 task.chain q) :
      ServiceMove serde blake3 app managers s t (.forward i)
  | answer {i : ℕ} {task : Task ι Text} {call : ForwardCall (Fin (n task.chain))} {x : Answer}
      (htask : s.1.tasks i = some task) (hcall : (s.2 task.chain).calls i = some call)
      (hdone : call.phase = .done x)
      (hproxy : proxyStep serde blake3 app s.1 (.task i (.answer x)) = some t.1)
      (hpools : t.2 = s.2) : ServiceMove serde blake3 app managers s t (.answer i)
  | cancel {i : ℕ} {task : Task ι Text} {q : PoolState (n task.chain)}
      (htask : s.1.tasks i = some task) (hawaits : task.phase.awaits = true)
      (hproxy : proxyStep serde blake3 app s.1 (.task i .cancel) = some t.1)
      (hpool : poolStep (managers task.chain) (s.2 task.chain) (.move i .drop) = some q)
      (hpools : t.2 = Function.update s.2 task.chain q) :
      ServiceMove serde blake3 app managers s t (.cancel i)
  | panic {i : ℕ} {task : Task ι Text} {q : PoolState (n task.chain)}
      (htask : s.1.tasks i = some task) (hawaits : task.phase.awaits = true)
      (hproxy : proxyStep serde blake3 app s.1 (.task i .cancel) = some t.1)
      (hpool : poolStep (managers task.chain) (s.2 task.chain) (.move i .panic) = some q)
      (hpools : t.2 = Function.update s.2 task.chain q) :
      ServiceMove serde blake3 app managers s t (.panic i)

theorem PoolState.returned_eq_some {n : ℕ} {q : PoolState n} {i : ℕ} {x : Answer} :
    q.returned i = some x ↔ ∃ call, q.calls i = some call ∧ call.phase = .done x := by
  rw [returned, Option.bind_eq_some_iff]
  refine exists_congr fun call => and_congr_right fun _ => ?_
  cases call.phase <;> simp

theorem serviceMove (h : serviceStep serde blake3 app managers s a = some t) :
    ServiceMove serde blake3 app managers s t a := by
  obtain ⟨ps, qs, hparts, hproxy, hpools⟩ := joint_eq_some.mp h
  cases a with
  | proxy a =>
    obtain ⟨halone, hparts⟩ := Option.ite_none_right_eq_some.mp hparts
    cases hparts
    exact .proxy halone ((run_singleton _ _).symm.trans hproxy) (Option.some.inj hpools).symm
  | pool chain a =>
    obtain ⟨halone, hparts⟩ := Option.ite_none_right_eq_some.mp hparts
    cases hparts
    obtain ⟨q, hq, hupdate⟩ := family_eq_some.mp ((run_singleton _ _).symm.trans hpools)
    exact .pool halone hq (Option.some.inj hproxy).symm hupdate
  | forward i =>
    obtain ⟨task, htask, hparts⟩ := Option.bind_eq_some_iff.mp hparts
    obtain ⟨req, hreq, hparts⟩ := Option.map_eq_some_iff.mp hparts
    cases hparts
    obtain ⟨q, hq, hupdate⟩ := family_eq_some.mp ((run_singleton _ _).symm.trans hpools)
    exact .forward htask hreq ((run_singleton _ _).symm.trans hproxy) hq hupdate
  | answer i =>
    obtain ⟨task, htask, hparts⟩ := Option.bind_eq_some_iff.mp hparts
    obtain ⟨x, hx, hparts⟩ := Option.map_eq_some_iff.mp hparts
    cases hparts
    obtain ⟨call, hcall, hdone⟩ := PoolState.returned_eq_some.mp hx
    exact .answer htask hcall hdone ((run_singleton _ _).symm.trans hproxy)
      (Option.some.inj hpools).symm
  | cancel i =>
    obtain ⟨task, htask, hparts⟩ := Option.bind_eq_some_iff.mp hparts
    obtain ⟨hawaits, hparts⟩ := Option.ite_none_right_eq_some.mp hparts
    cases hparts
    obtain ⟨q, hq, hupdate⟩ := family_eq_some.mp ((run_singleton _ _).symm.trans hpools)
    exact .cancel htask hawaits ((run_singleton _ _).symm.trans hproxy) hq hupdate
  | panic i =>
    obtain ⟨task, htask, hparts⟩ := Option.bind_eq_some_iff.mp hparts
    obtain ⟨hawaits, hparts⟩ := Option.ite_none_right_eq_some.mp hparts
    cases hparts
    obtain ⟨q, hq, hupdate⟩ := family_eq_some.mp ((run_singleton _ _).symm.trans hpools)
    exact .panic htask hawaits ((run_singleton _ _).symm.trans hproxy) hq hupdate

/-! ### What the proxy does in a step -/

section Labels

variable {i : ℕ} {task : Task ι Text}

omit [DecidableEq ι] in
theorem fstLabels_proxy {b : ProxyAction ι} (halone : s.1.alone b = true) :
    fstLabels ServiceAction.parts s (.proxy b) = [b] := by
  rw [fstLabels, ServiceAction.parts, if_pos halone]
  rfl

omit [DecidableEq ι] in
theorem fstLabels_pool (s : ServiceState ι Text n) {chain : ι} (b : PoolAction (n chain)) :
    fstLabels ServiceAction.parts s (.pool chain b) = [] := by
  rw [fstLabels, ServiceAction.parts]
  split <;> rfl

omit [DecidableEq ι] in
theorem fstLabels_forward {req : JsonRpcRequest} (htask : s.1.tasks i = some task)
    (hreq : task.phase.request = some req) :
    fstLabels ServiceAction.parts s (.forward i) = [.task i .forward] := by
  rw [fstLabels, ServiceAction.parts, htask, Option.bind_some, hreq]
  rfl

omit [DecidableEq ι] in
theorem fstLabels_answer {call : ForwardCall (Fin (n task.chain))} {x : Answer}
    (htask : s.1.tasks i = some task) (hcall : (s.2 task.chain).calls i = some call)
    (hdone : call.phase = .done x) :
    fstLabels ServiceAction.parts s (.answer i) = [.task i (.answer x)] := by
  rw [fstLabels, ServiceAction.parts, htask, Option.bind_some,
    PoolState.returned_eq_some.mpr ⟨call, hcall, hdone⟩]
  rfl

omit [DecidableEq ι] in
theorem fstLabels_cancel (htask : s.1.tasks i = some task) (hawaits : task.phase.awaits = true) :
    fstLabels ServiceAction.parts s (.cancel i) = [.task i .cancel] := by
  rw [fstLabels, ServiceAction.parts, htask, Option.bind_some, if_pos hawaits]
  rfl

omit [DecidableEq ι] in
theorem fstLabels_panic (htask : s.1.tasks i = some task) (hawaits : task.phase.awaits = true) :
    fstLabels ServiceAction.parts s (.panic i) = [.task i .cancel] := by
  rw [fstLabels, ServiceAction.parts, htask, Option.bind_some, if_pos hawaits]
  rfl

end Labels

/-! ### What a step keeps -/

omit [DecidableEq ι] in
/-- A task is in `forward_request` if it was, or if it begins its call now. No other step of a task
leads there. -/
theorem TaskMoved.awaiting {p : ProxyState ι Text} {i : ℕ} {task : Task ι Text} {step : TaskStep}
    {m : Move Text} (h : TaskMoved serde blake3 app p i task step m) {req : JsonRpcRequest}
    {wrap : Forwarding Text → TaskPhase Text} (hwrap : Forwards req wrap)
    (hphase : m.phase = wrap .awaiting) :
    task.phase = wrap .awaiting ∧ step ≠ .cancel ∨
      step = .forward ∧ task.phase = wrap .calling := by
  cases h with
  | blocked | intercept | enter | pass | lookUp | hit | miss | returned | finish | cancel
  | cancelCall =>
    cases hwrap with
    | coalescing => cases hphase
    | forwarding => cases hphase
  | coalesce hold | handOver hold =>
    cases hwrap with
    | coalescing =>
      cases hphase
      exact .inl ⟨hold, by rintro ⟨⟩⟩
    | forwarding => cases hphase
  | forward hwrap' hold =>
    obtain ⟨rfl, rfl, -⟩ := hwrap'.inj hwrap hphase
    exact .inr ⟨rfl, hold⟩
  | answer hwrap' hold | store hwrap' hold =>
    obtain ⟨-, -, hstage⟩ := hwrap'.inj hwrap hphase
    cases hstage

/-- A call begins. -/
theorem poolStep_forward {n : ℕ} {m : ChainManager n} {q q' : PoolState n} {i : ℕ}
    {req : JsonRpcRequest} (h : poolStep m q (.forward i req) = some q') :
    q.calls i = none ∧ q'.calls i = some (.init req) := by
  rw [poolStep] at h
  split at h
  · rename_i hnone
    cases h
    exact ⟨hnone, Function.update_self _ _ _⟩
  · cases h

/-- Tasks only move on: no step takes one away, and none gives its number, its chain or its request
to another. -/
theorem ServiceMove.tasksKept (h : ServiceMove serde blake3 app managers s t a) :
    TasksKept s.1 t.1 := by
  cases h with
  | proxy halone hproxy => exact tasksKept_step hproxy
  | pool halone hpool hproxy => exact hproxy ▸ .refl s.1
  | forward htask hreq hproxy => exact tasksKept_step hproxy
  | answer htask hcall hdone hproxy => exact tasksKept_step hproxy
  | cancel htask hawaits hproxy => exact tasksKept_step hproxy
  | panic htask hawaits hproxy => exact tasksKept_step hproxy

/-- What a step of the service is to the upstreams of a chain: nothing, or a step of theirs, in
which a call begins, is dropped or panics only with its task. -/
theorem ServiceMove.poolPart (h : ServiceMove serde blake3 app managers s t a) (chain : ι) :
    t.2 chain = s.2 chain ∨
      ∃ b, poolStep (managers chain) (s.2 chain) b = some (t.2 chain) ∧
        (∀ i, b = .move i .drop → a = .cancel i) ∧ (∀ i, b = .move i .panic → a = .panic i) ∧
        ∀ i req, b = .forward i req →
          a = .forward i ∧ ∃ task, s.1.tasks i = some task ∧ task.chain = chain := by
  cases h with
  | proxy halone hproxy hpools => exact .inl (congrFun hpools chain)
  | @pool chain' b q halone hpool hproxy hpools =>
    by_cases hchain : chain = chain'
    · subst hchain
      refine .inr ⟨b, by rw [hpools, Function.update_self, hpool], ?_, ?_, ?_⟩
      · rintro i rfl
        cases halone
      · rintro i rfl
        cases halone
      · rintro i req rfl
        cases halone
    · exact .inl (by rw [hpools, Function.update_of_ne hchain])
  | @forward i task req q htask hreq hproxy hpool hpools =>
    by_cases hchain : chain = task.chain
    · subst hchain
      refine .inr ⟨_, by rw [hpools, Function.update_self, hpool], by rintro _ ⟨⟩, by rintro _ ⟨⟩,
        ?_⟩
      rintro _ _ ⟨⟩
      exact ⟨rfl, task, htask, rfl⟩
    · exact .inl (by rw [hpools, Function.update_of_ne hchain])
  | answer htask hcall hdone hproxy hpools => exact .inl (congrFun hpools chain)
  | @cancel i task q htask hawaits hproxy hpool hpools =>
    by_cases hchain : chain = task.chain
    · subst hchain
      refine .inr ⟨_, by rw [hpools, Function.update_self, hpool], ?_, by rintro _ ⟨⟩,
        by rintro _ _ ⟨⟩⟩
      rintro _ ⟨⟩
      rfl
    · exact .inl (by rw [hpools, Function.update_of_ne hchain])
  | @panic i task q htask hawaits hproxy hpool hpools =>
    by_cases hchain : chain = task.chain
    · subst hchain
      refine .inr ⟨_, by rw [hpools, Function.update_self, hpool], by rintro _ ⟨⟩, ?_,
        by rintro _ _ ⟨⟩⟩
      rintro _ ⟨⟩
      rfl
    · exact .inl (by rw [hpools, Function.update_of_ne hchain])

/-- A call of `forward_request` begins with its task. -/
theorem ServiceMove.callStarted (h : ServiceMove serde blake3 app managers s t a) {chain : ι}
    {i : ℕ} (hcall : (t.2 chain).calls i ≠ none) :
    (s.2 chain).calls i ≠ none ∨
      a = .forward i ∧ ∃ task, s.1.tasks i = some task ∧ task.chain = chain := by
  obtain hsame | ⟨b, hpool, -, -, hforward⟩ := h.poolPart chain
  · exact .inl (hsame ▸ hcall)
  · obtain ⟨req, rfl, -⟩ | ⟨move, call, event, q, call', -, hold, -⟩ | ⟨hsame, -⟩ :=
      poolStep_call hpool i
    · exact .inr (hforward i req rfl)
    · exact .inl (hold ▸ Option.some_ne_none call)
    · exact .inl (hsame ▸ hcall)

/-! ### The calls of the tasks -/

/-- A call for this request is there that has neither been dropped nor panicked. It may have
returned. -/
def PoolState.Live {n : ℕ} (q : PoolState n) (i : ℕ) (req : JsonRpcRequest) : Prop :=
  ∃ call, q.calls i = some call ∧ call.req = req ∧ call.phase ≠ .dropped ∧ call.phase ≠ .panicked

/-- A call for this request has returned. -/
def PoolState.Answered {n : ℕ} (q : PoolState n) (i : ℕ) (req : JsonRpcRequest)
    (x : Answer) : Prop :=
  ∃ call, q.calls i = some call ∧ call.req = req ∧ call.phase = .done x

/-- A call that is not dropped and does not panic goes on, and it stays a call for the same request.
-/
theorem live_of_poolStep {n : ℕ} {m : ChainManager n} {q q' : PoolState n} {b : PoolAction n}
    (h : poolStep m q b = some q') {i : ℕ} {req : JsonRpcRequest} (hlive : q.Live i req)
    (hdrop : b ≠ .move i .drop) (hpanic : b ≠ .move i .panic) : q'.Live i req := by
  obtain ⟨call, hcall, rfl, hphase⟩ := hlive
  obtain ⟨req, -, hnone, -⟩ | ⟨move, call₀, event, q₀, call', rfl, hcall₀, hcall', hmove, -⟩ |
    ⟨hsame, -⟩ := poolStep_call h i
  · cases hnone.symm.trans hcall
  · obtain rfl := Option.some.inj (hcall.symm.trans hcall₀)
    cases hmove with
    | drop => exact absurd rfl hdrop
    | panic => exact absurd rfl hpanic
    | _ => exact ⟨_, hcall', rfl, by rintro ⟨⟩, by rintro ⟨⟩⟩
  · exact ⟨call, hsame.trans hcall, rfl, hphase⟩

/-- A call that has returned stays as it is: no step of the upstreams moves it again. -/
theorem answered_of_poolStep {n : ℕ} {m : ChainManager n} {q q' : PoolState n} {b : PoolAction n}
    (h : poolStep m q b = some q') {i : ℕ} {req : JsonRpcRequest} {x : Answer}
    (hanswered : q.Answered i req x) : q'.Answered i req x := by
  obtain ⟨call, hcall, rfl, hdone⟩ := hanswered
  obtain ⟨req, -, hnone, -⟩ | ⟨move, call₀, event, q₀, call', -, hcall₀, -, hmove, -⟩ |
    ⟨hsame, -⟩ := poolStep_call h i
  · cases hnone.symm.trans hcall
  · obtain rfl := Option.some.inj (hcall.symm.trans hcall₀)
    cases hmove with
    | skip hphase | reach hphase | grant hphase | limit hphase | answer hphase | succeed hphase
    | panic hphase | fail hphase | finish hphase | drop hphase => cases hphase.symm.trans hdone
  · exact ⟨call, hsame.trans hcall, rfl, hdone⟩

theorem ServiceMove.live (h : ServiceMove serde blake3 app managers s t a) {chain : ι} {i : ℕ}
    {req : JsonRpcRequest} (hlive : (s.2 chain).Live i req) (hcancel : a ≠ .cancel i)
    (hnopanic : a ≠ .panic i) : (t.2 chain).Live i req := by
  obtain hsame | ⟨b, hpool, hdrop, hpanic, -⟩ := h.poolPart chain
  · exact hsame ▸ hlive
  · exact live_of_poolStep hpool hlive (fun heq => hcancel (hdrop i heq)) fun heq =>
      hnopanic (hpanic i heq)

theorem ServiceMove.answered (h : ServiceMove serde blake3 app managers s t a) {chain : ι} {i : ℕ}
    {req : JsonRpcRequest} {x : Answer} (hanswered : (s.2 chain).Answered i req x) :
    (t.2 chain).Answered i req x := by
  obtain hsame | ⟨b, hpool, -⟩ := h.poolPart chain
  · exact hsame ▸ hanswered
  · exact answered_of_poolStep hpool hanswered

/-- After a step of the proxy a task is in `forward_request` if it was, or if it begins its call in
this step, which is then `forward`. -/
theorem awaiting_of_proxyStep {p p' : ProxyState ι Text} {b : ProxyAction ι}
    (h : proxyStep serde blake3 app p b = some p') {i : ℕ} {task : Task ι Text}
    {req : JsonRpcRequest} {wrap : Forwarding Text → TaskPhase Text}
    (htask : p'.tasks i = some task) (hwrap : Forwards req wrap)
    (hphase : task.phase = wrap .awaiting) :
    ∃ task₀, p.tasks i = some task₀ ∧ task₀.chain = task.chain ∧
      (task₀.phase = wrap .awaiting ∧ b ≠ .task i .cancel ∨
        b = .task i .forward ∧ task₀.phase = wrap .calling) := by
  cases stepped h with
  | request hfresh | item hbatch hcurrent hdedup hreq hfresh =>
    rcases ProxyState.tasks_withTask_eq_some htask with ⟨rfl, rfl⟩ | ⟨-, hold⟩
    · cases hwrap with
      | coalescing => cases hphase
      | forwarding => cases hphase
    · exact ⟨task, hold, rfl, .inl ⟨hphase, by rintro ⟨⟩⟩⟩
  | @move j step task₀ m htask₀ hm =>
    rcases ProxyState.tasks_apply_eq_some htask with ⟨rfl, rfl⟩ | ⟨hij, hold⟩
    · rcases (taskMoved hm).awaiting hwrap hphase with ⟨hold, hcancel⟩ | ⟨rfl, hold⟩
      · exact ⟨task₀, htask₀, rfl, .inl ⟨hold, fun heq => hcancel (by cases heq; rfl)⟩⟩
      · exact ⟨task₀, htask₀, rfl, .inr ⟨rfl, hold⟩⟩
    · exact ⟨task, hold, rfl, .inl ⟨hphase, by rintro ⟨⟩; exact hij rfl⟩⟩
  | head | write | batch | skip | collect | reply =>
    exact ⟨task, htask, rfl, .inl ⟨hphase, by rintro ⟨⟩⟩⟩

variable (serde blake3 app managers) in
/-- What the steps of a run say about the upstream calls of the tasks: who awaits an answer has a
call that is alive, and what the proxy was answered is what a call came to. -/
structure ServiceHistory (start : ServiceState ι Text n) (as : List (ServiceAction n))
    (s : ServiceState ι Text n) : Prop where
  awaiting : ∀ i task req wrap, s.1.tasks i = some task → Forwards req wrap →
    task.phase = wrap .awaiting → (s.2 task.chain).Live i req
  returned : ∀ chainId i req x, Once (proxyStep serde blake3 app)
      (CallReturned app chainId i req x) start.1 (proxyActions serde blake3 app managers start as) →
    ∃ task, s.1.tasks i = some task ∧ (app.chains task.chain).chainId = chainId ∧
      (s.2 task.chain).Answered i req x
  started : ∀ chain i, (s.2 chain).calls i ≠ none → ∃ task, s.1.tasks i = some task ∧
    task.chain = chain ∧ 0 < upstreamCalls i (proxyActions serde blake3 app managers start as)

theorem awaiting_step (h : ServiceHistory serde blake3 app managers start as s)
    (hmove : ServiceMove serde blake3 app managers s t a) {i : ℕ} {task : Task ι Text}
    {req : JsonRpcRequest} {wrap : Forwarding Text → TaskPhase Text}
    (htask : t.1.tasks i = some task) (hwrap : Forwards req wrap)
    (hphase : task.phase = wrap .awaiting) : (t.2 task.chain).Live i req := by
  have hkept : ∀ {task₀ : Task ι Text}, s.1.tasks i = some task₀ → task₀.chain = task.chain →
      task₀.phase = wrap .awaiting → a ≠ .cancel i → a ≠ .panic i →
        (t.2 task.chain).Live i req :=
    fun htask₀ hchain hphase₀ hcancel hpanic =>
      hmove.live (hchain ▸ h.awaiting i _ req wrap htask₀ hwrap hphase₀) hcancel hpanic
  cases id hmove with
  | proxy halone hproxy =>
    obtain ⟨task₀, htask₀, hchain, ⟨hphase₀, -⟩ | ⟨rfl, -⟩⟩ :=
      awaiting_of_proxyStep hproxy htask hwrap hphase
    · exact hkept htask₀ hchain hphase₀ (by rintro ⟨⟩) (by rintro ⟨⟩)
    · cases halone
  | pool halone hpool hproxy =>
    exact hkept (hproxy ▸ htask) rfl hphase (by rintro ⟨⟩) (by rintro ⟨⟩)
  | @forward j task' req' q htask' hreq hproxy hpool hpools =>
    obtain ⟨task₀, htask₀, hchain, ⟨hphase₀, -⟩ | ⟨heq, hphase₀⟩⟩ :=
      awaiting_of_proxyStep hproxy htask hwrap hphase
    · exact hkept htask₀ hchain hphase₀ (by rintro ⟨⟩) (by rintro ⟨⟩)
    · cases heq
      obtain rfl := Option.some.inj (htask₀.symm.trans htask')
      rw [hphase₀, hwrap.request, Option.some.injEq] at hreq
      rw [← hchain, hpools, Function.update_self]
      exact ⟨_, (poolStep_forward hpool).2, hreq.symm, by rintro ⟨⟩, by rintro ⟨⟩⟩
  | answer htask' hcall hdone hproxy =>
    obtain ⟨task₀, htask₀, hchain, ⟨hphase₀, -⟩ | ⟨heq, -⟩⟩ :=
      awaiting_of_proxyStep hproxy htask hwrap hphase
    · exact hkept htask₀ hchain hphase₀ (by rintro ⟨⟩) (by rintro ⟨⟩)
    · cases heq
  | cancel htask' hawaits hproxy =>
    obtain ⟨task₀, htask₀, hchain, ⟨hphase₀, hcancel⟩ | ⟨heq, -⟩⟩ :=
      awaiting_of_proxyStep hproxy htask hwrap hphase
    · exact hkept htask₀ hchain hphase₀ (by rintro ⟨⟩; exact hcancel rfl) (by rintro ⟨⟩)
    · cases heq
  | panic htask' hawaits hproxy =>
    obtain ⟨task₀, htask₀, hchain, ⟨hphase₀, hcancel⟩ | ⟨heq, -⟩⟩ :=
      awaiting_of_proxyStep hproxy htask hwrap hphase
    · exact hkept htask₀ hchain hphase₀ (by rintro ⟨⟩) (by rintro ⟨⟩; exact hcancel rfl)
    · cases heq

theorem callReturned_step (h : ServiceHistory serde blake3 app managers start as s)
    (hrun : run (serviceStep serde blake3 app managers) start as = some s)
    (hmove : ServiceMove serde blake3 app managers s t a) {chainId i : ℕ} {req : JsonRpcRequest}
    {x : Answer} (honce : Once (proxyStep serde blake3 app) (CallReturned app chainId i req x)
      start.1 (proxyActions serde blake3 app managers start (as ++ [a]))) :
    ∃ task, t.1.tasks i = some task ∧ (app.chains task.chain).chainId = chainId ∧
      (t.2 task.chain).Answered i req x := by
  have hkept : ∀ {task : Task ι Text}, s.1.tasks i = some task →
      (app.chains task.chain).chainId = chainId → (s.2 task.chain).Answered i req x →
      ∃ task, t.1.tasks i = some task ∧ (app.chains task.chain).chainId = chainId ∧
        (t.2 task.chain).Answered i req x := by
    intro task htask hchain hanswered
    obtain ⟨phase, htask', -⟩ := hmove.tasksKept i task htask
    exact ⟨_, htask', hchain, hmove.answered hanswered⟩
  have hold : Once (proxyStep serde blake3 app) (CallReturned app chainId i req x) start.1
      (proxyActions serde blake3 app managers start as) →
      ∃ task, t.1.tasks i = some task ∧ (app.chains task.chain).chainId = chainId ∧
        (t.2 task.chain).Answered i req x := by
    intro honce
    obtain ⟨task, htask, hchain, hanswered⟩ := h.returned chainId i req x honce
    exact hkept htask hchain hanswered
  rw [proxyActions_concat hrun] at honce
  cases id hmove with
  | @proxy b halone hproxy =>
    rw [fstLabels_proxy halone] at honce
    rcases once_of_concat (proxy_run hrun) honce with honce | ⟨task, wrap, rfl, -⟩
    · exact hold honce
    · cases halone
  | pool halone hpool hproxy =>
    rw [fstLabels_pool, List.append_nil] at honce
    exact hold honce
  | forward htask hreq hproxy =>
    rw [fstLabels_forward htask hreq] at honce
    rcases once_of_concat (proxy_run hrun) honce with honce | ⟨task, wrap, ⟨⟩, -⟩
    exact hold honce
  | @answer _ task call y htask hcall hdone hproxy =>
    rw [fstLabels_answer htask hcall hdone] at honce
    rcases once_of_concat (proxy_run hrun) honce with
      honce | ⟨task', wrap, ⟨⟩, htask', hwrap, hphase, hchain⟩
    · exact hold honce
    · -- the call that has returned is the one the task awaits
      obtain rfl := Option.some.inj (htask.symm.trans htask')
      obtain ⟨call', hcall', hreq, -⟩ := h.awaiting i task req wrap htask hwrap hphase
      obtain rfl := Option.some.inj (hcall.symm.trans hcall')
      exact hkept htask hchain ⟨call, hcall, hreq, hdone⟩
  | cancel htask hawaits hproxy =>
    rw [fstLabels_cancel htask hawaits] at honce
    rcases once_of_concat (proxy_run hrun) honce with honce | ⟨task, wrap, ⟨⟩, -⟩
    exact hold honce
  | panic htask hawaits hproxy =>
    rw [fstLabels_panic htask hawaits] at honce
    rcases once_of_concat (proxy_run hrun) honce with honce | ⟨task, wrap, ⟨⟩, -⟩
    exact hold honce

theorem started_step (h : ServiceHistory serde blake3 app managers start as s)
    (hrun : run (serviceStep serde blake3 app managers) start as = some s)
    (hmove : ServiceMove serde blake3 app managers s t a) {chain : ι} {i : ℕ}
    (hcall : (t.2 chain).calls i ≠ none) :
    ∃ task, t.1.tasks i = some task ∧ task.chain = chain ∧
      0 < upstreamCalls i (proxyActions serde blake3 app managers start (as ++ [a])) := by
  rw [proxyActions_concat hrun, upstreamCalls, List.countP_append]
  rcases hmove.callStarted hcall with hold | ⟨rfl, task, htask, hchain⟩
  · obtain ⟨task, htask, hchain, hcount⟩ := h.started chain i hold
    obtain ⟨phase, htask', -⟩ := hmove.tasksKept i task htask
    exact ⟨_, htask', hchain, Nat.add_pos_left hcount _⟩
  · obtain ⟨phase, htask', -⟩ := hmove.tasksKept i task htask
    refine ⟨_, htask', hchain, Nat.add_pos_right _ ?_⟩
    cases hmove with
    | forward htask hreq =>
      rw [fstLabels_forward htask hreq]
      simp [ProxyAction.isForward]

section Run

variable {redis : Redis Text} {latest : ι → Option ℕ}
  {pools : (chain : ι) → PoolState (n chain)}

theorem serviceHistory_init (hidle : ∀ chain i, (pools chain).calls i = none) :
    ServiceHistory serde blake3 app managers (.init redis latest, pools) []
      (.init redis latest, pools) where
  awaiting := fun _ _ _ _ htask => absurd htask (Option.some_ne_none _).symm
  returned := by
    rintro _ _ _ _ ⟨pre, a, post, -, hnil, -⟩
    exact absurd hnil.symm (List.append_ne_nil_of_right_ne_nil pre (List.cons_ne_nil a post))
  started := fun chain i hcall => absurd (hidle chain i) hcall

/-- **A task that awaits its answer has its call**, in every state that the service reaches. The
chains start without calls, and then it is kept by every step. -/
theorem serviceHistory_run (hidle : ∀ chain i, (pools chain).calls i = none)
    (hrun : run (serviceStep serde blake3 app managers) (.init redis latest, pools) as = some s) :
    ServiceHistory serde blake3 app managers (.init redis latest, pools) as s := by
  refine run_history (serviceHistory_init hidle) (fun as u a v hu h hv => ?_) hrun
  have hmove := serviceMove hv
  exact ⟨fun _ _ _ _ htask hwrap hphase => awaiting_step h hmove htask hwrap hphase,
    fun _ _ _ _ honce => callReturned_step h hu hmove honce,
    fun _ _ hcall => started_step h hu hmove hcall⟩

end Run

end Step

end Poolbeg
