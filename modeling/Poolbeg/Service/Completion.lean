import Poolbeg.Rpc.Completion
import Poolbeg.Service.Answers

/-!
# The service answers everything

The proxy waits for its upstream calls, and so far it was enough that they return. In the service
they are calls of `forward_request`, which go on by themselves: a call that is not over has a move
to make, and no more moves than its tiers and their members allow. So nobody waits for ever in the
service either, and with at most `N` upstreams a chain, an upstream call accounts for at most `9 * N
+ 4` moves.

## The argument

Two things are shown. There is no deadlock (`settled_of_idle`): where the service has no step to
take, the proxy has none, as any step of the proxy that needs the upstreams is there once the call
of `forward_request` is over, and that is not over only if it has a move. And every step lowers a
measure (`serviceLeft_lt`): the steps that are left to the proxy, each worth as many moves as a call
may make and one for itself, and the moves that are left to the calls under way. That such runs are
short and come to a quiet end is a rule of `Poolbeg.Countdown`, and nothing about fairness is needed
for it.

## What logging may do

All this is with `debug_upstream` off. With it on, `forward_request` may panic in the request that
leads an entry of `in_flight` (`accentedAnswer_panics` is such a call), and that entry then stays as
it does when its client disconnects. `debug_client` may be on: where logging the response to an item
panics, the batch is dropped, and there is nobody left who waits for it (`BatchOver`).

## Main definitions

* `ServiceAction.Internal`, `ServiceState.LeaderStays` — what goes on by itself, and what must not
* `ServiceState.Settled` — everything has been answered
* `ServiceState.stepsLeft` — the steps that are left

## Main results

* `settled_of_idle` — there is no deadlock
* `serviceLeft_lt` — every step leaves less to do
* `service_completes` — everything is answered, in whatever order the steps are taken
-/

namespace Poolbeg

open Lts

variable {ι Text : Type} {n : ι → ℕ}

/-! ### What goes on by itself -/

/-- The steps that the service and the upstreams take by themselves, once a request is there.
Clients that come, ask and leave are not among them, nor are the tracker and the writes to Redis
that nobody waits for. -/
def ServiceAction.Internal : ServiceAction n → Prop
  | .proxy a => a.Internal
  | .pool _ (.move _ _) => True
  | .pool _ _ => False
  | .forward _ => True
  | .answer _ => True
  | .panic _ => True
  | .cancel _ => False

/-- No client disconnects whose request is the leader of an entry. The entry would stay behind in
`in_flight`, and whoever asks for the same would wait for ever. -/
def ServiceState.LeaderStays (s : ServiceState ι Text n) : ServiceAction n → Prop
  | .proxy a => Poolbeg.LeaderStays s.1 a
  | .cancel i => Poolbeg.LeaderStays s.1 (.task i .cancel)
  | _ => True

/-- A call of `forward_request` has come to an end, or its caller has gone. There is nothing that
such a call still does. -/
def ForwardCall.Over {m : ℕ} (call : ForwardCall (Fin m)) : Prop :=
  call.Ended ∨ call.phase = .dropped

/-- **Everything has been answered**, and no upstream is waited for: nothing is left to do in the
proxy, and no call of `forward_request` is under way on any chain. -/
structure ServiceState.Settled (app : AppConfig ι) (s : ServiceState ι Text n) : Prop where
  proxy : s.1.Settled app
  calls : ∀ chain i call, (s.2 chain).calls i = some call → call.Over

variable [DecidableEq ι] {serde : SerdeJson Text} {blake3 : Blake3 Text} {app : AppConfig ι}
  {managers : (chain : ι) → ChainManager (n chain)} {redis : Redis Text} {latest : ι → Option ℕ}
  {pools : (chain : ι) → PoolState (n chain)} {as : List (ServiceAction n)}
  {s t : ServiceState ι Text n} {a : ServiceAction n} {i : ℕ}

/-! ### There is no deadlock -/

/-- What the proxy does by itself is a step of the service. -/
theorem serviceStep_proxy {b : ProxyAction ι} {p : ProxyState ι Text} (halone : s.1.alone b = true)
    (h : proxyStep serde blake3 app s.1 b = some p) :
    serviceStep serde blake3 app managers s (.proxy b) = some (p, s.2) :=
  joint_eq_some.mpr ⟨[b], [], if_pos halone, (run_singleton _ _).trans h, rfl⟩

/-- What the upstreams do by themselves is a step of the service. -/
theorem serviceStep_pool {chain : ι} {b : PoolAction (n chain)} {q : PoolState (n chain)}
    (halone : b.alone = true) (h : poolStep (managers chain) (s.2 chain) b = some q) :
    serviceStep serde blake3 app managers s (.pool chain b) =
      some (s.1, Function.update s.2 chain q) :=
  joint_eq_some.mpr ⟨[], [⟨chain, b⟩], if_pos halone, rfl,
    (run_singleton _ _).trans (family_eq_some.mpr ⟨q, h, rfl⟩)⟩

/-- The next move of a call is not the end of its caller, nor a panic if nothing is logged. So the
upstreams can make it without the proxy. -/
theorem alone_of_nextMove {m : ℕ} {manager : ChainManager m} {call : ForwardCall (Fin m)}
    {o : Outcomes m} {move : ForwardMove} (hdebug : manager.debugUpstream.enabled = false)
    (h : manager.nextMove call o = some move) :
    (PoolAction.move i move : PoolAction m).alone = true := by
  rw [ChainManager.nextMove] at h
  split at h
  · cases h
    rfl
  · cases h
    rfl
  · cases h
    rfl
  · cases h
    rfl
  · rw [if_pos (DebugLog.survives_of_off hdebug _)] at h
    cases h
    rfl
  · cases h
    rfl
  · cases h
  · cases h
  · cases h

omit [DecidableEq ι] in
/-- Without logging no call panics. -/
theorem no_panic (hdebug : ∀ chain, (managers chain).debugUpstream.enabled = false) {chain : ι}
    {q q' : PoolState (n chain)} (h : poolStep (managers chain) q (.move i .panic) = some q') :
    False := by
  obtain ⟨call, -, h⟩ := Option.bind_eq_some_iff.mp h
  obtain ⟨⟨q₀, call'⟩, hmove, -⟩ := Option.map_eq_some_iff.mp h
  have hstep := moveCall_spec hmove
  generalize eventOf (managers chain) q call .panic = event at hstep
  cases hstep with
  | panic hphase hlog =>
    rw [DebugLog.survives_of_off (hdebug chain)] at hlog
    cases hlog

/-- **A call that is not over has a move to make.** It is one of its own, as nothing is logged, and
the upstreams make it by themselves. -/
theorem over_of_idle (hdebug : ∀ chain, (managers chain).debugUpstream.enabled = false)
    (hidle : Quiet (serviceStep serde blake3 app managers)
    ServiceAction.Internal s) {chain : ι} {call : ForwardCall (Fin (n chain))}
    (hcall : (s.2 chain).calls i = some call) : call.Over := by
  let o : Outcomes (n chain) := ⟨fun _ => 0, fun _ => true, fun _ => .unusable 0⟩
  by_contra hopen
  cases hnext : (managers chain).nextMove call o with
  | none => exact hopen (.inl (ended_of_nextMove hnext fun hdropped => hopen (.inr hdropped)))
  | some move =>
    obtain ⟨⟨q, call'⟩, hmove⟩ :=
      Option.isSome_iff_exists.mp (isSome_moveCall (managers chain) (s.2 chain) hnext)
    have hpool : poolStep (managers chain) (s.2 chain) (.move i move) =
        some (q.setCall i call') := by
      rw [poolStep, hcall, Option.bind_some, hmove, Option.map_some]
    cases (hidle (.pool chain (.move i move)) trivial).symm.trans
      (serviceStep_pool (alone_of_nextMove (hdebug chain) hnext) hpool)

omit [DecidableEq ι] in
/-- A task that awaits its answer can take any: whatever the upstreams come to, there is a move for
it. -/
theorem exists_answerMove {p : ProxyState ι Text} {task : Task ι Text} {x : Answer} {m : Move Text}
    (h : taskMove serde blake3 app p i task (.answer x) = some m) (y : Answer) :
    ∃ m', taskMove serde blake3 app p i task (.answer y) = some m' := by
  rw [taskMove] at h ⊢
  cases hphase : task.phase with
  | coalescing req stage =>
    rw [hphase] at h
    simp only [coalescingMove] at h ⊢
    split_ifs at h ⊢ with hexecuting
    cases stage with
    | awaiting => exact ⟨_, rfl⟩
    | calling | storing => simp [forwardMove] at h
  | forwarding req stage =>
    rw [hphase] at h
    cases stage with
    | awaiting => exact ⟨_, rfl⟩
    | calling | storing => simp [forwardingMove, forwardMove] at h
  | entry | resolving | lookingUp | done | cancelled =>
    rw [hphase] at h
    cases h

/-- A call of `forward_request` that is due can begin, since the number of its task has not been
used for another. -/
theorem exists_forward (hidle : ∀ chain i, (pools chain).calls i = none)
    (hrun : run (serviceStep serde blake3 app managers) (.init redis latest, pools) as = some s)
    {p : ProxyState ι Text} (h : proxyStep serde blake3 app s.1 (.task i .forward) = some p) :
    ∃ t, serviceStep serde blake3 app managers s (.forward i) = some t := by
  obtain ⟨task, htask, hm⟩ := Option.bind_eq_some_iff.mp h
  obtain ⟨m, hm, -⟩ := Option.map_eq_some_iff.mp hm
  cases taskMoved hm with
  | @forward req wrap hwrap hphase hcall =>
    have hreq : task.phase.request = some req := by rw [hphase, hwrap.request]
    -- the task has made no call yet
    have hcount := ((callsCounted_run (proxy_run hrun)).2 i task htask).phase false
      (by rw [hphase]; exact (callStarted_of_forwards hwrap).1)
    have hnone : (s.2 task.chain).calls i = none := by
      by_contra hsome
      obtain ⟨-, -, -, hpos⟩ := (serviceHistory_run hidle hrun).started task.chain i hsome
      exact hpos.ne' hcount
    have hpool : poolStep (managers task.chain) (s.2 task.chain) (.forward i req) =
        some ((s.2 task.chain).setCall i (.init req)) := by rw [poolStep, hnone]
    refine ⟨(p, Function.update s.2 task.chain _), joint_eq_some.mpr
      ⟨[.task i .forward], [⟨task.chain, .forward i req⟩], ?_, (run_singleton _ _).trans h,
        (run_singleton _ _).trans (family_eq_some.mpr ⟨_, hpool, rfl⟩)⟩⟩
    rw [ServiceAction.parts, htask, Option.bind_some, hreq]
    rfl

/-- An upstream call of the proxy can return when the call of `forward_request` has. -/
theorem exists_answer (hidle : ∀ chain i, (pools chain).calls i = none)
    (hrun : run (serviceStep serde blake3 app managers) (.init redis latest, pools) as = some s)
    (hover : ∀ chain i call, (s.2 chain).calls i = some call → call.Over)
    {p : ProxyState ι Text} {x : Answer}
    (h : proxyStep serde blake3 app s.1 (.task i (.answer x)) = some p) :
    ∃ t, serviceStep serde blake3 app managers s (.answer i) = some t := by
  obtain ⟨task, htask, hm⟩ := Option.bind_eq_some_iff.mp h
  obtain ⟨m, hm, -⟩ := Option.map_eq_some_iff.mp hm
  cases taskMoved hm with
  | @answer req wrap _ hwrap hphase hexecuting =>
    obtain ⟨call, hcall, -, hdropped, hpanicked⟩ :=
      (serviceHistory_run hidle hrun).awaiting i task req wrap htask hwrap hphase
    obtain ⟨y, hdone⟩ := ((hover _ i call hcall).resolve_right hdropped).resolve_right hpanicked
    obtain ⟨m', hm'⟩ := exists_answerMove hm y
    refine ⟨(s.1.apply i task m', s.2), joint_eq_some.mpr
      ⟨[.task i (.answer y)], [], ?_, (run_singleton _ _).trans ?_, rfl⟩⟩
    · rw [ServiceAction.parts, htask, Option.bind_some,
        PoolState.returned_eq_some.mpr ⟨call, hcall, hdone⟩]
      rfl
    · rw [proxyStep, htask, Option.bind_some, hm']
      rfl

/-- Leaders stay in the proxy if they stay in the service. -/
theorem leaderStays_proxy {start : ServiceState ι Text n}
    (hdebug : ∀ chain, (managers chain).debugUpstream.enabled = false)
    (hstays : Along (serviceStep serde blake3 app managers) ServiceState.LeaderStays start as)
    (hrun : run (serviceStep serde blake3 app managers) start as = some s) :
    Along (proxyStep serde blake3 app) LeaderStays start.1
      (proxyActions serde blake3 app managers start as) := by
  refine along_gather (fun _ _ _ => joint_fst) (fun u a v hu hv => ?_) hstays hrun
  have hone : ∀ {b : ProxyAction ι}, LeaderStays u.1 b →
      Along (proxyStep serde blake3 app) LeaderStays u.1 [b] := fun hb _ _ => ⟨hb, trivial⟩
  cases serviceMove hv with
  | proxy halone =>
    rw [fstLabels_proxy halone]
    exact hone hu
  | pool =>
    rw [fstLabels_pool]
    trivial
  | forward htask hreq =>
    rw [fstLabels_forward htask hreq]
    exact hone trivial
  | answer htask hcall hdone =>
    rw [fstLabels_answer htask hcall hdone]
    exact hone trivial
  | cancel htask hawaits =>
    rw [fstLabels_cancel htask hawaits]
    exact hone hu
  | panic htask hawaits hproxy hpool => exact (no_panic hdebug hpool).elim

/-- **There is no deadlock**: when the service has no step to take, everything has been answered.
Whoever waits, waits for a task or a call that can go on. -/
theorem settled_of_idle (hdebug : ∀ chain, (managers chain).debugUpstream.enabled = false)
    (hidle : ∀ chain i, (pools chain).calls i = none)
    (hstays : Along (serviceStep serde blake3 app managers) ServiceState.LeaderStays
      (.init redis latest, pools) as)
    (hrun : run (serviceStep serde blake3 app managers) (.init redis latest, pools) as = some s)
    (hquiet : Quiet (serviceStep serde blake3 app managers) ServiceAction.Internal s) :
    s.Settled app := by
  have hover : ∀ chain i call, (s.2 chain).calls i = some call → call.Over :=
    fun chain i call hcall => over_of_idle hdebug hquiet hcall
  refine ⟨settled_of_quiet (leaderStays_proxy hdebug hstays hrun) (proxy_run hrun)
    fun b hb => ?_, hover⟩
  by_contra hnext
  obtain ⟨p, hp⟩ := Option.ne_none_iff_exists'.mp hnext
  have hstuck : ∀ (a : ServiceAction n) {t}, a.Internal →
      serviceStep serde blake3 app managers s a ≠ some t := by
    intro a t ha hstep
    cases (hquiet a ha).symm.trans hstep
  have halone : s.1.alone b ≠ true :=
    fun halone => hstuck (.proxy b) hb (serviceStep_proxy halone hp)
  cases b with
  | task i step =>
    cases step with
    | forward =>
      obtain ⟨t, ht⟩ := exists_forward hidle hrun hp
      exact hstuck (.forward i) trivial ht
    | answer x =>
      obtain ⟨t, ht⟩ := exists_answer hidle hrun hover hp
      exact hstuck (.answer i) trivial ht
    | cancel => exact hb
    | enter | resolve | get | coalesce | store | finish => exact halone rfl
  | request | head | write | batch => exact hb
  | skip | item | collect | reply => exact halone rfl

/-! ### The steps that are left -/

/-- The moves that are left to the upstream call of the task `i`, and none before it begins. -/
def ServiceState.callLeft (s : ServiceState ι Text n) (i : ℕ) : ℕ :=
  ((s.1.tasks i).bind fun task => ((s.2 task.chain).calls i).map ForwardCall.movesLeft).getD 0

/-- **The steps that are left**, with at most `N` upstreams a chain. A step of the proxy may begin
an upstream call, so it counts for as many moves as that has, and for itself. -/
noncomputable def ServiceState.stepsLeft (N : ℕ) (s : ServiceState ι Text n) : ℕ :=
  (9 * N + 5) * s.1.stepsLeft + total s.callLeft

section Left

variable {N : ℕ} {task : Task ι Text}

omit [DecidableEq ι] in
theorem callLeft_of_call {call : ForwardCall (Fin (n task.chain))} (htask : s.1.tasks i = some task)
    (hcall : (s.2 task.chain).calls i = some call) : s.callLeft i = call.movesLeft := by
  rw [ServiceState.callLeft, htask, Option.bind_some, hcall]
  rfl

omit [DecidableEq ι] in
theorem callLeft_of_none (hnone : ∀ chain, (s.2 chain).calls i = none) : s.callLeft i = 0 := by
  rw [ServiceState.callLeft]
  cases s.1.tasks i with
  | none => rfl
  | some task =>
    rw [Option.bind_some, hnone]
    rfl

omit [DecidableEq ι] in
/-- What is left of a call that nothing happens to stays the same, whatever happens to the others.
-/
theorem callLeft_congr (hkept : TasksKept s.1 t.1)
    (hstarted : ∀ chain, (s.2 chain).calls i ≠ none →
      ∃ task, s.1.tasks i = some task ∧ task.chain = chain)
    (hcalls : ∀ chain, (t.2 chain).calls i = (s.2 chain).calls i) :
    t.callLeft i = s.callLeft i := by
  cases htask : s.1.tasks i with
  | none =>
    have hnone : ∀ chain, (s.2 chain).calls i = none := by
      intro chain
      by_contra hsome
      obtain ⟨task, htask', -⟩ := hstarted chain hsome
      cases htask.symm.trans htask'
    rw [callLeft_of_none hnone, callLeft_of_none fun chain => (hcalls chain).trans (hnone chain)]
  | some task =>
    obtain ⟨phase, htask', -⟩ := hkept i task htask
    rw [ServiceState.callLeft, ServiceState.callLeft, htask, htask', Option.bind_some,
      Option.bind_some, hcalls]

/-- When the call `i` begins or moves, nothing happens to the others. -/
theorem calls_update_of_ne {chain : ι} {b : PoolAction (n chain)} {q : PoolState (n chain)}
    (hpools : t.2 = Function.update s.2 chain q)
    (hb : (∃ req, b = .forward i req) ∨ ∃ move, b = .move i move)
    (hpool : poolStep (managers chain) (s.2 chain) b = some q) (chain' : ι) (j : ℕ)
    (hj : j ≠ i) : (t.2 chain').calls j = (s.2 chain').calls j := by
  rw [hpools]
  by_cases hchain : chain' = chain
  · subst hchain
    rw [Function.update_self]
    obtain ⟨req, rfl, -⟩ | ⟨move, call, event, q₀, call', rfl, -⟩ | ⟨hsame, -⟩ :=
      poolStep_call hpool j
    · obtain ⟨_, ⟨⟩⟩ | ⟨_, ⟨⟩⟩ := hb
      exact absurd rfl hj
    · obtain ⟨_, ⟨⟩⟩ | ⟨_, ⟨⟩⟩ := hb
      exact absurd rfl hj
    · exact hsame
  · rw [Function.update_of_ne hchain]

omit [DecidableEq ι] in
/-- What is left of the calls changes by what is left of the one that moves. There are finitely many
tasks, so this is a sum. -/
theorem total_callLeft (hfinite : s.1.FinitelyMany) (hkept : TasksKept s.1 t.1)
    (hstarted : ∀ chain j, (s.2 chain).calls j ≠ none →
      ∃ task, s.1.tasks j = some task ∧ task.chain = chain)
    (hcalls : ∀ chain j, j ≠ i → (t.2 chain).calls j = (s.2 chain).calls j) :
    total t.callLeft + s.callLeft i = total s.callLeft + t.callLeft i := by
  have hsupport : s.callLeft.support.Finite := hfinite.tasks.subset fun j hj hnone => hj (by
    rw [ServiceState.callLeft, hnone]
    rfl)
  have hupdate : t.callLeft = Function.update s.callLeft i (t.callLeft i) := by
    funext j
    by_cases hj : j = i
    · subst hj
      rw [Function.update_self]
    · rw [Function.update_of_ne hj]
      exact callLeft_congr hkept (fun chain => hstarted chain j) fun chain => hcalls chain j hj
  have hsum := total_update hsupport i (t.callLeft i)
  rwa [← hupdate] at hsum

/-- **Every step that goes on by itself leaves the service less to do.** A step of the proxy pays
for the moves of the call it may begin, and a move of a call for itself. -/
theorem serviceLeft_lt (hN : ∀ chain, n chain ≤ N)
    (hdebug : ∀ chain, (managers chain).debugUpstream.enabled = false)
    (hidle : ∀ chain i, (pools chain).calls i = none)
    (hrun : run (serviceStep serde blake3 app managers) (.init redis latest, pools) as = some s)
    (hinternal : a.Internal) (h : serviceStep serde blake3 app managers s a = some t) :
    t.stepsLeft N < s.stepsLeft N := by
  have hhistory := serviceHistory_run hidle hrun
  have hinv := (proxyRun_inv (proxy_run hrun)).1
  have hfinite := proxyFinite_run (proxy_run hrun)
  have hmove := serviceMove h
  have hstarted : ∀ chain j, (s.2 chain).calls j ≠ none →
      ∃ task, s.1.tasks j = some task ∧ task.chain = chain := by
    intro chain j hsome
    obtain ⟨task, htask, hchain, -⟩ := hhistory.started chain j hsome
    exact ⟨task, htask, hchain⟩
  -- a step of the proxy is worth more than an upstream call
  have hproxyStep : ∀ {b : ProxyAction ι}, b.Internal →
      proxyStep serde blake3 app s.1 b = some t.1 →
      total t.callLeft ≤ total s.callLeft + (9 * N + 4) → t.stepsLeft N < s.stepsLeft N := by
    intro b hb hproxy hcalls
    have hlt := stepsLeft_lt hinv hfinite hb hproxy
    have hmul := Nat.mul_le_mul_left (9 * N + 5) (Nat.succ_le_of_lt hlt)
    rw [Nat.mul_succ] at hmul
    rw [ServiceState.stepsLeft, ServiceState.stepsLeft]
    omega
  have hsame : t.2 = s.2 → total t.callLeft ≤ total s.callLeft + (9 * N + 4) := by
    intro hpools
    have hcallLeft : t.callLeft = s.callLeft := funext fun j =>
      callLeft_congr hmove.tasksKept (fun chain => hstarted chain j) fun chain => by rw [hpools]
    rw [hcallLeft]
    exact Nat.le_add_right _ _
  cases id hmove with
  | proxy halone hproxy hpools => exact hproxyStep hinternal hproxy (hsame hpools)
  | @pool chain b q halone hpool hproxy hpools =>
    cases b with
    | forward | client | latency => exact absurd hinternal not_false
    | move i move =>
      have hsum := total_callLeft hfinite hmove.tasksKept hstarted
        (calls_update_of_ne hpools (.inr ⟨move, rfl⟩) hpool)
      obtain ⟨call, hcall, hpool⟩ := Option.bind_eq_some_iff.mp hpool
      obtain ⟨⟨q₀, call'⟩, hstep, rfl⟩ := Option.map_eq_some_iff.mp hpool
      obtain ⟨task, htask, rfl⟩ := hstarted chain i (hcall ▸ Option.some_ne_none call)
      have hcall' : (t.2 task.chain).calls i = some call' := by
        rw [hpools, Function.update_self]
        exact Function.update_self _ _ _
      rw [callLeft_of_call htask hcall, callLeft_of_call (hproxy ▸ htask) hcall'] at hsum
      have hlt := movesLeft_lt (moveCall_spec hstep)
      rw [ServiceState.stepsLeft, ServiceState.stepsLeft, hproxy]
      omega
  | @forward i task req q htask hreq hproxy hpool hpools =>
    refine hproxyStep (b := .task i .forward) trivial hproxy ?_
    have hsum := total_callLeft hfinite hmove.tasksKept hstarted
      (calls_update_of_ne hpools (.inl ⟨req, rfl⟩) hpool)
    obtain ⟨phase, htask', -⟩ := hmove.tasksKept i task htask
    have hcall' : (t.2 task.chain).calls i = some (.init req) := by
      rw [hpools, Function.update_self, (poolStep_forward hpool).2]
    have hinit : (ForwardCall.init req : ForwardCall (Fin (n task.chain))).movesLeft ≤
        9 * N + 4 := by
      have hchain := hN task.chain
      simp only [ForwardCall.movesLeft, ForwardCall.init, tierOrder, List.length_cons,
        List.length_nil]
      omega
    have hleft : t.callLeft i = (ForwardCall.init req : ForwardCall (Fin _)).movesLeft :=
      callLeft_of_call htask' hcall'
    omega
  | @answer i task call x htask hcall hdone hproxy hpools =>
    exact hproxyStep (b := .task i (.answer x)) trivial hproxy (hsame hpools)
  | panic htask hawaits hproxy hpool => exact (no_panic hdebug hpool).elim
  | cancel => exact absurd hinternal not_false

end Left

/-! ### Everything is answered -/

omit [DecidableEq ι] in
theorem serviceLeaderStays_of_internal (ha : a.Internal) : s.LeaderStays a := by
  cases a with
  | proxy a => exact leaderStays_of_internal ha
  | pool | forward | answer | panic => trivial
  | cancel => exact absurd ha not_false

/-- **The service answers everything.** With `debug_upstream` off, and as long as no client has
disconnected that leads an entry of `in_flight`, what the service and its upstreams do by themselves
comes to an end after at most `stepsLeft` steps, in whatever order they do it; when it has come to
an end, every task has been answered or dropped, every batch has been replied to unless one of its
items was dropped or logging its response panicked, and no call of `forward_request` is under way;
and it can be brought to an end. -/
theorem service_completes {N : ℕ} (hN : ∀ chain, n chain ≤ N)
    (hdebug : ∀ chain, (managers chain).debugUpstream.enabled = false)
    (hidle : ∀ chain i, (pools chain).calls i = none)
    (hstays : Along (serviceStep serde blake3 app managers) ServiceState.LeaderStays
      (.init redis latest, pools) as)
    (hrun : run (serviceStep serde blake3 app managers) (.init redis latest, pools) as = some s) :
    (∀ bs t, (∀ b ∈ bs, ServiceAction.Internal b) →
      run (serviceStep serde blake3 app managers) s bs = some t →
        bs.length + t.stepsLeft N ≤ s.stepsLeft N ∧
          (Quiet (serviceStep serde blake3 app managers) ServiceAction.Internal t →
            t.Settled app)) ∧
    ∃ bs t, (∀ b ∈ bs, ServiceAction.Internal b) ∧
      run (serviceStep serde blake3 app managers) s bs = some t ∧ t.Settled app := by
  let Reached : ServiceState ι Text n → Prop := fun u =>
    ∃ as, run (serviceStep serde blake3 app managers) (.init redis latest, pools) as = some u
  have hstep : ∀ u a v, Reached u → ServiceAction.Internal a →
      serviceStep serde blake3 app managers u a = some v → Reached v := by
    rintro u a v ⟨as, hu⟩ - hv
    exact ⟨as ++ [a], run_concat_eq_some.mpr ⟨u, hu, hv⟩⟩
  have hlower : ∀ u a v, Reached u → ServiceAction.Internal a →
      serviceStep serde blake3 app managers u a = some v → v.stepsLeft N < u.stepsLeft N := by
    rintro u a v ⟨as, hu⟩ ha hv
    exact serviceLeft_lt hN hdebug hidle hu ha hv
  have hsettled : ∀ bs t, (∀ b ∈ bs, ServiceAction.Internal b) →
      run (serviceStep serde blake3 app managers) s bs = some t →
        Quiet (serviceStep serde blake3 app managers) ServiceAction.Internal t → t.Settled app := by
    intro bs t hbs hrest hquiet
    have hquietly : Along (serviceStep serde blake3 app managers) ServiceState.LeaderStays s bs :=
      (along_of_forall hbs).mono fun u a ha => serviceLeaderStays_of_internal ha
    refine settled_of_idle hdebug hidle (hstays.append hrun hquietly) ?_ hquiet
    rw [run_append, hrun]
    exact hrest
  refine ⟨fun bs t hbs hrest => ⟨length_le_of_decreasing hstep hlower ⟨as, hrun⟩ hbs hrest,
    hsettled bs t hbs hrest⟩, ?_⟩
  obtain ⟨bs, t, hbs, hrest, hquiet⟩ := exists_run_quiet hstep hlower s ⟨as, hrun⟩
  exact ⟨bs, t, hbs, hrest, hsettled bs t hbs hrest hquiet⟩

/-- Both clients of `twoClientsOneDown` get their responses. -/
theorem twoClientsOneDown_complete :
    ∃ s : ServiceState Unit Value fun _ => 2,
      run (serviceStep .tree balanceDigest oneChain fun _ => primaryAndSecondary)
          (.init (fun _ => none) fun _ => none, fun _ => .init 2 (86400 * second) 0)
          twoClientsOneDown = some s ∧
        ∃ bs t, (∀ b ∈ bs, ServiceAction.Internal b) ∧
          run (serviceStep .tree balanceDigest oneChain fun _ => primaryAndSecondary) s bs =
            some t ∧ t.Settled oneChain := by
  obtain ⟨s, hrun⟩ : ∃ s : ServiceState Unit Value fun _ => 2,
      run (serviceStep .tree balanceDigest oneChain fun _ => primaryAndSecondary)
        (.init (fun _ => none) fun _ => none, fun _ => .init 2 (86400 * second) 0)
        twoClientsOneDown = some s := ⟨_, rfl⟩
  have hstays : Along (serviceStep .tree balanceDigest oneChain fun _ => primaryAndSecondary)
      ServiceState.LeaderStays
      (.init (fun _ => none) fun _ => none, fun _ => .init 2 (86400 * second) 0)
      twoClientsOneDown := by
    refine (along_of_forall (L := fun a => ∀ i, a ≠ .cancel i ∧ a ≠ .proxy (.task i .cancel))
      ?_).mono fun u a ha => ?_
    · simp [twoClientsOneDown]
    · cases a with
      | proxy a =>
        cases a with
        | task i step =>
          cases step with
          | cancel => exact absurd rfl (ha i).2
          | _ => trivial
        | _ => trivial
      | cancel i => exact absurd rfl (ha i).1
      | _ => trivial
  exact ⟨s, hrun,
    (service_completes (fun _ => le_rfl) (fun _ => rfl) (fun _ _ => rfl) hstays hrun).2⟩

end Poolbeg
