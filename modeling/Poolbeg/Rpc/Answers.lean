import Poolbeg.Rpc.CacheHit
import Poolbeg.Rpc.CoalescerRun

/-!
# Where every answer comes from

The proxy has five ways to answer a request, and three of them hand on what somebody else asked for.
`Justified` says what each of them may answer, in terms of what happened in the run: a refusal and a
memory intercept are the proxy's own words, and everything else goes back to an upstream call that
returned earlier, was made for a request with the same method and the same resolved parameters, on a
chain with the same chain id.

## The history of a task

The invariant follows a request from its resolution on (`WorkedOn`). A task that is done keeps it,
since its message may still be in a channel; that is why a history of the run is needed and the
phase of the task does not do. A waiter reads a message whose sender has long returned, and it is
justified by what that sender resolved and was answered, through the key that both of them share.

## What is assumed

Digests are apart on the requests the run resolves. Redis is empty at the start, so that what is
read from it was written in the run. Upstream responses are decoded from bodies. Nothing is assumed
of the order of steps, of cancellations, or of what the tracker, invalidation, expiry and eviction
do to the cache in between.

## Main definitions

* `CallReturned`, `InterceptedBy` — what happened in a run
* `WorkedOn`, `TaskHistory` — what a task has resolved and was answered
* `Justified` — what may be answered on each exit

## Main results

* `taskHistory_run` — every task has its history
* `justified_of_received`, `justified_of_cached` — the exits that hand on
* `justified_run` — every task, on every exit
-/

namespace Poolbeg

open Lts

variable {ι Text : Type}

section Steps

variable (app : AppConfig ι)

/-- The upstream call that the task `i` made for `req`, on a chain with this id, returns: with a
response of an upstream, or with the error that no upstream answered. -/
def CallReturned (chainId i : ℕ) (req : JsonRpcRequest) (x : Answer) (s : ProxyState ι Text)
    (a : ProxyAction ι) : Prop :=
  ∃ task wrap, a = .task i (.answer x) ∧ s.tasks i = some task ∧ Forwards req wrap ∧
    task.phase = wrap .awaiting ∧ (app.chains task.chain).chainId = chainId

/-- The task `i` answers `orig` from memory. -/
def InterceptedBy (i : ℕ) (chain : ι) (orig : JsonRpcRequest) (resp : JsonRpcResponse)
    (s : ProxyState ι Text) (a : ProxyAction ι) : Prop :=
  ∃ task, a = .task i .enter ∧ s.tasks i = some task ∧ task.chain = chain ∧ task.req = orig ∧
    tryMemoryIntercept (app.chains chain).chainId (s.latest chain) orig.method orig.id = some resp

end Steps

/-- The block tags of the request have been resolved. A task that is done or cancelled has left that
behind as well. -/
def TaskPhase.Resolved : TaskPhase Text → Prop
  | .entry => False
  | .resolving => False
  | _ => True

variable (serde : SerdeJson Text) (blake3 : Blake3 Text) (app : AppConfig ι) [DecidableEq ι]

/-- The task `i` resolved its request to `req`, works on nothing else, and what it was answered it
was answered to that. -/
structure WorkedOn (start : ProxyState ι Text) (as : List (ProxyAction ι)) (s : ProxyState ι Text)
    (i : ℕ) (task : Task ι Text) (req : JsonRpcRequest) : Prop where
  resolved : Once (proxyStep serde blake3 app) (ResolvedBy app i task.chain task.req req) start as
  phase : task.phase.Resolved
  only : ∀ req', task.phase.request = some req' → req' = req
  answered : ∀ x, s.answers i = some x → Once (proxyStep serde blake3 app)
    (CallReturned app (app.chains task.chain).chainId i req x) start as

/-- What may be answered to the request of the task `i`, on each of the exits. -/
inductive Justified (start : ProxyState ι Text) (as : List (ProxyAction ι)) (i : ℕ)
    (task : Task ι Text) : Exit → JsonRpcResponse → Prop
  | blocked (hblocked : isMethodBlocked task.req.method app.blockedMethods = true) :
      Justified start as i task .blocked
        (.ofError task.req.id methodNotFound "Method not allowed")
  | memoryIntercept {resp : JsonRpcResponse}
      (hintercepted : Once (proxyStep serde blake3 app)
        (InterceptedBy app i task.chain task.req resp) start as) :
      Justified start as i task .memoryIntercept resp
  | cacheHit {req req' : JsonRpcRequest} {answered : JsonRpcResponse}
      (hresolved : Once (proxyStep serde blake3 app)
        (ResolvedBy app i task.chain task.req req) start as)
      (hmethod : req'.method = req.method) (hparams : req'.params = req.params)
      (hanswered : Once (proxyStep serde blake3 app)
        (UpstreamAnswered app (app.chains task.chain).chainId req' answered) start as)
      (herror : answered.error = none) :
      Justified start as i task .cacheHit (answered.withId task.req.id)
  | coalesced {j : ℕ} {chain : ι} {orig req req' : JsonRpcRequest} {x : Answer} (hother : j ≠ i)
      (hresolved : Once (proxyStep serde blake3 app)
        (ResolvedBy app i task.chain task.req req) start as)
      (hresolved' : Once (proxyStep serde blake3 app) (ResolvedBy app j chain orig req') start as)
      (hchain : (app.chains chain).chainId = (app.chains task.chain).chainId)
      (hmethod : req'.method = req.method) (hparams : req'.params = req.params)
      (hreturned : Once (proxyStep serde blake3 app)
        (CallReturned app (app.chains chain).chainId j req' x) start as) :
      Justified start as i task .coalesced (respond orig.id x)
  | upstream {req : JsonRpcRequest} {x : Answer}
      (hresolved : Once (proxyStep serde blake3 app)
        (ResolvedBy app i task.chain task.req req) start as)
      (hreturned : Once (proxyStep serde blake3 app)
        (CallReturned app (app.chains task.chain).chainId i req x) start as) :
      Justified start as i task .upstream (respond task.req.id x)

variable {serde blake3 app}

theorem Justified.append {start : ProxyState ι Text} {as : List (ProxyAction ι)} {i : ℕ}
    {task : Task ι Text} {exit : Exit} {resp : JsonRpcResponse}
    (h : Justified serde blake3 app start as i task exit resp) (bs : List (ProxyAction ι)) :
    Justified serde blake3 app start (as ++ bs) i task exit resp := by
  cases h with
  | blocked hblocked => exact .blocked hblocked
  | memoryIntercept hintercepted => exact .memoryIntercept (hintercepted.append bs)
  | cacheHit hresolved hmethod hparams hanswered herror =>
    exact .cacheHit (hresolved.append bs) hmethod hparams (hanswered.append bs) herror
  | coalesced hother hresolved hresolved' hchain hmethod hparams hreturned =>
    exact .coalesced hother (hresolved.append bs) (hresolved'.append bs) hchain hmethod hparams
      (hreturned.append bs)
  | upstream hresolved hreturned => exact .upstream (hresolved.append bs) (hreturned.append bs)

/-- What is justified is so by the request and by where it was made. -/
theorem Justified.congr {start : ProxyState ι Text} {as : List (ProxyAction ι)} {i : ℕ}
    {task task' : Task ι Text} {exit : Exit} {resp : JsonRpcResponse}
    (h : Justified serde blake3 app start as i task exit resp) (hchain : task'.chain = task.chain)
    (hreq : task'.req = task.req) : Justified serde blake3 app start as i task' exit resp := by
  obtain ⟨chain, req, origin, phase⟩ := task
  obtain ⟨chain', req', origin', phase'⟩ := task'
  obtain rfl : chain' = chain := hchain
  obtain rfl : req' = req := hreq
  cases h with
  | blocked hblocked => exact .blocked hblocked
  | memoryIntercept hintercepted => exact .memoryIntercept hintercepted
  | cacheHit hresolved hmethod hparams hanswered herror =>
    exact .cacheHit hresolved hmethod hparams hanswered herror
  | coalesced hother hresolved hresolved' hchain hmethod hparams hreturned =>
    exact .coalesced hother hresolved hresolved' hchain hmethod hparams hreturned
  | upstream hresolved hreturned => exact .upstream hresolved hreturned

/-! ### One move of a task -/

section Moves

variable {s : ProxyState ι Text} {i : ℕ} {task : Task ι Text} {a : TaskStep} {m : Move Text}

omit [DecidableEq ι] in
/-- Once its request is resolved, a task does not resolve it again. -/
theorem TaskMoved.keepsRequest (h : TaskMoved serde blake3 app s i task a m)
    (hphase : task.phase.Resolved) :
    m.phase.Resolved ∧ ∀ req, m.phase.request = some req → task.phase.request = some req := by
  cases h with
  | blocked hold | intercept hold | enter hold | pass hold | lookUp hold =>
    rw [hold] at hphase
    exact absurd hphase not_false
  | hit | returned | finish | cancel | cancelCall =>
    exact ⟨trivial, fun req hreq => absurd hreq (Option.some_ne_none _).symm⟩
  | miss hold | coalesce hold | handOver hold =>
    rw [hold]
    exact ⟨trivial, fun req hreq => hreq⟩
  | @forward req wrap hwrap hold hcall | @answer req wrap x hwrap hold hcall
  | @store req wrap c cmds x ok hwrap hold hcall =>
    rw [hold]
    cases hwrap with
    | coalescing => exact ⟨trivial, fun req hreq => hreq⟩
    | forwarding => exact ⟨trivial, fun req hreq => hreq⟩

omit [DecidableEq ι] in
/-- A task is answered when its upstream call returns. -/
theorem TaskMoved.answer_forwards (h : TaskMoved serde blake3 app s i task a m) :
    m.answer = s.answers i ∨ ∃ x req wrap, a = .answer x ∧ m.answer = some x ∧
      Forwards req wrap ∧ task.phase = wrap .awaiting := by
  cases h with
  | answer hwrap hphase hcall => exact .inr ⟨_, _, _, rfl, rfl, hwrap, hphase⟩
  | _ => exact .inl rfl

end Moves

/-! ### What was worked on stays so -/

section History

variable {start s t : ProxyState ι Text} {as : List (ProxyAction ι)} {a : ProxyAction ι} {i : ℕ}
  {task : Task ι Text} {req : JsonRpcRequest}

theorem WorkedOn.apply (h : WorkedOn serde blake3 app start as s i task req)
    (hrun : run (proxyStep serde blake3 app) start as = some s) (htask : s.tasks i = some task)
    {step : TaskStep} {m : Move Text} (hm : TaskMoved serde blake3 app s i task step m) :
    WorkedOn serde blake3 app start (as ++ [.task i step]) (s.apply i task m) i
      { task with phase := m.phase } req := by
  obtain ⟨hphase, hrequest⟩ := hm.keepsRequest h.phase
  refine ⟨h.resolved.append _, hphase, fun req' hreq' => h.only req' (hrequest req' hreq'), ?_⟩
  intro x hx
  rw [s.answers_apply_self] at hx
  rcases hm.answer_forwards with hsame | ⟨y, req', wrap, rfl, hanswer, hwrap, hold⟩
  · exact (h.answered x (hsame ▸ hx)).append _
  · obtain rfl := Option.some.inj (hanswer.symm.trans hx)
    obtain rfl := h.only req' (by rw [hold]; exact hwrap.request _)
    exact once_concat hrun ⟨task, wrap, rfl, htask, hwrap, hold, rfl⟩

/-- **A task goes on working on what it resolved.** -/
theorem WorkedOn.step (h : WorkedOn serde blake3 app start as s i task req)
    (hrun : run (proxyStep serde blake3 app) start as = some s) (htask : s.tasks i = some task)
    (ht : proxyStep serde blake3 app s a = some t) :
    ∃ phase, t.tasks i = some { task with phase := phase } ∧
      WorkedOn serde blake3 app start (as ++ [a]) t i { task with phase := phase } req := by
  have hkept : ∀ {u : ProxyState ι Text}, u.tasks i = some task → u.answers i = s.answers i →
      ∃ phase, u.tasks i = some { task with phase := phase } ∧
        WorkedOn serde blake3 app start (as ++ [a]) u i { task with phase := phase } req := by
    intro u hu hanswers
    refine ⟨task.phase, hu, h.resolved.append _, h.phase, h.only, fun x hx => ?_⟩
    exact (h.answered x (hanswers ▸ hx)).append _
  have hstart : ∀ {j : ℕ} {chain : ι} {orig : JsonRpcRequest} {origin : Option (ℕ × ℕ)},
      s.tasks j = none → (s.withTask j chain orig origin).tasks i = some task := by
    intro j chain orig origin hfresh
    have hij : i ≠ j := by
      rintro rfl
      cases hfresh.symm.trans htask
    exact (s.tasks_withTask_of_ne chain orig origin hij).trans htask
  cases stepped ht with
  | request hfresh | item hbatch hcurrent hdedup hreq hfresh => exact hkept (hstart hfresh) rfl
  | @move j step task₀ m htask₀ hm =>
    by_cases hij : i = j
    · subst hij
      obtain rfl := Option.some.inj (htask.symm.trans htask₀)
      exact ⟨m.phase, s.tasks_apply_self i task m, h.apply hrun htask (taskMoved hm)⟩
    · exact hkept ((s.tasks_apply_of_ne task₀ m hij).trans htask)
        (s.answers_apply_of_ne task₀ m hij)
  | head | write | batch | skip | collect | reply => exact hkept htask rfl

variable (serde blake3 app) in
/-- What the steps of a run say about the tasks and their calls. A call of the coalescer has the key
of what its task worked on. -/
structure TaskHistory (start : ProxyState ι Text) (as : List (ProxyAction ι))
    (s : ProxyState ι Text) : Prop where
  task : ∀ i task, s.tasks i = some task → task.phase.request ≠ none ∨ s.answers i ≠ none →
    ∃ req, WorkedOn serde blake3 app start as s i task req
  call : ∀ i key phase, s.coalescer.calls i = some ⟨key, phase⟩ → ∃ task req,
    s.tasks i = some task ∧ key = app.key serde blake3 task.chain req ∧
      WorkedOn serde blake3 app start as s i task req

theorem taskHistory_init (redis : Redis Text) (latest : ι → Option ℕ) :
    TaskHistory serde blake3 app (.init redis latest) [] (.init redis latest) where
  task := fun _ _ htask => absurd htask (Option.some_ne_none _).symm
  call := fun _ _ _ hcall => absurd hcall (Option.some_ne_none _).symm

omit [DecidableEq ι] in
theorem resolved_of_request {phase : TaskPhase Text} (h : phase.request = some req) :
    phase.Resolved := by
  cases phase with
  | entry | resolving => cases h
  | lookingUp | coalescing | forwarding | done | cancelled => trivial

/-- A task that now works on a request, or is answered, did so before, or resolves it now. It never
goes back to resolving. -/
theorem workedOn_apply (h : TaskHistory serde blake3 app start as s)
    (hrun : run (proxyStep serde blake3 app) start as = some s) (htask : s.tasks i = some task)
    {step : TaskStep} {m : Move Text} (hm : TaskMoved serde blake3 app s i task step m)
    (hworks : m.phase.request ≠ none ∨ m.answer ≠ none) :
    ∃ req, WorkedOn serde blake3 app start (as ++ [.task i step]) (s.apply i task m) i
      { task with phase := m.phase } req := by
  by_cases hworked : task.phase.request ≠ none ∨ s.answers i ≠ none
  · obtain ⟨req, hreq⟩ := h.task i task htask hworked
    exact ⟨req, hreq.apply hrun htask hm⟩
  obtain ⟨hidle, hunanswered⟩ := not_or.mp hworked
  rcases hm.answer_forwards with hsame | ⟨x, req, wrap, -, -, hwrap, hold⟩
  · have hnone : m.answer = none := hsame.trans (not_not.mp hunanswered)
    obtain ⟨req, hreq⟩ := Option.ne_none_iff_exists'.mp (hworks.resolve_right (· hnone))
    rcases hm.request htask hreq with hold | hresolves
    · exact absurd (hold ▸ Option.some_ne_none req) hidle
    · refine ⟨req, once_concat hrun hresolves, resolved_of_request hreq, fun req' hreq' => ?_,
        fun x hx => ?_⟩
      · exact Option.some.inj (hreq'.symm.trans hreq)
      · rw [s.answers_apply_self, hnone] at hx
        cases hx
  · exact absurd (by rw [hold, hwrap.request]; exact Option.some_ne_none req) hidle

omit [DecidableEq ι] in
/-- A call of the coalescer that a task has, it had, or it makes it now. -/
theorem TaskMoved.call_key {step : TaskStep} {m : Move Text}
    (hm : TaskMoved serde blake3 app s i task step m)
    (hok : TaskOk serde blake3 app task (s.coalescer.calls i) (s.answers i)) {key : String}
    {phase : CallPhase JsonRpcResponse} (hcall : m.coalescer.calls i = some ⟨key, phase⟩) :
    (∃ phase₀, s.coalescer.calls i = some ⟨key, phase₀⟩) ∨
      ∃ req, task.phase.request = some req ∧ key = app.key serde blake3 task.chain req := by
  have hmoved : ∀ {req : JsonRpcRequest} {stage : Forwarding Text}
      {k : CoalescerState String Text JsonRpcResponse} {act : CallAction String JsonRpcResponse},
      task.phase = .coalescing req stage → requestCoalescerStep serde s.coalescer act = some k →
      k.calls i = some ⟨key, phase⟩ → ∃ phase₀, s.coalescer.calls i = some ⟨key, phase₀⟩ := by
    intro req stage k act hphase hk hcall
    rw [TaskOk, hphase] at hok
    obtain ⟨-, phase₀, hcall₀, -⟩ := hok
    obtain ⟨phase', hcall', -⟩ := phaseMove hk hcall₀
    cases hcall'.symm.trans hcall
    exact ⟨phase₀, hcall₀⟩
  cases hm with
  | @miss ok req k hphase hk =>
    cases callMove hk with
    | call hnone =>
      have hself := s.coalescer.calls_advance_self i (app.key serde blake3 task.chain req) .start
      obtain ⟨rfl, -⟩ := Call.mk.inj (Option.some.inj (hself.symm.trans hcall))
      exact .inr ⟨req, by rw [hphase]; rfl, rfl⟩
  | coalesce hphase hk | returned hphase hk | cancelCall hphase hk =>
    exact .inl (hmoved hphase hk hcall)
  | handOver hphase hresp hk => exact .inl (hmoved hphase hk hcall)
  | blocked | intercept | enter | pass | lookUp | hit | finish | forward | answer | store
  | cancel =>
    exact .inl ⟨phase, hcall⟩

theorem taskHistory_step (h : TaskHistory serde blake3 app start as s)
    (hrun : run (proxyStep serde blake3 app) start as = some s) (hinv : ProxyInv serde blake3 app s)
    (ht : proxyStep serde blake3 app s a = some t) :
    TaskHistory serde blake3 app start (as ++ [a]) t := by
  have hkept : ∀ {i task req}, s.tasks i = some task →
      WorkedOn serde blake3 app start as s i task req → ∀ {task'}, t.tasks i = some task' →
      WorkedOn serde blake3 app start (as ++ [a]) t i task' req := by
    intro i task req htask hworked task' htask'
    obtain ⟨phase, hphase, hworked'⟩ := hworked.step hrun htask ht
    obtain rfl := Option.some.inj (htask'.symm.trans hphase)
    exact hworked'
  have hcalls : ∀ {i key phase₀}, s.coalescer.calls i = some ⟨key, phase₀⟩ → ∃ task req,
      t.tasks i = some task ∧ key = app.key serde blake3 task.chain req ∧
        WorkedOn serde blake3 app start (as ++ [a]) t i task req := by
    intro i key phase₀ hcall
    obtain ⟨task, req, htask, hkey, hworked⟩ := h.call i key phase₀ hcall
    obtain ⟨phase, hphase, hworked'⟩ := hworked.step hrun htask ht
    exact ⟨_, req, hphase, hkey, hworked'⟩
  cases stepped ht with
  | @move j step task₀ m htask₀ hm =>
    constructor
    · intro i task htask hworks
      rcases ProxyState.tasks_apply_eq_some htask with ⟨rfl, rfl⟩ | ⟨hij, hold⟩
      · rw [s.answers_apply_self] at hworks
        exact workedOn_apply h hrun htask₀ (taskMoved hm) hworks
      · rw [s.answers_apply_of_ne task₀ m hij] at hworks
        obtain ⟨req, hworked⟩ := h.task i task hold hworks
        exact ⟨req, hkept hold hworked htask⟩
    · intro i key phase hcall
      by_cases hij : i = j
      · subst hij
        rcases (taskMoved hm).call_key (hinv.task i task₀ htask₀) hcall with
          ⟨phase₀, hcall₀⟩ | ⟨req, hreq, rfl⟩
        · exact hcalls hcall₀
        · obtain ⟨req', hworked⟩ := h.task i task₀ htask₀ (.inl (hreq ▸ Option.some_ne_none req))
          obtain rfl := hworked.only req hreq
          exact ⟨_, req, s.tasks_apply_self i task₀ m, rfl,
            hworked.apply hrun htask₀ (taskMoved hm)⟩
      · exact hcalls ((calls_apply_of_ne hm hij).symm.trans hcall)
  | request hfresh | item hbatch hcurrent hdedup hreq hfresh =>
    refine ⟨fun i task htask hworks => ?_, fun i key phase hcall => hcalls hcall⟩
    rcases ProxyState.tasks_withTask_eq_some htask with ⟨rfl, rfl⟩ | ⟨hij, hold⟩
    · exact absurd ((hinv.fresh _ hfresh).2) (hworks.resolve_left (· rfl))
    · obtain ⟨req, hworked⟩ := h.task i task hold hworks
      exact ⟨req, hkept hold hworked htask⟩
  | head | write | batch | skip | collect | reply =>
    refine ⟨fun i task htask hworks => ?_, fun i key phase hcall => hcalls hcall⟩
    obtain ⟨req, hworked⟩ := h.task i task htask hworks
    exact ⟨req, hkept htask hworked htask⟩

end History

/-! ### Every answer is justified -/

section Answers

variable {redis : Redis Text} {latest : ι → Option ℕ} {as : List (ProxyAction ι)}
  {s t : ProxyState ι Text} {a : ProxyAction ι} {i : ℕ} {task : Task ι Text} {req : JsonRpcRequest}

theorem taskHistory_run
    (hrun : run (proxyStep serde blake3 app) (.init redis latest) as = some s) :
    TaskHistory serde blake3 app (.init redis latest) as s :=
  run_history (taskHistory_init redis latest)
    (fun _ _ _ _ hu h hv => taskHistory_step h hu (proxyInv_run hu) hv) hrun

/-- What an upstream call returns is read back as it was written. -/
theorem canonical_respond {start : ProxyState ι Text} {chainId j : ℕ} {id : Value} {x : Answer}
    (hdecoded : ∀ a ∈ as, a.Decoded)
    (h : Once (proxyStep serde blake3 app) (CallReturned app chainId j req x) start as) :
    (respond id x).canonical = respond id x := by
  obtain ⟨pre, a, post, u, rfl, -, task, wrap, rfl, -⟩ := h
  cases x with
  | error e => rfl
  | ok resp =>
    obtain ⟨v, hv⟩ := hdecoded _ (List.mem_append_right pre List.mem_cons_self)
    rw [respond, JsonRpcResponse.canonical_withId, JsonRpcResponse.canonical_of_deserialize hv]

theorem mem_resolved_of_once {start : ProxyState ι Text} {chain : ι} {orig : JsonRpcRequest}
    (h : Once (proxyStep serde blake3 app) (ResolvedBy app i chain orig req) start as) :
    req ∈ gather (proxyStep serde blake3 app) app.resolved start as :=
  mem_gather_of_once (h.mono fun _ _ hresolved => hresolved.mem_resolved)

/-- A waiter is answered with what another task's upstream call returned. The two have one key, and
digests are apart, so they have one method and one list of parameters. -/
theorem justified_of_received (hdecoded : ∀ a ∈ as, a.Decoded)
    (hdigests : blake3.Separates serde
      {req | req ∈ gather (proxyStep serde blake3 app) app.resolved (.init redis latest) as})
    (hrun : run (proxyStep serde blake3 app) (.init redis latest) as = some s)
    (htask : s.tasks i = some task) {c : Channel String Text} {msg : Text} {resp : JsonRpcResponse}
    (hrecv : ReceivedBy s.coalescer i c msg) (hunanswered : s.answers i = none)
    (hresp : JsonRpcResponse.ofText serde msg = some resp) :
    Justified serde blake3 app (.init redis latest) as i task .coalesced resp := by
  have hinv := proxyInv_run hrun
  have hhistory := taskHistory_run hrun
  obtain ⟨leader, x, hleader, hx, hread⟩ := hinv.received hrecv
  obtain ⟨key, ch, pos, hcall, hc, -⟩ := hrecv
  -- the channel was opened for the key that the waiter waits for
  obtain ⟨cs, hcs⟩ := exists_coalescer_run hrun
  obtain ⟨phase, hopener, -⟩ := (callHistory_run hcs).opener ch c hc
  obtain ⟨c', hc', hkey⟩ := channel_of_waiting hrun hcall
  obtain rfl := Option.some.inj (hc.symm.trans hc')
  obtain ⟨waiting, req, hwaiting, hwaitKey, hworked⟩ := hhistory.call i key _ hcall
  obtain rfl := Option.some.inj (htask.symm.trans hwaiting)
  obtain ⟨leader', req', hleader', hleadKey, hled⟩ := hhistory.call c.owner c.key phase hopener
  obtain rfl := Option.some.inj (hleader.symm.trans hleader')
  obtain ⟨hchain, hmethod, hparams⟩ := hdigests.eq_of_cacheKey (mem_resolved_of_once hled.resolved)
    (mem_resolved_of_once hworked.resolved) (hleadKey.symm.trans (hkey.trans hwaitKey))
  have hreturned := hled.answered x hx
  rw [canonical_respond hdecoded hreturned] at hread
  obtain rfl := Option.some.inj (hread.symm.trans hresp)
  refine .coalesced (fun howner => ?_) hworked.resolved hled.resolved hchain hmethod hparams
    hreturned
  rw [howner, hunanswered] at hx
  cases hx

/-- A cache hit is answered with what an upstream answered to the same request, under the id of the
one that is answered now. -/
theorem justified_of_cached {latest : ι → Option ℕ} (hdecoded : ∀ a ∈ as, a.Decoded)
    (hdigests : blake3.Separates serde
      {req | req ∈ gather (proxyStep serde blake3 app) app.resolved (.init (fun _ => none) latest)
        as})
    (hrun : run (proxyStep serde blake3 app) (.init (fun _ => none) latest) as = some s)
    (htask : s.tasks i = some task) (hphase : task.phase = .lookingUp req) {text : Text}
    {resp : JsonRpcResponse}
    (hget : s.redis.get (app.key serde blake3 task.chain req) = some text)
    (hread : JsonRpcResponse.ofText serde text = some resp) :
    Justified serde blake3 app (.init (fun _ => none) latest) as i task .cacheHit
      (resp.withId task.req.id) := by
  have hhistory := cacheHistory_run hrun
  have hresolved := hhistory.resolved i task req htask (by rw [hphase]; rfl)
  obtain ⟨j, orig, req', chain, answered, hkey, rfl, herror, hresolved', hanswered⟩ :=
    hhistory.stored task.chain req text hget
  obtain ⟨hchain, hmethod, hparams⟩ := hdigests.eq_of_cacheKey (mem_resolved_of_once hresolved)
    (mem_resolved_of_once hresolved') hkey
  rw [JsonRpcResponse.ofText_toText, decoded_of_answered hdecoded hanswered] at hread
  obtain rfl := Option.some.inj hread
  exact .cacheHit hresolved hmethod.symm hparams.symm (hchain ▸ hanswered) herror

omit [DecidableEq ι] in
/-- Only a task that is coalescing takes a step of its call. -/
theorem TaskMoved.unanswered {op : CoalesceOp} {m : Move Text}
    (hm : TaskMoved serde blake3 app s i task (.coalesce op) m)
    (hok : TaskOk serde blake3 app task (s.coalescer.calls i) (s.answers i)) {key : String}
    {ch pos : ℕ} (hcall : s.coalescer.calls i = some ⟨key, .waiting ch pos⟩) :
    s.answers i = none := by
  cases hm with
  | coalesce hphase | returned hphase =>
    rw [TaskOk, hphase] at hok
    obtain ⟨-, phase, hcall', hcallOk⟩ := hok
    cases hcall.symm.trans hcall'
    exact hcallOk.2

/-- **Every answer is justified**: whatever a task returns, on whichever exit, in a run from an
empty Redis in which digests are apart. The cases are those of `Finishes`. -/
theorem justified_run {latest : ι → Option ℕ}
    (hrun : run (proxyStep serde blake3 app) (.init (fun _ => none) latest) as = some s)
    (hdecoded : ∀ a ∈ as, a.Decoded)
    (hdigests : blake3.Separates serde
      {req | req ∈ gather (proxyStep serde blake3 app) app.resolved (.init (fun _ => none) latest)
        as}) :
    ∀ i task exit resp, s.tasks i = some task → task.phase = .done exit resp →
      Justified serde blake3 app (.init (fun _ => none) latest) as i task exit resp := by
  refine run_history (H := fun as (s : ProxyState ι Text) => (∀ a ∈ as, a.Decoded) →
    blake3.Separates serde {req | req ∈ gather (proxyStep serde blake3 app) app.resolved
      (.init (fun _ => none) latest) as} →
    ∀ i task exit resp, s.tasks i = some task → task.phase = .done exit resp →
      Justified serde blake3 app (.init (fun _ => none) latest) as i task exit resp)
    ?_ ?_ hrun hdecoded hdigests
  · intro _ _ i task exit resp htask
    exact absurd htask (Option.some_ne_none _).symm
  intro as s a t hrun ih ht hdecoded hdigests i task exit resp htask hdone
  have hdecoded' : ∀ b ∈ as, b.Decoded := fun b hb => hdecoded b (List.mem_append_left _ hb)
  have hdigests' : blake3.Separates serde {req | req ∈ gather (proxyStep serde blake3 app)
      app.resolved (.init (fun _ => none) latest) as} := by
    refine hdigests.mono (Set.image_mono fun req hreq => ?_)
    rw [Set.mem_ofPred_eq, gather_concat hrun]
    exact List.mem_append_left _ hreq
  have hkept : s.tasks i = some task →
      Justified serde blake3 app (.init (fun _ => none) latest) (as ++ [a]) i task exit resp :=
    fun hold => (ih hdecoded' hdigests' i task exit resp hold hdone).append _
  cases stepped ht with
  | request hfresh | item hbatch hcurrent hdedup hreq hfresh =>
    rcases ProxyState.tasks_withTask_eq_some htask with ⟨rfl, rfl⟩ | ⟨-, hold⟩
    · cases hdone
    · exact hkept hold
  | head | write | batch | skip | collect | reply => exact hkept htask
  | @move j step task₀ m htask₀ hm =>
    rcases ProxyState.tasks_apply_eq_some htask with ⟨rfl, rfl⟩ | ⟨-, hold⟩
    · have hinv := proxyInv_run hrun
      have hok := hinv.task i task₀ htask₀
      cases (taskMove_spec hok hm).finishes exit resp hdone with
      | blocked hblocked => exact .blocked hblocked
      | memoryIntercept hintercepted =>
        exact .memoryIntercept (once_concat hrun ⟨task₀, rfl, htask₀, rfl, rfl, hintercepted⟩)
      | cacheHit hphase hget hread =>
        have hjustified := justified_of_cached hdecoded' hdigests' hrun htask₀ hphase hget hread
        exact (hjustified.append _).congr rfl rfl
      | coalesced hrecv hread =>
        obtain ⟨key, ch, pos, hcall, -⟩ := id hrecv
        have hunanswered := (taskMoved hm).unanswered hok hcall
        have hjustified := justified_of_received hdecoded' hdigests' hrun htask₀ hrecv hunanswered
          hread
        exact (hjustified.append _).congr rfl rfl
      | @upstream _ x hx =>
        obtain ⟨req, hworked⟩ := (taskHistory_run hrun).task i task₀ htask₀
          (.inr (hx ▸ Option.some_ne_none x))
        exact .upstream (hworked.resolved.append _) ((hworked.answered x hx).append _)
    · exact hkept hold

end Answers

end Poolbeg
