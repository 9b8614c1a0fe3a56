import Poolbeg.Rpc.CacheWrites
import Poolbeg.Rpc.ResponseId

/-!
# Where a cache hit comes from

Everything that is read as a response under the key of a request was written by
`forward_to_upstream`, for a request with that key: the block tracker writes under other keys, and
invalidations, expiry and eviction only delete. The key is taken of the resolved request on both
sides, and only responses without an error are stored. So a hit carries what an upstream answered to
the same method and parameters, as far as digests are apart.

## Two steps that a hit goes back to

A hit is not traced to another task but to two steps of the run: one in which some task resolved a
request to what it looked up, and one in which an upstream of a chain with that chain id answered
this request. The task need not have returned, since it may have been cancelled between its `SET`
and its response; and it need not be on the same chain, since two routes may have one chain id and
then share their entries. `CacheHistory` relates the steps of a run to what is in Redis at its end
and to what the tasks are about to store, and both are kept by every step.

## Digests

The key of a request is a digest, so a hit is for the same request only as far as digests are apart.
They are asked to be apart on the requests that the run resolves, which is a finite set, and not on
all requests, for which no digest could be.

## Main definitions

* `ResolvedBy`, `UpstreamAnswered` — the two kinds of steps a hit goes back to
* `CacheSource` — where a text under a key comes from
* `CacheHistory` — the steps of a run and what is stored at its end

## Main results

* `cacheHistory_run` — the history of every run
* `cacheHit_sound` — where a hit comes from
-/

namespace Poolbeg

open Lts

variable {ι Text : Type}

/-- The request a task works on, once its block tags are resolved. -/
def TaskPhase.request : TaskPhase Text → Option JsonRpcRequest
  | .lookingUp req => some req
  | .coalescing req _ => some req
  | .forwarding req _ => some req
  | _ => none

theorem Forwards.request {req : JsonRpcRequest} {wrap : Forwarding Text → TaskPhase Text}
    (h : Forwards req wrap) (stage : Forwarding Text) : (wrap stage).request = some req := by
  cases h <;> rfl

section Steps

variable (app : AppConfig ι)

/-- The requests a step resolves, at most one. The head is the one the task reads in that step. -/
def AppConfig.resolved (s : ProxyState ι Text) : ProxyAction ι → List JsonRpcRequest
  | .task i .resolve =>
    match s.tasks i with
    | some task =>
      [resolveForHead (s.latest task.chain) (app.chains task.chain).finalityDepth task.req]
    | none => []
  | _ => []

/-- The task `i` resolves the request `orig` it was made for, to `req`. -/
def ResolvedBy (i : ℕ) (chain : ι) (orig req : JsonRpcRequest) (s : ProxyState ι Text)
    (a : ProxyAction ι) : Prop :=
  ∃ task, a = .task i .resolve ∧ s.tasks i = some task ∧ task.chain = chain ∧ task.req = orig ∧
    req = resolveForHead (s.latest chain) (app.chains chain).finalityDepth orig

/-- An upstream of a chain with this id answers the request. The task may be a leader of the
coalescer or forward on its own. -/
def UpstreamAnswered (chainId : ℕ) (req : JsonRpcRequest) (resp : JsonRpcResponse)
    (s : ProxyState ι Text) (a : ProxyAction ι) : Prop :=
  ∃ i task wrap, a = .task i (.answer (.ok resp)) ∧ s.tasks i = some task ∧ Forwards req wrap ∧
    task.phase = wrap .awaiting ∧ (app.chains task.chain).chainId = chainId

variable {app}

theorem ResolvedBy.mem_resolved {i : ℕ} {chain : ι} {orig req : JsonRpcRequest}
    {s : ProxyState ι Text} {a : ProxyAction ι} (h : ResolvedBy app i chain orig req s a) :
    req ∈ app.resolved s a := by
  obtain ⟨task, rfl, htask, rfl, rfl, rfl⟩ := h
  simp only [AppConfig.resolved, htask, List.mem_singleton]

end Steps

/-- Responses of an upstream are decoded from its bodies. Nothing is asked of the other steps of the
environment. -/
def ProxyAction.Decoded : ProxyAction ι → Prop
  | .task _ (.answer (.ok resp)) => ∃ v, JsonRpcResponse.deserialize v = some resp
  | _ => True

variable {serde : SerdeJson Text} {blake3 : Blake3 Text} {app : AppConfig ι} [DecidableEq ι]

variable (serde blake3 app) in
/-- The text under the key is a response without an error that an upstream answered, in the run, to
a request with that key. The request is as it was resolved, and not as the client sent it. -/
def CacheSource (start : ProxyState ι Text) (as : List (ProxyAction ι)) (key : String)
    (text : Text) : Prop :=
  ∃ i orig req chain resp, key = app.key serde blake3 chain req ∧ text = resp.toText serde ∧
    resp.error = none ∧
    Once (proxyStep serde blake3 app) (ResolvedBy app i chain orig req) start as ∧
    Once (proxyStep serde blake3 app)
      (UpstreamAnswered app (app.chains chain).chainId req resp) start as

theorem CacheSource.append {start : ProxyState ι Text} {as : List (ProxyAction ι)} {key : String}
    {text : Text} (h : CacheSource serde blake3 app start as key text)
    (bs : List (ProxyAction ι)) : CacheSource serde blake3 app start (as ++ bs) key text := by
  obtain ⟨i, orig, req, chain, resp, hkey, htext, herror, hresolved, hanswered⟩ := h
  exact ⟨i, orig, req, chain, resp, hkey, htext, herror, hresolved.append bs, hanswered.append bs⟩

variable (serde blake3 app) in
/-- What the steps of a run say about its tasks and about Redis: what a task works on it has
resolved, what it is about to store was answered to it, and what is stored has a source. -/
structure CacheHistory (start : ProxyState ι Text) (as : List (ProxyAction ι))
    (s : ProxyState ι Text) : Prop where
  resolved : ∀ i task req, s.tasks i = some task → task.phase.request = some req →
    Once (proxyStep serde blake3 app) (ResolvedBy app i task.chain task.req req) start as
  answered : ∀ i task req wrap cmds resp, s.tasks i = some task → Forwards req wrap →
    task.phase = wrap (.storing cmds (.ok resp)) →
    Once (proxyStep serde blake3 app)
      (UpstreamAnswered app (app.chains task.chain).chainId req resp) start as
  stored : ∀ chain req text, s.redis.get (app.key serde blake3 chain req) = some text →
    CacheSource serde blake3 app start as (app.key serde blake3 chain req) text

/-! ### One move of a task -/

section Moves

variable {s : ProxyState ι Text} {i : ℕ} {task : Task ι Text} {a : TaskStep} {m : Move Text}

omit [DecidableEq ι] in
/-- A task works on the request it has resolved. -/
theorem TaskMoved.request (h : TaskMoved serde blake3 app s i task a m)
    (htask : s.tasks i = some task) {req : JsonRpcRequest} (hreq : m.phase.request = some req) :
    task.phase.request = some req ∨ ResolvedBy app i task.chain task.req req s (.task i a) := by
  cases h with
  | blocked | intercept | enter | hit | returned | finish | cancel | cancelCall =>
    exact absurd hreq (Option.some_ne_none _).symm
  | pass hphase hresolve | lookUp hphase hresolve =>
    cases hreq
    exact .inr ⟨task, rfl, htask, rfl, rfl, hresolve⟩
  | miss hphase | coalesce hphase | handOver hphase => exact .inl (hphase ▸ hreq)
  | forward hwrap hphase | answer hwrap hphase | store hwrap hphase =>
    exact .inl (by rw [hphase, hwrap.request, ← hwrap.request, ← hreq]; rfl)

omit [DecidableEq ι] in
/-- What a task stores for is what it was storing for, or what it is now answered. The answer comes
first and the storing after. -/
theorem TaskMoved.storing (h : TaskMoved serde blake3 app s i task a m) {req : JsonRpcRequest}
    {wrap : Forwarding Text → TaskPhase Text} {cmds : List (Command Text)} {x : Answer}
    (hwrap : Forwards req wrap) (hphase : m.phase = wrap (.storing cmds x)) :
    (∃ cmds', task.phase = wrap (.storing cmds' x)) ∨
      a = .answer x ∧ task.phase = wrap .awaiting := by
  cases h with
  | blocked | intercept | enter | pass | lookUp | hit | miss | returned | finish | cancel
  | cancelCall =>
    cases hwrap with
    | coalescing => cases hphase
    | forwarding => cases hphase
  | coalesce hold | handOver hold =>
    cases hwrap with
    | coalescing =>
      cases hphase
      exact .inl ⟨cmds, hold⟩
    | forwarding => cases hphase
  | forward hwrap' hold =>
    obtain ⟨-, -, hstage⟩ := hwrap'.inj hwrap hphase
    cases hstage
  | answer hwrap' hold =>
    obtain ⟨rfl, rfl, hstage⟩ := hwrap'.inj hwrap hphase
    cases hstage
    exact .inr ⟨rfl, hold⟩
  | store hwrap' hold =>
    obtain ⟨rfl, rfl, hstage⟩ := hwrap'.inj hwrap hphase
    cases hstage
    exact .inl ⟨_, hold⟩

omit [DecidableEq ι] in
/-- A task writes what it has to store for its answer, one command at a time, and nothing else in
the proxy writes under the key of a request. -/
theorem TaskMoved.redis (h : TaskMoved serde blake3 app s i task a m)
    (hok : TaskOk serde blake3 app task (s.coalescer.calls i) (s.answers i)) :
    m.redis = s.redis ∨ ∃ req wrap cmds c x, Forwards req wrap ∧
      task.phase = wrap (.storing cmds x) ∧
      c ∈ storeAnswer serde blake3 app.cache (app.chains task.chain) req x ∧
      m.redis = s.redis.exec c := by
  cases h with
  | @store req wrap c cmds x ok hwrap hphase hcall =>
    obtain ⟨-, ⟨-, hcmds⟩, -⟩ := forwardingOk_of_taskOk hwrap hphase hcall hok
    cases ok with
    | false => exact .inl rfl
    | true => exact .inr ⟨req, wrap, _, c, x, hwrap, hphase, hcmds c List.mem_cons_self, rfl⟩
  | _ => exact .inl rfl

end Moves

/-! ### Every step keeps the history -/

section History

variable {start s t : ProxyState ι Text} {as : List (ProxyAction ι)} {a : ProxyAction ι}

theorem resolved_step (h : CacheHistory serde blake3 app start as s)
    (hrun : run (proxyStep serde blake3 app) start as = some s)
    (ht : proxyStep serde blake3 app s a = some t) {i : ℕ} {task : Task ι Text}
    {req : JsonRpcRequest} (htask : t.tasks i = some task) (hreq : task.phase.request = some req) :
    Once (proxyStep serde blake3 app) (ResolvedBy app i task.chain task.req req) start
      (as ++ [a]) := by
  cases taskOrigin ht htask with
  | kept hkept => exact (h.resolved i task req hkept hreq).append _
  | @moved _ task₀ m hold hm heq =>
    subst heq
    rcases hm.request hold hreq with hsame | hresolved
    · exact (h.resolved i task₀ req hold hsame).append _
    · exact once_concat hrun hresolved
  | requested hfresh heq | item hfresh hbatch hitem heq =>
    subst heq
    exact absurd hreq (Option.some_ne_none _).symm

theorem storing_step (h : CacheHistory serde blake3 app start as s)
    (hrun : run (proxyStep serde blake3 app) start as = some s)
    (ht : proxyStep serde blake3 app s a = some t) {i : ℕ} {task : Task ι Text}
    {req : JsonRpcRequest} {wrap : Forwarding Text → TaskPhase Text} {cmds : List (Command Text)}
    {resp : JsonRpcResponse} (htask : t.tasks i = some task) (hwrap : Forwards req wrap)
    (hphase : task.phase = wrap (.storing cmds (.ok resp))) :
    Once (proxyStep serde blake3 app)
      (UpstreamAnswered app (app.chains task.chain).chainId req resp) start (as ++ [a]) := by
  cases taskOrigin ht htask with
  | kept hkept => exact (h.answered i task req wrap cmds resp hkept hwrap hphase).append _
  | @moved _ task₀ m hold hm heq =>
    subst heq
    rcases hm.storing hwrap hphase with ⟨cmds', hphase₀⟩ | ⟨rfl, hphase₀⟩
    · exact (h.answered i task₀ req wrap cmds' resp hold hwrap hphase₀).append _
    · exact once_concat hrun ⟨i, task₀, wrap, rfl, hold, hwrap, hphase₀, rfl⟩
  | requested hfresh heq | item hfresh hbatch hitem heq =>
    subst heq
    cases hwrap with
    | coalescing => cases hphase
    | forwarding => cases hphase

/-- Every text under the key of a request still has its source. -/
theorem cacheStored_step (h : CacheHistory serde blake3 app start as s)
    (hinv : ProxyInv serde blake3 app s) (ht : proxyStep serde blake3 app s a = some t) {chain : ι}
    {req : JsonRpcRequest} {text : Text}
    (hget : t.redis.get (app.key serde blake3 chain req) = some text) :
    CacheSource serde blake3 app start (as ++ [a]) (app.key serde blake3 chain req) text := by
  cases stepped ht with
  | @move i a task m htask hm =>
    rcases (taskMoved hm).redis (hinv.task i task htask) with
      hsame | ⟨req', wrap, cmds, c, x, hwrap, hphase, hc, hexec⟩
    · exact (h.stored chain req text (hsame ▸ hget)).append _
    · have hget' : (s.redis.exec c).get (app.key serde blake3 chain req) = some text := hexec ▸ hget
      rcases Redis.get_exec hget' with hget' | ⟨px, rfl⟩
      · exact (h.stored chain req text hget').append _
      · obtain ⟨-, resp, rfl, herror, ⟨px', hset⟩ | hadd⟩ := eq_of_mem_storeAnswer hc
        · obtain ⟨hkey, rfl, -⟩ := Command.set.inj hset
          have hrequest : task.phase.request = some req' := hphase ▸ hwrap.request _
          exact ⟨i, task.req, req', task.chain, resp, hkey, rfl, herror,
            (h.resolved i task req' htask hrequest).append _,
            (h.answered i task req' wrap cmds resp htask hwrap hphase).append _⟩
        · cases hadd
  | write hc =>
    have hharmless : HarmlessFor (app.key serde blake3 chain req) _ := harmless_cacheWrite hc
    exact (h.stored chain req text (hharmless.get hget)).append _
  | request | head | batch | skip | item | collect | reply =>
    exact (h.stored chain req text hget).append _

theorem cacheHistory_init (latest : ι → Option ℕ) :
    CacheHistory serde blake3 app (ProxyState.init (fun _ => none) latest) []
      (.init (fun _ => none) latest) where
  resolved := fun _ _ _ htask => absurd htask (Option.some_ne_none _).symm
  answered := fun _ _ _ _ _ _ htask => absurd htask (Option.some_ne_none _).symm
  stored := fun _ _ _ hget => absurd hget (Option.some_ne_none _).symm

theorem proxyInv_run {redis : Redis Text} {latest : ι → Option ℕ}
    (hrun : run (proxyStep serde blake3 app) (.init redis latest) as = some s) :
    ProxyInv serde blake3 app s :=
  run_inv (fun _ _ _ hs ht => proxyInv_step hs ht) (proxyInv_init redis latest) hrun

theorem cacheHistory_run {latest : ι → Option ℕ}
    (hrun : run (proxyStep serde blake3 app) (.init (fun _ => none) latest) as = some s) :
    CacheHistory serde blake3 app (.init (fun _ => none) latest) as s := by
  refine run_history (cacheHistory_init latest) (fun as u a v hu h hv => ?_) hrun
  exact ⟨fun _ _ _ htask hreq => resolved_step h hu hv htask hreq,
    fun _ _ _ _ _ _ htask hwrap hphase => storing_step h hu hv htask hwrap hphase,
    fun _ _ _ hget => cacheStored_step h (proxyInv_run hu) hv hget⟩

end History

/-! ### Hits -/

theorem decoded_of_answered {start : ProxyState ι Text} {as : List (ProxyAction ι)} {chainId : ℕ}
    {req : JsonRpcRequest} {resp : JsonRpcResponse} (hdecoded : ∀ a ∈ as, a.Decoded)
    (h : Once (proxyStep serde blake3 app) (UpstreamAnswered app chainId req resp) start as) :
    resp.canonical = resp := by
  obtain ⟨pre, a, post, u, rfl, -, i, task, wrap, rfl, -⟩ := h
  obtain ⟨v, hv⟩ := hdecoded _ (List.mem_append_right pre List.mem_cons_self)
  exact JsonRpcResponse.canonical_of_deserialize hv

/-- **A cache hit is sound.** In a run from an empty Redis in which digests are apart, a request
that is answered from the cache gets the result of a response without an error, that an upstream of
a chain with its chain id gave earlier to a request with its method and its resolved parameters. -/
theorem cacheHit_sound {latest : ι → Option ℕ} {as : List (ProxyAction ι)} {s t : ProxyState ι Text}
    {i : ℕ} {a : TaskStep} {task : Task ι Text} {resp : JsonRpcResponse}
    (hdecoded : ∀ b ∈ as, b.Decoded)
    (hdigests : blake3.Separates serde {req | req ∈
      gather (proxyStep serde blake3 app) app.resolved (.init (fun _ => none) latest) as})
    (hrun : run (proxyStep serde blake3 app) (.init (fun _ => none) latest) as = some s)
    (htask : s.tasks i = some task) (ht : proxyStep serde blake3 app s (.task i a) = some t)
    (hhit : t.tasks i = some { task with phase := .done .cacheHit resp }) :
    ∃ req req' answered,
      Once (proxyStep serde blake3 app) (ResolvedBy app i task.chain task.req req)
        (.init (fun _ => none) latest) as ∧
      req'.method = req.method ∧ req'.params = req.params ∧
      Once (proxyStep serde blake3 app)
        (UpstreamAnswered app (app.chains task.chain).chainId req' answered)
        (.init (fun _ => none) latest) as ∧
      answered.error = none ∧ resp.error = none ∧ resp.result = answered.result := by
  have hhistory := cacheHistory_run hrun
  cases stepped ht with
  | @move _ _ task₀ m htask₀ hm =>
    obtain rfl := Option.some.inj (htask.symm.trans htask₀)
    rw [s.tasks_apply_self, Option.some.injEq] at hhit
    have hphase : m.phase = .done .cacheHit resp := congrArg Task.phase hhit
    cases (taskMove_spec ((proxyInv_run hrun).task i task htask) hm).finishes _ _ hphase with
    | @cacheHit req text stored hlooking hget hread =>
      have hresolved := hhistory.resolved i task req htask (by rw [hlooking]; rfl)
      obtain ⟨j, orig, req', chain, answered, hkey, rfl, herror, hresolved', hanswered⟩ :=
        hhistory.stored task.chain req text hget
      have hmem := mem_gather_of_once (hresolved.mono fun u b h => h.mem_resolved)
      have hmem' := mem_gather_of_once (hresolved'.mono fun u b h => h.mem_resolved)
      obtain ⟨hchain, hmethod, hparams⟩ := hdigests.eq_of_cacheKey hmem hmem' hkey
      rw [JsonRpcResponse.ofText_toText, decoded_of_answered hdecoded hanswered,
        Option.some.injEq] at hread
      subst hread
      exact ⟨req, req', answered, hresolved, hmethod.symm, hparams.symm, hchain ▸ hanswered, herror,
        herror, rfl⟩

/-- A balance is asked for and answered, and then another client asks for it. -/
def repeatedBalance : List (ProxyAction Unit) :=
  [.request 0 () (balanceRequest (.ofU64 1)), .task 0 .enter, .task 0 .resolve, .task 0 (.get true),
    .task 0 (.coalesce .lookup), .task 0 (.coalesce .insert), .task 0 .forward,
    .task 0 (.answer (.ok (.success (.ofU64 1) (.string "0x10")))),
    .task 0 (.store true), .task 0 (.store true), .task 0 .finish, .task 0 (.coalesce .broadcast),
    .task 0 (.coalesce .remove),
    .request 1 () (balanceRequest (.ofU64 2)), .task 1 .enter, .task 1 .resolve]

theorem repeatedBalance_hit :
    ∃ s t : ProxyState Unit Value, run (proxyStep .tree balanceDigest oneChain)
        (.init (fun _ => none) fun _ => none) repeatedBalance = some s ∧
      proxyStep .tree balanceDigest oneChain s (.task 1 (.get true)) = some t ∧
      t.tasks 1 = some ⟨(), balanceRequest (.ofU64 2), none,
        .done .cacheHit (.success (.ofU64 2) (.string "0x10"))⟩ ∧
      ∃ req answered,
        Once (proxyStep .tree balanceDigest oneChain) (UpstreamAnswered oneChain 1 req answered)
          (.init (fun _ => none) fun _ => none) repeatedBalance ∧
        answered.error = none ∧ some (.string "0x10") = answered.result := by
  obtain ⟨s, t, hrun, ht, htask, hhit⟩ :
      ∃ s t, run (proxyStep .tree balanceDigest oneChain) (.init (fun _ => none) fun _ => none)
          repeatedBalance = some s ∧
        proxyStep .tree balanceDigest oneChain s (.task 1 (.get true)) = some t ∧
        s.tasks 1 = some ⟨(), balanceRequest (.ofU64 2), none,
          .lookingUp (balanceRequest (.ofU64 2))⟩ ∧
        t.tasks 1 = some ⟨(), balanceRequest (.ofU64 2), none,
          .done .cacheHit (.success (.ofU64 2) (.string "0x10"))⟩ :=
    ⟨_, _, rfl, rfl, rfl, rfl⟩
  have hdecoded : ∀ b ∈ repeatedBalance, b.Decoded := by
    have hanswer : ∃ v, JsonRpcResponse.deserialize v =
        some (.success (.ofU64 1) (.string "0x10")) :=
      ⟨(JsonRpcResponse.success (.ofU64 1) (.string "0x10")).serialize,
        JsonRpcResponse.deserialize_serialize _⟩
    simpa [repeatedBalance, ProxyAction.Decoded] using hanswer
  have hresolved : gather (proxyStep .tree balanceDigest oneChain) oneChain.resolved
      (.init (fun _ => none) fun _ => none) repeatedBalance =
        [balanceRequest (.ofU64 1), balanceRequest (.ofU64 2)] := rfl
  have hdigests : balanceDigest.Separates .tree
      {req | req ∈ [balanceRequest (.ofU64 1), balanceRequest (.ofU64 2)]} := by
    -- both have the same text
    rintro _ ⟨a, ha, rfl⟩ _ ⟨b, hb, rfl⟩ -
    simp only [Set.mem_ofPred_eq, List.mem_cons, List.not_mem_nil, or_false] at ha hb
    rcases ha with rfl | rfl <;> rcases hb with rfl | rfl <;> rfl
  obtain ⟨-, req, answered, -, -, -, hanswered, herror, -, hresult⟩ :=
    cacheHit_sound hdecoded (hresolved ▸ hdigests) hrun htask ht hhit
  exact ⟨s, t, hrun, ht, hhit, req, answered, hanswered, herror, hresult⟩

end Poolbeg
