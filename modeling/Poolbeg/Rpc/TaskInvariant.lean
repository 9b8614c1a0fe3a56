import Poolbeg.Rpc.TaskMoves

/-!
# What holds of every task

Task by task, the phase of a task, the phase of its call in the coalescer and the answer to its
upstream call belong together; and a message in a broadcast channel is the text of what the
channel's opener returns. Both hold in every reachable state, whatever the environment does.

## The two invariants

`TaskOk` is about one task, its call and its answer, and mentions no other part of the state. A task
that has not reached the coalescer has no call; one that is coalescing has a call under the key of
its resolved request; and the answer of the upstream is known exactly from the moment it came. The
move of one task leaves the calls and the answers of all others alone, so it is enough to look at
the task that moves.

Tasks meet in two places, the cache and the broadcast channels. What is in the cache depends on the
environment as well, and is left to the modules that need it. What is in a channel was put there by
one leader from its own answer, and this is the second invariant: a waiter that receives a message
has the text of a response of somebody else, under the same key.

## Main definitions

* `TaskOk`, `CallOk`, `ForwardingOk` — one task, its call, and its forwarding
* `ProxyInv` — all tasks, the reference count, and the messages
* `Finishes` — the ways a task comes to an end

## Main results

* `taskMove_spec` — what one move of a task does to the task
* `proxyInv_step` — every step of the proxy keeps the invariant
* `ProxyInv.received` — what a waiter receives
-/

namespace Poolbeg

open Lts

variable {ι Text : Type} {serde : SerdeJson Text} {blake3 : Blake3 Text} {app : AppConfig ι}

/-! ### One task -/

/-- The answer is known exactly from `storing` on, and what is left to store is part of what is
stored for it. -/
def ForwardingOk (stored : Answer → List (Command Text)) (answer : Option Answer) :
    Forwarding Text → Prop
  | .calling => answer = none
  | .awaiting => answer = none
  | .storing cmds a => answer = some a ∧ ∀ c ∈ cmds, c ∈ stored a

/-- A call has an answer of its own exactly when it got as far as asking for one, and then that is
what it hands on. -/
def CallOk (id : Value) (stored : Answer → List (Command Text)) (answer : Option Answer)
    (stage : Forwarding Text) : CallPhase JsonRpcResponse → Prop
  | .start => stage = .calling ∧ answer = none
  | .waiting _ _ => stage = .calling ∧ answer = none
  | .leading => stage = .calling ∧ answer = none
  | .executing _ => ForwardingOk stored answer stage
  | .executed _ resp => ∃ a, answer = some a ∧ resp = respond id a
  | .sent _ resp => ∃ a, answer = some a ∧ resp = respond id a
  | .returned _ => False
  | .cancelled => False

variable (serde blake3 app) in
/-- What the task stores, by the answer it gets for the resolved request. -/
def Task.stored (task : Task ι Text) (req : JsonRpcRequest) : Answer → List (Command Text) :=
  storeAnswer serde blake3 app.cache (app.chains task.chain) req

variable (serde blake3 app) in
/-- The phase of a task, its call in the coalescer and the answer to its upstream call agree. It is
read off the three of them and nothing else. -/
def TaskOk (task : Task ι Text) (call : Option (Call String JsonRpcResponse))
    (answer : Option Answer) : Prop :=
  match task.phase with
  | .entry => call = none ∧ answer = none
  | .resolving => call = none ∧ answer = none
  | .lookingUp req => req.method = task.req.method ∧ call = none ∧ answer = none
  | .coalescing req stage => req.method = task.req.method ∧
      ∃ phase, call = some ⟨app.key serde blake3 task.chain req, phase⟩ ∧
        CallOk task.req.id (task.stored serde blake3 app req) answer stage phase
  | .forwarding req stage => req.method = task.req.method ∧
      ForwardingOk (task.stored serde blake3 app req) answer stage
  | .done .upstream resp => ∃ a, answer = some a ∧ resp = respond task.req.id a
  | .done _ _ => answer = none
  | .cancelled => True

/-- What `recv` found for the call `i`: a message of the channel that the call waits on, past what
it has already seen. -/
def ReceivedBy (k : CoalescerState String Text JsonRpcResponse) (i : ℕ) (c : Channel String Text)
    (msg : Text) : Prop :=
  ∃ key ch pos, k.calls i = some ⟨key, .waiting ch pos⟩ ∧ k.coalescer.channels[ch]? = some c ∧
    c.recv pos = .message msg

/-- A step of a call either returns, with what it has sent or received, or keeps it in order. A
waiter whose channel is closed or overtaken becomes a leader, and has no answer yet. -/
theorem callOk_coalesce {k k' : CoalescerState String Text JsonRpcResponse} {i : ℕ} {key : String}
    {phase : CallPhase JsonRpcResponse} {id : Value} {stored : Answer → List (Command Text)}
    {answer : Option Answer} {stage : Forwarding Text} {op : CoalesceOp}
    (hcall : k.calls i = some ⟨key, phase⟩) (hok : CallOk id stored answer stage phase)
    (h : requestCoalescerStep serde k (op.action i) = some k') :
    (∃ phase', k'.calls i = some ⟨key, phase'⟩ ∧ CallOk id stored answer stage phase') ∨
      ∃ resp, k'.calls i = some ⟨key, .returned resp⟩ ∧
        ((op = .remove ∧ ∃ a, answer = some a ∧ resp = respond id a) ∨
          (op = .recv ∧ answer = none ∧ ∃ c msg, ReceivedBy k i c msg ∧
            JsonRpcResponse.ofText serde msg = some resp)) := by
  have hsame : ∀ {key' : String} {phase' : CallPhase JsonRpcResponse},
      k.calls i = some ⟨key', phase'⟩ → key' = key ∧ phase' = phase := by
    intro key' phase' hcall'
    cases hcall.symm.trans hcall'
    exact ⟨rfl, rfl⟩
  cases op with
  | lookup =>
    cases callMove h with
    | lead hcall' hentry =>
      obtain ⟨rfl, rfl⟩ := hsame hcall'
      exact .inl ⟨_, k.calls_advance_self i _ _, hok⟩
    | subscribe hcall' hentry hc =>
      obtain ⟨rfl, rfl⟩ := hsame hcall'
      exact .inl ⟨_, k.calls_advance_self i _ _, hok⟩
  | insert =>
    cases callMove h with
    | insert hcall' =>
      obtain ⟨rfl, rfl⟩ := hsame hcall'
      obtain ⟨rfl, hanswer⟩ := hok
      exact .inl ⟨_, k.calls_advance_self i _ _, hanswer⟩
  | broadcast =>
    cases callMove h with
    | withhold hcall' hm => cases hm
    | broadcast hcall' hm =>
      obtain ⟨rfl, rfl⟩ := hsame hcall'
      exact .inl ⟨_, k.calls_advance_self i _ _, hok⟩
  | remove =>
    cases callMove h with
    | remove hcall' =>
      obtain ⟨rfl, rfl⟩ := hsame hcall'
      exact .inr ⟨_, k.calls_advance_self i _ _, .inl ⟨rfl, hok⟩⟩
  | recv =>
    cases callMove h with
    | receive hcall' hc hrecv hresp =>
      obtain ⟨rfl, rfl⟩ := hsame hcall'
      exact .inr ⟨_, k.calls_advance_self i _ _,
        .inr ⟨rfl, hok.2, _, _, ⟨_, _, _, hcall', hc, hrecv⟩, hresp⟩⟩
    | retry hcall' hc hpending hunread =>
      obtain ⟨rfl, rfl⟩ := hsame hcall'
      exact .inl ⟨_, k.calls_advance_self i _ _, hok⟩

variable (serde blake3 app) in
/-- The ways the task `i` comes to an end, by the step that ends it. Each carries what decided the
response, so that a result about responses is one case analysis over it. -/
inductive Finishes (s : ProxyState ι Text) (i : ℕ) (task : Task ι Text) :
    TaskStep → Exit → JsonRpcResponse → Prop
  | blocked (h : isMethodBlocked task.req.method app.blockedMethods = true) :
      Finishes s i task .enter .blocked (.ofError task.req.id methodNotFound "Method not allowed")
  | memoryIntercept {resp : JsonRpcResponse}
      (h : tryMemoryIntercept (app.chains task.chain).chainId (s.latest task.chain)
        task.req.method task.req.id = some resp) :
      Finishes s i task .enter .memoryIntercept resp
  | cacheHit {req : JsonRpcRequest} {text : Text} {resp : JsonRpcResponse}
      (hphase : task.phase = .lookingUp req)
      (hget : s.redis.get (app.key serde blake3 task.chain req) = some text)
      (hresp : JsonRpcResponse.ofText serde text = some resp) :
      Finishes s i task (.get true) .cacheHit (resp.withId task.req.id)
  | coalesced {c : Channel String Text} {msg : Text} {resp : JsonRpcResponse}
      (hrecv : ReceivedBy s.coalescer i c msg)
      (hresp : JsonRpcResponse.ofText serde msg = some resp) :
      Finishes s i task (.coalesce .recv) .coalesced resp
  | upstream {a : TaskStep} {answer : Answer} (h : s.answers i = some answer) :
      Finishes s i task a .upstream (respond task.req.id answer)

variable (serde blake3 app) in
/-- What a move of the task `i` does to the task: it stays in order, an answer that is there stays,
the cache changes by one command of what the task stores, and an end is one of those that are
listed. -/
structure MoveSpec (s : ProxyState ι Text) (i : ℕ) (task : Task ι Text) (a : TaskStep)
    (m : Move Text) : Prop where
  ok : TaskOk serde blake3 app { task with phase := m.phase } (m.coalescer.calls i) m.answer
  answer : ∀ x, s.answers i = some x → m.answer = some x
  redis : m.redis = s.redis ∨ ∃ req answer c, req.method = task.req.method ∧
    c ∈ task.stored serde blake3 app req answer ∧ m.redis = s.redis.exec c
  finishes : ∀ exit resp, m.phase = .done exit resp → Finishes serde blake3 app s i task a exit resp

section Moves

variable {s : ProxyState ι Text} {i : ℕ} {task : Task ι Text} {a : TaskStep} {m : Move Text}
  {req : JsonRpcRequest} {stage : Forwarding Text}

/-- The response is due when nothing is left to store. -/
theorem returned_eq_some {id : Value} {stored : Answer → List (Command Text)}
    {answer : Option Answer} {resp : JsonRpcResponse} (hok : ForwardingOk stored answer stage)
    (h : stage.returned id = some resp) :
    ∃ x, answer = some x ∧ resp = respond id x := by
  rw [Forwarding.returned.eq_def] at h
  split at h
  · exact ⟨_, hok.1, (Option.some.inj h).symm⟩
  · exact absurd h nofun

theorem executing_eq_true (h : s.executing i = true) :
    ∃ key ch, s.coalescer.calls i = some ⟨key, .executing ch⟩ := by
  rw [ProxyState.executing] at h
  split at h
  · exact ⟨_, _, ‹_›⟩
  · exact absurd h (by simp)

theorem returnedBy_of_callOk {k : CoalescerState String Text JsonRpcResponse} {key : String}
    {phase : CallPhase JsonRpcResponse} {id : Value} {stored : Answer → List (Command Text)}
    {answer : Option Answer} (hcall : k.calls i = some ⟨key, phase⟩)
    (hok : CallOk id stored answer stage phase) :
    returnedBy k i = none := by
  rw [returnedBy, hcall]
  cases phase <;> first | rfl | exact absurd hok not_false

/-- A task that forwards its request is in order; a coalesced one while its call executes.
Forwarding is the same whether or not a call in the coalescer stands around it. -/
theorem forwardingOk_of_taskOk {wrap : Forwarding Text → TaskPhase Text}
    (hwrap : Forwards req wrap) (hphase : task.phase = wrap stage)
    (hcall : wrap = .forwarding req ∨ s.executing i = true)
    (hok : TaskOk serde blake3 app task (s.coalescer.calls i) (s.answers i)) :
    req.method = task.req.method ∧
      ForwardingOk (task.stored serde blake3 app req) (s.answers i) stage ∧
      ∀ stage' answer, ForwardingOk (task.stored serde blake3 app req) answer stage' →
        TaskOk serde blake3 app { task with phase := wrap stage' } (s.coalescer.calls i)
          answer := by
  rw [TaskOk, hphase] at hok
  cases hwrap with
  | forwarding =>
    obtain ⟨hmethod, hforwarding⟩ := hok
    exact ⟨hmethod, hforwarding, fun stage' answer h => ⟨hmethod, h⟩⟩
  | coalescing =>
    obtain ⟨hmethod, phase, hphaseCall, hcallOk⟩ := hok
    have hne : (TaskPhase.coalescing req : Forwarding Text → TaskPhase Text) ≠ .forwarding req :=
      fun h => by cases congrFun h .calling
    obtain ⟨key, ch, hexecuting⟩ := executing_eq_true (hcall.resolve_left hne)
    cases hphaseCall.symm.trans hexecuting
    exact ⟨hmethod, hcallOk, fun stage' answer h => ⟨hmethod, _, hphaseCall, h⟩⟩

/-- **One move of a task** does what `MoveSpec` says. The cases are the branches of the source, and
everything later is proved from the specification. -/
theorem taskMove_spec (hok : TaskOk serde blake3 app task (s.coalescer.calls i) (s.answers i))
    (h : taskMove serde blake3 app s i task a = some m) :
    MoveSpec serde blake3 app s i task a m := by
  cases taskMoved h with
  | blocked hphase hblocked =>
    rw [TaskOk, hphase] at hok
    refine ⟨hok.2, fun _ hx => hx, .inl rfl, ?_⟩
    rintro _ _ ⟨⟩
    exact .blocked hblocked
  | intercept hphase hunblocked hresp =>
    rw [TaskOk, hphase] at hok
    refine ⟨hok.2, fun _ hx => hx, .inl rfl, ?_⟩
    rintro _ _ ⟨⟩
    exact .memoryIntercept hresp
  | enter hphase hunblocked =>
    rw [TaskOk, hphase] at hok
    exact ⟨hok, fun _ hx => hx, .inl rfl, by rintro _ _ ⟨⟩⟩
  | pass hphase hreq huncacheable =>
    rw [TaskOk, hphase] at hok
    subst hreq
    exact ⟨⟨resolveForHead_method _ _ _, hok.2⟩, fun _ hx => hx, .inl rfl, by rintro _ _ ⟨⟩⟩
  | lookUp hphase hreq hcacheable =>
    rw [TaskOk, hphase] at hok
    subst hreq
    exact ⟨⟨resolveForHead_method _ _ _, hok⟩, fun _ hx => hx, .inl rfl, by rintro _ _ ⟨⟩⟩
  | hit hphase hget hresp =>
    rw [TaskOk, hphase] at hok
    refine ⟨hok.2.2, fun _ hx => hx, .inl rfl, ?_⟩
    rintro _ _ ⟨⟩
    exact .cacheHit hphase hget hresp
  | miss hphase hk =>
    rw [TaskOk, hphase] at hok
    obtain ⟨hmethod, -, hanswer⟩ := hok
    cases callMove hk with
    | call hnone =>
      exact ⟨⟨hmethod, .start, s.coalescer.calls_advance_self i _ _, rfl, hanswer⟩,
        fun _ hx => hx, .inl rfl, by rintro _ _ ⟨⟩⟩
  | coalesce hphase hk hnone =>
    rw [TaskOk, hphase] at hok
    obtain ⟨hmethod, phase, hcall, hcallOk⟩ := hok
    rcases callOk_coalesce hcall hcallOk hk with ⟨phase', hcall', hok'⟩ | ⟨resp, hcall', -⟩
    · exact ⟨⟨hmethod, phase', hcall', hok'⟩, fun _ hx => hx, .inl rfl, by rintro _ _ ⟨⟩⟩
    · rw [returnedBy, hcall'] at hnone
      cases hnone
  | returned hphase hk hresp =>
    rw [TaskOk, hphase] at hok
    obtain ⟨hmethod, phase, hcall, hcallOk⟩ := hok
    rcases callOk_coalesce hcall hcallOk hk with ⟨phase', hcall', hok'⟩ | ⟨resp, hcall', hreturned⟩
    · cases (returnedBy_of_callOk hcall' hok').symm.trans hresp
    · rw [returnedBy, hcall'] at hresp
      cases hresp
      rcases hreturned with ⟨rfl, x, hx, rfl⟩ | ⟨rfl, hanswer, c, msg, hrecv, hread⟩
      · refine ⟨⟨x, hx, rfl⟩, fun _ hx => hx, .inl rfl, ?_⟩
        rintro _ _ ⟨⟩
        exact .upstream hx
      · refine ⟨hanswer, fun _ hx => hx, .inl rfl, ?_⟩
        rintro _ _ ⟨⟩
        exact .coalesced hrecv hread
  | handOver hphase hresp hk =>
    rw [TaskOk, hphase] at hok
    obtain ⟨hmethod, phase, hcall, hcallOk⟩ := hok
    cases callMove hk with
    | upstream hcall' =>
      cases hcall.symm.trans hcall'
      exact ⟨⟨hmethod, _, s.coalescer.calls_advance_self i _ _, returned_eq_some hcallOk hresp⟩,
        fun _ hx => hx, .inl rfl, by rintro _ _ ⟨⟩⟩
  | finish hphase hresp =>
    rw [TaskOk, hphase] at hok
    obtain ⟨x, hx, rfl⟩ := returned_eq_some hok.2 hresp
    refine ⟨⟨x, hx, rfl⟩, fun _ hx => hx, .inl rfl, ?_⟩
    rintro _ _ ⟨⟩
    exact .upstream hx
  | forward hwrap hphase hcall =>
    obtain ⟨-, hforwarding, hkeep⟩ := forwardingOk_of_taskOk hwrap hphase hcall hok
    exact ⟨hkeep _ _ hforwarding, fun _ hx => hx, .inl rfl, fun _ _ h => absurd h hwrap.ne_done⟩
  | answer hwrap hphase hcall =>
    obtain ⟨-, hforwarding, hkeep⟩ := forwardingOk_of_taskOk hwrap hphase hcall hok
    refine ⟨hkeep _ _ ⟨rfl, fun _ hc => hc⟩, fun x hx => ?_, .inl rfl,
      fun _ _ h => absurd h hwrap.ne_done⟩
    exact absurd (hforwarding.symm.trans hx) (Option.some_ne_none x).symm
  | @store req wrap c cmds x ok hwrap hphase hcall =>
    obtain ⟨hmethod, ⟨hanswer, hcmds⟩, hkeep⟩ := forwardingOk_of_taskOk hwrap hphase hcall hok
    refine ⟨hkeep _ _ ⟨hanswer, fun c' hc' => hcmds c' (List.mem_cons_of_mem c hc')⟩,
      fun _ hx => hx, ?_, fun _ _ h => absurd h hwrap.ne_done⟩
    cases ok with
    | true => exact .inr ⟨req, x, c, hmethod, hcmds c List.mem_cons_self, rfl⟩
    | false => exact .inl rfl
  | cancel => exact ⟨trivial, fun _ hx => hx, .inl rfl, by rintro _ _ ⟨⟩⟩
  | cancelCall => exact ⟨trivial, fun _ hx => hx, .inl rfl, by rintro _ _ ⟨⟩⟩

/-- A move steps the coalescer at most once, as the call of its own number. -/
theorem taskMove_coalescer (h : taskMove serde blake3 app s i task a = some m) :
    m.coalescer = s.coalescer ∨
      ∃ act, requestCoalescerStep serde s.coalescer act = some m.coalescer ∧ act.index = i ∧
        ((∃ key, act = .call i key) ∨ ∃ req stage, task.phase = .coalescing req stage) := by
  cases taskMoved h with
  | blocked | intercept | enter | pass | lookUp | hit | finish | forward | answer | store =>
    exact .inl rfl
  | miss hphase hk => exact .inr ⟨_, hk, rfl, .inl ⟨_, rfl⟩⟩
  | @coalesce op req stage k hphase hk | @returned op req stage k resp hphase hk =>
    exact .inr ⟨_, hk, by cases op <;> rfl, .inr ⟨req, stage, hphase⟩⟩
  | @handOver req stage resp k hphase hresp hk =>
    exact .inr ⟨_, hk, rfl, .inr ⟨req, stage, hphase⟩⟩
  | cancelCall hphase hk => exact .inr ⟨_, hk, rfl, .inr ⟨_, _, hphase⟩⟩
  | cancel => exact .inl rfl

/-- The move of a task leaves the calls of the others alone. -/
theorem calls_apply_of_ne {j : ℕ} (h : taskMove serde blake3 app s i task a = some m)
    (hji : j ≠ i) :
    (s.apply i task m).coalescer.calls j = s.coalescer.calls j := by
  change m.coalescer.calls j = s.coalescer.calls j
  rcases taskMove_coalescer h with hsame | ⟨act, hact, hindex, -⟩
  · rw [hsame]
  · exact calls_of_ne hact (hindex ▸ hji)

end Moves

/-! ### All tasks -/

variable (serde blake3 app) in
/-- What holds in every reachable state. `message` is why a waiter's response is that of a task of
the same key. -/
structure ProxyInv (s : ProxyState ι Text) : Prop where
  accounted : s.coalescer.coalescer.Accounted s.coalescer.holding
  fresh : ∀ i, s.tasks i = none → s.coalescer.calls i = none ∧ s.answers i = none
  task : ∀ i task, s.tasks i = some task →
    TaskOk serde blake3 app task (s.coalescer.calls i) (s.answers i)
  message : ∀ (ch : ℕ) (c : Channel String Text) (msg : Text),
    s.coalescer.coalescer.channels[ch]? = some c → msg ∈ c.sent →
    ∃ task answer, s.tasks c.owner = some task ∧ s.answers c.owner = some answer ∧
      msg = (respond task.req.id answer).toText serde

theorem proxyInv_init (redis : Redis Text) (latest : ι → Option ℕ) :
    ProxyInv serde blake3 app (ProxyState.init redis latest) where
  accounted := .new
  fresh := fun _ _ => ⟨rfl, rfl⟩
  task := fun _ _ h => absurd h (Option.some_ne_none _).symm
  message := fun ch c msg hc => absurd hc (by simp [ProxyState.init, CoalescerState.init,
    Coalescer.new])

section Steps

variable {s t : ProxyState ι Text} {i : ℕ} {task : Task ι Text} {m : Move Text}

/-- Tasks stay what they are, but for their phase, and answers stay. -/
theorem apply_kept (htask : s.tasks i = some task) (hanswer : ∀ x, s.answers i = some x →
    m.answer = some x) {j : ℕ} {task' : Task ι Text} {x : Answer} (hj : s.tasks j = some task')
    (hx : s.answers j = some x) :
    ∃ phase, (s.apply i task m).tasks j = some { task' with phase := phase } ∧
      (s.apply i task m).answers j = some x := by
  by_cases hji : j = i
  · subst hji
    obtain rfl := Option.some.inj (htask.symm.trans hj)
    exact ⟨m.phase, s.tasks_apply_self j task m,
      (s.answers_apply_self j task m).trans (hanswer x hx)⟩
  · exact ⟨task'.phase, (s.tasks_apply_of_ne task m hji).trans hj,
      (s.answers_apply_of_ne task m hji).trans hx⟩

theorem message_apply (hs : ProxyInv serde blake3 app s) {a : TaskStep}
    (htask : s.tasks i = some task)
    (h : taskMove serde blake3 app s i task a = some m) {ch : ℕ} {c : Channel String Text}
    {msg : Text} (hc : m.coalescer.coalescer.channels[ch]? = some c) (hmsg : msg ∈ c.sent) :
    ∃ task' answer, (s.apply i task m).tasks c.owner = some task' ∧
      (s.apply i task m).answers c.owner = some answer ∧
      msg = (respond task'.req.id answer).toText serde := by
  have hspec := taskMove_spec (hs.task i task htask) h
  have hkept : ∀ {c' : Channel String Text},
      s.coalescer.coalescer.channels[ch]? = some c' → c'.owner = c.owner → msg ∈ c'.sent →
      ∃ task' answer, (s.apply i task m).tasks c.owner = some task' ∧
        (s.apply i task m).answers c.owner = some answer ∧
        msg = (respond task'.req.id answer).toText serde := by
    intro c' hc' howner hmsg'
    obtain ⟨task', x, htask', hx, rfl⟩ := hs.message ch c' msg hc' hmsg'
    obtain ⟨phase, hphase, hx'⟩ := apply_kept htask hspec.answer htask' hx
    exact ⟨{ task' with phase := phase }, x, howner ▸ hphase, howner ▸ hx', rfl⟩
  rcases taskMove_coalescer h with hsame | ⟨act, hact, hindex, hphase⟩
  · rw [hsame] at hc
    exact hkept hc rfl hmsg
  · rcases message_step hs.accounted hact hc hmsg with
      ⟨c', hc', howner, hmsg'⟩ | ⟨rfl, key, resp, hcall, hserialize⟩
    · exact hkept hc' howner hmsg'
    · -- the task itself is the opener, and it broadcasts what it is about to return
      have howner : c.owner = i := hindex
      rcases hphase with ⟨key', hcallAction⟩ | ⟨req, stage, hphase⟩
      · exact absurd hcallAction nofun
      · have hok := hs.task i task htask
        rw [TaskOk, hphase] at hok
        obtain ⟨-, phase, hcall', hcallOk⟩ := hok
        rw [howner] at hcall
        cases hcall.symm.trans hcall'
        obtain ⟨x, hx, rfl⟩ := hcallOk
        refine ⟨{ task with phase := m.phase }, x, ?_, ?_, (Option.some.inj hserialize).symm⟩
        · rw [howner]
          exact s.tasks_apply_self i task m
        · rw [howner, s.answers_apply_self]
          exact hspec.answer x hx

theorem proxyInv_apply (hs : ProxyInv serde blake3 app s) {a : TaskStep}
    (htask : s.tasks i = some task) (h : taskMove serde blake3 app s i task a = some m) :
    ProxyInv serde blake3 app (s.apply i task m) := by
  have hspec := taskMove_spec (hs.task i task htask) h
  refine ⟨?_, ?_, ?_, fun ch c msg hc hmsg => message_apply hs htask h hc hmsg⟩
  · rcases taskMove_coalescer h with hsame | ⟨act, hact, -, -⟩
    · change m.coalescer.coalescer.Accounted m.coalescer.holding
      rw [hsame]
      exact hs.accounted
    · exact accounted_step hs.accounted hact
  · intro j hj
    have hji : j ≠ i := by
      rintro rfl
      rw [s.tasks_apply_self] at hj
      exact absurd hj (Option.some_ne_none _)
    rw [s.tasks_apply_of_ne task m hji] at hj
    obtain ⟨hcall, hanswer⟩ := hs.fresh j hj
    exact ⟨(calls_apply_of_ne h hji).trans hcall,
      (s.answers_apply_of_ne task m hji).trans hanswer⟩
  · intro j task' hj
    rcases ProxyState.tasks_apply_eq_some hj with ⟨rfl, rfl⟩ | ⟨hji, hj⟩
    · rw [s.answers_apply_self]
      exact hspec.ok
    · rw [s.answers_apply_of_ne task m hji, calls_apply_of_ne h hji]
      exact hs.task j task' hj

theorem proxyInv_withTask (hs : ProxyInv serde blake3 app s) (hfresh : s.tasks i = none)
    (chain : ι) (req : JsonRpcRequest) (origin : Option (ℕ × ℕ)) :
    ProxyInv serde blake3 app (s.withTask i chain req origin) := by
  refine ⟨hs.accounted, ?_, ?_, ?_⟩
  · intro j hj
    by_cases hji : j = i
    · subst hji
      exact hs.fresh j hfresh
    · rw [s.tasks_withTask_of_ne chain req origin hji] at hj
      exact hs.fresh j hj
  · intro j task' hj
    rcases ProxyState.tasks_withTask_eq_some hj with ⟨rfl, rfl⟩ | ⟨-, hj⟩
    · exact hs.fresh j hfresh
    · exact hs.task j task' hj
  · intro ch c msg hc hmsg
    obtain ⟨task', x, htask', hx, rfl⟩ := hs.message ch c msg hc hmsg
    have hne : c.owner ≠ i := by
      intro howner
      rw [howner, hfresh] at htask'
      exact absurd htask' nofun
    exact ⟨task', x, (s.tasks_withTask_of_ne chain req origin hne).trans htask', hx, rfl⟩

/-- The batches are no part of it. -/
theorem proxyInv_setBatch (hs : ProxyInv serde blake3 app s) (b : ℕ) (batch : Batch ι) :
    ProxyInv serde blake3 app (s.setBatch b batch) :=
  ⟨hs.accounted, hs.fresh, hs.task, hs.message⟩

theorem proxyInv_step [DecidableEq ι] {a : ProxyAction ι} (hs : ProxyInv serde blake3 app s)
    (h : proxyStep serde blake3 app s a = some t) : ProxyInv serde blake3 app t := by
  cases stepped h with
  | request hfresh => exact proxyInv_withTask hs hfresh _ _ _
  | move htask hm => exact proxyInv_apply hs htask hm
  | head => exact ⟨hs.accounted, hs.fresh, hs.task, hs.message⟩
  | write hc => exact ⟨hs.accounted, hs.fresh, hs.task, hs.message⟩
  | item hbatch hcurrent hdedup hreq hfresh =>
    exact proxyInv_setBatch (proxyInv_withTask hs hfresh _ _ _) _ _
  | batch hfresh => exact proxyInv_setBatch hs _ _
  | skip hbatch hcurrent hdedup => exact proxyInv_setBatch hs _ _
  | collect hbatch hcurrent htask hdone => exact proxyInv_setBatch hs _ _
  | reply hbatch hcurrent hlength hreplied hresponses => exact proxyInv_setBatch hs _ _

/-! ### What a waiter receives -/

/-- A waiter receives the text of what the channel's opener returns. What it then holds is that
response after one round trip through its text. -/
theorem ProxyInv.received (hs : ProxyInv serde blake3 app s) {c : Channel String Text} {msg : Text}
    (h : ReceivedBy s.coalescer i c msg) :
    ∃ leader answer, s.tasks c.owner = some leader ∧ s.answers c.owner = some answer ∧
      JsonRpcResponse.ofText serde msg = some (respond leader.req.id answer).canonical := by
  obtain ⟨key, ch, pos, -, hc, hrecv⟩ := h
  obtain ⟨leader, answer, hleader, hanswer, rfl⟩ :=
    hs.message ch c msg hc (Channel.mem_sent_of_recv hrecv)
  exact ⟨leader, answer, hleader, hanswer, JsonRpcResponse.ofText_toText serde _⟩

/-- A waiter that receives a readable response returns it. -/
theorem done_of_received {c : Channel String Text} {msg : Text} {resp : JsonRpcResponse}
    (hrecv : ReceivedBy s.coalescer i c msg)
    (hresp : JsonRpcResponse.ofText serde msg = some resp)
    (h : taskMove serde blake3 app s i task (.coalesce .recv) = some m) :
    m.phase = .done .coalesced resp := by
  obtain ⟨key, ch, pos, hcall, hc, hmsg⟩ := hrecv
  rw [taskMove] at h
  split at h
  · cases h
  · cases h
  · cases h
  · obtain ⟨k, hk, rfl⟩ := Option.map_eq_some_iff.mp h
    simp only [requestCoalescerStep, CoalesceOp.action, coalescerStep, hcall, hc, Option.bind_some,
      hmsg, hresp, Option.some.injEq] at hk
    subst hk
    have hreturned : returnedBy (s.coalescer.advance i key (.returned resp)) i = some resp := by
      rw [returnedBy, CoalescerState.calls_advance_self]
    simp only [hreturned]
    rfl
  · simp only [forwardingMove.eq_def, forwardMove.eq_def] at h
    cases h
  · cases h
  · cases h

end Steps

end Poolbeg
