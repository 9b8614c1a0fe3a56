import Poolbeg.Rpc.Handler
import Poolbeg.Rpc.InFlight

/-!
# Concurrent client requests

The system around `process_single_request`. A *task* is one call of it; tasks run concurrently and
interleave at every access to something they share: the head of a chain, Redis, the coalescer and
the upstream. A batch runs its items one after the other, each as a task, except those that the
first pass has marked as duplicates.

A task that coalesces is the call of the same number in the coalescer, whose steps are those of
`requestCoalescerStep`; while that call is executing, the task is in `forward_to_upstream`.

## What one step is

Between two points at which a task may be suspended or meets something shared, the code computes by
itself, and that is one step here. So the check of the blocked methods and the memory intercept are
one step, which reads the head once; the block tags are resolved in another, which reads it again
and may find it moved. Each command to Redis is a step, and may fail.

## What is recorded beside the program

Two things are recorded that the program does not keep: on which exit a task returned, and what its
own upstream call answered. No step depends on them. They are what statements about where a response
comes from are about.

## The environment

The environment may at any time move the head of a chain, issue the commands of the block tracker,
and delete any key of Redis by an invalidation, an expiry or an eviction. A `GET` or a write may
fail. A client may disconnect, which drops its task wherever it stands; this is the step `cancel`,
and a panic in `forward_request` ends a task in the same way.

## Main definitions

* `Exit`, `Forwarding`, `TaskPhase`, `Task` — one call of `process_single_request`
* `Batch` — one call of `process_batch`
* `ProxyState` — all that is shared, and who is at work
* `TaskStep`, `taskMove` — a task by itself, its phases in the order of the code
* `ProxyAction`, `proxyStep` — the system
* `Stepped` — the steps by what enables them

## Main results

* `stepped` — a step of the system is one of `Stepped`, which is what proofs split on
-/

namespace Poolbeg

variable {ι Text : Type}

/-! ### Tasks and batches -/

/-- The exits of `process_single_request`. They are told apart by the way a request takes, not by
what it is answered: a coalesced request may be answered like one that went upstream. -/
inductive Exit
  | blocked
  | memoryIntercept
  | cacheHit
  | coalesced
  | upstream
  deriving DecidableEq

/-- The stages of `forward_to_upstream`: the call is about to be made, it has been made, and its
answer is being stored, a command at a time. -/
inductive Forwarding (Text : Type)
  | calling
  | awaiting
  | storing (cmds : List (Command Text)) (answer : Answer)

/-- Where a task stands. From the lookup on it works on the resolved request. -/
inductive TaskPhase (Text : Type)
  | entry
  | resolving
  | lookingUp (req : JsonRpcRequest)
  | coalescing (req : JsonRpcRequest) (stage : Forwarding Text)
  | forwarding (req : JsonRpcRequest) (stage : Forwarding Text)
  | done (exit : Exit) (resp : JsonRpcResponse)
  | cancelled

/-- A call of `process_single_request`; `origin` is the batch and the position it comes from. The
request stays as the client has sent it, and the resolved one is part of the phase. -/
structure Task (ι Text : Type) where
  chain : ι
  req : JsonRpcRequest
  origin : Option (ℕ × ℕ)
  phase : TaskPhase Text

/-- A call of `process_batch`. `items` are the positions the second pass is done with, with the task
and the response of each, or `none` for a duplicate; `current` is the task of the item that is at
work. -/
structure Batch (ι : Type) where
  chain : ι
  reqs : List JsonRpcRequest
  items : List (Option (ℕ × JsonRpcResponse))
  current : Option ℕ
  replied : Option (List JsonRpcResponse)

/-- The responses of the second pass. -/
def Batch.responses (batch : Batch ι) : List (Option JsonRpcResponse) :=
  batch.items.map fun item => item.map Prod.snd

/-- The proxy: what its tasks share, the tasks and the batches. `latest` is the head of each chain
as far as it is known, and `answers` is what the upstream calls of the tasks have answered. -/
structure ProxyState (ι Text : Type) where
  redis : Redis Text
  latest : ι → Option ℕ
  coalescer : CoalescerState String Text JsonRpcResponse
  tasks : ℕ → Option (Task ι Text)
  answers : ℕ → Option Answer
  batches : ℕ → Option (Batch ι)

/-- The first request is still to come. Redis and the heads may hold anything by then. -/
def ProxyState.init (redis : Redis Text) (latest : ι → Option ℕ) : ProxyState ι Text where
  redis := redis
  latest := latest
  coalescer := .init
  tasks := fun _ => none
  answers := fun _ => none
  batches := fun _ => none

/-! ### The steps of a task -/

/-- A step of `coalesce_or_execute` other than the upstream call. -/
inductive CoalesceOp
  | lookup
  | insert
  | broadcast
  | remove
  | recv
  deriving DecidableEq

/-- The operation as a step of the coalescer, for the call that has the number of the task. -/
def CoalesceOp.action (op : CoalesceOp) (i : ℕ) : CallAction String JsonRpcResponse :=
  match op with
  | .lookup => .lookup i
  | .insert => .insert i
  | .broadcast => .broadcast i
  | .remove => .remove i
  | .recv => .recv i

/-- What a task does next. Which branch is taken is decided by the task's phase and by what it
finds; what comes from outside is part of the step, namely whether Redis obeys and what the upstream
answers. -/
inductive TaskStep
  | enter
  | resolve
  | get (ok : Bool)
  | coalesce (op : CoalesceOp)
  | forward
  | answer (a : Answer)
  | store (ok : Bool)
  | finish
  | cancel

/-- What a step of a task changes: Redis, the coalescer, the answer to its upstream call and its
phase. -/
structure Move (Text : Type) where
  redis : Redis Text
  coalescer : CoalescerState String Text JsonRpcResponse
  answer : Option Answer
  phase : TaskPhase Text

/-- The call of the task is executing. -/
def ProxyState.executing (s : ProxyState ι Text) (i : ℕ) : Bool :=
  match s.coalescer.calls i with
  | some ⟨_, .executing _⟩ => true
  | _ => false

/-- The response a call of the coalescer has returned. -/
def returnedBy (k : CoalescerState String Text JsonRpcResponse) (i : ℕ) : Option JsonRpcResponse :=
  match k.calls i with
  | some ⟨_, .returned resp⟩ => some resp
  | _ => none

/-- Only the phase changes. -/
def ProxyState.goTo (s : ProxyState ι Text) (i : ℕ) (phase : TaskPhase Text) : Move Text where
  redis := s.redis
  coalescer := s.coalescer
  answer := s.answers i
  phase := phase

variable (serde : SerdeJson Text) (blake3 : Blake3 Text) (app : AppConfig ι)

/-- The cache key of a resolved request. The lookup, the coalescer and the write all use this one.
-/
def AppConfig.key (chain : ι) (req : JsonRpcRequest) : String :=
  cacheKey serde blake3 (app.chains chain).chainId req

/-- Blocked methods and memory intercepts. Both are answered before anything is shared, so this is
one step. -/
def entryMove (s : ProxyState ι Text) (i : ℕ) (task : Task ι Text) :
    TaskStep → Option (Move Text)
  | .enter =>
    if isMethodBlocked task.req.method app.blockedMethods then
      some (s.goTo i (.done .blocked (.ofError task.req.id methodNotFound "Method not allowed")))
    else
      match tryMemoryIntercept (app.chains task.chain).chainId (s.latest task.chain)
          task.req.method task.req.id with
      | some resp => some (s.goTo i (.done .memoryIntercept resp))
      | none => some (s.goTo i .resolving)
  | .cancel => some (s.goTo i .cancelled)
  | _ => none

/-- Block tags are resolved against the head, as it is now. An uncacheable request goes straight to
the upstream. -/
def resolvingMove (s : ProxyState ι Text) (i : ℕ) (task : Task ι Text) :
    TaskStep → Option (Move Text)
  | .resolve =>
    let req := resolveForHead (s.latest task.chain) (app.chains task.chain).finalityDepth task.req
    if isUncacheable task.req.method then some (s.goTo i (.forwarding req .calling))
    else some (s.goTo i (.lookingUp req))
  | _ => none

/-- The cache is asked; a miss, a failure and a corrupted entry all go on to the coalescer. -/
def lookingUpMove (s : ProxyState ι Text) (i : ℕ) (task : Task ι Text) (req : JsonRpcRequest) :
    TaskStep → Option (Move Text)
  | .get ok =>
    let key := app.key serde blake3 task.chain req
    let cached := if ok then s.redis.get key else none
    match cached.bind (JsonRpcResponse.ofText serde) with
    | some resp => some (s.goTo i (.done .cacheHit (resp.withId task.req.id)))
    | none =>
      (requestCoalescerStep serde s.coalescer (.call i key)).map fun k =>
        { s.goTo i (.coalescing req .calling) with coalescer := k }
  | .cancel => some (s.goTo i .cancelled)
  | _ => none

/-- The stages of `forward_to_upstream` up to its return. It runs in two places, within the
coalescer's call and without it; `wrap` is the phase around it. -/
def forwardMove (s : ProxyState ι Text) (i : ℕ) (task : Task ι Text) (req : JsonRpcRequest)
    (wrap : Forwarding Text → TaskPhase Text) : Forwarding Text → TaskStep → Option (Move Text)
  | .calling, .forward => some (s.goTo i (wrap .awaiting))
  | .awaiting, .answer a =>
    let cmds := storeAnswer serde blake3 app.cache (app.chains task.chain) req a
    some { s.goTo i (wrap (.storing cmds a)) with answer := some a }
  | .storing (c :: cmds) a, .store ok =>
    some { s.goTo i (wrap (.storing cmds a)) with redis := if ok then s.redis.exec c else s.redis }
  | _, _ => none

/-- The return of `forward_to_upstream`, if it is due: the answer has come and everything that is to
be stored has been. -/
def Forwarding.returned (id : Value) : Forwarding Text → Option JsonRpcResponse
  | .storing [] a => some (respond id a)
  | _ => none

/-- `coalesced_forward`, with `forward_to_upstream` running while the call executes. The task is
done as soon as its call has returned, by its own result after the removal of the entry, or by what
was broadcast. -/
def coalescingMove (s : ProxyState ι Text) (i : ℕ) (task : Task ι Text) (req : JsonRpcRequest)
    (stage : Forwarding Text) : TaskStep → Option (Move Text)
  | .coalesce op =>
    (requestCoalescerStep serde s.coalescer (op.action i)).map fun k =>
      let phase := match returnedBy k i with
        | some resp => .done (if op = .remove then .upstream else .coalesced) resp
        | none => .coalescing req stage
      { s.goTo i phase with coalescer := k }
  | .finish =>
    (stage.returned task.req.id).bind fun resp =>
      (requestCoalescerStep serde s.coalescer (.upstream i resp)).map fun k =>
        { s.goTo i (.coalescing req stage) with coalescer := k }
  | .cancel =>
    (requestCoalescerStep serde s.coalescer (.cancel i)).map fun k =>
      { s.goTo i .cancelled with coalescer := k }
  | a =>
    if s.executing i then forwardMove serde blake3 app s i task req (.coalescing req) stage a
    else none

/-- `forward_to_upstream` without coalescing, for a request that is not to be shared. -/
def forwardingMove (s : ProxyState ι Text) (i : ℕ) (task : Task ι Text) (req : JsonRpcRequest)
    (stage : Forwarding Text) : TaskStep → Option (Move Text)
  | .finish => (stage.returned task.req.id).map fun resp => s.goTo i (.done .upstream resp)
  | .cancel => some (s.goTo i .cancelled)
  | a => forwardMove serde blake3 app s i task req (.forwarding req) stage a

/-- The next step of the task `i`, by its phase. A task that is done or dropped has none. -/
def taskMove (s : ProxyState ι Text) (i : ℕ) (task : Task ι Text) (a : TaskStep) :
    Option (Move Text) :=
  match task.phase with
  | .entry => entryMove app s i task a
  | .resolving => resolvingMove app s i task a
  | .lookingUp req => lookingUpMove serde blake3 app s i task req a
  | .coalescing req stage => coalescingMove serde blake3 app s i task req stage a
  | .forwarding req stage => forwardingMove serde blake3 app s i task req stage a
  | .done _ _ => none
  | .cancelled => none

/-- The task `i` moves. Besides what the move says, nothing changes. -/
def ProxyState.apply (s : ProxyState ι Text) (i : ℕ) (task : Task ι Text) (m : Move Text) :
    ProxyState ι Text where
  redis := m.redis
  latest := s.latest
  coalescer := m.coalescer
  tasks := Function.update s.tasks i (some { task with phase := m.phase })
  answers := Function.update s.answers i m.answer
  batches := s.batches

/-! ### The steps of the proxy -/

/-- What the block tracker and invalidations do to Redis, and what Redis does by itself. -/
inductive CacheWrite (ι : Type)
  | cacheBlock (chain : ι) (number : ℕ) (hash : String) (block : Value)
  | cacheLogs (chain : ι) (blockNumber : ℕ) (logs : Value)
  | delete (key : String)

/-- The commands of a write, in the order in which they are issued. A failure of one of them stops
none of the others, so each may come at any time. -/
def CacheWrite.commands : CacheWrite ι → List (Command Text)
  | .cacheBlock chain number hash block =>
    CacheLayer.cacheBlock serde (app.chains chain).chainId number hash block
  | .cacheLogs chain blockNumber logs =>
    CacheLayer.cacheLogs serde (app.chains chain).chainId blockNumber logs
  | .delete key => [.del key]

/-- A step of the system, with who takes it: a client, a task, a chain, the cache or a batch. -/
inductive ProxyAction (ι : Type)
  | request (i : ℕ) (chain : ι) (req : JsonRpcRequest)
  | task (i : ℕ) (a : TaskStep)
  | head (chain : ι) (latest : Option ℕ)
  | write (w : CacheWrite ι) (n : ℕ)
  | batch (b : ℕ) (chain : ι) (reqs : List JsonRpcRequest)
  | skip (b : ℕ)
  | item (b i : ℕ)
  | collect (b : ℕ)
  | reply (b : ℕ)

/-- The `dedup_map` of a batch. It is a function of the requests alone, so it is computed where it
is used and not kept. -/
def Batch.dedup (batch : Batch ι) : List (Option ℕ) :=
  firstPass serde blake3 (app.chains batch.chain).chainId app.blockedMethods batch.reqs

/-- The batch `b` is in this state now. -/
def ProxyState.setBatch (s : ProxyState ι Text) (b : ℕ) (batch : Batch ι) : ProxyState ι Text :=
  { s with batches := Function.update s.batches b (some batch) }

/-- A task starts. Its number has not been used. -/
def ProxyState.startTask (s : ProxyState ι Text) (i : ℕ) (chain : ι) (req : JsonRpcRequest)
    (origin : Option (ℕ × ℕ)) : Option (ProxyState ι Text) :=
  match s.tasks i with
  | some _ => none
  | none =>
    some { s with tasks := Function.update s.tasks i (some ⟨chain, req, origin, .entry⟩) }

/-- The second pass comes to a duplicate. -/
def skipStep (s : ProxyState ι Text) (b : ℕ) (batch : Batch ι) : Option (ProxyState ι Text) :=
  match batch.current, (batch.dedup serde blake3 app)[batch.items.length]? with
  | none, some (some _) => some (s.setBatch b { batch with items := batch.items ++ [none] })
  | _, _ => none

/-- The second pass comes to an item of its own, which becomes the task `i`. Nothing else of the
batch happens until this task is done. -/
def itemStep (s : ProxyState ι Text) (b : ℕ) (batch : Batch ι) (i : ℕ) :
    Option (ProxyState ι Text) :=
  match batch.current, (batch.dedup serde blake3 app)[batch.items.length]?,
      batch.reqs[batch.items.length]? with
  | none, some none, some req =>
    (s.startTask i batch.chain req (some (b, batch.items.length))).map fun t =>
      t.setBatch b { batch with current := some i }
  | _, _, _ => none

/-- The item has been answered, and its response is logged. If the log panics, the batch goes with
it: there is no step that goes on with the next item. -/
def collectStep (s : ProxyState ι Text) (b : ℕ) (batch : Batch ι) : Option (ProxyState ι Text) :=
  batch.current.bind fun i =>
    match s.tasks i with
    | some ⟨_, _, _, .done _ resp⟩ =>
      if app.debugClient.survives resp then
        let items := batch.items ++ [some (i, resp)]
        some (s.setBatch b { batch with items := items, current := none })
      else none
    | _ => none

/-- The third pass, once there is a response or a mark for every position. -/
def replyStep (s : ProxyState ι Text) (b : ℕ) (batch : Batch ι) : Option (ProxyState ι Text) :=
  if batch.current = none ∧ batch.items.length = batch.reqs.length ∧ batch.replied = none then
    (thirdPass (batch.dedup serde blake3 app) batch.reqs batch.responses).map fun responses =>
      s.setBatch b { batch with replied := some responses }
  else none

variable [DecidableEq ι]

/-- One atomic step. A batch that is larger than the limit is refused before it gets here. -/
def proxyStep (s : ProxyState ι Text) : ProxyAction ι → Option (ProxyState ι Text)
  | .request i chain req => s.startTask i chain req none
  | .task i a =>
    (s.tasks i).bind fun task => (taskMove serde blake3 app s i task a).map (s.apply i task)
  | .head chain latest => some { s with latest := Function.update s.latest chain latest }
  | .write w n => ((w.commands serde app)[n]?).map fun c => { s with redis := s.redis.exec c }
  | .batch b chain reqs =>
    match s.batches b with
    | some _ => none
    | none =>
      if reqs.length ≤ app.maxBatchSize then some (s.setBatch b ⟨chain, reqs, [], none, none⟩)
      else none
  | .skip b => (s.batches b).bind (skipStep serde blake3 app s b)
  | .item b i => (s.batches b).bind fun batch => itemStep serde blake3 app s b batch i
  | .collect b => (s.batches b).bind (collectStep app s b)
  | .reply b => (s.batches b).bind (replyStep serde blake3 app s b)

/-! ### What a step is -/

/-- The state in which the task `i` has started. -/
def ProxyState.withTask (s : ProxyState ι Text) (i : ℕ) (chain : ι) (req : JsonRpcRequest)
    (origin : Option (ℕ × ℕ)) : ProxyState ι Text :=
  { s with tasks := Function.update s.tasks i (some ⟨chain, req, origin, .entry⟩) }

/-- The steps of the proxy with what enables them and what they lead to. -/
inductive Stepped (s : ProxyState ι Text) : ProxyAction ι → ProxyState ι Text → Prop
  | request {i : ℕ} {chain : ι} {req : JsonRpcRequest} (hfresh : s.tasks i = none) :
      Stepped s (.request i chain req) (s.withTask i chain req none)
  | move {i : ℕ} {a : TaskStep} {task : Task ι Text} {m : Move Text}
      (htask : s.tasks i = some task) (hm : taskMove serde blake3 app s i task a = some m) :
      Stepped s (.task i a) (s.apply i task m)
  | head {chain : ι} {latest : Option ℕ} :
      Stepped s (.head chain latest) { s with latest := Function.update s.latest chain latest }
  | write {w : CacheWrite ι} {n : ℕ} {c : Command Text} (hc : (w.commands serde app)[n]? = some c) :
      Stepped s (.write w n) { s with redis := s.redis.exec c }
  | batch {b : ℕ} {chain : ι} {reqs : List JsonRpcRequest} (hfresh : s.batches b = none) :
      Stepped s (.batch b chain reqs) (s.setBatch b ⟨chain, reqs, [], none, none⟩)
  | skip {b first : ℕ} {batch : Batch ι} (hbatch : s.batches b = some batch)
      (hcurrent : batch.current = none)
      (hdedup : (batch.dedup serde blake3 app)[batch.items.length]? = some (some first)) :
      Stepped s (.skip b) (s.setBatch b { batch with items := batch.items ++ [none] })
  | item {b i : ℕ} {batch : Batch ι} {req : JsonRpcRequest} (hbatch : s.batches b = some batch)
      (hcurrent : batch.current = none)
      (hdedup : (batch.dedup serde blake3 app)[batch.items.length]? = some none)
      (hreq : batch.reqs[batch.items.length]? = some req) (hfresh : s.tasks i = none) :
      Stepped s (.item b i)
        ((s.withTask i batch.chain req (some (b, batch.items.length))).setBatch b
          { batch with current := some i })
  | collect {b i : ℕ} {batch : Batch ι} {task : Task ι Text} {exit : Exit} {resp : JsonRpcResponse}
      (hbatch : s.batches b = some batch) (hcurrent : batch.current = some i)
      (htask : s.tasks i = some task) (hdone : task.phase = .done exit resp)
      (hlog : app.debugClient.survives resp = true) :
      Stepped s (.collect b)
        (s.setBatch b { batch with items := batch.items ++ [some (i, resp)], current := none })
  | reply {b : ℕ} {batch : Batch ι} {responses : List JsonRpcResponse}
      (hbatch : s.batches b = some batch) (hcurrent : batch.current = none)
      (hlength : batch.items.length = batch.reqs.length) (hreplied : batch.replied = none)
      (hresponses : thirdPass (batch.dedup serde blake3 app) batch.reqs batch.responses =
        some responses) :
      Stepped s (.reply b) (s.setBatch b { batch with replied := some responses })

variable {serde blake3 app} {s t : ProxyState ι Text} {a : ProxyAction ι}

omit [DecidableEq ι] in
theorem startTask_eq_some {i : ℕ} {chain : ι} {req : JsonRpcRequest} {origin : Option (ℕ × ℕ)}
    (h : s.startTask i chain req origin = some t) :
    s.tasks i = none ∧ t = s.withTask i chain req origin := by
  rw [ProxyState.startTask] at h
  split at h
  · exact absurd h nofun
  · exact ⟨‹_›, (Option.some.inj h).symm⟩

/-- A step of the system is one of `Stepped`: what it asked of the state, and what it has made of
it. -/
theorem stepped (h : proxyStep serde blake3 app s a = some t) : Stepped serde blake3 app s a t := by
  cases a with
  | request i chain req =>
    obtain ⟨hfresh, rfl⟩ := startTask_eq_some h
    exact .request hfresh
  | task i a =>
    obtain ⟨task, htask, h⟩ := Option.bind_eq_some_iff.mp h
    obtain ⟨m, hm, rfl⟩ := Option.map_eq_some_iff.mp h
    exact .move htask hm
  | head chain latest =>
    cases h
    exact .head
  | write w n =>
    obtain ⟨c, hc, rfl⟩ := Option.map_eq_some_iff.mp h
    exact .write hc
  | batch b chain reqs =>
    simp only [proxyStep] at h
    split at h
    · exact absurd h nofun
    · split_ifs at h
      cases h
      exact .batch ‹_›
  | skip b =>
    obtain ⟨batch, hbatch, h⟩ := Option.bind_eq_some_iff.mp h
    rw [skipStep] at h
    split at h
    · cases h
      exact .skip hbatch ‹_› ‹_›
    · exact absurd h nofun
  | item b i =>
    obtain ⟨batch, hbatch, h⟩ := Option.bind_eq_some_iff.mp h
    rw [itemStep] at h
    split at h
    · obtain ⟨u, hu, rfl⟩ := Option.map_eq_some_iff.mp h
      obtain ⟨hfresh, rfl⟩ := startTask_eq_some hu
      exact .item hbatch ‹_› ‹_› ‹_› hfresh
    · exact absurd h nofun
  | collect b =>
    obtain ⟨batch, hbatch, h⟩ := Option.bind_eq_some_iff.mp h
    obtain ⟨i, hcurrent, h⟩ := Option.bind_eq_some_iff.mp h
    split at h
    · rename_i htask
      obtain ⟨hlog, h⟩ := Option.ite_none_right_eq_some.mp h
      cases h
      exact .collect hbatch hcurrent htask rfl hlog
    · exact absurd h nofun
  | reply b =>
    obtain ⟨batch, hbatch, h⟩ := Option.bind_eq_some_iff.mp h
    rw [replyStep] at h
    split_ifs at h with hready
    obtain ⟨responses, hresponses, rfl⟩ := Option.map_eq_some_iff.mp h
    exact .reply hbatch hready.1 hready.2.1 hready.2.2 hresponses

end Poolbeg
