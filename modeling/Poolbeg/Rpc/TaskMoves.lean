import Poolbeg.Rpc.Tasks

/-!
# The moves of a task

`taskMove` branch by branch: what a step of a task asks of the state and what it leaves of it. A
proof about the steps of a task is a case analysis over `TaskMoved`, and a proof about the steps of
the proxy is one over `TaskOrigin` for the task it is about.

## Two levels

`TaskMoved` looks at the task that moves. It has a constructor for every branch of the code, with
the conditions under which the branch is taken, so that none of them has to be found again by
unfolding. The steps of `forward_to_upstream` occur once, for both places where it runs; `Forwards`
says which of the two it is.

`TaskOrigin` looks at any one task, whoever moves. After a step of the proxy a task is what it was,
or it has moved itself, or it has just started. All invariants of single tasks are preserved for
this reason alone, whatever the other tasks do.

## Main definitions

* `Forwards` — the two ways of running `forward_to_upstream`
* `TaskMoved` — the steps of the task that moves
* `TaskOrigin` — where a task comes from that is there after a step

## Main results

* `taskMoved` — one move of a task
* `taskOrigin` — what a step of the proxy makes of one task
-/

namespace Poolbeg

variable {ι Text : Type}

/-- The request is forwarded while the coalescer's call executes, or without coalescing. These are
the two phases that have a stage of `forward_to_upstream` in them. -/
inductive Forwards (req : JsonRpcRequest) : (Forwarding Text → TaskPhase Text) → Prop
  | coalescing : Forwards req (.coalescing req)
  | forwarding : Forwards req (.forwarding req)

/-- The phase says which request is forwarded, in which of the two ways, and at which stage it is.
-/
theorem Forwards.inj {req req' : JsonRpcRequest} {wrap wrap' : Forwarding Text → TaskPhase Text}
    {stage stage' : Forwarding Text} (h : Forwards req wrap) (h' : Forwards req' wrap')
    (heq : wrap stage = wrap' stage') : req = req' ∧ wrap = wrap' ∧ stage = stage' := by
  cases h <;> cases h' <;> cases heq <;> exact ⟨rfl, rfl, rfl⟩

theorem Forwards.ne_done {req : JsonRpcRequest} {wrap : Forwarding Text → TaskPhase Text}
    {stage : Forwarding Text} {exit : Exit} {resp : JsonRpcResponse} (h : Forwards req wrap) :
    wrap stage ≠ .done exit resp := by
  cases h <;> rintro ⟨⟩

variable (serde : SerdeJson Text) (blake3 : Blake3 Text) (app : AppConfig ι)

/-- What a step of the task `i` does, a constructor for each branch: the conditions under which it
is taken, and the move it leads to. -/
inductive TaskMoved (s : ProxyState ι Text) (i : ℕ) (task : Task ι Text) :
    TaskStep → Move Text → Prop
  | blocked (hphase : task.phase = .entry)
      (hblocked : isMethodBlocked task.req.method app.blockedMethods = true) :
      TaskMoved s i task .enter
        (s.goTo i (.done .blocked (.ofError task.req.id methodNotFound "Method not allowed")))
  | intercept {resp : JsonRpcResponse} (hphase : task.phase = .entry)
      (hunblocked : isMethodBlocked task.req.method app.blockedMethods = false)
      (hresp : tryMemoryIntercept (app.chains task.chain).chainId (s.latest task.chain)
        task.req.method task.req.id = some resp) :
      TaskMoved s i task .enter (s.goTo i (.done .memoryIntercept resp))
  | enter (hphase : task.phase = .entry)
      (hunblocked : isMethodBlocked task.req.method app.blockedMethods = false) :
      TaskMoved s i task .enter (s.goTo i .resolving)
  | pass {req : JsonRpcRequest} (hphase : task.phase = .resolving)
      (hreq : req = resolveForHead (s.latest task.chain) (app.chains task.chain).finalityDepth
        task.req) (huncacheable : isUncacheable task.req.method = true) :
      TaskMoved s i task .resolve (s.goTo i (.forwarding req .calling))
  | lookUp {req : JsonRpcRequest} (hphase : task.phase = .resolving)
      (hreq : req = resolveForHead (s.latest task.chain) (app.chains task.chain).finalityDepth
        task.req) (hcacheable : isUncacheable task.req.method = false) :
      TaskMoved s i task .resolve (s.goTo i (.lookingUp req))
  | hit {req : JsonRpcRequest} {text : Text} {resp : JsonRpcResponse}
      (hphase : task.phase = .lookingUp req)
      (hget : s.redis.get (app.key serde blake3 task.chain req) = some text)
      (hresp : JsonRpcResponse.ofText serde text = some resp) :
      TaskMoved s i task (.get true) (s.goTo i (.done .cacheHit (resp.withId task.req.id)))
  | miss {ok : Bool} {req : JsonRpcRequest} {k : CoalescerState String Text JsonRpcResponse}
      (hphase : task.phase = .lookingUp req)
      (hk : requestCoalescerStep serde s.coalescer
        (.call i (app.key serde blake3 task.chain req)) = some k) :
      TaskMoved s i task (.get ok) { s.goTo i (.coalescing req .calling) with coalescer := k }
  | coalesce {op : CoalesceOp} {req : JsonRpcRequest} {stage : Forwarding Text}
      {k : CoalescerState String Text JsonRpcResponse} (hphase : task.phase = .coalescing req stage)
      (hk : requestCoalescerStep serde s.coalescer (op.action i) = some k)
      (hnone : returnedBy k i = none) :
      TaskMoved s i task (.coalesce op) { s.goTo i (.coalescing req stage) with coalescer := k }
  | returned {op : CoalesceOp} {req : JsonRpcRequest} {stage : Forwarding Text}
      {k : CoalescerState String Text JsonRpcResponse} {resp : JsonRpcResponse}
      (hphase : task.phase = .coalescing req stage)
      (hk : requestCoalescerStep serde s.coalescer (op.action i) = some k)
      (hresp : returnedBy k i = some resp) :
      TaskMoved s i task (.coalesce op)
        { s.goTo i (.done (if op = .remove then .upstream else .coalesced) resp) with
          coalescer := k }
  | handOver {req : JsonRpcRequest} {stage : Forwarding Text} {resp : JsonRpcResponse}
      {k : CoalescerState String Text JsonRpcResponse} (hphase : task.phase = .coalescing req stage)
      (hresp : stage.returned task.req.id = some resp)
      (hk : requestCoalescerStep serde s.coalescer (.upstream i resp) = some k) :
      TaskMoved s i task .finish { s.goTo i (.coalescing req stage) with coalescer := k }
  | finish {req : JsonRpcRequest} {stage : Forwarding Text} {resp : JsonRpcResponse}
      (hphase : task.phase = .forwarding req stage)
      (hresp : stage.returned task.req.id = some resp) :
      TaskMoved s i task .finish (s.goTo i (.done .upstream resp))
  | forward {req : JsonRpcRequest} {wrap : Forwarding Text → TaskPhase Text}
      (hwrap : Forwards req wrap) (hphase : task.phase = wrap .calling)
      (hcall : wrap = .forwarding req ∨ s.executing i = true) :
      TaskMoved s i task .forward (s.goTo i (wrap .awaiting))
  | answer {req : JsonRpcRequest} {wrap : Forwarding Text → TaskPhase Text} {x : Answer}
      (hwrap : Forwards req wrap) (hphase : task.phase = wrap .awaiting)
      (hcall : wrap = .forwarding req ∨ s.executing i = true) :
      TaskMoved s i task (.answer x)
        { s.goTo i (wrap (.storing
            (storeAnswer serde blake3 app.cache (app.chains task.chain) req x) x)) with
          answer := some x }
  | store {req : JsonRpcRequest} {wrap : Forwarding Text → TaskPhase Text} {c : Command Text}
      {cmds : List (Command Text)} {x : Answer} {ok : Bool} (hwrap : Forwards req wrap)
      (hphase : task.phase = wrap (.storing (c :: cmds) x))
      (hcall : wrap = .forwarding req ∨ s.executing i = true) :
      TaskMoved s i task (.store ok)
        { s.goTo i (wrap (.storing cmds x)) with
          redis := if ok then s.redis.exec c else s.redis }
  | cancel : TaskMoved s i task .cancel (s.goTo i .cancelled)
  | cancelCall {req : JsonRpcRequest} {stage : Forwarding Text}
      {k : CoalescerState String Text JsonRpcResponse} (hphase : task.phase = .coalescing req stage)
      (hk : requestCoalescerStep serde s.coalescer (.cancel i) = some k) :
      TaskMoved s i task .cancel { s.goTo i .cancelled with coalescer := k }

variable {serde blake3 app} {s : ProxyState ι Text} {i : ℕ} {task : Task ι Text} {a : TaskStep}
  {m : Move Text}

/-- The stages of `forward_to_upstream`, in either of the two places. -/
theorem forwardMoved {req : JsonRpcRequest} {wrap : Forwarding Text → TaskPhase Text}
    {stage : Forwarding Text} (hwrap : Forwards req wrap) (hphase : task.phase = wrap stage)
    (hcall : wrap = .forwarding req ∨ s.executing i = true)
    (h : forwardMove serde blake3 app s i task req wrap stage a = some m) :
    TaskMoved serde blake3 app s i task a m := by
  rw [forwardMove.eq_def] at h
  split at h
  · cases h
    exact .forward hwrap hphase hcall
  · cases h
    exact .answer hwrap hphase hcall
  · cases h
    exact .store hwrap hphase hcall
  · cases h

/-- The steps of a task that coalesces: the coalescer's own, and those of the upstream call it runs.
-/
theorem coalescingMoved {req : JsonRpcRequest} {stage : Forwarding Text}
    (hphase : task.phase = .coalescing req stage)
    (h : coalescingMove serde blake3 app s i task req stage a = some m) :
    TaskMoved serde blake3 app s i task a m := by
  have hforward : ∀ {a}, (if s.executing i then
      forwardMove serde blake3 app s i task req (.coalescing req) stage a else none) = some m →
      TaskMoved serde blake3 app s i task a m := by
    intro a h
    split_ifs at h with hexecuting
    exact forwardMoved .coalescing hphase (.inr hexecuting) h
  cases a with
  | coalesce op =>
    obtain ⟨k, hk, rfl⟩ := Option.map_eq_some_iff.mp h
    cases hresp : returnedBy k i with
    | none => exact .coalesce hphase hk hresp
    | some resp => exact .returned hphase hk hresp
  | finish =>
    obtain ⟨resp, hresp, h⟩ := Option.bind_eq_some_iff.mp h
    obtain ⟨k, hk, rfl⟩ := Option.map_eq_some_iff.mp h
    exact .handOver hphase hresp hk
  | cancel =>
    obtain ⟨k, hk, rfl⟩ := Option.map_eq_some_iff.mp h
    exact .cancelCall hphase hk
  | enter => exact hforward h
  | resolve => exact hforward h
  | get ok => exact hforward h
  | forward => exact hforward h
  | answer x => exact hforward h
  | store ok => exact hforward h

theorem forwardingMoved {req : JsonRpcRequest} {stage : Forwarding Text}
    (hphase : task.phase = .forwarding req stage)
    (h : forwardingMove serde blake3 app s i task req stage a = some m) :
    TaskMoved serde blake3 app s i task a m := by
  cases a with
  | finish =>
    obtain ⟨resp, hresp, rfl⟩ := Option.map_eq_some_iff.mp h
    exact .finish hphase hresp
  | cancel =>
    cases h
    exact .cancel
  | enter => exact forwardMoved .forwarding hphase (.inl rfl) h
  | resolve => exact forwardMoved .forwarding hphase (.inl rfl) h
  | get ok => exact forwardMoved .forwarding hphase (.inl rfl) h
  | coalesce op => exact forwardMoved .forwarding hphase (.inl rfl) h
  | forward => exact forwardMoved .forwarding hphase (.inl rfl) h
  | answer x => exact forwardMoved .forwarding hphase (.inl rfl) h
  | store ok => exact forwardMoved .forwarding hphase (.inl rfl) h

/-- **What a step of a task does**: every move is one of the branches of `TaskMoved`. -/
theorem taskMoved (h : taskMove serde blake3 app s i task a = some m) :
    TaskMoved serde blake3 app s i task a m := by
  rw [taskMove] at h
  cases hphase : task.phase with
  | entry =>
    rw [hphase] at h
    cases a with
    | enter =>
      simp only [entryMove] at h
      split_ifs at h with hblocked
      · cases h
        exact .blocked hphase hblocked
      · have hunblocked := Bool.eq_false_of_not_eq_true hblocked
        split at h
        · cases h
          exact .intercept hphase hunblocked ‹_›
        · cases h
          exact .enter hphase hunblocked
    | cancel =>
      cases h
      exact .cancel
    | _ => cases h
  | resolving =>
    rw [hphase] at h
    cases a with
    | resolve =>
      simp only [resolvingMove] at h
      split_ifs at h with huncacheable
      · cases h
        exact .pass hphase rfl huncacheable
      · cases h
        exact .lookUp hphase rfl (Bool.eq_false_of_not_eq_true huncacheable)
    | _ => cases h
  | lookingUp req =>
    rw [hphase] at h
    cases a with
    | get ok =>
      simp only [lookingUpMove] at h
      split at h
      · rename_i resp hresp
        cases h
        obtain ⟨text, htext, hread⟩ := Option.bind_eq_some_iff.mp hresp
        cases ok with
        | true => exact .hit hphase htext hread
        | false => cases htext
      · obtain ⟨k, hk, rfl⟩ := Option.map_eq_some_iff.mp h
        exact .miss hphase hk
    | cancel =>
      cases h
      exact .cancel
    | _ => cases h
  | coalescing req stage =>
    rw [hphase] at h
    exact coalescingMoved hphase h
  | forwarding req stage =>
    rw [hphase] at h
    exact forwardingMoved hphase h
  | done exit resp =>
    rw [hphase] at h
    cases h
  | cancelled =>
    rw [hphase] at h
    cases h

/-! ### One task in the steps of the proxy -/

theorem ProxyState.tasks_apply_self (s : ProxyState ι Text) (i : ℕ) (task : Task ι Text)
    (m : Move Text) : (s.apply i task m).tasks i = some { task with phase := m.phase } :=
  Function.update_self _ _ _

theorem ProxyState.tasks_apply_of_ne (s : ProxyState ι Text) (task : Task ι Text) (m : Move Text)
    {i j : ℕ} (h : j ≠ i) : (s.apply i task m).tasks j = s.tasks j :=
  Function.update_of_ne h _ _

theorem ProxyState.answers_apply_self (s : ProxyState ι Text) (i : ℕ) (task : Task ι Text)
    (m : Move Text) : (s.apply i task m).answers i = m.answer :=
  Function.update_self _ _ _

theorem ProxyState.answers_apply_of_ne (s : ProxyState ι Text) (task : Task ι Text)
    (m : Move Text) {i j : ℕ} (h : j ≠ i) : (s.apply i task m).answers j = s.answers j :=
  Function.update_of_ne h _ _

theorem ProxyState.tasks_withTask_self (s : ProxyState ι Text) (i : ℕ) (chain : ι)
    (req : JsonRpcRequest) (origin : Option (ℕ × ℕ)) :
    (s.withTask i chain req origin).tasks i = some ⟨chain, req, origin, .entry⟩ :=
  Function.update_self _ _ _

theorem ProxyState.tasks_withTask_of_ne (s : ProxyState ι Text) {i j : ℕ} (chain : ι)
    (req : JsonRpcRequest) (origin : Option (ℕ × ℕ)) (h : j ≠ i) :
    (s.withTask i chain req origin).tasks j = s.tasks j :=
  Function.update_of_ne h _ _

/-- What an updated map holds is what was put there or what it held before. -/
theorem update_eq_some {β : Type} {f : ℕ → Option β} {i j : ℕ} {x y : β}
    (h : Function.update f i (some x) j = some y) : (j = i ∧ y = x) ∨ (j ≠ i ∧ f j = some y) := by
  by_cases hji : j = i
  · subst hji
    rw [Function.update_self, Option.some.injEq] at h
    exact .inl ⟨rfl, h.symm⟩
  · rw [Function.update_of_ne hji] at h
    exact .inr ⟨hji, h⟩

/-- A task that is there after a move is the one that moved, or was there before. -/
theorem ProxyState.tasks_apply_eq_some {s : ProxyState ι Text} {i j : ℕ} {task task' : Task ι Text}
    {m : Move Text} (h : (s.apply i task m).tasks j = some task') :
    (j = i ∧ task' = { task with phase := m.phase }) ∨ (j ≠ i ∧ s.tasks j = some task') :=
  update_eq_some h

/-- A task that is there after a start is the one that started, or was there before. -/
theorem ProxyState.tasks_withTask_eq_some {s : ProxyState ι Text} {i j : ℕ} {chain : ι}
    {req : JsonRpcRequest} {origin : Option (ℕ × ℕ)} {task' : Task ι Text}
    (h : (s.withTask i chain req origin).tasks j = some task') :
    (j = i ∧ task' = ⟨chain, req, origin, .entry⟩) ∨ (j ≠ i ∧ s.tasks j = some task') :=
  update_eq_some h

/-- Where a task comes from that is there after a step: it was there, or it moved, or it has just
been started by a request or by a batch. -/
inductive TaskOrigin (serde : SerdeJson Text) (blake3 : Blake3 Text) (app : AppConfig ι)
    (s : ProxyState ι Text) (j : ℕ) (task : Task ι Text) : ProxyAction ι → Prop
  | kept {a : ProxyAction ι} (hkept : s.tasks j = some task) :
      TaskOrigin serde blake3 app s j task a
  | moved {a : TaskStep} {task₀ : Task ι Text} {m : Move Text} (hold : s.tasks j = some task₀)
      (hm : TaskMoved serde blake3 app s j task₀ a m)
      (htask : task = { task₀ with phase := m.phase }) :
      TaskOrigin serde blake3 app s j task (.task j a)
  | requested {chain : ι} {req : JsonRpcRequest} (hfresh : s.tasks j = none)
      (htask : task = ⟨chain, req, none, .entry⟩) :
      TaskOrigin serde blake3 app s j task (.request j chain req)
  | item {b : ℕ} {batch : Batch ι} {req : JsonRpcRequest} (hfresh : s.tasks j = none)
      (hbatch : s.batches b = some batch) (hreq : batch.reqs[batch.items.length]? = some req)
      (htask : task = ⟨batch.chain, req, some (b, batch.items.length), .entry⟩) :
      TaskOrigin serde blake3 app s j task (.item b j)

/-- **Every task that is there after a step of the proxy** was there before, has moved, or has just
started. -/
theorem taskOrigin [DecidableEq ι] {t : ProxyState ι Text} {a : ProxyAction ι}
    (h : proxyStep serde blake3 app s a = some t) {j : ℕ} {task : Task ι Text}
    (hj : t.tasks j = some task) : TaskOrigin serde blake3 app s j task a := by
  cases stepped h with
  | request hfresh =>
    rcases ProxyState.tasks_withTask_eq_some hj with ⟨rfl, htask⟩ | ⟨-, hkept⟩
    · exact .requested hfresh htask
    · exact .kept hkept
  | move htask hm =>
    rcases ProxyState.tasks_apply_eq_some hj with ⟨rfl, htask'⟩ | ⟨-, hkept⟩
    · exact .moved htask (taskMoved hm) htask'
    · exact .kept hkept
  | item hbatch hcurrent hdedup hreq hfresh =>
    rcases ProxyState.tasks_withTask_eq_some hj with ⟨rfl, htask⟩ | ⟨-, hkept⟩
    · exact .item hfresh hbatch hreq htask
    · exact .kept hkept
  | head | write | batch | skip | collect | reply => exact .kept hj

end Poolbeg
