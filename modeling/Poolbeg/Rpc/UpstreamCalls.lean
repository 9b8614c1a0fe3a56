import Poolbeg.Rpc.Replies
import Poolbeg.Rpc.ResponseId

/-!
# How often the upstreams are asked

The point of the cache and of the coalescer is to ask the upstreams less, and the point of
`is_uncacheable` is that a transaction is handed on exactly as often as the client sends it. Both
are about the number of upstream calls that a task starts in a run: one, if its exit is the one for
upstream answers, and none on every other exit. A task never starts a second one, in whatever order
the others move and whether or not it leads.

## What is counted

An upstream call is one call of `forward_request`. How many upstreams see the request is another
matter. Failing over from one upstream to the next, the call may send it to several of them, each of
which may have taken it before it failed to answer; and it sends it to none if none of them grants a
token. What is counted here is that the proxy neither drops nor repeats a call of its own accord.

## How the count is kept

The number of calls that a task has started can be read off its phase for almost every phase. The
exceptions are the phases of a call in the coalescer that may either still be waiting or have led,
and a cancelled task. `CallsCounted` says what holds in each, together with the reason a task may be
spared: only the method decides whether a request looks into the cache and joins the coalescer at
all, and `is_uncacheable` keeps a transaction out of both.

## Main definitions

* `upstreamCalls` — the upstream calls of a task in a run
* `CallsCounted` — what a task has started by the phase it is in

## Main results

* `CallsCounted.move` — one move of a task
* `callsCounted_run` — every task is counted right
* `upstreamCalls_exact` — no task starts two calls, and which tasks start one
-/

namespace Poolbeg

open Lts

variable {ι Text : Type} {serde : SerdeJson Text} {blake3 : Blake3 Text} {app : AppConfig ι}
  {s t : ProxyState ι Text}

/-! ### Counting -/

/-- The task `i` starts its upstream call. -/
def ProxyAction.isForward (i : ℕ) : ProxyAction ι → Bool
  | .task j .forward => i = j
  | _ => false

/-- The upstream calls that the task `i` starts. A call is counted when it is started, whatever
becomes of it. -/
def upstreamCalls (i : ℕ) (as : List (ProxyAction ι)) : ℕ := as.countP (ProxyAction.isForward i)

theorem upstreamCalls_concat (i : ℕ) (as : List (ProxyAction ι)) (a : ProxyAction ι) :
    upstreamCalls i (as ++ [a]) = upstreamCalls i as + if a.isForward i then 1 else 0 := by
  rw [upstreamCalls, upstreamCalls, List.countP_append, List.countP_singleton]

/-- The phases of a task that may do without an upstream call. Only requests whose method can be
cached get there. -/
def TaskPhase.Sparing : TaskPhase Text → Prop
  | .lookingUp _ => True
  | .coalescing _ _ => True
  | .done .memoryIntercept _ => True
  | .done .cacheHit _ => True
  | .done .coalesced _ => True
  | _ => False

/-- Whether a task has started its upstream call, by its phase. For the phases with `none` it
depends on how the task got there. -/
def TaskPhase.callStarted : TaskPhase Text → Option Bool
  | .entry => some false
  | .resolving => some false
  | .lookingUp _ => some false
  | .coalescing _ .calling => some false
  | .coalescing _ _ => some true
  | .forwarding _ .calling => some false
  | .forwarding _ _ => some true
  | .done exit _ => some (exit = .upstream)
  | .cancelled => none

variable (app) in
/-- The phase of a task says how many upstream calls it has started, and its method why. -/
structure CallsCounted (task : Task ι Text) (answer : Option Answer) (n : ℕ) : Prop where
  le_one : n ≤ 1
  phase : ∀ started, task.phase.callStarted = some started → n = started.toNat
  answered : answer ≠ none → n = 1
  sparing : task.phase.Sparing → isUncacheable task.req.method = false
  blocked : ∀ resp, task.phase = .done .blocked resp →
    isMethodBlocked task.req.method app.blockedMethods = true

/-- What is answered from memory could be cached. -/
theorem cacheable_of_intercepted {chainId : ℕ} {latest : Option ℕ} {method : String} {id : Value}
    {resp : JsonRpcResponse} (h : tryMemoryIntercept chainId latest method id = some resp) :
    isUncacheable method = false := by
  rw [tryMemoryIntercept] at h
  split_ifs at h with hchain hnet hblock
  · rw [hchain]
    rfl
  · rw [hnet]
    rfl
  · rw [hblock]
    rfl

/-! ### One move of a task -/

section Moves

variable {i n : ℕ} {task : Task ι Text} {a : TaskStep} {m : Move Text}

/-- A call that waits for its channel belongs to a task that has not called upstream. -/
theorem callStarted_of_waiting {req : JsonRpcRequest} {stage : Forwarding Text} {key : String}
    {ch pos : ℕ} (hok : TaskOk serde blake3 app task (s.coalescer.calls i) (s.answers i))
    (hphase : task.phase = .coalescing req stage)
    (hcall : s.coalescer.calls i = some ⟨key, .waiting ch pos⟩) :
    task.phase.callStarted = some false := by
  rw [TaskOk, hphase] at hok
  obtain ⟨-, phase, hcall', hcallOk⟩ := hok
  cases hcall.symm.trans hcall'
  rw [hphase, hcallOk.1]
  rfl

theorem callStarted_of_forwards {req : JsonRpcRequest} {wrap : Forwarding Text → TaskPhase Text}
    (hwrap : Forwards req wrap) :
    (wrap .calling).callStarted = some false ∧ (wrap .awaiting).callStarted = some true ∧
      ∀ cmds x, (wrap (.storing cmds x)).callStarted = some true := by
  cases hwrap with
  | coalescing => exact ⟨rfl, rfl, fun _ _ => rfl⟩
  | forwarding => exact ⟨rfl, rfl, fun _ _ => rfl⟩

theorem sparing_of_forwards {req : JsonRpcRequest} {wrap : Forwarding Text → TaskPhase Text}
    (hwrap : Forwards req wrap) {stage stage' : Forwarding Text} (h : (wrap stage).Sparing) :
    (wrap stage').Sparing := by
  cases hwrap with
  | coalescing => trivial
  | forwarding => exact absurd h not_false

/-- **A move of a task counts its call.** The number grows by one exactly in the step that starts
the call, and no task takes that step twice. -/
theorem CallsCounted.move (h : CallsCounted app task (s.answers i) n)
    (hm : taskMove serde blake3 app s i task a = some m)
    (hok : TaskOk serde blake3 app task (s.coalescer.calls i) (s.answers i)) :
    CallsCounted app { task with phase := m.phase } m.answer
      (n + if (ProxyAction.task i a : ProxyAction ι).isForward i then 1 else 0) := by
  have hidle : task.phase.callStarted = some false → n = 0 := fun hphase => h.phase false hphase
  cases taskMoved hm with
  | blocked hphase hblocked =>
    refine ⟨h.le_one, fun started hstarted => ?_, h.answered, not_false.elim, fun _ _ => hblocked⟩
    cases hstarted
    exact hidle (by rw [hphase]; rfl)
  | intercept hphase hunblocked hresp =>
    refine ⟨h.le_one, fun started hstarted => ?_, h.answered,
      fun _ => cacheable_of_intercepted hresp, by rintro _ ⟨⟩⟩
    cases hstarted
    exact hidle (by rw [hphase]; rfl)
  | enter hphase | pass hphase =>
    refine ⟨h.le_one, fun started hstarted => ?_, h.answered, not_false.elim, by rintro _ ⟨⟩⟩
    cases hstarted
    exact hidle (by rw [hphase]; rfl)
  | lookUp hphase hreq hcacheable =>
    refine ⟨h.le_one, fun started hstarted => ?_, h.answered, fun _ => hcacheable,
      by rintro _ ⟨⟩⟩
    cases hstarted
    exact hidle (by rw [hphase]; rfl)
  | hit hphase | miss hphase =>
    refine ⟨h.le_one, fun started hstarted => ?_, h.answered,
      fun _ => h.sparing (by rw [hphase]; trivial), by rintro _ ⟨⟩⟩
    cases hstarted
    exact hidle (by rw [hphase]; rfl)
  | coalesce hphase | handOver hphase =>
    exact ⟨h.le_one, fun started hstarted => h.phase started (by rw [hphase]; exact hstarted),
      h.answered, fun _ => h.sparing (by rw [hphase]; trivial), by rintro _ ⟨⟩⟩
  | @returned op req stage k resp hphase hk hresp =>
    have hsparing := h.sparing (by rw [hphase]; trivial)
    have hok' := hok
    rw [TaskOk, hphase] at hok'
    obtain ⟨-, phase, hcall, hcallOk⟩ := hok'
    rcases callOk_coalesce hcall hcallOk hk with
      ⟨phase', hcall', hcallOk'⟩ | ⟨resp', -, ⟨rfl, x, hx, -⟩ | ⟨rfl, -, c, msg, hrecv, -⟩⟩
    · cases (returnedBy_of_callOk hcall' hcallOk').symm.trans hresp
    · refine ⟨h.le_one, fun started hstarted => ?_, h.answered, fun _ => hsparing,
        by rintro _ ⟨⟩⟩
      cases hstarted
      exact h.answered (hx ▸ Option.some_ne_none x)
    · obtain ⟨key, ch, pos, hwaiting, -⟩ := hrecv
      refine ⟨h.le_one, fun started hstarted => ?_, h.answered, fun _ => hsparing,
        by rintro _ ⟨⟩⟩
      cases hstarted
      exact hidle (callStarted_of_waiting hok hphase hwaiting)
  | finish hphase hresp =>
    rw [TaskOk, hphase] at hok
    obtain ⟨x, hx, -⟩ := returned_eq_some hok.2 hresp
    refine ⟨h.le_one, fun started hstarted => ?_, h.answered, not_false.elim, by rintro _ ⟨⟩⟩
    cases hstarted
    exact h.answered (hx ▸ Option.some_ne_none x)
  | @forward req wrap hwrap hphase hcall =>
    obtain ⟨hcalling, hawaiting, -⟩ := callStarted_of_forwards hwrap
    obtain rfl := hidle (by rw [hphase]; exact hcalling)
    have hone : (0 + if (ProxyAction.task i .forward : ProxyAction ι).isForward i then 1 else 0) =
        1 := by simp [ProxyAction.isForward]
    rw [hone]
    refine ⟨le_rfl, fun started hstarted => ?_, fun _ => rfl, fun hsparing => ?_,
      fun _ hdone => absurd hdone hwrap.ne_done⟩
    · cases hawaiting.symm.trans hstarted
      rfl
    · exact h.sparing (by rw [hphase]; exact sparing_of_forwards hwrap hsparing)
  | @answer req wrap x hwrap hphase hcall =>
    obtain ⟨-, hawaiting, hstoring⟩ := callStarted_of_forwards hwrap
    have hone : n = 1 := h.phase true (by rw [hphase]; exact hawaiting)
    refine ⟨h.le_one, fun started hstarted => ?_, fun _ => hone, fun hsparing => ?_,
      fun _ hdone => absurd hdone hwrap.ne_done⟩
    · cases (hstoring _ x).symm.trans hstarted
      exact hone
    · exact h.sparing (by rw [hphase]; exact sparing_of_forwards hwrap hsparing)
  | @store req wrap c cmds x ok hwrap hphase hcall =>
    obtain ⟨-, -, hstoring⟩ := callStarted_of_forwards hwrap
    refine ⟨h.le_one, fun started hstarted => ?_, h.answered, fun hsparing => ?_,
      fun _ hdone => absurd hdone hwrap.ne_done⟩
    · cases (hstoring cmds x).symm.trans hstarted
      exact h.phase true (by rw [hphase]; exact hstoring _ x)
    · exact h.sparing (by rw [hphase]; exact sparing_of_forwards hwrap hsparing)
  | cancel | cancelCall =>
    refine ⟨h.le_one, fun started hstarted => ?_, h.answered, not_false.elim, by rintro _ ⟨⟩⟩
    cases hstarted

end Moves

/-! ### Every task is counted -/

section Run

variable [DecidableEq ι] {redis : Redis Text} {latest : ι → Option ℕ} {as : List (ProxyAction ι)}

omit [DecidableEq ι] in
/-- Only a task that is there starts an upstream call. -/
theorem isForward_eq_true {i : ℕ} {a : ProxyAction ι} (h : a.isForward i = true) :
    a = .task i .forward := by
  rw [ProxyAction.isForward.eq_def] at h
  split at h
  · rw [decide_eq_true_eq] at h
    rw [h]
  · cases h

theorem callsCounted_run
    (hrun : run (proxyStep serde blake3 app) (.init redis latest) as = some s) :
    (∀ i, s.tasks i = none → upstreamCalls i as = 0) ∧
      ∀ i task, s.tasks i = some task →
        CallsCounted app task (s.answers i) (upstreamCalls i as) := by
  refine run_history (H := fun as (s : ProxyState ι Text) =>
    (∀ i, s.tasks i = none → upstreamCalls i as = 0) ∧
      ∀ i task, s.tasks i = some task → CallsCounted app task (s.answers i) (upstreamCalls i as))
    ⟨fun _ _ => rfl, fun _ _ h => absurd h (Option.some_ne_none _).symm⟩ ?_ hrun
  intro as s a t hrun ih ht
  have hinv := proxyInv_run hrun
  have hother : ∀ i, a ≠ .task i .forward → upstreamCalls i (as ++ [a]) = upstreamCalls i as := by
    intro i hne
    rw [upstreamCalls_concat, if_neg fun hforward => hne (isForward_eq_true hforward)]
    rfl
  have hstart : ∀ {i chain req origin}, s.tasks i = none →
      (∀ j, a ≠ .task j .forward) →
      (∀ j, (s.withTask i chain req origin).tasks j = none → upstreamCalls j (as ++ [a]) = 0) ∧
        ∀ j task, (s.withTask i chain req origin).tasks j = some task →
          CallsCounted app task (s.answers j) (upstreamCalls j (as ++ [a])) := by
    intro i chain req origin hfresh hne
    refine ⟨fun j hj => ?_, fun j task hj => ?_⟩
    · rw [hother j (hne j)]
      by_cases hji : j = i
      · exact ih.1 j (hji ▸ hfresh)
      · exact ih.1 j ((s.tasks_withTask_of_ne chain req origin hji).symm.trans hj)
    · rw [hother j (hne j)]
      rcases ProxyState.tasks_withTask_eq_some hj with ⟨rfl, rfl⟩ | ⟨-, hold⟩
      · rw [ih.1 j hfresh, (hinv.fresh j hfresh).2]
        refine ⟨zero_le_one, fun started hstarted => ?_, fun hne => absurd rfl hne,
          not_false.elim, by rintro _ ⟨⟩⟩
        cases hstarted
        rfl
      · exact ih.2 j task hold
  cases stepped ht with
  | request hfresh | item hbatch hcurrent hdedup hreq hfresh =>
    exact hstart hfresh (by rintro j ⟨⟩)
  | head | write | batch | skip | collect | reply =>
    refine ⟨fun j hj => (hother j (by rintro ⟨⟩)).trans (ih.1 j hj), fun j task hj => ?_⟩
    rw [hother j (by rintro ⟨⟩)]
    exact ih.2 j task hj
  | @move i step task₀ m htask₀ hm =>
    refine ⟨fun j hj => ?_, fun j task hj => ?_⟩
    · have hji : j ≠ i := by
        rintro rfl
        rw [s.tasks_apply_self] at hj
        cases hj
      rw [hother j (by rintro ⟨⟩; exact hji rfl)]
      exact ih.1 j ((s.tasks_apply_of_ne task₀ m hji).symm.trans hj)
    · rcases ProxyState.tasks_apply_eq_some hj with ⟨rfl, rfl⟩ | ⟨hji, hold⟩
      · rw [s.answers_apply_self, upstreamCalls_concat]
        exact (ih.2 j task₀ htask₀).move hm (hinv.task j task₀ htask₀)
      · rw [hother j (by rintro ⟨⟩; exact hji rfl), s.answers_apply_of_ne task₀ m hji]
        exact ih.2 j task hold

/-- **Upstream calls are spent exactly where they have to be.** No task starts more than one; a task
that is done started one exactly if it was answered by an upstream. A request with an uncacheable
method that is not blocked starts one and is answered by it, and in a batch, too, it gets the answer
to its own call. -/
theorem upstreamCalls_exact
    (hrun : run (proxyStep serde blake3 app) (.init redis latest) as = some s) :
    (∀ i, upstreamCalls i as ≤ 1) ∧
    (∀ i task exit resp, s.tasks i = some task → task.phase = .done exit resp →
      upstreamCalls i as = (if exit = .upstream then 1 else 0) ∧
        (isUncacheable task.req.method = true →
          isMethodBlocked task.req.method app.blockedMethods = false → exit = .upstream)) ∧
    ∀ b batch responses k req, s.batches b = some batch → batch.replied = some responses →
      batch.reqs[k]? = some req → isUncacheable req.method = true →
      isMethodBlocked req.method app.blockedMethods = false →
      ∃ i task resp, s.tasks i = some task ∧ task.origin = some (b, k) ∧ task.req = req ∧
        task.phase = .done .upstream resp ∧ responses[k]? = some resp ∧
        upstreamCalls i as = 1 := by
  obtain ⟨hnone, hcounted⟩ := callsCounted_run hrun
  have hdone : ∀ i task exit resp, s.tasks i = some task → task.phase = .done exit resp →
      upstreamCalls i as = (if exit = .upstream then 1 else 0) ∧
        (isUncacheable task.req.method = true →
          isMethodBlocked task.req.method app.blockedMethods = false → exit = .upstream) := by
    intro i task exit resp htask hphase
    have hcount := hcounted i task htask
    refine ⟨?_, fun huncacheable hunblocked => ?_⟩
    · rw [hcount.phase (exit = .upstream) (by rw [hphase]; rfl)]
      by_cases hexit : exit = .upstream <;> simp [hexit]
    · cases exit with
      | upstream => rfl
      | blocked => cases hunblocked.symm.trans (hcount.blocked resp hphase)
      | memoryIntercept | cacheHit | coalesced =>
        cases huncacheable.symm.trans (hcount.sparing (by rw [hphase]; trivial))
  refine ⟨fun i => ?_, hdone, fun b batch responses k req hbatch hreplied hreq huncacheable
    hunblocked => ?_⟩
  · cases htask : s.tasks i with
    | none => exact (hnone i htask).le.trans zero_le_one
    | some task => exact (hcounted i task htask).le_one
  · obtain ⟨-, hlength, hresponses⟩ :=
      (repliedOk_run hrun).replied b batch responses hbatch hreplied
    have hprocessed : (batch.dedup serde blake3 app)[k]? = some none :=
      unmarked_of_batchKey_none _ _ _ _ hreq
        ((batchKey_eq_none_iff _ _ _ _).mpr (.inl huncacheable))
    obtain ⟨i, task, exit, resp, htask, horigin, rfl, hphase, hresp⟩ :=
      reply_item (batchOk_run hrun hbatch) hlength hresponses hreq hprocessed
    obtain ⟨hcalls, hexit⟩ := hdone i task exit resp htask hphase
    obtain rfl := hexit huncacheable hunblocked
    exact ⟨i, task, resp, htask, horigin, rfl, hphase, hresp, hcalls⟩

end Run

/-- A transaction, as a client sends it. -/
def transaction (id : Value) : JsonRpcRequest where
  jsonrpc := "2.0"
  method := "eth_sendRawTransaction"
  params := .array [.string "0x02f8"]
  id := id

/-- A batch with one transaction twice, of which the second is refused by the upstream. -/
def doubledTransaction : List (ProxyAction Unit) :=
  [.batch 0 () [transaction (.ofU64 1), transaction (.ofU64 2)],
    .item 0 0, .task 0 .enter, .task 0 .resolve, .task 0 .forward,
    .task 0 (.answer (.ok (.success (.ofU64 1) (.string "0xabc")))), .task 0 .finish, .collect 0,
    .item 0 1, .task 1 .enter, .task 1 .resolve, .task 1 .forward,
    .task 1 (.answer (.error "already known")), .task 1 .finish, .collect 0,
    .reply 0]

/-- Both are handed on. -/
theorem doubledTransaction_sent :
    ∃ (s : ProxyState Unit Value) (batch : Batch Unit) (responses : List JsonRpcResponse),
      run (proxyStep .tree balanceDigest oneChain) (.init (fun _ => none) fun _ => none)
          doubledTransaction = some s ∧
        s.batches 0 = some batch ∧ batch.replied = some responses ∧
        ∃ i task resp, s.tasks i = some task ∧ task.origin = some (0, 1) ∧
          task.req = transaction (.ofU64 2) ∧ task.phase = .done .upstream resp ∧
          responses[1]? = some resp ∧ upstreamCalls i doubledTransaction = 1 := by
  obtain ⟨s, hrun, batch, responses, hbatch, hreplied, hreq⟩ :
      ∃ s, run (proxyStep .tree balanceDigest oneChain) (.init (fun _ => none) fun _ => none)
          doubledTransaction = some s ∧
        ∃ (batch : Batch Unit) (responses : List JsonRpcResponse), s.batches 0 = some batch ∧
          batch.replied = some responses ∧ batch.reqs[1]? = some (transaction (.ofU64 2)) :=
    ⟨_, rfl, _, _, rfl, rfl, rfl⟩
  exact ⟨s, batch, responses, hrun, hbatch, hreplied,
    (upstreamCalls_exact hrun).2.2 0 batch responses 1 _ hbatch hreplied hreq rfl rfl⟩

end Poolbeg
