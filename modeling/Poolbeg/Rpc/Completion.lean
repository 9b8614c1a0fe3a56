import Poolbeg.Countdown
import Poolbeg.Rpc.BatchDedup
import Poolbeg.Rpc.CoalescerRun
import Poolbeg.Rpc.ResponseId

/-!
# Every request is answered

Nobody waits for ever in the proxy. A request waits for its upstream call, which returns because the
HTTP client has a timeout, or for the broadcast of another request; and that one leads, so it waits
for nobody. A batch waits for its items one after the other.

So as long as no call is dropped that is the leader of an entry of `in_flight`, the proxy has a step
to take for every request that is not answered yet. A task has at most thirteen steps to take,
whatever the others do, and starting the items of a batch is accounted for in advance; so the steps
come to an end, and when they do everything has been answered (`proxy_completes`).

## What is not promised

A leader is dropped when its client disconnects, and when `forward_request` panics in it, which it
may do when it logs a response (`Poolbeg.Rpc.ResponseLog`). To the coalescer these are the same, and
`LeaderStays` rules both out for leaders of entries only. A batch whose own log panics is over
without a reply. It counts as settled, since nobody waits for it any more; the promise is about
waiting, and not about being served.

## The measure

Each step a task takes by itself leaves it less to do, whichever of the paths it takes: a waiter has
more steps left than a leader, so falling back to leading is progress. The number of steps left of
the whole proxy is the sum over tasks and batches, which is finite since only finitely many have
been made. No fairness is needed for the end of the steps. What is assumed of the scheduler is only
that a step that can be taken is taken at last.

## Main definitions

* `ProxyAction.Internal` — what goes on without the clients
* `ProxyState.Settled` — everything has been answered
* `LeaderStays` — the one thing that must not happen
* `ProxyState.stepsLeft` — the measure

## Main results

* `exists_canMove`, `settled_of_quiet` — there is no deadlock
* `stepsLeft_lt` — every step is progress
* `proxy_completes` — everything is answered
-/

namespace Poolbeg

open Lts

variable {ι Text : Type}

/-! ### What goes on by itself -/

/-- The steps that the proxy and the upstreams take by themselves, once a request is there. -/
def ProxyAction.Internal : ProxyAction ι → Prop
  | .task _ .cancel => False
  | .task _ _ => True
  | .skip _ => True
  | .item _ _ => True
  | .collect _ => True
  | .reply _ => True
  | .request _ _ _ => False
  | .head _ _ => False
  | .write _ _ => False
  | .batch _ _ _ => False

/-- A task has been answered, that is `process_single_request` has returned, or it has been dropped
before. -/
def Task.Over (task : Task ι Text) : Prop :=
  (∃ exit resp, task.phase = .done exit resp) ∨ task.phase = .cancelled

/-- A batch has been replied to, or it has been dropped: its item was, or logging the response to
its item has panicked. -/
def ProxyState.BatchOver (app : AppConfig ι) (s : ProxyState ι Text) (batch : Batch ι) : Prop :=
  batch.replied ≠ none ∨
    ∃ i task, batch.current = some i ∧ s.tasks i = some task ∧
      (task.phase = .cancelled ∨
        ∃ exit resp, task.phase = .done exit resp ∧ app.debugClient.survives resp = false)

/-- **Everything has been answered**, as far as there is somebody left to answer. -/
structure ProxyState.Settled (app : AppConfig ι) (s : ProxyState ι Text) : Prop where
  tasks : ∀ i task, s.tasks i = some task → task.Over
  batches : ∀ b batch, s.batches b = some batch → s.BatchOver app batch

/-- There are finitely many tasks and batches. -/
structure ProxyState.FinitelyMany (s : ProxyState ι Text) : Prop where
  tasks : {i | s.tasks i ≠ none}.Finite
  batches : {b | s.batches b ≠ none}.Finite

/-- No call is dropped that is the leader of an entry: its client does not disconnect, and
`forward_request` does not panic in it. -/
def LeaderStays (s : ProxyState ι Text) : ProxyAction ι → Prop
  | .task i .cancel => EntryKept s.coalescer (.cancel i)
  | _ => True

theorem leaderStays_of_internal {s : ProxyState ι Text} {a : ProxyAction ι} (h : a.Internal) :
    LeaderStays s a := by
  cases a with
  | task i step =>
    cases step with
    | cancel => exact absurd h not_false
    | _ => trivial
  | _ => trivial

variable {serde : SerdeJson Text} {blake3 : Blake3 Text} {app : AppConfig ι}

/-! ### A step for everyone -/

section Enabled

variable {s : ProxyState ι Text} {i : ℕ} {task : Task ι Text} {req : JsonRpcRequest}
  {stage : Forwarding Text}

variable (serde blake3 app) in
/-- The task can move, and not by being cancelled. The answer of an upstream is one of the moves,
since every upstream call returns. -/
def ProxyState.CanMove (s : ProxyState ι Text) (i : ℕ) (task : Task ι Text) : Prop :=
  ∃ a, a ≠ .cancel ∧ (taskMove serde blake3 app s i task a).isSome

/-- `forward_to_upstream` always has a step to take, or returns. -/
theorem canForward (s : ProxyState ι Text) (i : ℕ) (task : Task ι Text) (req : JsonRpcRequest)
    (wrap : Forwarding Text → TaskPhase Text) (stage : Forwarding Text) :
    (∃ a, (a = .forward ∨ (∃ x, a = .answer x) ∨ ∃ ok, a = .store ok) ∧
        (forwardMove serde blake3 app s i task req wrap stage a).isSome) ∨
      (stage.returned task.req.id).isSome := by
  cases stage with
  | calling => exact .inl ⟨.forward, .inl rfl, rfl⟩
  | awaiting => exact .inl ⟨.answer (.error ""), .inr (.inl ⟨_, rfl⟩), rfl⟩
  | storing cmds x =>
    cases cmds with
    | nil => exact .inr rfl
    | cons c cmds => exact .inl ⟨.store true, .inr (.inr ⟨_, rfl⟩), rfl⟩

/-- A task that forwards without coalescing has a step to take. -/
theorem canMove_of_forwarding (hphase : task.phase = .forwarding req stage) :
    s.CanMove serde blake3 app i task := by
  rcases canForward s i task req (.forwarding req) stage with ⟨a, ha, hmove⟩ | hreturned
  · refine ⟨a, ?_, ?_⟩
    · rcases ha with rfl | ⟨x, rfl⟩ | ⟨ok, rfl⟩ <;> rintro ⟨⟩
    · rw [taskMove, hphase]
      rcases ha with rfl | ⟨x, rfl⟩ | ⟨ok, rfl⟩ <;> exact hmove
  · refine ⟨.finish, by rintro ⟨⟩, ?_⟩
    rw [taskMove, hphase]
    exact Option.isSome_map.trans hreturned

/-- A step of its call is a step of the task. -/
theorem canMove_of_call (op : CoalesceOp) (hphase : task.phase = .coalescing req stage)
    (hop : (requestCoalescerStep serde s.coalescer (op.action i)).isSome) :
    s.CanMove serde blake3 app i task := by
  refine ⟨.coalesce op, by rintro ⟨⟩, ?_⟩
  rw [taskMove, hphase]
  exact Option.isSome_map.trans hop

/-- **Who holds a sender has a step to take.** It waits for its upstream or for Redis, and never for
another task. -/
theorem canMove_of_sender {key : String} {phase : CallPhase JsonRpcResponse}
    (hphase : task.phase = .coalescing req stage) (hcall : s.coalescer.calls i = some ⟨key, phase⟩)
    (hsender : phase.sender ≠ none) : s.CanMove serde blake3 app i task := by
  cases phase with
  | start | waiting | leading | returned | cancelled => exact absurd rfl hsender
  | executing ch =>
    have hexecuting : s.executing i = true := by rw [ProxyState.executing, hcall]
    rcases canForward s i task req (.coalescing req) stage with ⟨a, ha, hmove⟩ | hreturned
    · refine ⟨a, ?_, ?_⟩
      · rcases ha with rfl | ⟨x, rfl⟩ | ⟨ok, rfl⟩ <;> rintro ⟨⟩
      · rw [taskMove, hphase]
        rcases ha with rfl | ⟨x, rfl⟩ | ⟨ok, rfl⟩ <;>
          simpa only [coalescingMove, hexecuting, if_true] using hmove
    · obtain ⟨resp, hresp⟩ := Option.isSome_iff_exists.mp hreturned
      refine ⟨.finish, by rintro ⟨⟩, ?_⟩
      rw [taskMove, hphase]
      simp only [coalescingMove, hresp, Option.bind_some, requestCoalescerStep, coalescerStep,
        hcall, Option.map_some, Option.isSome_some]
  | executed ch resp =>
    refine canMove_of_call .broadcast hphase ?_
    simp only [CoalesceOp.action, requestCoalescerStep, coalescerStep, hcall, Option.isSome_some]
  | sent ch resp =>
    refine canMove_of_call .remove hphase ?_
    simp only [CoalesceOp.action, requestCoalescerStep, coalescerStep, hcall, Option.isSome_some]

end Enabled

/-! ### Nobody waits for ever -/

section Waiting

variable {s : ProxyState ι Text} {i : ℕ} {task : Task ι Text} {m : Move Text} {a : TaskStep}

/-- A step keeps every entry its leader, unless the leader is cancelled. -/
theorem owned_apply (hs : ProxyInv serde blake3 app s)
    (howned : s.coalescer.coalescer.Owned s.coalescer.holding)
    (hm : taskMove serde blake3 app s i task a = some m) (hstays : LeaderStays s (.task i a)) :
    m.coalescer.coalescer.Owned m.coalescer.holding := by
  cases taskMoved hm with
  | blocked | intercept | enter | pass | lookUp | hit | finish | forward | answer | store =>
    exact howned
  | miss hphase hk => exact (owned_step_iff hs.accounted howned hk).mpr trivial
  | @coalesce op req stage k hphase hk | @returned op req stage k resp hphase hk =>
    exact (owned_step_iff hs.accounted howned hk).mpr (by cases op <;> trivial)
  | handOver hphase hresp hk => exact (owned_step_iff hs.accounted howned hk).mpr trivial
  | cancelCall hphase hk => exact (owned_step_iff hs.accounted howned hk).mpr hstays
  | cancel => exact howned

theorem recv_pending {κ τ : Type} {c : Channel κ τ} {pos : ℕ} (h : c.recv pos = .pending) :
    c.senders ≠ 0 := by
  intro hzero
  rw [Channel.recv, if_pos hzero] at h
  split at h <;> cases h

/-- An open channel has a call that holds its sender. -/
theorem exists_sender {k : Coalescer String Text} {holding : ℕ → Option (String × ℕ)}
    (hs : k.Accounted holding) (howned : k.Owned holding) {ch : ℕ} {c : Channel String Text}
    (hc : k.channels[ch]? = some c) (hopen : c.senders ≠ 0) :
    ∃ j, holding j = some (c.key, ch) := by
  by_cases hentry : k.inFlight c.key = some ch
  · exact howned c.key ch hentry
  · refine ⟨c.owner, ?_⟩
    by_contra hnone
    have hcount := hs.senders ch c hc
    rw [if_neg hentry, if_neg hnone] at hcount
    exact hopen hcount

/-- The call of a task can always move, except while it waits for a channel that is open. -/
theorem canMove_or_waiting (hs : ProxyInv serde blake3 app s) {req : JsonRpcRequest}
    {stage : Forwarding Text} (htask : s.tasks i = some task)
    (hphase : task.phase = .coalescing req stage) :
    s.CanMove serde blake3 app i task ∨ ∃ key ch pos,
      s.coalescer.calls i = some ⟨key, .waiting ch pos⟩ ∧
        ∀ c, s.coalescer.coalescer.channels[ch]? = some c → c.recv pos = .pending := by
  have hok := hs.task i task htask
  rw [TaskOk, hphase] at hok
  obtain ⟨-, phase, hcall, hcallOk⟩ := hok
  cases phase with
  | start =>
    refine .inl (canMove_of_call .lookup hphase ?_)
    simp only [CoalesceOp.action, requestCoalescerStep, coalescerStep, hcall]
    cases hentry : s.coalescer.coalescer.inFlight (app.key serde blake3 task.chain req) with
    | none => rfl
    | some ch =>
      obtain ⟨c, hc, -⟩ := hs.accounted.entry _ ch hentry
      simp only [hc, Option.map_some, Option.isSome_some]
  | waiting ch pos =>
    by_cases hpending : ∀ c, s.coalescer.coalescer.channels[ch]? = some c → c.recv pos = .pending
    · exact .inr ⟨_, ch, pos, hcall, hpending⟩
    · refine .inl (canMove_of_call .recv hphase ?_)
      simp only [not_forall] at hpending
      obtain ⟨c, hc, hrecv⟩ := hpending
      simp only [CoalesceOp.action, requestCoalescerStep, coalescerStep, hcall, hc,
        Option.bind_some]
      cases h : c.recv pos with
      | pending => exact absurd h hrecv
      | message msg =>
        dsimp only
        split <;> rfl
      | lagged | closed => rfl
  | leading =>
    refine .inl (canMove_of_call .insert hphase ?_)
    simp only [CoalesceOp.action, requestCoalescerStep, coalescerStep, hcall, Option.isSome_some]
  | executing ch | executed ch resp | sent ch resp =>
    exact .inl (canMove_of_sender hphase hcall (Option.some_ne_none _))
  | returned | cancelled => exact absurd hcallOk not_false

/-- **Whoever is not over has somebody who can move**: the task itself, or the one it waits for. The
latter is one step away, since a leader does not wait. -/
theorem exists_canMove (hs : ProxyInv serde blake3 app s) (hleads : s.Leads)
    (howned : s.coalescer.coalescer.Owned s.coalescer.holding)
    (hchannel : ∀ i key ch pos, s.coalescer.calls i = some ⟨key, .waiting ch pos⟩ →
      ∃ c, s.coalescer.coalescer.channels[ch]? = some c)
    (htask : s.tasks i = some task) (hopen : ¬ task.Over) :
    ∃ j task', s.tasks j = some task' ∧ s.CanMove serde blake3 app j task' := by
  cases hphase : task.phase with
  | entry =>
    refine ⟨i, task, htask, .enter, by rintro ⟨⟩, ?_⟩
    rw [taskMove, hphase]
    simp only [entryMove]
    split
    · rfl
    · split <;> rfl
  | resolving =>
    refine ⟨i, task, htask, .resolve, by rintro ⟨⟩, ?_⟩
    rw [taskMove, hphase]
    simp only [resolvingMove]
    split <;> rfl
  | lookingUp req =>
    have hcall : s.coalescer.calls i = none := by
      have hok := hs.task i task htask
      rw [TaskOk, hphase] at hok
      exact hok.2.1
    refine ⟨i, task, htask, .get true, by rintro ⟨⟩, ?_⟩
    rw [taskMove, hphase]
    simp only [lookingUpMove, if_true]
    split
    · rfl
    · simp only [requestCoalescerStep, coalescerStep, hcall, Option.map_some, Option.isSome_some]
  | forwarding req stage => exact ⟨i, task, htask, canMove_of_forwarding hphase⟩
  | done exit resp => exact absurd (.inl ⟨exit, resp, hphase⟩) hopen
  | cancelled => exact absurd (.inr hphase) hopen
  | coalescing req stage =>
    rcases canMove_or_waiting hs htask hphase with hmove | ⟨key, ch, pos, hcall, hpending⟩
    · exact ⟨i, task, htask, hmove⟩
    · -- whoever holds the sender of the channel leads, and so waits for nobody
      obtain ⟨c, hc⟩ := hchannel i key ch pos hcall
      obtain ⟨j, hj⟩ := exists_sender hs.accounted howned hc (recv_pending (hpending c hc))
      obtain ⟨leader, req', stage', hleader, hcoalescing⟩ :=
        hleads j (hj ▸ Option.some_ne_none _)
      refine ⟨j, leader, hleader, ?_⟩
      rw [CoalescerState.holding, Option.bind_eq_some_iff] at hj
      obtain ⟨⟨key', phase⟩, hcall', hsender⟩ := hj
      refine canMove_of_sender hcoalescing hcall' fun hnone => ?_
      rw [Call.holding, hnone] at hsender
      cases hsender

end Waiting

/-! ### There is no deadlock -/

section Quiet

variable [DecidableEq ι] {redis : Redis Text} {latest : ι → Option ℕ} {as : List (ProxyAction ι)}
  {s t : ProxyState ι Text}

theorem owned_run (hstays : Along (proxyStep serde blake3 app) LeaderStays (.init redis latest) as)
    (hrun : run (proxyStep serde blake3 app) (.init redis latest) as = some s) :
    s.coalescer.coalescer.Owned s.coalescer.holding := by
  refine (run_inv_along (I := fun s => ProxyInv serde blake3 app s ∧
    s.coalescer.coalescer.Owned s.coalescer.holding) (fun u a v hu hstay hv => ?_)
    ⟨proxyInv_init redis latest, fun _ _ hentry => absurd hentry (Option.some_ne_none _).symm⟩
    hstays hrun).2
  refine ⟨proxyInv_step hu.1 hv, ?_⟩
  cases stepped hv with
  | move htask hm => exact owned_apply hu.1 hu.2 hm hstay
  | request | head | write | batch | skip | item | collect | reply => exact hu.2

theorem proxyFinite_step (hs : s.FinitelyMany) {a : ProxyAction ι}
    (h : proxyStep serde blake3 app s a = some t) : t.FinitelyMany := by
  have htasks : ∀ {f : ℕ → Option (Task ι Text)} {i : ℕ},
      (∀ j, j ≠ i → f j = s.tasks j) → {j | f j ≠ none}.Finite := by
    intro f i hf
    refine (hs.tasks.insert i).subset fun j hj => ?_
    by_cases hji : j = i
    · exact .inl hji
    · exact .inr ((hf j hji).symm.trans_ne hj)
  have hbatches : ∀ b batch, {b' | (s.setBatch b batch).batches b' ≠ none}.Finite := by
    intro b batch
    refine (hs.batches.insert b).subset fun j hj => ?_
    by_cases hjb : j = b
    · exact .inl hjb
    · exact .inr ((s.batches_setBatch_of_ne batch hjb).symm.trans_ne hj)
  cases stepped h with
  | request hfresh => exact ⟨htasks fun j hj => s.tasks_withTask_of_ne _ _ _ hj, hs.batches⟩
  | move htask hm => exact ⟨htasks fun j hj => s.tasks_apply_of_ne _ _ hj, hs.batches⟩
  | head | write => exact ⟨hs.tasks, hs.batches⟩
  | item hbatch hcurrent hdedup hreq hfresh =>
    exact ⟨htasks fun j hj => s.tasks_withTask_of_ne _ _ _ hj, hbatches _ _⟩
  | batch | skip | collect | reply => exact ⟨hs.tasks, hbatches _ _⟩

theorem proxyFinite_run
    (hrun : run (proxyStep serde blake3 app) (.init redis latest) as = some s) : s.FinitelyMany :=
  run_inv (fun _ _ _ hu hv => proxyFinite_step hu hv)
    ⟨by simp [ProxyState.init], by simp [ProxyState.init]⟩ hrun

theorem batchInv_run (hrun : run (proxyStep serde blake3 app) (.init redis latest) as = some s) :
    BatchInv serde blake3 app s :=
  run_inv (fun _ _ _ hu hv => batchInv_step hu hv) (batchInv_init redis latest) hrun

omit [DecidableEq ι] in
/-- The second pass does not go past the last item. -/
theorem BatchOk.length_items_le {b : ℕ} {batch : Batch ι}
    (hok : BatchOk serde blake3 app s b batch) : batch.items.length ≤ batch.reqs.length := by
  refine not_lt.mp fun hlong => ?_
  have hitem := List.getElem?_eq_getElem hlong
  have hend : batch.reqs[batch.reqs.length]? = none := List.getElem?_eq_none le_rfl
  cases h : batch.items[batch.reqs.length] with
  | none =>
    obtain ⟨first, hfirst⟩ := hok.duplicate _ (h ▸ hitem)
    have hlt := (List.getElem?_eq_some_iff.mp hfirst).1
    rw [Batch.dedup, length_firstPass] at hlt
    exact lt_irrefl _ hlt
  | some item =>
    obtain ⟨task, exit, -, -, hreq, -⟩ := hok.item _ item.1 item.2 (h ▸ hitem)
    cases hend.symm.trans hreq

/-- A batch that is not over has a step to take, once its items are. -/
theorem batch_step {b : ℕ} {batch : Batch ι} (hbatches : BatchInv serde blake3 app s)
    (hfinite : s.FinitelyMany) (hover : ∀ i task, s.tasks i = some task → task.Over)
    (hbatch : s.batches b = some batch) (hopen : ¬ s.BatchOver app batch) :
    ∃ a : ProxyAction ι, a.Internal ∧ (proxyStep serde blake3 app s a).isSome := by
  have hok := hbatches.batch b batch hbatch
  have hreplied : batch.replied = none := not_not.mp fun h => hopen (.inl h)
  cases hcurrent : batch.current with
  | some i =>
    obtain ⟨task, htask, -⟩ := hok.current i hcurrent
    rcases hover i task htask with ⟨exit, resp, hdone⟩ | hcancelled
    · cases hlog : app.debugClient.survives resp with
      | false =>
        exact absurd (.inr ⟨i, task, hcurrent, htask, .inr ⟨exit, resp, hdone, hlog⟩⟩) hopen
      | true =>
        refine ⟨.collect b, trivial, ?_⟩
        obtain ⟨chain, req, origin, phase⟩ := task
        subst hdone
        simp only [proxyStep, hbatch, Option.bind_some, collectStep, hcurrent, htask, hlog,
          if_true, Option.isSome_some]
    · exact absurd (.inr ⟨i, task, hcurrent, htask, .inl hcancelled⟩) hopen
  | none =>
    rcases hok.length_items_le.lt_or_eq with hlt | hlength
    · have hreq := List.getElem?_eq_getElem hlt
      have hlt' : batch.items.length < (batch.dedup serde blake3 app).length := by
        rwa [Batch.dedup, length_firstPass]
      cases hdup : (batch.dedup serde blake3 app)[batch.items.length] with
      | some first =>
        have hdedup := (List.getElem?_eq_getElem hlt').trans (congrArg some hdup)
        refine ⟨.skip b, trivial, ?_⟩
        simp only [proxyStep, hbatch, Option.bind_some, skipStep, hcurrent, hdedup,
          Option.isSome_some]
      | none =>
        have hdedup := (List.getElem?_eq_getElem hlt').trans (congrArg some hdup)
        obtain ⟨i, hi⟩ := hfinite.tasks.exists_notMem
        have hfresh : s.tasks i = none := not_not.mp hi
        refine ⟨.item b i, trivial, ?_⟩
        simp only [proxyStep, hbatch, Option.bind_some, itemStep, hcurrent, hdedup, hreq,
          ProxyState.startTask, hfresh, Option.map_some, Option.isSome_some]
    · refine ⟨.reply b, trivial, ?_⟩
      rw [proxyStep, hbatch, Option.bind_some]
      exact replyStep_isSome hok hcurrent hlength hreplied

/-- **There is no deadlock**: when the proxy has no step to take, everything has been answered, or
dropped. -/
theorem settled_of_quiet
    (hstays : Along (proxyStep serde blake3 app) LeaderStays (.init redis latest) as)
    (hrun : run (proxyStep serde blake3 app) (.init redis latest) as = some s)
    (hquiet : Quiet (proxyStep serde blake3 app) ProxyAction.Internal s) : s.Settled app := by
  have hstuck : ∀ a : ProxyAction ι, a.Internal → ¬ (proxyStep serde blake3 app s a).isSome := by
    intro a ha hsome
    rw [hquiet a ha] at hsome
    cases hsome
  have htasks : ∀ i task, s.tasks i = some task → task.Over := by
    intro i task htask
    by_contra hopen
    obtain ⟨hinv, hleads⟩ := proxyRun_inv hrun
    obtain ⟨j, task', htask', a, ha, hmove⟩ := exists_canMove hinv hleads (owned_run hstays hrun)
      (fun i key ch pos hcall => (channel_of_waiting hrun hcall).imp fun c hc => hc.1) htask hopen
    refine hstuck (.task j a) ?_ ?_
    · cases a with
      | cancel => exact absurd rfl ha
      | _ => trivial
    · rw [proxyStep, htask', Option.bind_some]
      exact Option.isSome_map.trans hmove
  refine ⟨htasks, fun b batch hbatch => ?_⟩
  by_contra hopen
  obtain ⟨a, ha, hstep⟩ :=
    batch_step (batchInv_run hrun) (proxyFinite_run hrun) htasks hbatch hopen
  exact hstuck a ha hstep

end Quiet

/-! ### The steps that are left -/

/-- The steps of `forward_to_upstream` that are left, its return included. -/
def Forwarding.left : Forwarding Text → ℕ
  | .calling => 5
  | .awaiting => 4
  | .storing cmds _ => cmds.length + 1

/-- The steps of a call that are left, while its execution has this many to go. Waiting counts for
more than leading, since a waiter may turn into a leader. -/
def CallPhase.left {ρ : Type} (stage : ℕ) : CallPhase ρ → ℕ
  | .start => 10
  | .waiting _ _ => 9
  | .leading => 8
  | .executing _ => stage + 2
  | .executed _ _ => 2
  | .sent _ _ => 1
  | .returned _ => 0
  | .cancelled => 0

/-- The steps of a task that are left. -/
def TaskPhase.left (call : Option (Call String JsonRpcResponse)) : TaskPhase Text → ℕ
  | .entry => 13
  | .resolving => 12
  | .lookingUp _ => 11
  | .coalescing _ stage => (call.map fun c => c.phase.left stage.left).getD 0
  | .forwarding _ stage => stage.left
  | .done _ _ => 0
  | .cancelled => 0

/-- The steps of a batch that are left, the tasks of the items still to be started included. An item
takes at most fifteen: its start, the thirteen of its task, and its collection. -/
def Batch.left (batch : Batch ι) : ℕ :=
  let running := if batch.current.isSome then 1 else 0
  15 * (batch.reqs.length - batch.items.length - running) + running +
    if batch.replied.isNone then 1 else 0

def ProxyState.taskLeft (s : ProxyState ι Text) (i : ℕ) : ℕ :=
  ((s.tasks i).map fun task => task.phase.left (s.coalescer.calls i)).getD 0

def ProxyState.batchLeft (s : ProxyState ι Text) (b : ℕ) : ℕ :=
  ((s.batches b).map Batch.left).getD 0

/-- **The steps that are left.** -/
noncomputable def ProxyState.stepsLeft (s : ProxyState ι Text) : ℕ :=
  total s.taskLeft + total s.batchLeft

/-- At most two commands are issued for an answer. -/
theorem length_storeAnswer_le (serde : SerdeJson Text) (blake3 : Blake3 Text) (cache : CacheConfig)
    (chain : ChainConfig) (req : JsonRpcRequest) (x : Answer) :
    (storeAnswer serde blake3 cache chain req x).length ≤ 2 := by
  cases x with
  | error e => exact Nat.zero_le 2
  | ok resp =>
    simp only [storeAnswer]
    split
    · rw [CacheLayer.set]
      split
      · exact Nat.zero_le 2
      · split <;> simp
    · exact Nat.zero_le 2

section Left

variable {s t : ProxyState ι Text} {i : ℕ} {task : Task ι Text} {m : Move Text} {a : TaskStep}

theorem Forwarding.left_pos (stage : Forwarding Text) : 0 < stage.left := by
  cases stage <;> exact Nat.succ_pos _

/-- A call moves on. -/
theorem PhaseMove.left_lt {k : CoalescerState String Text JsonRpcResponse} {key : String}
    {phase phase' : CallPhase JsonRpcResponse} {act : CallAction String JsonRpcResponse} {n : ℕ}
    (h : PhaseMove (JsonRpcResponse.ofText serde) k i key phase act phase') (hindex : act.index = i)
    (hn : 0 < n) (hact : act ≠ .insert i ∨ n = 5) : phase'.left n < phase.left n := by
  cases h with
  | stays hne => exact absurd hindex.symm hne
  | lead | subscribe | remove | receive | retry => simp [CallPhase.left]
  | insert =>
    obtain rfl := hact.resolve_left (not_not.mpr rfl)
    simp [CallPhase.left]
  | upstream =>
    simp only [CallPhase.left]
    omega
  | broadcast => simp [CallPhase.left]
  | @leave phase hidle => cases phase <;> simp_all [CallPhase.Idle, CallPhase.left]
  | abandon => simp [CallPhase.left]

/-- What is left of a task that is coalescing, by the phase of its call. -/
theorem left_of_call {req : JsonRpcRequest} {stage : Forwarding Text}
    {call : Option (Call String JsonRpcResponse)} {key : String} {phase : CallPhase JsonRpcResponse}
    (hphase : task.phase = .coalescing req stage) (hcall : call = some ⟨key, phase⟩) :
    task.phase.left call = phase.left stage.left := by
  rw [hphase, hcall]
  rfl

/-- What is left of a task that is forwarding. -/
theorem left_of_forwards {req : JsonRpcRequest} {wrap : Forwarding Text → TaskPhase Text}
    (hwrap : Forwards req wrap) (hcall : wrap = .forwarding req ∨ s.executing i = true) :
    ∃ n, ∀ stage, (wrap stage).left (s.coalescer.calls i) = stage.left + n := by
  cases hwrap with
  | forwarding => exact ⟨0, fun _ => rfl⟩
  | coalescing =>
    have hne : (TaskPhase.coalescing req : Forwarding Text → TaskPhase Text) ≠ .forwarding req :=
      fun h => by cases congrFun h .calling
    obtain ⟨key, ch, hexecuting⟩ := executing_eq_true (hcall.resolve_left hne)
    refine ⟨2, fun stage => ?_⟩
    rw [TaskPhase.left, hexecuting]
    rfl

/-- A step of its call leaves a task less to do. -/
theorem left_call_lt {req : JsonRpcRequest} {stage : Forwarding Text}
    {k : CoalescerState String Text JsonRpcResponse} {act : CallAction String JsonRpcResponse}
    (hok : TaskOk serde blake3 app task (s.coalescer.calls i) (s.answers i))
    (hphase : task.phase = .coalescing req stage)
    (hk : requestCoalescerStep serde s.coalescer act = some k) (hindex : act.index = i) :
    (TaskPhase.coalescing req stage).left (k.calls i) <
      task.phase.left (s.coalescer.calls i) := by
  rw [TaskOk, hphase] at hok
  obtain ⟨-, phase, hcall, hcallOk⟩ := hok
  obtain ⟨phase', hcall', hmove⟩ := phaseMove hk hcall
  rw [left_of_call hphase hcall, TaskPhase.left, hcall']
  refine hmove.left_lt hindex stage.left_pos ?_
  by_cases hinsert : act = .insert i
  · subst hinsert
    cases hmove with
    | stays hne => exact absurd rfl hne
    | insert =>
      obtain ⟨rfl, -⟩ := hcallOk
      exact .inr rfl
  · exact .inl hinsert

/-- **A step of a task leaves it less to do**, on every path. -/
theorem TaskMoved.left_lt (h : TaskMoved serde blake3 app s i task a m) (ha : a ≠ .cancel)
    (hok : TaskOk serde blake3 app task (s.coalescer.calls i) (s.answers i)) :
    m.phase.left (m.coalescer.calls i) < task.phase.left (s.coalescer.calls i) := by
  cases h with
  | blocked hphase | intercept hphase | enter hphase | pass hphase | lookUp hphase | hit hphase =>
    rw [hphase]
    exact Nat.lt_of_sub_pos (Nat.succ_pos _)
  | @miss ok req k hphase hk =>
    rw [hphase]
    cases callMove hk with
    | call hcall =>
      show TaskPhase.left ((s.coalescer.advance i _ .start).calls i)
        (.coalescing req .calling) < 11
      rw [CoalescerState.calls_advance_self]
      exact Nat.lt_succ_self 10
  | @coalesce op req stage k hphase hk hnone =>
    exact left_call_lt hok hphase hk (by cases op <;> rfl)
  | @returned op req stage k resp hphase hk hresp =>
    exact (Nat.zero_le _).trans_lt (left_call_lt hok hphase hk (by cases op <;> rfl))
  | handOver hphase hresp hk => exact left_call_lt hok hphase hk rfl
  | @finish req stage resp hphase hresp =>
    rw [hphase]
    exact stage.left_pos
  | @forward req wrap hwrap hphase hcall =>
    obtain ⟨n, hn⟩ := left_of_forwards hwrap hcall
    show (wrap .awaiting).left (s.coalescer.calls i) < _
    rw [hphase, hn, hn]
    exact Nat.add_lt_add_right (Nat.lt_succ_self 4) n
  | @answer req wrap x hwrap hphase hcall =>
    obtain ⟨n, hn⟩ := left_of_forwards hwrap hcall
    show (wrap (.storing _ x)).left (s.coalescer.calls i) < _
    rw [hphase, hn, hn]
    have hshort := length_storeAnswer_le serde blake3 app.cache (app.chains task.chain) req x
    simp only [Forwarding.left]
    omega
  | @store req wrap c cmds x ok hwrap hphase hcall =>
    obtain ⟨n, hn⟩ := left_of_forwards hwrap hcall
    show (wrap (.storing cmds x)).left (s.coalescer.calls i) < _
    rw [hphase, hn, hn]
    simp only [Forwarding.left, List.length_cons]
    omega
  | cancel | cancelCall => exact absurd rfl ha

/-! ### The steps of the proxy that are left -/

theorem ProxyState.taskLeft_apply (htask : s.tasks i = some task)
    (hm : taskMove serde blake3 app s i task a = some m) :
    (s.apply i task m).taskLeft =
      Function.update s.taskLeft i (m.phase.left (m.coalescer.calls i)) := by
  funext j
  by_cases hji : j = i
  · subst hji
    rw [Function.update_self, taskLeft, s.tasks_apply_self]
    rfl
  · rw [Function.update_of_ne hji, taskLeft, s.tasks_apply_of_ne task m hji,
      calls_apply_of_ne hm hji, taskLeft]

theorem ProxyState.taskLeft_withTask (s : ProxyState ι Text) (i : ℕ) (chain : ι)
    (req : JsonRpcRequest) (origin : Option (ℕ × ℕ)) :
    (s.withTask i chain req origin).taskLeft = Function.update s.taskLeft i 13 := by
  funext j
  by_cases hji : j = i
  · subst hji
    rw [Function.update_self, taskLeft, s.tasks_withTask_self]
    rfl
  · rw [Function.update_of_ne hji, taskLeft, s.tasks_withTask_of_ne chain req origin hji, taskLeft]
    rfl

theorem ProxyState.batchLeft_setBatch (s : ProxyState ι Text) (b : ℕ) (batch : Batch ι) :
    (s.setBatch b batch).batchLeft = Function.update s.batchLeft b batch.left := by
  funext b'
  by_cases hne : b' = b
  · subst hne
    rw [Function.update_self, batchLeft, s.batches_setBatch_self]
    rfl
  · rw [Function.update_of_ne hne, batchLeft, s.batches_setBatch_of_ne batch hne, batchLeft]

/-- The second pass goes on to the next item. -/
theorem Batch.left_next {batch : Batch ι} (hlt : batch.items.length < batch.reqs.length)
    (hcurrent : batch.current = none) (item : Option (ℕ × JsonRpcResponse)) :
    ({ batch with items := batch.items ++ [item] } : Batch ι).left + 15 = batch.left := by
  simp only [Batch.left, hcurrent, List.length_append, List.length_singleton, Option.isSome_none,
    Bool.false_eq_true, if_false]
  omega

/-- The second pass starts an item. -/
theorem Batch.left_start {batch : Batch ι} (hlt : batch.items.length < batch.reqs.length)
    (hcurrent : batch.current = none) (i : ℕ) :
    ({ batch with current := some i } : Batch ι).left + 14 = batch.left := by
  simp only [Batch.left, hcurrent, Option.isSome_none, Option.isSome_some, Bool.false_eq_true,
    if_false, if_true]
  omega

/-- The second pass is done with an item. -/
theorem Batch.left_collect {batch : Batch ι} {i : ℕ} (hcurrent : batch.current = some i)
    (item : Option (ℕ × JsonRpcResponse)) :
    ({ batch with items := batch.items ++ [item], current := none } : Batch ι).left + 1 =
      batch.left := by
  simp only [Batch.left, hcurrent, List.length_append, List.length_singleton, Option.isSome_none,
    Option.isSome_some, Bool.false_eq_true, if_false, if_true]
  omega

/-- The batch is replied to. -/
theorem Batch.left_reply {batch : Batch ι} (hreplied : batch.replied = none)
    (responses : List JsonRpcResponse) :
    ({ batch with replied := some responses } : Batch ι).left + 1 = batch.left := by
  simp only [Batch.left, hreplied, Option.isNone_none, Option.isNone_some, Bool.false_eq_true,
    if_false, if_true]

/-- A batch that changes changes what is left by what is left of it. -/
theorem total_setBatch {b : ℕ} {batch : Batch ι} (batch' : Batch ι)
    (hfinite : s.FinitelyMany) (hbatch : s.batches b = some batch) :
    total (s.setBatch b batch').batchLeft + batch.left = total s.batchLeft + batch'.left := by
  have hsupport : s.batchLeft.support.Finite := hfinite.batches.subset fun b' hb' hnone => hb' (by
    rw [ProxyState.batchLeft, hnone]
    rfl)
  have hleft : s.batchLeft b = batch.left := by
    rw [ProxyState.batchLeft, hbatch]
    rfl
  rw [s.batchLeft_setBatch, ← hleft]
  exact total_update hsupport b batch'.left

theorem total_setBatch_lt {b : ℕ} {batch batch' : Batch ι}
    (hfinite : s.FinitelyMany) (hbatch : s.batches b = some batch)
    (hlt : batch'.left < batch.left) :
    total (s.setBatch b batch').batchLeft < total s.batchLeft := by
  have hsum := total_setBatch batch' hfinite hbatch
  omega

/-- An item that the second pass comes to is one of the requests. -/
theorem length_items_lt {batch : Batch ι} {entry : Option ℕ}
    (hentry : (batch.dedup serde blake3 app)[batch.items.length]? = some entry) :
    batch.items.length < batch.reqs.length := by
  have hlt := (List.getElem?_eq_some_iff.mp hentry).1
  rwa [Batch.dedup, length_firstPass] at hlt

theorem finite_taskLeft (hfinite : s.FinitelyMany) : s.taskLeft.support.Finite :=
  hfinite.tasks.subset fun i hi hnone => hi (by
    rw [ProxyState.taskLeft, hnone]
    rfl)

variable [DecidableEq ι]

/-- **Every step that goes on by itself leaves the proxy less to do.** A step belongs to one task or
one batch, and the others keep what they have left. -/
theorem stepsLeft_lt {act : ProxyAction ι} (hs : ProxyInv serde blake3 app s)
    (hfinite : s.FinitelyMany) (hinternal : act.Internal)
    (h : proxyStep serde blake3 app s act = some t) :
    t.stepsLeft < s.stepsLeft := by
  cases stepped h with
  | request | head | write | batch => exact absurd hinternal not_false
  | @move i a task m htask hm =>
    have hcancel : a ≠ .cancel := by
      rintro rfl
      exact hinternal
    have hlower := (taskMoved hm).left_lt hcancel (hs.task i task htask)
    have hleft : s.taskLeft i = task.phase.left (s.coalescer.calls i) := by
      rw [ProxyState.taskLeft, htask]
      rfl
    have hsum := total_update (finite_taskLeft hfinite) i (m.phase.left (m.coalescer.calls i))
    rw [← ProxyState.taskLeft_apply htask hm] at hsum
    have hbatches : (s.apply i task m).batchLeft = s.batchLeft := rfl
    rw [ProxyState.stepsLeft, ProxyState.stepsLeft, hbatches]
    omega
  | @skip b first batch hbatch hcurrent hdedup =>
    have hbatchLeft := Batch.left_next (length_items_lt hdedup) hcurrent none
    exact Nat.add_lt_add_left (total_setBatch_lt hfinite hbatch (by omega)) _
  | @item b i batch req hbatch hcurrent hdedup hreq hfresh =>
    have hbatchLeft := Batch.left_start (length_items_lt hdedup) hcurrent i
    have hbatches := total_setBatch { batch with current := some i } hfinite hbatch
    have htasks := total_update (finite_taskLeft hfinite) i 13
    have hleft : s.taskLeft i = 0 := by
      rw [ProxyState.taskLeft, hfresh]
      rfl
    rw [← s.taskLeft_withTask i batch.chain req (some (b, batch.items.length)), hleft] at htasks
    show total (s.withTask i batch.chain req _).taskLeft + total (s.setBatch b _).batchLeft <
      total s.taskLeft + total s.batchLeft
    omega
  | @collect b i batch task exit resp hbatch hcurrent htask hdone =>
    have hbatchLeft := Batch.left_collect hcurrent (some (i, resp))
    exact Nat.add_lt_add_left (total_setBatch_lt hfinite hbatch (by omega)) _
  | @reply b batch responses hbatch hcurrent hlength hreplied hresponses =>
    have hbatchLeft := Batch.left_reply hreplied responses
    exact Nat.add_lt_add_left (total_setBatch_lt hfinite hbatch (by omega)) _

end Left

/-! ### Everything is answered -/

section Complete

variable [DecidableEq ι] {redis : Redis Text} {latest : ι → Option ℕ} {as : List (ProxyAction ι)}
  {s : ProxyState ι Text}

/-- **Everything is answered.** As long as no call has been dropped that leads an entry of
`in_flight`, what the proxy and the upstreams do by themselves comes to an end after at most
`stepsLeft` steps, in whatever order they do it; when it has come to an end, every task has been
answered or dropped and every batch is over, be it that one of its items was dropped or could not be
logged (`BatchOver`); and it can be brought to an end. -/
theorem proxy_completes
    (hstays : Along (proxyStep serde blake3 app) LeaderStays (.init redis latest) as)
    (hrun : run (proxyStep serde blake3 app) (.init redis latest) as = some s) :
    (∀ bs t, (∀ b ∈ bs, ProxyAction.Internal b) → run (proxyStep serde blake3 app) s bs = some t →
      bs.length + t.stepsLeft ≤ s.stepsLeft ∧
        (Quiet (proxyStep serde blake3 app) ProxyAction.Internal t → t.Settled app)) ∧
    ∃ bs t, (∀ b ∈ bs, ProxyAction.Internal b) ∧
      run (proxyStep serde blake3 app) s bs = some t ∧ t.Settled app := by
  have hstep : ∀ u a v, ProxyInv serde blake3 app u ∧ u.FinitelyMany → ProxyAction.Internal a →
      proxyStep serde blake3 app u a = some v → ProxyInv serde blake3 app v ∧ v.FinitelyMany :=
    fun u a v hu _ h => ⟨proxyInv_step hu.1 h, proxyFinite_step hu.2 h⟩
  have hlower : ∀ u a v, ProxyInv serde blake3 app u ∧ u.FinitelyMany → ProxyAction.Internal a →
      proxyStep serde blake3 app u a = some v → v.stepsLeft < u.stepsLeft :=
    fun u a v hu ha h => stepsLeft_lt hu.1 hu.2 ha h
  have hs : ProxyInv serde blake3 app s ∧ s.FinitelyMany :=
    ⟨(proxyRun_inv hrun).1, proxyFinite_run hrun⟩
  have hsettled : ∀ bs t, (∀ b ∈ bs, ProxyAction.Internal b) →
      run (proxyStep serde blake3 app) s bs = some t →
        Quiet (proxyStep serde blake3 app) ProxyAction.Internal t → t.Settled app := by
    intro bs t hbs hrest hquiet
    have hquietly : Along (proxyStep serde blake3 app) LeaderStays s bs :=
      (along_of_forall hbs).mono fun u a ha => leaderStays_of_internal ha
    refine settled_of_quiet (hstays.append hrun hquietly) ?_ hquiet
    rw [run_append, hrun]
    exact hrest
  refine ⟨fun bs t hbs hrest => ⟨length_le_of_decreasing hstep hlower hs hbs hrest,
    hsettled bs t hbs hrest⟩, ?_⟩
  obtain ⟨bs, t, hbs, hrest, hquiet⟩ := exists_run_quiet hstep hlower s hs
  exact ⟨bs, t, hbs, hrest, hsettled bs t hbs hrest hquiet⟩

end Complete

/-- The two clients of `twoClients` both get their responses. -/
theorem twoClients_complete :
    ∃ s : ProxyState Unit Value, run (proxyStep .tree balanceDigest oneChain)
        (.init (fun _ => none) fun _ => none) twoClients = some s ∧
      ∃ bs t, (∀ b ∈ bs, ProxyAction.Internal b) ∧
        run (proxyStep .tree balanceDigest oneChain) s bs = some t ∧ t.Settled oneChain := by
  obtain ⟨s, hrun⟩ : ∃ s, run (proxyStep .tree balanceDigest oneChain)
      (.init (fun _ => none) fun _ => none) twoClients = some s := ⟨_, rfl⟩
  have hstays : Along (proxyStep .tree balanceDigest oneChain) LeaderStays
      (.init (fun _ => none) fun _ => none) twoClients := by
    refine (along_of_forall (L := fun a => ∀ i, a ≠ .task i .cancel) ?_).mono fun u a ha => ?_
    · simp [twoClients]
    · cases a with
      | task i step =>
        cases step with
        | cancel => exact absurd rfl (ha i)
        | _ => trivial
      | _ => trivial
  exact ⟨s, hrun, (proxy_completes hstays hrun).2⟩

end Poolbeg
