import Poolbeg.Rpc.Provenance
import Poolbeg.Rpc.TaskInvariant

/-!
# The coalescer of the proxy

The tasks of the proxy drive the coalescer: what a run of the proxy does to it is a run of the
coalescer by itself, so that everything that holds of those runs holds of the coalescer in a proxy.
In the other direction, a call that holds a sender belongs to a task that is waiting for it.

## Why both directions

A task and its call have one number. The task is in the phase `coalescing` from the moment the call
begins until it takes the call's response, and the call does its own steps in the meantime. The
first direction makes the results about the coalescer alone available in the proxy. The second rules
out that a sender outlives its task: a task that is cancelled, that panics or that goes on without
its call has a call that holds nothing, so an orphan in the map is always that of a cancelled call,
and not of one that somebody still waits for.

A task that is cancelled while it coalesces cancels its call in the same step, since dropping the
future of the task drops that of the call. In any other phase the call is over or has not begun.

## Main definitions

* `ProxyState.Leads` — who holds a sender is coalescing

## Main results

* `exists_coalescer_run` — the coalescer's part of a run
* `channel_of_waiting` — a waiter has a channel of its own key
* `proxyRun_inv` — both invariants hold in every reachable state
-/

namespace Poolbeg

open Lts

variable {ι Text : Type} {serde : SerdeJson Text} {blake3 : Blake3 Text} {app : AppConfig ι}
  {s t : ProxyState ι Text} {i : ℕ} {task : Task ι Text} {m : Move Text} {a : TaskStep}
  {key : String}

/-! ### What cancelling a task does to its call -/

/-- A task that is cancelled while it is coalescing cancels its call. -/
theorem cancel_coalescer (h : taskMove serde blake3 app s i task .cancel = some m) :
    (∀ req stage, task.phase ≠ .coalescing req stage) ∧ m.coalescer = s.coalescer ∨
      requestCoalescerStep serde s.coalescer (.cancel i) = some m.coalescer := by
  rw [taskMove] at h
  cases hphase : task.phase with
  | entry | lookingUp req | forwarding req stage =>
    rw [hphase] at h
    cases h
    refine .inl ⟨fun _ _ h => ?_, rfl⟩
    cases h
  | resolving | done exit resp | cancelled =>
    rw [hphase] at h
    cases h
  | coalescing req stage =>
    rw [hphase] at h
    obtain ⟨k, hk, rfl⟩ := Option.map_eq_some_iff.mp h
    exact .inr hk

/-- A call that has been cancelled holds nothing. -/
theorem holding_of_cancel {k k' : CoalescerState String Text JsonRpcResponse}
    (h : requestCoalescerStep serde k (.cancel i) = some k') : k'.holding i = none := by
  cases callMove h with
  | leave hcall hidle => exact CoalescerState.holding_eq (k.calls_advance_self i _ _)
  | abandon hcall => exact CoalescerState.holding_eq (k.calls_advance_self i _ _)

/-! ### Who holds a sender -/

/-- Every sender that a call holds is that of a task that is coalescing. The task has the number of
its call. -/
def ProxyState.Leads (s : ProxyState ι Text) : Prop :=
  ∀ i, s.coalescer.holding i ≠ none →
    ∃ task req stage, s.tasks i = some task ∧ task.phase = .coalescing req stage

/-- A call that does not exist holds nothing. -/
theorem holding_of_calls_none (h : s.coalescer.calls i = none) : s.coalescer.holding i = none := by
  rw [CoalescerState.holding, h, Option.bind_none]

/-- A task that has left its call behind, or has none yet, holds nothing. -/
theorem holding_of_move (hs : ProxyInv serde blake3 app s) (hleads : s.Leads)
    (htask : s.tasks i = some task) (hm : taskMove serde blake3 app s i task a = some m)
    (hphase : ∀ req stage, m.phase ≠ .coalescing req stage) : m.coalescer.holding i = none := by
  have hok := hs.task i task htask
  have hidle : (∀ req stage, task.phase ≠ .coalescing req stage) →
      s.coalescer.holding i = none := by
    intro hne
    by_contra hholding
    obtain ⟨task', req, stage, htask', hcoalescing⟩ := hleads i hholding
    obtain rfl := Option.some.inj (htask.symm.trans htask')
    exact hne req stage hcoalescing
  cases taskMoved hm with
  | blocked hold | intercept hold | enter hold | pass hold | lookUp hold | hit hold | finish hold =>
    exact hidle fun req stage h => by cases hold.symm.trans h
  | miss | coalesce | handOver => exact absurd rfl (hphase _ _)
  | returned hold hk hresp =>
    rw [returnedBy] at hresp
    split at hresp
    · rename_i hcall
      exact CoalescerState.holding_eq hcall
    · cases hresp
  | forward hwrap hold | answer hwrap hold | store hwrap hold =>
    cases hwrap with
    | coalescing => exact absurd rfl (hphase _ _)
    | forwarding => exact hidle fun req stage h => by cases hold.symm.trans h
  | cancel | cancelCall =>
    rcases cancel_coalescer hm with ⟨hne, hsame⟩ | hcancel
    · rw [hsame]
      exact hidle hne
    · exact holding_of_cancel hcancel

theorem leads_apply (hs : ProxyInv serde blake3 app s) (hleads : s.Leads)
    (htask : s.tasks i = some task) (hm : taskMove serde blake3 app s i task a = some m) :
    (s.apply i task m).Leads := by
  intro j hj
  by_cases hji : j = i
  · subst hji
    by_cases hcoalescing : ∃ req stage, m.phase = .coalescing req stage
    · obtain ⟨req, stage, hphase⟩ := hcoalescing
      exact ⟨_, req, stage, s.tasks_apply_self j task m, hphase⟩
    · refine absurd (holding_of_move hs hleads htask hm fun req stage hphase => ?_) hj
      exact hcoalescing ⟨req, stage, hphase⟩
  · have hcalls : (s.apply i task m).coalescer.holding j = s.coalescer.holding j := by
      rw [CoalescerState.holding, calls_apply_of_ne hm hji]
      rfl
    rw [s.tasks_apply_of_ne task m hji]
    exact hleads j (hcalls ▸ hj)

theorem leads_step [DecidableEq ι] {b : ProxyAction ι} (hs : ProxyInv serde blake3 app s)
    (hleads : s.Leads) (h : proxyStep serde blake3 app s b = some t) : t.Leads := by
  have hstart : ∀ {i chain req origin}, s.tasks i = none →
      (s.withTask i chain req origin).Leads := by
    intro i chain req origin hfresh j hj
    have hji : j ≠ i := by
      rintro rfl
      exact hj (holding_of_calls_none (hs.fresh j hfresh).1)
    rw [s.tasks_withTask_of_ne chain req origin hji]
    exact hleads j hj
  cases stepped h with
  | request hfresh => exact hstart hfresh
  | item hbatch hcurrent hdedup hreq hfresh => exact hstart hfresh
  | move htask hm => exact leads_apply hs hleads htask hm
  | head | write | batch | skip | collect | reply => exact hleads

/-! ### Runs -/

section Runs

variable [DecidableEq ι] {redis : Redis Text} {latest : ι → Option ℕ} {as : List (ProxyAction ι)}

/-- **What the tasks do to the coalescer is a run of it.** A step of a task is one step of its call
or none, and cancelling the task is the call's own cancellation. -/
theorem exists_coalescer_run
    (hrun : run (proxyStep serde blake3 app) (.init redis latest) as = some s) :
    ∃ cs, run (requestCoalescerStep serde) .init cs = some s.coalescer := by
  refine run_inv (I := fun s => ∃ cs, run (requestCoalescerStep serde) .init cs = some s.coalescer)
    (fun u b v hu hv => ?_) ⟨[], rfl⟩ hrun
  obtain ⟨cs, hcs⟩ := hu
  cases stepped hv with
  | move htask hm =>
    rcases taskMove_coalescer hm with hsame | ⟨act, hact, -, -⟩
    · exact ⟨cs, hcs.trans (congrArg some hsame.symm)⟩
    · exact ⟨cs ++ [act], run_concat_eq_some.mpr ⟨u.coalescer, hcs, hact⟩⟩
  | request | head | write | batch | skip | item | collect | reply => exact ⟨cs, hcs⟩

/-- A waiter has a channel, which was opened for its key. It found the channel in the map under that
key, and channels do not change their key. -/
theorem channel_of_waiting
    (hrun : run (proxyStep serde blake3 app) (.init redis latest) as = some s) {ch pos : ℕ}
    (hcall : s.coalescer.calls i = some ⟨key, .waiting ch pos⟩) :
    ∃ c, s.coalescer.coalescer.channels[ch]? = some c ∧ c.key = key := by
  obtain ⟨cs, hcs⟩ := exists_coalescer_run hrun
  obtain ⟨c, -, -, hc, hkey, -⟩ := (callHistory_run hcs).waiting i key ch pos hcall
  exact ⟨c, hc, hkey⟩

theorem proxyRun_inv
    (hrun : run (proxyStep serde blake3 app) (.init redis latest) as = some s) :
    ProxyInv serde blake3 app s ∧ s.Leads := by
  refine run_inv (I := fun s => ProxyInv serde blake3 app s ∧ s.Leads)
    (fun u b v hu hv => ⟨proxyInv_step hu.1 hv, leads_step hu.1 hu.2 hv⟩)
    ⟨proxyInv_init redis latest, fun _ hj => absurd rfl hj⟩ hrun

end Runs

end Poolbeg
