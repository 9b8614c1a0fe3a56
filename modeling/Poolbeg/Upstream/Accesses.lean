import Poolbeg.Upstream.Client

/-!
# The health of an upstream, access by access

The methods of `upstream/client.rs` are called from many tasks on several threads, and none of them
holds a lock for longer than one line: the flags and the count of failures are atomics, and the list
of errors and the time of the next check have a mutex each. Here every load, every store and every
reading of the clock is a step of its own, and the calls interleave between any two of them. What is
kept of the memory model is one order of all accesses.

## Calls that do not overlap

These are the methods as they are elsewhere, one step each (`serial_refines`). In one direction, the
accesses of a call that nothing comes in between add up to what the method does, whatever the clock
reads at each of them. In the other, a method that is called with given readings of the clock can be
carried out access by access, with time passing where it has to.

## Calls that do

They may undo one another. Two rules disable an upstream, and one call enables it again:
`record_success` looks whether the upstream is disabled, and for how many errors, and then stores
that it is not. What another call has disabled in between is enabled by that store, and no other
access ever does such a thing (`always_disables_iff`). Everything else that may be lost in an
overlap, a time of the next check or a success among failures, disables the upstream no less.

## Main definitions

* `MethodPhase`, `MethodPhase.access` — what a call does next
* `AccessState`, `accessStep` — all calls together
* `Serialised` — what calls that do not overlap have done
* `AccessState.Owed`, `AccessState.Disables`, `EnablesRightly` — the two rules

## Main results

* `serial_refines` — calls that do not overlap are the methods one after the other
* `always_disables_iff` — when the two rules are kept in spite of overlaps
-/

namespace Poolbeg

open Lts UpstreamClient

/-- The methods that write to the bookkeeping. -/
inductive Method
  | recordSuccess
  | recordFailure
  | recordHttpError
  | setHealthy (healthy : Bool)
  | hasTooManyHttpErrors

/-- The next access of a call, with what it has read so far. A call of `record_success` has up to
seven. -/
inductive MethodPhase
  | resetFailures
  | loadDisabled
  | readWindow
  | countErrors (now : ℕ)
  | clearErrors
  | enable
  | addFailure
  | readError
  | pushError (now : ℕ)
  | disable
  | markUnhealthy
  | schedule (delay : ℕ)
  | storeNextCheck (time : ℕ)
  | mark (healthy : Bool)
  | askWindow
  | askErrors (now : ℕ)

/-- The first access of a method. -/
def Method.entry : Method → MethodPhase
  | .recordSuccess => .resetFailures
  | .recordFailure => .addFailure
  | .recordHttpError => .readError
  | .setHealthy healthy => .mark healthy
  | .hasTooManyHttpErrors => .askWindow

/-- One access: what it leaves of the client, and what the call does next, if it goes on. -/
def MethodPhase.access (c : UpstreamClient) (clock : ℕ) :
    MethodPhase → UpstreamClient × Option MethodPhase
  -- `record_success`
  | .resetFailures => ({ c with consecutiveFailures := 0 }, some .loadDisabled)
  | .loadDisabled => (c, some (if c.disabled then .readWindow else .enable))
  | .readWindow => (c, some (.countErrors clock))
  | .countErrors now =>
    (c.prune now, some (if c.hasTooManyHttpErrors now then .schedule c.disabledRetryInterval
      else .clearErrors))
  | .clearErrors => ({ c with httpErrorTimes := [] }, some .enable)
  | .enable => ({ c with disabled := false }, some (.schedule 0))
  -- `record_failure`
  | .addFailure =>
    let failures := c.consecutiveFailures + 1
    ({ c with consecutiveFailures := failures },
      some (if maxConsecutiveFailures ≤ failures then .disable else .schedule (backoff failures)))
  -- `record_http_error`; the list stays locked until the errors have been counted
  | .readError => (c, some (.pushError clock))
  | .pushError now =>
    let times := recentErrors (c.httpErrorTimes ++ [now]) now
    ({ c with httpErrorTimes := times },
      if maxHttpErrors ≤ times.length then some .disable else none)
  -- both of them
  | .disable => ({ c with disabled := true }, some .markUnhealthy)
  | .markUnhealthy => ({ c with healthy := false }, some (.schedule c.disabledRetryInterval))
  -- the time is read before the lock is taken
  | .schedule delay => (c, some (.storeNextCheck (clock + delay)))
  | .storeNextCheck time => ({ c with nextCheckAt := time }, none)
  | .mark healthy => (c.setHealthy healthy, none)
  | .askWindow => (c, some (.askErrors clock))
  | .askErrors now => (c.prune now, none)

/-- The client, the clock, and the calls in progress. Any number of calls may be under way. -/
structure AccessState where
  client : UpstreamClient
  clock : ℕ
  calls : ℕ → Option MethodPhase

def AccessState.init (disabledRetryInterval start : ℕ) : AccessState where
  client := .new disabledRetryInterval start
  clock := start
  calls _ := none

inductive AccessAction
  | begin (i : ℕ) (method : Method)
  | access (i : ℕ)
  | pass (d : ℕ)

def accessStep (s : AccessState) : AccessAction → Option AccessState
  | .begin i method =>
    match s.calls i with
    | none => some { s with calls := Function.update s.calls i (some method.entry) }
    | some _ => none
  | .access i =>
    (s.calls i).map fun phase =>
      let next := phase.access s.client s.clock
      ⟨next.1, s.clock, Function.update s.calls i next.2⟩
  | .pass d => some { s with clock := s.clock + d }

variable {s t : AccessState} {a : AccessAction} {c : UpstreamClient}

/-- What a step does. -/
inductive AccessMove (s : AccessState) : AccessAction → AccessState → Prop
  | begin {i : ℕ} {method : Method} (hfree : s.calls i = none) :
      AccessMove s (.begin i method)
        ⟨s.client, s.clock, Function.update s.calls i (some method.entry)⟩
  | access {i : ℕ} {phase : MethodPhase} (hphase : s.calls i = some phase) :
      AccessMove s (.access i) ⟨(phase.access s.client s.clock).1, s.clock,
        Function.update s.calls i (phase.access s.client s.clock).2⟩
  | pass {d : ℕ} : AccessMove s (.pass d) ⟨s.client, s.clock + d, s.calls⟩

theorem accessMove (h : accessStep s a = some t) : AccessMove s a t := by
  cases a with
  | begin i method =>
    cases hfree : s.calls i with
    | some phase => simp [accessStep, hfree] at h
    | none =>
      simp only [accessStep, hfree, Option.some.injEq] at h
      exact h ▸ .begin hfree
  | access i =>
    obtain ⟨phase, hphase, rfl⟩ := Option.map_eq_some_iff.mp h
    exact .access hphase
  | pass d =>
    cases h
    exact .pass

/-! ### A call that nothing comes in between -/

/-- The call as it is elsewhere, by what it reads from the clock for the window and for the
schedule. -/
def Method.op (now later : ℕ) : Method → ClientOp
  | .recordSuccess => .recordSuccess now later
  | .recordFailure => .recordFailure later
  | .recordHttpError => .recordHttpError now later
  | .setHealthy healthy => .setHealthy healthy
  | .hasTooManyHttpErrors => .hasTooManyHttpErrors now

/-- What a success does to a disabled client, by the time at which the errors are counted. -/
def judged (c : UpstreamClient) (now later : ℕ) : UpstreamClient :=
  if c.hasTooManyHttpErrors now then
    { c.prune now with nextCheckAt := later + c.disabledRetryInterval }
  else { c with httpErrorTimes := [], disabled := false, nextCheckAt := later }

namespace MethodPhase

/-- What the rest of a call makes of the client, if nothing comes in between. `now` and `later` are
what it still reads. -/
def finish (c : UpstreamClient) (now later : ℕ) : MethodPhase → UpstreamClient
  | .resetFailures => c.recordSuccess now later
  | .loadDisabled =>
    if c.disabled then judged c now later else { c with disabled := false, nextCheckAt := later }
  | .readWindow => judged c now later
  | .countErrors now => judged c now later
  | .clearErrors => { c with httpErrorTimes := [], disabled := false, nextCheckAt := later }
  | .enable => { c with disabled := false, nextCheckAt := later }
  | .addFailure => c.recordFailure later
  | .readError => c.recordHttpError now later
  | .pushError now => c.recordHttpError now later
  | .disable => c.disable later
  | .markUnhealthy =>
    { c with healthy := false, nextCheckAt := later + c.disabledRetryInterval }
  | .schedule delay => { c with nextCheckAt := later + delay }
  | .storeNextCheck time => { c with nextCheckAt := time }
  | .mark healthy => c.setHealthy healthy
  | .askWindow => c.prune now
  | .askErrors now => c.prune now

/-- The access reads the clock for the schedule. -/
def readsSchedule : MethodPhase → Bool
  | .schedule _ => true
  | _ => false

/-- The access reads the clock. -/
def readsClock : MethodPhase → Bool
  | .readWindow | .readError | .askWindow | .schedule _ => true
  | _ => false

theorem readsClock_of_readsSchedule {phase : MethodPhase} (h : phase.readsSchedule = true) :
    phase.readsClock = true := by
  cases phase with
  | schedule delay => rfl
  | _ => cases h

/-- What is left to do, if anything is. -/
def finishOrDone (c : UpstreamClient) (now later : ℕ) : Option MethodPhase → UpstreamClient
  | none => c
  | some phase => phase.finish c now later

/-- A call that has begun does what the method does. -/
theorem finish_entry (method : Method) (now later : ℕ) :
    method.entry.finish c now later = (method.op now later).perform c := by
  cases method <;> rfl

/-- **One access** does the first part of what is left to do. By it the accesses of a call add up to
its method. -/
theorem finish_access (phase : MethodPhase) (c : UpstreamClient) (clock now later : ℕ) :
    finishOrDone (phase.access c clock).1 now later (phase.access c clock).2 =
      phase.finish c (if phase.readsClock then clock else now)
        (if phase.readsSchedule then clock else later) := by
  cases phase with
  | loadDisabled =>
    change (if c.disabled then MethodPhase.readWindow else .enable).finish c now later =
      if c.disabled then judged c now later else { c with disabled := false, nextCheckAt := later }
    split_ifs <;> rfl
  | countErrors seen =>
    change (if c.hasTooManyHttpErrors seen then .schedule c.disabledRetryInterval
      else MethodPhase.clearErrors).finish (c.prune seen) now later = judged c seen later
    rw [judged]
    split_ifs <;> rfl
  | addFailure =>
    change (if maxConsecutiveFailures ≤ c.consecutiveFailures + 1 then MethodPhase.disable
      else .schedule (backoff (c.consecutiveFailures + 1))).finish _ now later =
        c.recordFailure later
    rw [recordFailure]
    split_ifs <;> rfl
  | pushError seen =>
    change finishOrDone _ now later (if maxHttpErrors ≤ (recentErrors _ seen).length then _
      else none) = c.recordHttpError seen later
    rw [recordHttpError]
    split_ifs <;> rfl
  | _ => rfl

end MethodPhase

/-! ### Calls that do not overlap -/

/-- A call begins only when none is in progress. -/
def Alone (s : AccessState) : AccessAction → Prop
  | .begin _ _ => ∀ j, s.calls j = none
  | _ => True

/-- A call has been under way since `σ`. What it makes of the client there it still makes of the
client now, by readings that lie in between where they have been taken. -/
def Underway (σ : ClientState) (s : AccessState) (phase : MethodPhase) : Prop :=
  ∃ (method : Method) (window schedule : ℕ → ℕ),
    (∀ now later, s.clock ≤ now → now ≤ later →
      σ.clock ≤ window now ∧ window now ≤ schedule later ∧ schedule later ≤ later) ∧
    ∀ now later, phase.finish s.client now later =
      (method.op (window now) (schedule later)).perform σ.client

variable {σ : ClientState} {phase : MethodPhase} {interval start : ℕ}

/-- A method that reads the clock in order can be called. -/
theorem clientStep_op (method : Method) {now later : ℕ} (hnow : σ.clock ≤ now)
    (hlater : now ≤ later) : ∃ τ, clientStep σ (method.op now later) = some τ ∧
      τ.clock ≤ later ∧ τ.client = (method.op now later).perform σ.client := by
  have hchain : (σ.clock :: (method.op now later).readings).IsChain (· ≤ ·) ∧
      (method.op now later).readings.getLastD σ.clock ≤ later := by
    cases method <;> simp [Method.op, ClientOp.readings] <;> omega
  exact ⟨_, if_pos hchain.1, hchain.2, rfl⟩

theorem Underway.finish (h : Underway σ s phase) : ∃ op τ, clientStep σ op = some τ ∧
    τ.clock ≤ s.clock ∧ τ.client = phase.finish s.client s.clock s.clock := by
  obtain ⟨method, window, schedule, hbounds, hfinish⟩ := h
  obtain ⟨hnow, hlater, hle⟩ := hbounds s.clock s.clock le_rfl le_rfl
  obtain ⟨τ, hτ, hclock, hclient⟩ := clientStep_op method hnow hlater
  exact ⟨_, τ, hτ, hclock.trans hle, hclient.trans (hfinish _ _).symm⟩

theorem Underway.pass (h : Underway σ s phase) (d : ℕ) :
    Underway σ ⟨s.client, s.clock + d, s.calls⟩ phase := by
  obtain ⟨method, window, schedule, hbounds, hfinish⟩ := h
  exact ⟨method, window, schedule, fun now later hnow hlater =>
    hbounds now later ((Nat.le_add_right _ d).trans hnow) hlater, hfinish⟩

/-- The call goes on, with the clock read or not. -/
theorem Underway.access {phase' : MethodPhase} (h : Underway σ s phase)
    (hnext : (phase.access s.client s.clock).2 = some phase') (calls : ℕ → Option MethodPhase) :
    Underway σ ⟨(phase.access s.client s.clock).1, s.clock, calls⟩ phase' := by
  obtain ⟨method, window, schedule, hbounds, hfinish⟩ := h
  refine ⟨method, fun now => window (if phase.readsClock then s.clock else now),
    fun later => schedule (if phase.readsSchedule then s.clock else later),
    fun now later hnow hlater => ?_, fun now later => ?_⟩
  · have hreads : s.clock ≤ (if phase.readsClock then s.clock else now) ∧
        (if phase.readsClock then s.clock else now) ≤
          (if phase.readsSchedule then s.clock else later) ∧
        (if phase.readsSchedule then s.clock else later) ≤ later := by
      cases hschedule : phase.readsSchedule with
      | true => simp [MethodPhase.readsClock_of_readsSchedule hschedule, hnow.trans hlater]
      | false => cases phase.readsClock <;> simp [hnow, hlater, hnow.trans hlater]
    obtain ⟨hsince, horder, hupto⟩ := hreads
    obtain ⟨hnow, hlater, hle⟩ := hbounds _ _ hsince horder
    exact ⟨hnow, hlater, hle.trans hupto⟩
  · rw [← hfinish, ← phase.finish_access, hnext]
    rfl

/-- What was called one after the other, and what is under way. It is kept as long as calls begin
only when none is in progress. -/
inductive Serialised (interval start : ℕ) (s : AccessState) : Prop
  | quiet {ops : List ClientOp} {σ : ClientState}
      (hops : run clientStep (.init interval start) ops = some σ) (hclock : σ.clock ≤ s.clock)
      (hclient : σ.client = s.client) (hquiet : ∀ i, s.calls i = none)
  | busy {ops : List ClientOp} {σ : ClientState} {i : ℕ} {phase : MethodPhase}
      (hops : run clientStep (.init interval start) ops = some σ)
      (hphase : s.calls i = some phase) (halone : ∀ j, j ≠ i → s.calls j = none)
      (hunderway : Underway σ s phase)

theorem serialised_step (hs : Serialised interval start s) (ha : Alone s a)
    (h : accessStep s a = some t) : Serialised interval start t := by
  cases accessMove h with
  | @begin i method hfree =>
    have hquiet : ∀ j, s.calls j = none := ha
    cases hs with
    | busy hops hphase => cases hphase.symm.trans (hquiet _)
    | @quiet ops σ hops hclock hclient =>
      refine .busy hops (Function.update_self ..)
        (fun j hj => (Function.update_of_ne hj ..).trans (hquiet j))
        ⟨method, id, id, fun now later hnow hlater => ⟨hclock.trans hnow, hlater, le_rfl⟩,
          fun now later => ?_⟩
      rw [MethodPhase.finish_entry, hclient]
      rfl
  | @access i phase hphase =>
    cases hs with
    | quiet hops hclock hclient hquiet => cases hphase.symm.trans (hquiet i)
    | @busy ops σ j phase' hops hphase' halone hunderway =>
      obtain rfl : i = j := by
        by_contra hij
        cases hphase.symm.trans (halone i hij)
      obtain rfl := Option.some.inj (hphase.symm.trans hphase')
      have hothers : ∀ (next : Option MethodPhase) (j : ℕ), j ≠ i →
          Function.update s.calls i next j = none :=
        fun next j hj => (Function.update_of_ne hj ..).trans (halone j hj)
      cases hnext : (phase.access s.client s.clock).2 with
      | some phase' =>
        exact .busy hops (Function.update_self ..) (hothers _) (hunderway.access hnext _)
      | none =>
        obtain ⟨op, τ, hτ, hclock, hclient⟩ := hunderway.finish
        have hdone := phase.finish_access s.client s.clock s.clock s.clock
        rw [hnext, ite_self, ite_self] at hdone
        refine .quiet (run_concat_eq_some.mpr ⟨σ, hops, hτ⟩) hclock
          (hclient.trans hdone.symm) fun j => ?_
        by_cases hj : j = i
        · subst hj
          exact Function.update_self ..
        · exact hothers none j hj
  | pass =>
    cases hs with
    | quiet hops hclock hclient hquiet =>
      exact .quiet hops (hclock.trans (Nat.le_add_right _ _)) hclient hquiet
    | busy hops hphase halone hunderway => exact .busy hops hphase halone (hunderway.pass _)

theorem serialised_run {as : List AccessAction}
    (hserial : Along accessStep Alone (.init interval start) as)
    (hrun : run accessStep (.init interval start) as = some s) : Serialised interval start s :=
  run_inv_along (I := Serialised interval start) (fun _ _ _ => serialised_step)
    (.quiet (run_nil _) le_rfl rfl fun _ => rfl) hserial hrun

/-! ### Every call without overlap -/

/-- How many accesses a call has left, at most. Each access leaves it fewer. -/
def MethodPhase.rank : MethodPhase → ℕ
  | .resetFailures => 7
  | .loadDisabled | .readError => 6
  | .readWindow | .addFailure | .pushError _ => 5
  | .countErrors _ | .disable => 4
  | .clearErrors | .markUnhealthy => 3
  | .enable => 2
  | .schedule _ | .askWindow => 1
  | .storeNextCheck _ | .mark _ | .askErrors _ => 0

theorem MethodPhase.rank_access {phase' : MethodPhase} {clock : ℕ}
    (h : (phase.access c clock).2 = some phase') : phase'.rank < phase.rank := by
  cases phase with
  | loadDisabled | countErrors | addFailure =>
    cases h
    split_ifs <;> simp [rank]
  | pushError seen =>
    rw [access] at h
    split_ifs at h
    cases h
    simp [rank]
  | storeNextCheck | mark | askErrors => cases h
  | _ =>
    cases h
    simp [rank]

/-- There is a time for the next access that suits what the call is to read. -/
theorem MethodPhase.exists_access {clock now later : ℕ} (hnow : clock ≤ now) (hlater : now ≤ later)
    (phase : MethodPhase) (c : UpstreamClient) : ∃ time now', clock ≤ time ∧ time ≤ now' ∧
      now' ≤ later ∧ finishOrDone (phase.access c time).1 now' later (phase.access c time).2 =
        phase.finish c now later := by
  cases phase with
  | schedule delay => exact ⟨later, later, hnow.trans hlater, le_rfl, le_rfl, rfl⟩
  | readWindow | readError | askWindow => exact ⟨now, now, hnow, le_rfl, hlater, rfl⟩
  | _ => exact ⟨clock, now, le_rfl, hnow, hlater, MethodPhase.finish_access ..⟩

/-- One call in progress and no other. -/
def AccessState.solo (c : UpstreamClient) (clock i : ℕ) (phase : Option MethodPhase) :
    AccessState :=
  ⟨c, clock, Function.update (fun _ => none) i phase⟩

theorem accessStep_access {i : ℕ} (hphase : s.calls i = some phase) :
    accessStep s (.access i) = some ⟨(phase.access s.client s.clock).1, s.clock,
      Function.update s.calls i (phase.access s.client s.clock).2⟩ := by
  rw [accessStep, hphase]
  rfl

theorem accessStep_solo (c : UpstreamClient) (clock i : ℕ) (phase : MethodPhase) :
    accessStep (.solo c clock i (some phase)) (.access i) =
      some (.solo (phase.access c clock).1 clock i (phase.access c clock).2) := by
  have hphase : (AccessState.solo c clock i (some phase)).calls i = some phase := by
    simp [AccessState.solo]
  rw [accessStep_access hphase]
  simp only [AccessState.solo, Function.update_idem]

theorem run_pass (s : AccessState) {time : ℕ} (h : s.clock ≤ time) (as : List AccessAction) :
    run accessStep s (.pass (time - s.clock) :: as) =
      run accessStep ⟨s.client, time, s.calls⟩ as := by
  rw [run_cons_of_step (t := ⟨s.client, time, s.calls⟩)]
  rw [accessStep, Nat.add_sub_cancel' h]

/-- The action begins no call. -/
def AccessAction.goesOn : AccessAction → Prop
  | .begin _ _ => False
  | _ => True

/-- A call can be finished with nothing in between, the clock being read when it is to be. Time
passes in front of an access that reads the clock. -/
theorem exists_solo (i : ℕ) {clock now later : ℕ} (hnow : clock ≤ now) (hlater : now ≤ later)
    (phase : MethodPhase) (c : UpstreamClient) : ∃ as clock', clock' ≤ later ∧
      (∀ a ∈ as, a.goesOn) ∧ run accessStep (.solo c clock i (some phase)) as =
        some (.solo (phase.finish c now later) clock' i none) := by
  induction hrank : phase.rank using Nat.strong_induction_on
    generalizing phase c clock now with
  | _ rank ih =>
    obtain ⟨time, now', htime, hnow', hlater', hfinish⟩ := phase.exists_access hnow hlater c
    have haccess := accessStep_solo c time i phase
    have hpass (as : List AccessAction) :=
      run_pass (.solo c clock i (some phase)) htime (.access i :: as)
    have hstep (as : List AccessAction) : run accessStep (.solo c clock i (some phase))
        (.pass (time - clock) :: .access i :: as) =
          run accessStep (.solo (phase.access c time).1 time i (phase.access c time).2) as :=
      (hpass as).trans (run_cons_of_step haccess as)
    cases hnext : (phase.access c time).2 with
    | none =>
      rw [hnext] at hfinish hstep
      refine ⟨[.pass (time - clock), .access i], time, hnow'.trans hlater', ?_, ?_⟩
      · simp [AccessAction.goesOn]
      · rw [hstep, run_nil, ← hfinish]
        rfl
    | some phase' =>
      rw [hnext] at hfinish hstep
      obtain ⟨as, clock', hclock, has, hrun⟩ := ih phase'.rank
        (hrank ▸ MethodPhase.rank_access hnext) hnow' hlater' phase' (phase.access c time).1 rfl
      refine ⟨.pass (time - clock) :: .access i :: as, clock', hclock, ?_, ?_⟩
      · simpa [AccessAction.goesOn] using has
      · rw [hstep, hrun, ← hfinish]
        rfl

/-- A method call, as far as the client is concerned, ends when the clock has been read. -/
theorem exists_method {op : ClientOp} {τ : ClientState} (h : clientStep σ op = some τ) :
    (∃ now, op = .pass now) ∨ ∃ method now, σ.clock ≤ now ∧ now ≤ τ.clock ∧
      op.perform σ.client = ((method : Method).op now τ.clock).perform σ.client := by
  obtain ⟨hchain, rfl⟩ := clientStep_eq_some h
  cases op with
  | recordHttpError now later =>
    simp only [ClientOp.readings, List.isChain_cons_cons] at hchain
    exact .inr ⟨.recordHttpError, now, hchain.1, hchain.2.1, rfl⟩
  | recordSuccess now later =>
    simp only [ClientOp.readings, List.isChain_cons_cons] at hchain
    exact .inr ⟨.recordSuccess, now, hchain.1, hchain.2.1, rfl⟩
  | recordFailure now =>
    simp only [ClientOp.readings, List.isChain_cons_cons] at hchain
    exact .inr ⟨.recordFailure, now, hchain.1, le_rfl, rfl⟩
  | setHealthy healthy => exact .inr ⟨.setHealthy healthy, σ.clock, le_rfl, le_rfl, rfl⟩
  | hasTooManyHttpErrors now =>
    simp only [ClientOp.readings, List.isChain_cons_cons] at hchain
    exact .inr ⟨.hasTooManyHttpErrors, now, hchain.1, le_rfl, rfl⟩
  | pass now => exact .inl ⟨now, rfl⟩

theorem alone_of_goesOn {as : List AccessAction} (has : ∀ a ∈ as, a.goesOn) (s : AccessState) :
    Along accessStep Alone s as := by
  refine (along_of_forall (L := AccessAction.goesOn) has).mono fun s a ha => ?_
  cases a with
  | begin i method => exact absurd ha id
  | access i => trivial
  | pass d => trivial

/-- Where no call is in progress. -/
def AccessState.idle (σ : ClientState) : AccessState := ⟨σ.client, σ.clock, fun _ => none⟩

/-- A method call can be made access by access. -/
theorem exists_accesses {op : ClientOp} {τ : ClientState} (h : clientStep σ op = some τ) :
    ∃ as, Along accessStep Alone (.idle σ) as ∧ run accessStep (.idle σ) as = some (.idle τ) := by
  have hclock := clock_le h
  rcases exists_method h with ⟨now, rfl⟩ | ⟨method, now, hnow, hlater, hperform⟩
  · obtain ⟨-, rfl⟩ := clientStep_eq_some h
    refine ⟨[.pass (now - σ.clock)], alone_of_goesOn (by simp [AccessAction.goesOn]) _, ?_⟩
    exact run_pass (.idle σ) hclock []
  · obtain ⟨as, clock', hclock', has, hrun⟩ := exists_solo 0 hnow hlater method.entry σ.client
    have hclient : τ.client = op.perform σ.client := by rw [(clientStep_eq_some h).2]; rfl
    have hbegin : accessStep (.idle σ) (.begin 0 method) =
        some (.solo σ.client σ.clock 0 (some method.entry)) := rfl
    rw [MethodPhase.finish_entry, ← hperform, ← hclient] at hrun
    have hidle : AccessState.solo τ.client clock' 0 none = .idle ⟨τ.client, clock', 0⟩ := by
      simp [AccessState.solo, AccessState.idle]
    refine ⟨.begin 0 method :: (as ++ [.pass (τ.clock - clock')]), fun t ht => ?_, ?_⟩
    · exact ⟨fun _ => rfl, alone_of_goesOn
        (List.forall_mem_append.mpr ⟨has, by simp [AccessAction.goesOn]⟩) t⟩
    · rw [run_cons_of_step hbegin, run_append, hrun, Option.bind_some, hidle]
      exact run_pass (.idle ⟨τ.client, clock', 0⟩) hclock' []

/-- **Calls that do not overlap are the methods one after the other**: they leave behind the same
clients. Both directions are shown, so a result about methods is one about accesses and the other
way round. -/
theorem serial_refines (interval start : ℕ) (c : UpstreamClient) :
    (∃ as s, Along accessStep Alone (.init interval start) as ∧
      run accessStep (.init interval start) as = some s ∧ (∀ i, s.calls i = none) ∧
      s.client = c) ↔
    ∃ ops σ, run clientStep (.init interval start) ops = some σ ∧ σ.client = c := by
  constructor
  · rintro ⟨as, s, hserial, hrun, hquiet, rfl⟩
    cases serialised_run hserial hrun with
    | quiet hops hclock hclient => exact ⟨_, _, hops, hclient⟩
    | busy hops hphase => cases hphase.symm.trans (hquiet _)
  · rintro ⟨ops, σ, hops, rfl⟩
    have haccesses := run_history (H := fun _ σ => ∃ as,
        Along accessStep Alone (.init interval start) as ∧
          run accessStep (.init interval start) as = some (.idle σ))
      ⟨[], trivial, rfl⟩ (fun _ σ op τ _ hσ h => ?_) hops
    · obtain ⟨as, hserial, hrun⟩ := haccesses
      exact ⟨as, .idle σ, hserial, hrun, fun _ => rfl, rfl⟩
    · obtain ⟨as, hserial, hrun⟩ := hσ
      obtain ⟨bs, hserial', hrun'⟩ := exists_accesses h
      refine ⟨as ++ bs, hserial.append hrun hserial', ?_⟩
      rw [run_append, hrun, Option.bind_some, hrun']

/-! ### What disables an upstream -/

/-- One of the two rules disables the client. -/
def Owed (c : UpstreamClient) (clock : ℕ) : Prop :=
  maxHttpErrors ≤ (recentErrors c.httpErrorTimes clock).length ∨
    maxConsecutiveFailures ≤ c.consecutiveFailures

/-- A client that a rule disables is disabled, or a call is about to disable it. The call that
pushes the fifth error comes to that access next. -/
def AccessState.Disables (s : AccessState) : Prop :=
  Owed s.client s.clock → s.client.disabled = true ∨ ∃ i, s.calls i = some .disable

/-- No call enables a client that a rule disables, unless another is about to disable it. It is
asked of one kind of access only, the last store of `record_success`. -/
def EnablesRightly (s : AccessState) : AccessAction → Prop
  | .access i => s.calls i = some .enable → Owed s.client s.clock →
    ∃ j, s.calls j = some .disable
  | _ => True

/-- A step that lets no rule disable the client which did not, and disables it no less. -/
theorem AccessState.Disables.of_owed (hs : s.Disables)
    (howed : Owed t.client t.clock → Owed s.client s.clock)
    (hdisabled : s.client.disabled = true → t.client.disabled = true)
    (hpending : ∀ j, s.calls j = some .disable → t.calls j = some .disable) : t.Disables :=
  fun ht => (hs (howed ht)).imp hdisabled fun ⟨j, hj⟩ => ⟨j, hpending j hj⟩

theorem owed_of_sublist {d : UpstreamClient} {clock clock' : ℕ}
    (hsub : d.httpErrorTimes.Sublist c.httpErrorTimes) (hclock : clock ≤ clock')
    (hfailures : d.consecutiveFailures = c.consecutiveFailures) (h : Owed d clock') :
    Owed c clock := by
  refine h.imp (fun hmany => ?_) fun hsix => hfailures ▸ hsix
  exact hmany.trans ((recentErrors_sublist _ hclock).trans (hsub.filter _)).length_le

/-- An access other than the one that enables the client: it is disabled or about to be, or no rule
disables it that did not before. -/
theorem owed_access (c : UpstreamClient) (clock : ℕ) (henable : phase ≠ .enable)
    (hdisable : phase ≠ .disable) :
    (phase.access c clock).2 = some .disable ∨
      (phase.access c clock).1.disabled = c.disabled ∧
        (Owed (phase.access c clock).1 clock → Owed c clock) := by
  cases phase with
  | enable => exact absurd rfl henable
  | disable => exact absurd rfl hdisable
  | resetFailures =>
    have hzero : ¬ maxConsecutiveFailures ≤ (0 : UInt32) := by decide
    exact .inr ⟨rfl, fun h => .inl (h.resolve_right hzero)⟩
  | countErrors seen | askErrors seen =>
    exact .inr ⟨rfl, owed_of_sublist List.filter_sublist le_rfl rfl⟩
  | clearErrors => exact .inr ⟨rfl, owed_of_sublist (List.nil_sublist _) le_rfl rfl⟩
  | addFailure =>
    by_cases hsixth : maxConsecutiveFailures ≤ c.consecutiveFailures + 1
    · exact .inl (congrArg some (if_pos hsixth))
    · exact .inr ⟨rfl, fun h => .inl (h.resolve_right hsixth)⟩
  | pushError seen =>
    by_cases hmany : maxHttpErrors ≤ (recentErrors (c.httpErrorTimes ++ [seen]) seen).length
    · exact .inl (if_pos hmany)
    · refine .inr ⟨rfl, fun h => .inr (h.resolve_left fun hrecent => hmany ?_)⟩
      exact hrecent.trans (List.length_filter_le _ _)
  | _ => exact .inr ⟨rfl, id⟩

theorem disables_step_iff (hs : s.Disables) (h : accessStep s a = some t) :
    t.Disables ↔ EnablesRightly s a := by
  cases accessMove h with
  | @begin i method hfree =>
    refine iff_of_true (hs.of_owed id id fun j hj => ?_) trivial
    refine (Function.update_of_ne ?_ ..).trans hj
    rintro rfl
    cases hfree.symm.trans hj
  | pass =>
    exact iff_of_true (hs.of_owed (owed_of_sublist (List.Sublist.refl _) (Nat.le_add_right _ _) rfl)
      id fun _ => id) trivial
  | @access i phase hphase =>
    have hothers {next : Option MethodPhase} (hne : phase ≠ .disable) (j : ℕ)
        (hj : s.calls j = some .disable) : Function.update s.calls i next j = some .disable := by
      refine (Function.update_of_ne ?_ ..).trans hj
      rintro rfl
      exact hne (Option.some.inj (hphase.symm.trans hj))
    by_cases henable : phase = .enable
    · subst henable
      constructor
      · rintro ht - howed
        obtain hdisabled | ⟨j, hj⟩ := ht howed
        · cases hdisabled
        · by_cases hji : j = i
          · subst hji
            cases (Function.update_self ..).symm.trans hj
          · exact ⟨j, (Function.update_of_ne hji ..).symm.trans hj⟩
      · intro hright howed
        obtain ⟨j, hj⟩ := hright hphase howed
        exact .inr ⟨j, hothers (by simp) j hj⟩
    · refine iff_of_true ?_ fun hphase' =>
        absurd (Option.some.inj (hphase.symm.trans hphase')) henable
      by_cases hdisable : phase = .disable
      · subst hdisable
        exact fun _ => .inl rfl
      · rcases owed_access s.client s.clock henable hdisable with
          hpending | ⟨hdisabled, howed⟩
        · exact fun _ => .inr ⟨i, (Function.update_self ..).trans hpending⟩
        · exact hs.of_owed howed (fun hd => hdisabled.trans hd) (hothers hdisable)

/-- A client that is not disabled has fewer than six failures in a row. -/
def FailureInv (c : UpstreamClient) : Prop :=
  c.disabled = false → c.consecutiveFailures < maxConsecutiveFailures

theorem failureInv_step {op : ClientOp} {τ : ClientState} (hσ : FailureInv σ.client)
    (h : clientStep σ op = some τ) : FailureInv τ.client := by
  obtain ⟨-, rfl⟩ := clientStep_eq_some h
  change FailureInv (op.perform σ.client)
  cases op with
  | recordHttpError now later =>
    rw [ClientOp.perform, recordHttpError]
    split_ifs
    · exact fun hdisabled => by cases hdisabled
    · exact hσ
  | recordSuccess now later =>
    have hzero : (0 : UInt32) < maxConsecutiveFailures := by decide
    rw [ClientOp.perform, recordSuccess]
    split_ifs <;> exact fun _ => hzero
  | recordFailure now =>
    rw [ClientOp.perform, recordFailure]
    split_ifs with hsixth
    · exact fun hdisabled => by cases hdisabled
    · exact fun _ => UInt32.not_le.mp hsixth
  | setHealthy | hasTooManyHttpErrors | pass => exact hσ

/-- After methods one after the other, no rule disables a client that is not disabled. -/
theorem not_owed {ops : List ClientOp} (hops : run clientStep (.init interval start) ops = some σ)
    (hdisabled : σ.client.disabled = false) (clock : ℕ) : ¬ Owed σ.client clock := by
  have hzero : (0 : UInt32) < maxConsecutiveFailures := by decide
  obtain ⟨herrors, hfailures⟩ :=
    run_inv (I := fun σ => ErrorInv σ.client ∧ FailureInv σ.client)
      (fun _ _ _ hσ h => ⟨errorInv_step hσ.1 h, failureInv_step hσ.2 h⟩)
      ⟨errorInv_new interval start, fun _ => hzero⟩ hops
  rintro (hmany | hsix)
  · exact absurd (hmany.trans (List.length_filter_le _ _)) (not_le.mpr (herrors hdisabled))
  · exact absurd hsix (UInt32.not_le.mpr (hfailures hdisabled))

/-- A call that nothing comes in between enables rightly. -/
theorem enablesRightly_of_serialised (hs : Serialised interval start s) (a : AccessAction) :
    EnablesRightly s a := by
  cases a with
  | begin | pass => trivial
  | access i =>
    intro hphase howed
    cases hs with
    | quiet hops hclock hclient hquiet => cases hphase.symm.trans (hquiet i)
    | @busy ops σ j phase hops hphase' halone hunderway =>
      obtain rfl : i = j := by
        by_contra hij
        cases hphase.symm.trans (halone i hij)
      obtain rfl := Option.some.inj (hphase.symm.trans hphase')
      -- what is left to do ends with the client enabled, and leaves its errors and failures alone
      obtain ⟨op, τ, hτ, -, hclient⟩ := hunderway.finish
      have hdone := not_owed (run_concat_eq_some.mpr ⟨σ, hops, hτ⟩)
        (by rw [hclient]; rfl) s.clock
      rw [hclient] at hdone
      exact absurd howed hdone

/-- **Whenever six failures in a row or five errors within the hour disable an upstream, it is
disabled or about to be, exactly when no success enables it at such a moment.** Calls that do not
overlap never do. -/
theorem always_disables_iff (interval start : ℕ) (as : List AccessAction) :
    (Always accessStep AccessState.Disables (.init interval start) as ↔
      Along accessStep EnablesRightly (.init interval start) as) ∧
    (Along accessStep Alone (.init interval start) as →
      Along accessStep EnablesRightly (.init interval start) as) := by
  constructor
  · refine always_iff_along (I := fun _ => True) (fun _ _ _ _ _ => trivial)
      (fun s a t _ hs h => disables_step_iff hs h) trivial fun howed => ?_
    exact absurd howed (not_owed (run_nil _) rfl start)
  · exact fun hserial => hserial.imp (I := Serialised interval start)
      (fun _ _ _ => serialised_step) (fun _ a _ hs _ _ => enablesRightly_of_serialised hs a)
      (.quiet (run_nil _) le_rfl rfl fun _ => rfl)

/-- A success has seen that the upstream is not disabled; then the fifth error within the hour
disables it; then the success stores what it has seen. -/
def overtakenSuccess : List AccessAction :=
  (List.range 4).flatMap (fun i => [.begin i .recordHttpError, .access i, .access i]) ++
    [.begin 4 .recordSuccess, .access 4, .access 4] ++
    [.begin 5 .recordHttpError, .access 5, .access 5, .access 5, .access 5, .access 5, .access 5] ++
    [.access 4, .access 4, .access 4]

example : ∃ s, run accessStep (.init (86400 * second) 0) overtakenSuccess = some s ∧
    (∀ i < 6, s.calls i = none) ∧ s.client.disabled = false ∧ s.client.healthy = false ∧
    s.client.nextCheckAt = 0 ∧ s.client.httpErrorTimes.length = 5 :=
  ⟨_, rfl, by decide, rfl, rfl, rfl, rfl⟩

end Poolbeg
