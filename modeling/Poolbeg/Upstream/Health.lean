import Mathlib.Logic.Function.Basic
import Poolbeg.Upstream.Client

/-!
# When a disabled upstream is checked again

The embedding of `upstream/health.rs`, and of what `forward_request` does to one upstream. Requests
and the loop of health checks run concurrently; each is a sequence of method calls on the client,
and their calls interleave in any order. A method call is one step here, so two of them never
overlap; `Poolbeg.Upstream.Accesses` takes the methods apart into the accesses they make, and shows
what calls that do not overlap have to do with this model.

## The interval and the backoff

A disabled upstream is to be left alone for `disabled_retry_interval`. Both rules that disable it
schedule the next check accordingly. But a request that fails with an HTTP error runs
`record_http_error` and then `record_failure`, and the second of the two schedules the check again.
As long as fewer than six failures in a row have been recorded, it replaces the interval by the
backoff. With the fifth HTTP error in a row the upstream is due again after 160 seconds, whatever
the interval.

So the interval is kept wherever no such backoff ends before it does (`quiet_waits`). That is a
condition on the state a failure is recorded in: whether the upstream is disabled, how many failures
it has in a row, and how much of the interval is left.

## Main definitions

* `RequestPhase`, `LoopPhase`, `Activity`, `HealthState`, `healthStep` — requests and the loop
* `ClientState.Waits` — the next check is not before the interval is over
* `BacksOff` — what that asks of a step

## Main results

* `waits_step_iff` — one method call
* `always_waits_iff` — every state of a run
* `quiet_waits` — the states in which nothing is in progress
-/

namespace Poolbeg

open Lts UpstreamClient

/-! ### Requests and health checks -/

/-- How `send_request` ends. Any HTTP status of an error and any transport error is an `httpError`;
an answer that is no JSON-RPC response is an error of another kind. -/
inductive SendOutcome
  | ok
  | httpError (now later : ℕ)
  | otherError

/-- The call `send_request` makes itself. -/
def SendOutcome.op : SendOutcome → Option ClientOp
  | .httpError now later => some (.recordHttpError now later)
  | _ => none

def SendOutcome.isOk : SendOutcome → Bool
  | .ok => true
  | _ => false

/-- Where a request stands for which the upstream has been selected: before its token, with its
request out, or with the outcome still to be recorded. -/
inductive RequestPhase
  | selected
  | sent
  | returned (ok : Bool)

/-- Where the loop of health checks stands: between two rounds, waiting for an answer, or on one of
the two branches after it. -/
inductive LoopPhase
  | waiting
  | checking
  | checked (healthy : Bool)
  | keeping
  | marking (healthy : Bool)
  | recording (healthy : Bool)

/-- What is in progress on the upstream. Requests are numbered, and a number may be used again. -/
structure Activity where
  requests : ℕ → Option RequestPhase
  loop : LoopPhase

inductive HealthAction
  | select (i : ℕ)
  | skip (i : ℕ)
  | send (i : ℕ)
  | answer (i : ℕ) (outcome : SendOutcome)
  | drop (i : ℕ)
  | record (i now later : ℕ)
  | tick (now : ℕ)
  | check (outcome : SendOutcome) (wellFormed : Bool)
  | judge (now : ℕ)
  | keep (now later : ℕ)
  | mark
  | recordCheck (now later : ℕ)
  | pass (now : ℕ)

def Activity.setRequest (p : Activity) (i : ℕ) (phase : Option RequestPhase) : Activity :=
  { p with requests := Function.update p.requests i phase }

/-- `record_success` or `record_failure`. -/
def recordOutcome (ok : Bool) (now later : ℕ) : ClientOp :=
  if ok then .recordSuccess now later else .recordFailure now

/-- The next step of a request or of the loop, and the method it calls. A step calls at most one. -/
def activityStep (c : UpstreamClient) (p : Activity) :
    HealthAction → Option (Activity × Option ClientOp)
  | .select i =>
    match p.requests i with
    | none => if c.isHealthy then some (p.setRequest i (some .selected), none) else none
    | some _ => none
  | .skip i =>
    -- no token, or another upstream has answered
    match p.requests i with
    | some .selected => some (p.setRequest i none, none)
    | _ => none
  | .send i =>
    match p.requests i with
    | some .selected => some (p.setRequest i (some .sent), none)
    | _ => none
  | .answer i outcome =>
    match p.requests i with
    | some .sent => some (p.setRequest i (some (.returned outcome.isOk)), outcome.op)
    | _ => none
  | .drop i =>
    -- the client that has asked is gone
    match p.requests i with
    | some .sent => some (p.setRequest i none, none)
    | _ => none
  | .record i now later =>
    match p.requests i with
    | some (.returned ok) => some (p.setRequest i none, some (recordOutcome ok now later))
    | _ => none
  | .tick now =>
    match p.loop with
    | .waiting =>
      some (if c.isDueForCheck now then { p with loop := .checking } else p, some (.pass now))
    | _ => none
  | .check outcome wellFormed =>
    match p.loop with
    | .checking => some ({ p with loop := .checked (outcome.isOk && wellFormed) }, outcome.op)
    | _ => none
  | .judge now =>
    match p.loop with
    | .checked healthy =>
      if healthy && c.disabled then
        let phase := if c.hasTooManyHttpErrors now then .keeping else .marking healthy
        some ({ p with loop := phase }, some (.hasTooManyHttpErrors now))
      else some ({ p with loop := .marking healthy }, none)
    | _ => none
  | .keep now later =>
    match p.loop with
    | .keeping => some ({ p with loop := .waiting }, some (.recordSuccess now later))
    | _ => none
  | .mark =>
    match p.loop with
    | .marking healthy => some ({ p with loop := .recording healthy }, some (.setHealthy healthy))
    | _ => none
  | .recordCheck now later =>
    match p.loop with
    | .recording healthy =>
      some ({ p with loop := .waiting }, some (recordOutcome healthy now later))
    | _ => none
  | .pass now => some (p, some (.pass now))

structure HealthState where
  base : ClientState
  activity : Activity

def HealthState.init (disabledRetryInterval start : ℕ) : HealthState where
  base := .init disabledRetryInterval start
  activity := ⟨fun _ => none, .waiting⟩

/-- A step takes place with the method it calls, and the clock goes on to what the method reads. -/
def healthStep (s : HealthState) (a : HealthAction) : Option HealthState :=
  (activityStep s.base.client s.activity a).bind fun next =>
    match next.2 with
    | none => some ⟨s.base, next.1⟩
    | some op => (clientStep s.base op).map fun base => ⟨base, next.1⟩

/-- No request and no health check is in progress. -/
def HealthState.Quiet (s : HealthState) : Prop :=
  (∀ i, s.activity.requests i = none) ∧ s.activity.loop = .waiting

theorem healthStep_eq_some {s t : HealthState} {a : HealthAction} (h : healthStep s a = some t) :
    ∃ p op, activityStep s.base.client s.activity a = some (p, op) ∧
      (op = none ∧ t.base = s.base ∨ ∃ o, op = some o ∧ clientStep s.base o = some t.base) := by
  obtain ⟨⟨p, op⟩, hnext, h⟩ := Option.bind_eq_some_iff.mp h
  cases op with
  | none =>
    cases h
    exact ⟨p, none, hnext, .inl ⟨rfl, rfl⟩⟩
  | some o =>
    obtain ⟨base, hbase, rfl⟩ := Option.map_eq_some_iff.mp h
    exact ⟨p, some o, hnext, .inr ⟨o, rfl, hbase⟩⟩

/-! ### One method call -/

/-- A disabled client is not due before the interval is over, counted from when it became disabled.
-/
def ClientState.Waits (s : ClientState) : Prop :=
  s.client.disabled = true → s.disabledAt + s.client.disabledRetryInterval ≤ s.client.nextCheckAt

/-- If the client is disabled and this failure is not yet the sixth in a row, the backoff for it
does not end before the interval does. -/
def ClientState.BackoffCovers (s : ClientState) (now : ℕ) : Prop :=
  s.client.disabled = true → s.client.consecutiveFailures + 1 < maxConsecutiveFailures →
    s.disabledAt + s.client.disabledRetryInterval ≤
      now + backoff (s.client.consecutiveFailures + 1)

variable {s t : ClientState} {op : ClientOp}

/-- The client became disabled in the past. -/
theorem disabledAt_step (hs : s.disabledAt ≤ s.clock) (h : clientStep s op = some t) :
    t.disabledAt ≤ t.clock := by
  have hclock := clock_le h
  obtain ⟨-, rfl⟩ := clientStep_eq_some h
  show (if _ then _ else _) ≤ _
  split_ifs
  · exact le_rfl
  · exact hs.trans hclock

/-- A call that schedules the next check at the end of an interval from now on keeps the promise,
since the client was disabled before now. -/
theorem waits_of_scheduled {c : UpstreamClient} {now : ℕ} (hs : s.disabledAt ≤ now)
    (hnext : c.nextCheckAt = now + c.disabledRetryInterval) : (s.leave now c).Waits := by
  intro _
  show (if _ then now else s.disabledAt) + c.disabledRetryInterval ≤ c.nextCheckAt
  rw [hnext]
  split_ifs
  · exact le_rfl
  · omega

/-- A call that leaves the flag alone leaves the time alone at which it was set. -/
theorem waits_leave_iff {c : UpstreamClient} {now : ℕ} (hflag : c.disabled = s.client.disabled)
    (hinterval : c.disabledRetryInterval = s.client.disabledRetryInterval) :
    (s.leave now c).Waits ↔ (s.client.disabled = true →
      s.disabledAt + s.client.disabledRetryInterval ≤ c.nextCheckAt) := by
  show (c.disabled = true →
    (if !s.client.disabled && c.disabled then now else s.disabledAt) +
      c.disabledRetryInterval ≤ _) ↔ _
  rw [hflag, hinterval, Bool.not_and_self]
  exact Iff.rfl

theorem waits_recordSuccess (hs : s.disabledAt ≤ s.clock) {now later : ℕ}
    (hlater : s.clock ≤ later) : (s.leave later (s.client.recordSuccess now later)).Waits := by
  rw [recordSuccess]
  split_ifs with hdisabled hmany
  · exact waits_of_scheduled (hs.trans hlater) rfl
  · intro hflag
    cases hflag
  · intro hflag
    cases hflag

theorem waits_recordHttpError (hclock : s.disabledAt ≤ s.clock) (hs : s.Waits) {now later : ℕ}
    (hlater : s.clock ≤ later) : (s.leave later (s.client.recordHttpError now later)).Waits := by
  rw [recordHttpError]
  split_ifs
  · exact waits_of_scheduled (hclock.trans hlater) rfl
  · exact (waits_leave_iff rfl rfl).mpr hs

/-- Recording a failure keeps the promise exactly if the backoff covers what is left of the
interval. -/
theorem waits_recordFailure_iff (hclock : s.disabledAt ≤ s.clock) {now : ℕ} (hnow : s.clock ≤ now) :
    (s.leave now (s.client.recordFailure now)).Waits ↔ s.BackoffCovers now := by
  rw [recordFailure, ClientState.BackoffCovers]
  split_ifs with hsixth
  · refine iff_of_true (waits_of_scheduled (hclock.trans hnow) rfl) fun _ hfew => ?_
    exact absurd hsixth (UInt32.not_le.mpr hfew)
  · rw [waits_leave_iff (by rfl) (by rfl)]
    exact imp_congr_right fun _ => (imp_iff_right (UInt32.not_le.mp hsixth)).symm

theorem waits_step_iff (hclock : s.disabledAt ≤ s.clock) (hs : s.Waits)
    (h : clientStep s op = some t) : t.Waits ↔ ∀ now ∈ op.failureAt, s.BackoffCovers now := by
  have htime := clock_le h
  obtain ⟨-, rfl⟩ := clientStep_eq_some h
  cases op with
  | recordHttpError now later => exact iff_of_true (waits_recordHttpError hclock hs htime) nofun
  | recordSuccess now later => exact iff_of_true (waits_recordSuccess hclock htime) nofun
  | recordFailure now =>
    exact (waits_recordFailure_iff hclock htime).trans
      ⟨fun h _ heq => Option.some.inj heq ▸ h, fun h => h now rfl⟩
  | setHealthy healthy => exact iff_of_true ((waits_leave_iff rfl rfl).mpr hs) nofun
  | hasTooManyHttpErrors now => exact iff_of_true ((waits_leave_iff rfl rfl).mpr hs) nofun
  | pass now => exact iff_of_true ((waits_leave_iff rfl rfl).mpr hs) nofun

/-! ### Requests and checks together -/

/-- When the step records a failure, if it does. -/
def HealthState.failureAt (s : HealthState) (a : HealthAction) : Option ℕ :=
  (activityStep s.base.client s.activity a).bind fun next => next.2.bind ClientOp.failureAt

/-- If the step records a failure, the backoff for it covers what is left of the interval. -/
def BacksOff (s : HealthState) (a : HealthAction) : Prop :=
  ∀ now ∈ s.failureAt a, s.base.BackoffCovers now

instance (s : ClientState) (now : ℕ) : Decidable (s.BackoffCovers now) :=
  inferInstanceAs (Decidable (_ → _))

instance (s : HealthState) (a : HealthAction) : Decidable (BacksOff s a) :=
  inferInstanceAs (Decidable (∀ now ∈ s.failureAt a, s.base.BackoffCovers now))

/-- **In every state of a run a disabled client waits for the interval, exactly when every failure
recorded while it is disabled schedules a backoff that covers it.** Runs start with a client that
has just been made. -/
theorem always_waits_iff (disabledRetryInterval start : ℕ) (as : List HealthAction) :
    Always healthStep (fun s => s.base.Waits) (.init disabledRetryInterval start) as ↔
      Along healthStep BacksOff (.init disabledRetryInterval start) as := by
  refine always_iff_along (I := fun s => s.base.disabledAt ≤ s.base.clock) (fun s a t hs ht => ?_)
    (fun s a t hclock hs ht => ?_) le_rfl nofun
  · obtain ⟨p, op, -, ⟨-, hbase⟩ | ⟨o, -, hbase⟩⟩ := healthStep_eq_some ht
    · rwa [hbase]
    · exact disabledAt_step hs hbase
  · obtain ⟨p, op, hnext, ⟨rfl, hbase⟩ | ⟨o, rfl, hbase⟩⟩ := healthStep_eq_some ht
    · rw [hbase, BacksOff, HealthState.failureAt, hnext]
      exact iff_of_true hs nofun
    · rw [waits_step_iff hclock hs hbase, BacksOff, HealthState.failureAt, hnext]
      exact Iff.rfl

/-- **Whenever nothing is in progress, a disabled upstream is not due before the interval is over**,
in every run in which every failure recorded while it is disabled schedules a backoff that covers
what is left of the interval. The method calls of requests and health checks come in any order, one
after the other. -/
theorem quiet_waits {disabledRetryInterval start : ℕ} {as : List HealthAction}
    (h : Along healthStep BacksOff (.init disabledRetryInterval start) as) :
    Always healthStep (fun s => s.Quiet → s.base.Waits) (.init disabledRetryInterval start) as :=
  ((always_waits_iff disabledRetryInterval start as).mpr h).mono fun _ hs _ => hs

/-! ### Failing requests -/

/-- A request that is sent and fails at a given time. -/
def failedRequest (outcome : ℕ → SendOutcome) (i : ℕ) : List HealthAction :=
  [.select i, .send i, .answer i (outcome (i * second)), .record i (i * second) (i * second)]

/-- Requests one after the other, all failing in the same way. -/
def failedRequests (outcome : ℕ → SendOutcome) (n : ℕ) : List HealthAction :=
  (List.range n).flatMap (failedRequest outcome)

/-- After six requests that fail without an HTTP error, the upstream waits for a day. -/
theorem sixFailures_waits :
    Always healthStep (fun s => s.Quiet → s.base.Waits) (.init (86400 * second) 0)
      (failedRequests (fun _ => .otherError) 6) :=
  quiet_waits (by decide)

/-- The fifth HTTP error disables the upstream for a day, and the failure recorded next makes it due
again within three minutes. The state at the end has nothing in progress. -/
theorem fiveErrors_not_waits :
    ∃ s, run healthStep (.init (86400 * second) 0)
        (failedRequests (fun now => .httpError now now) 5) = some s ∧
      s.Quiet ∧ s.base.client.disabled = true ∧ s.base.disabledAt = 4 * second ∧
      s.base.client.nextCheckAt = 164 * second ∧ ¬ s.base.Waits := by
  obtain ⟨s, hrun, hquiet, hdisabled, hat, hnext, hinterval⟩ :
      ∃ s, run healthStep (.init (86400 * second) 0)
          (failedRequests (fun now => .httpError now now) 5) = some s ∧ s.Quiet ∧
        s.base.client.disabled = true ∧ s.base.disabledAt = 4 * second ∧
        s.base.client.nextCheckAt = 164 * second ∧
        s.base.client.disabledRetryInterval = 86400 * second :=
    ⟨_, rfl, ⟨fun i => match i with
      | 0 | 1 | 2 | 3 | 4 => rfl
      | _ + 5 => rfl, rfl⟩, rfl, rfl, rfl, rfl⟩
  refine ⟨s, hrun, hquiet, hdisabled, hat, hnext, fun hwaits => ?_⟩
  have hlater := hwaits hdisabled
  rw [hat, hnext, hinterval] at hlater
  exact absurd hlater (by decide)

end Poolbeg
