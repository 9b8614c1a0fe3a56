import Mathlib.Tactic.IntervalCases
import Poolbeg.Upstream.Recovery

/-!
# A disabled upstream comes back

The source calls a disabled upstream permanently disabled, and it is not. Whatever has happened to
an upstream, its next health check is never further away than the retry interval, or than the
longest backoff there is. The cap on the backoff is never reached: before it is, the sixth failure
has disabled the upstream.

A check that passes may still leave the upstream disabled, as long as the HTTP errors count that
disabled it. These are an hour old at some time. So an upstream from which nothing but answers has
come for an hour, and then until the next check, is in the traffic from that check on, whatever
requests and checks are in progress.

## Safety and progress

The first part says what is so in every run without a fault: an hour after the last one, no error
counts any more (`Cleared`), and from the check that is due then, the upstream is in the traffic or
about to be (`Returning`). The second part is that such a run exists from every reachable state,
with nothing but the steps of the loop. Without it, the first part might hold of no run at all.

A fault is whatever a method call puts down to the upstream: an error, a failure, or a check that
has not passed. Requests that succeed are no fault, and may go on all the time.

## Main definitions

* `Scheduled` — what is known of the next check
* `Faultless` — what a step does not do while the upstream answers
* `Cleared`, `Returning` — an hour later, and from the next check on
* `FaultlessRun` — a run without a fault

## Main results

* `scheduled_run` — the next check is never far away
* `FaultlessRun.isHealthy_of_due` — in the traffic whenever the loop waits
* `returns_to_traffic` — and such a run there always is
-/

namespace Poolbeg

open Lts UpstreamClient

/-! ### The next check -/

/-- The backoff after the fifth failure. -/
def longestBackoff : ℕ := 160 * second

theorem backoff_le {failures : UInt32} (h : failures < maxConsecutiveFailures) :
    backoff failures ≤ longestBackoff := by
  have hfew : failures.toNat < 6 := h
  obtain ⟨n, hn, rfl⟩ : ∃ n < 6, failures = UInt32.ofNat n :=
    ⟨failures.toNat, hfew, UInt32.ofNat_toNat.symm⟩
  interval_cases n <;> decide

/-- What is known of a client at any moment: the errors it remembers are in the past, and its next
check is not too far in the future. -/
structure Scheduled (interval : ℕ) (s : ClientState) : Prop where
  retry : s.client.disabledRetryInterval = interval
  past : ∀ x ∈ s.client.httpErrorTimes, x ≤ s.clock
  next : s.client.nextCheckAt ≤ s.clock + max interval longestBackoff

variable {interval start : ℕ} {c : UpstreamClient} {s t : ClientState} {op : ClientOp}

theorem scheduled_init : Scheduled interval (.init interval start) where
  retry := rfl
  past _ hx := absurd hx List.not_mem_nil
  next := Nat.le_add_right _ _

theorem disabledRetryInterval_perform (c : UpstreamClient) (op : ClientOp) :
    (op.perform c).disabledRetryInterval = c.disabledRetryInterval := by
  cases op with
  | recordHttpError now later =>
    show (c.recordHttpError now later).disabledRetryInterval = _
    rw [recordHttpError]
    split_ifs <;> rfl
  | recordSuccess now later =>
    show (c.recordSuccess now later).disabledRetryInterval = _
    rw [recordSuccess]
    split_ifs <;> rfl
  | recordFailure now =>
    show (c.recordFailure now).disabledRetryInterval = _
    rw [recordFailure]
    split_ifs <;> rfl
  | setHealthy healthy => rfl
  | hasTooManyHttpErrors now => rfl
  | pass now => rfl

/-- A call remembers no errors but those it knew and the one it records. -/
theorem mem_httpErrorTimes_perform {x : ℕ} (hx : x ∈ (op.perform c).httpErrorTimes) :
    x ∈ c.httpErrorTimes ∨ ∃ later, op = .recordHttpError x later := by
  cases op with
  | recordHttpError now later =>
    have hmem : x ∈ recentErrors (c.httpErrorTimes ++ [now]) now := by
      change x ∈ (c.recordHttpError now later).httpErrorTimes at hx
      rw [recordHttpError] at hx
      split_ifs at hx <;> exact hx
    rcases List.mem_append.mp (List.mem_of_mem_filter hmem) with hold | hnew
    · exact .inl hold
    · exact .inr ⟨later, by rw [List.mem_singleton.mp hnew]⟩
  | recordSuccess now later =>
    left
    change x ∈ (c.recordSuccess now later).httpErrorTimes at hx
    rw [recordSuccess] at hx
    split_ifs at hx
    · exact List.mem_of_mem_filter hx
    · cases hx
    · exact hx
  | recordFailure now =>
    left
    change x ∈ (c.recordFailure now).httpErrorTimes at hx
    rw [recordFailure] at hx
    split_ifs at hx <;> exact hx
  | setHealthy healthy => exact .inl hx
  | hasTooManyHttpErrors now => exact .inl (List.mem_of_mem_filter hx)
  | pass now => exact .inl hx

/-- A call leaves the next check where it was, or puts it off by no more than it may. -/
theorem nextCheckAt_perform (c : UpstreamClient) (op : ClientOp) :
    (op.perform c).nextCheckAt = c.nextCheckAt ∨ ∃ now ∈ op.readings,
      (op.perform c).nextCheckAt ≤ now + max c.disabledRetryInterval longestBackoff := by
  have hretry (now : ℕ) : now + c.disabledRetryInterval ≤
      now + max c.disabledRetryInterval longestBackoff :=
    Nat.add_le_add_left (le_max_left _ _) now
  cases op with
  | recordHttpError now later =>
    change (c.recordHttpError now later).nextCheckAt = _ ∨ ∃ _ ∈ [now, later], _
    rw [ClientOp.perform, recordHttpError]
    split_ifs
    · exact .inr ⟨later, by simp, hretry later⟩
    · exact .inl rfl
  | recordSuccess now later =>
    refine .inr ⟨later, by simp [ClientOp.readings], ?_⟩
    rw [ClientOp.perform, recordSuccess]
    split_ifs
    · exact hretry later
    · exact Nat.le_add_right _ _
    · exact Nat.le_add_right _ _
  | recordFailure now =>
    refine .inr ⟨now, by simp [ClientOp.readings], ?_⟩
    rw [ClientOp.perform, recordFailure]
    split_ifs with hsixth
    · exact hretry now
    · have hbackoff := backoff_le (UInt32.not_le.mp hsixth)
      exact Nat.add_le_add_left (hbackoff.trans (le_max_right _ _)) now
  | setHealthy healthy => exact .inl rfl
  | hasTooManyHttpErrors now => exact .inl rfl
  | pass now => exact .inl rfl

/-- The clock is read during the step. -/
theorem mem_readings (h : clientStep s op = some t) {now : ℕ} (hnow : now ∈ op.readings) :
    s.clock ≤ now ∧ now ≤ t.clock := by
  obtain ⟨hchain, rfl⟩ := clientStep_eq_some h
  cases op <;> simp [ClientOp.readings, ClientState.leave] at hchain hnow ⊢ <;> omega

theorem scheduled_step (hs : Scheduled interval s) (h : clientStep s op = some t) :
    Scheduled interval t := by
  have hclock := clock_le h
  have hreadings : ∀ now ∈ op.readings, now ≤ t.clock := fun now hnow => (mem_readings h hnow).2
  obtain ⟨-, rfl⟩ := clientStep_eq_some h
  refine ⟨(disabledRetryInterval_perform _ op).trans hs.retry, fun x hx => ?_, ?_⟩
  · rcases mem_httpErrorTimes_perform hx with hold | ⟨later, rfl⟩
    · exact (hs.past x hold).trans hclock
    · exact hreadings x List.mem_cons_self
  · rcases nextCheckAt_perform s.client op with hkept | ⟨now, hnow, hnext⟩
    · exact hkept.le.trans (hs.next.trans (Nat.add_le_add_right hclock _))
    · rw [hs.retry] at hnext
      exact hnext.trans (Nat.add_le_add_right (hreadings now hnow) _)

/-! ### The loop among the requests -/

/-- What a step of the loop of health checks does, and what it calls. The rounds that find the
upstream not due are steps as well. -/
inductive LoopMove (c : UpstreamClient) :
    LoopPhase → HealthAction → LoopPhase → Option ClientOp → Prop
  | tick {now : ℕ} (hdue : c.nextCheckAt ≤ now) :
      LoopMove c .waiting (.tick now) .checking (some (.pass now))
  | rest {now : ℕ} (hdue : now < c.nextCheckAt) :
      LoopMove c .waiting (.tick now) .waiting (some (.pass now))
  | check {outcome : SendOutcome} {wellFormed : Bool} :
      LoopMove c .checking (.check outcome wellFormed) (.checked (outcome.isOk && wellFormed))
        outcome.op
  | hold {now : ℕ} (hmany : c.hasTooManyHttpErrors now = true) :
      LoopMove c (.checked true) (.judge now) .keeping (some (.hasTooManyHttpErrors now))
  | clear {now : ℕ} (hfew : c.hasTooManyHttpErrors now = false) :
      LoopMove c (.checked true) (.judge now) (.marking true) (some (.hasTooManyHttpErrors now))
  | judge {now : ℕ} {healthy : Bool} :
      LoopMove c (.checked healthy) (.judge now) (.marking healthy) none
  | keep {now later : ℕ} :
      LoopMove c .keeping (.keep now later) .waiting (some (.recordSuccess now later))
  | mark {healthy : Bool} :
      LoopMove c (.marking healthy) .mark (.recording healthy) (some (.setHealthy healthy))
  | record {now later : ℕ} {healthy : Bool} :
      LoopMove c (.recording healthy) (.recordCheck now later) .waiting
        (some (recordOutcome healthy now later))

/-- A step is one of the loop, or leaves the loop alone and marks nothing. -/
theorem loopMove {p q : Activity} {a : HealthAction} {op : Option ClientOp}
    (h : activityStep c p a = some (q, op)) :
    LoopMove c p.loop a q.loop op ∨
      q.loop = p.loop ∧ (∀ now, a ≠ .tick now) ∧ ∀ healthy, op ≠ some (.setHealthy healthy) := by
  obtain ⟨requests, loop⟩ := p
  cases a with
  | select i =>
    right
    rw [activityStep] at h
    split at h
    · split_ifs at h
      cases h
      exact ⟨rfl, by rintro _ ⟨⟩, by rintro _ ⟨⟩⟩
    · cases h
  | skip i | send i | drop i =>
    right
    rw [activityStep] at h
    split at h
    · cases h
      exact ⟨rfl, by rintro _ ⟨⟩, by rintro _ ⟨⟩⟩
    · cases h
  | answer i outcome =>
    right
    rw [activityStep] at h
    split at h
    · cases h
      refine ⟨rfl, by rintro _ ⟨⟩, ?_⟩
      cases outcome <;> rintro _ ⟨⟩
    · cases h
  | record i now later =>
    right
    rw [activityStep] at h
    split at h
    · rename_i ok _
      cases h
      refine ⟨rfl, by rintro _ ⟨⟩, ?_⟩
      cases ok <;> rintro _ ⟨⟩
    · cases h
  | tick now =>
    left
    cases loop with
    | waiting =>
      rw [activityStep] at h
      cases h
      dsimp only
      split_ifs with hdue
      · exact .tick (of_decide_eq_true hdue)
      · exact .rest (by simpa [isDueForCheck] using hdue)
    | _ => cases h
  | check outcome wellFormed =>
    left
    cases loop with
    | checking => cases h; exact .check
    | _ => cases h
  | judge now =>
    left
    cases loop with
    | checked healthy =>
      simp only [activityStep] at h
      split_ifs at h with hask hmany
      · obtain ⟨rfl, -⟩ := Bool.and_eq_true_iff.mp hask
        cases h
        exact .hold hmany
      · obtain ⟨rfl, -⟩ := Bool.and_eq_true_iff.mp hask
        cases h
        exact .clear (Bool.not_eq_true _ ▸ hmany)
      · cases h
        exact .judge
    | _ => cases h
  | keep now later =>
    left
    cases loop with
    | keeping => cases h; exact .keep
    | _ => cases h
  | mark =>
    left
    cases loop with
    | marking healthy => cases h; exact .mark
    | _ => cases h
  | recordCheck now later =>
    left
    cases loop with
    | recording healthy => cases h; exact .record
    | _ => cases h
  | pass now =>
    cases h
    exact .inr ⟨rfl, by rintro _ ⟨⟩, by rintro _ ⟨⟩⟩
/-! ### While the upstream answers -/

/-- The call puts something down to the upstream's fault: an HTTP error, a failure, or that it is
not healthy. -/
def ClientOp.blames : ClientOp → Bool
  | .recordHttpError _ _ | .recordFailure _ => true
  | .setHealthy healthy => !healthy
  | _ => false

/-- What a step calls, if it does. -/
def HealthState.call (s : HealthState) (a : HealthAction) : Option ClientOp :=
  (activityStep s.base.client s.activity a).bind Prod.snd

/-- A step that puts nothing down to the upstream's fault. -/
def Faultless (s : HealthState) (a : HealthAction) : Prop := ∀ op ∈ s.call a, op.blames = false

instance (s : HealthState) (a : HealthAction) : Decidable (Faultless s a) :=
  inferInstanceAs (Decidable (∀ op ∈ s.call a, op.blames = false))

/-- The errors that are remembered are from no later than this. -/
def NoneSince (since : ℕ) (c : UpstreamClient) : Prop := ∀ x ∈ c.httpErrorTimes, x ≤ since

variable {since due now : ℕ}

theorem noneSince_perform (hc : NoneSince since c) (hop : op.blames = false) :
    NoneSince since (op.perform c) := by
  intro x hx
  rcases mem_httpErrorTimes_perform hx with hold | ⟨later, rfl⟩
  · exact hc x hold
  · cases hop

/-- An hour later none of them counts. -/
theorem NoneSince.few (hc : NoneSince since c) (hnow : since + httpErrorWindow ≤ now) :
    c.hasTooManyHttpErrors now = false := by
  have hnone : recentErrors c.httpErrorTimes now = [] := by
    refine List.filter_eq_nil_iff.mpr fun x hx => ?_
    have := hc x hx
    simp only [decide_eq_true_eq, not_lt]
    omega
  rw [hasTooManyHttpErrors_eq_false, hnone]
  exact Nat.zero_lt_succ 4

/-- A success enables the upstream when no errors hold it back. -/
theorem recordSuccess_of_few (hfew : c.hasTooManyHttpErrors now = false) (later : ℕ) :
    (c.recordSuccess now later).disabled = false ∧
      (c.recordSuccess now later).healthy = c.healthy ∧
      (c.recordSuccess now later).nextCheckAt = later := by
  rw [recordSuccess]
  split_ifs with hdisabled hmany
  · exact absurd (hfew.symm.trans hmany) Bool.false_ne_true
  · exact ⟨rfl, rfl, rfl⟩
  · exact ⟨rfl, rfl, rfl⟩

/-- An hour after the last error: the next check is due at a given time at the latest, or at once.
From then on a check that passes brings the upstream back. -/
structure Cleared (since due : ℕ) (s : ClientState) : Prop where
  none : NoneSince since s.client
  hour : since + httpErrorWindow ≤ s.clock
  next : s.client.nextCheckAt ≤ max due s.clock

theorem cleared_step (hs : Cleared since due s) (hop : op.blames = false)
    (h : clientStep s op = some t) : Cleared since due t := by
  have hclock := clock_le h
  have hreadings : ∀ now ∈ op.readings, s.clock ≤ now ∧ now ≤ t.clock :=
    fun now hnow => mem_readings h hnow
  obtain ⟨-, rfl⟩ := clientStep_eq_some h
  refine ⟨noneSince_perform hs.none hop, hs.hour.trans hclock, ?_⟩
  have hkept := hs.next.trans (max_le_max_left due hclock)
  cases op with
  | recordHttpError | recordFailure => cases hop
  | recordSuccess now later =>
    have hnow := hreadings now List.mem_cons_self
    have hlater := hreadings later (by simp [ClientOp.readings])
    have hfew := hs.none.few (hs.hour.trans hnow.1)
    exact (recordSuccess_of_few hfew later).2.2.le.trans (le_max_of_le_right hlater.2)
  | setHealthy | hasTooManyHttpErrors | pass => exact hkept

theorem healthy_perform (hc : c.healthy = true) (hop : op.blames = false) :
    (op.perform c).healthy = true := by
  cases op with
  | recordHttpError | recordFailure => cases hop
  | recordSuccess now later =>
    rw [ClientOp.perform, recordSuccess]
    split_ifs <;> exact hc
  | setHealthy healthy => simpa [ClientOp.blames, ClientOp.perform, setHealthy] using hop
  | hasTooManyHttpErrors | pass => exact hc

theorem disabled_perform (hc : c.disabled = false) (hop : op.blames = false) :
    (op.perform c).disabled = false := by
  cases op with
  | recordHttpError | recordFailure => cases hop
  | recordSuccess now later =>
    rw [ClientOp.perform, recordSuccess, if_neg (by simp [hc])]
  | setHealthy | hasTooManyHttpErrors | pass => exact hc

theorem isHealthy_eq_true : c.isHealthy = true ↔ c.disabled = false ∧ c.healthy = true := by
  rw [isHealthy, Bool.and_eq_true, Bool.not_eq_true']

/-- A step, with the activity and the client that it leaves. -/
theorem healthMove {s t : HealthState} {a : HealthAction} (h : healthStep s a = some t) :
    ∃ op, activityStep s.base.client s.activity a = some (t.activity, op) ∧ s.call a = op ∧
      (op = none ∧ t.base = s.base ∨ ∃ o, op = some o ∧ clientStep s.base o = some t.base) := by
  obtain ⟨⟨p, op⟩, hnext, h⟩ := Option.bind_eq_some_iff.mp h
  have hcall : s.call a = op := by rw [HealthState.call, hnext]; rfl
  cases op with
  | none =>
    cases h
    exact ⟨none, hnext, hcall, .inl ⟨rfl, rfl⟩⟩
  | some o =>
    obtain ⟨base, hbase, rfl⟩ := Option.map_eq_some_iff.mp h
    exact ⟨some o, hnext, hcall, .inr ⟨o, rfl, hbase⟩⟩

/-- The upstream is in the traffic, or a check that brings it there is under way. It is what a run
without a fault does not leave any more. -/
inductive Returning (c : UpstreamClient) : LoopPhase → Prop
  | back {loop : LoopPhase} (hc : c.isHealthy = true) : Returning c loop
  | checking : Returning c .checking
  | checked {healthy : Bool} : Returning c (.checked healthy)
  | marking {healthy : Bool} : Returning c (.marking healthy)
  | recording (hc : c.healthy = true) : Returning c (.recording true)

section Step

variable {s t : HealthState} {a : HealthAction}

theorem cleared_health (hs : Cleared since due s.base) (ha : Faultless s a)
    (h : healthStep s a = some t) : Cleared since due t.base := by
  obtain ⟨op, -, hcall, ⟨-, hbase⟩ | ⟨o, rfl, hbase⟩⟩ := healthMove h
  · exact hbase ▸ hs
  · exact cleared_step hs (ha o hcall) hbase

/-- A faultless step takes no upstream out of the traffic. Nothing but a fault clears the flag or
sets the other. -/
theorem isHealthy_step (hs : s.base.client.isHealthy = true) (ha : Faultless s a)
    (h : healthStep s a = some t) : t.base.client.isHealthy = true := by
  obtain ⟨op, -, hcall, ⟨-, hbase⟩ | ⟨o, rfl, hbase⟩⟩ := healthMove h
  · exact hbase ▸ hs
  · obtain ⟨-, hbase⟩ := clientStep_eq_some hbase
    obtain ⟨hdisabled, hhealthy⟩ := isHealthy_eq_true.mp hs
    rw [hbase]
    exact isHealthy_eq_true.mpr
      ⟨disabled_perform hdisabled (ha o hcall), healthy_perform hhealthy (ha o hcall)⟩

theorem returning_step (hs : Cleared since due s.base)
    (hreturning : Returning s.base.client s.activity.loop) (ha : Faultless s a)
    (h : healthStep s a = some t) : Returning t.base.client t.activity.loop := by
  by_cases hback : s.base.client.isHealthy = true
  · exact .back (isHealthy_step hback ha h)
  obtain ⟨op, hnext, hcall, hbase⟩ := healthMove h
  have hclient : ∀ o, op = some o → t.base.client = o.perform s.base.client := by
    rintro o rfl
    rcases hbase with ⟨⟨⟩, -⟩ | ⟨_, ⟨rfl⟩, hbase⟩
    rw [(clientStep_eq_some hbase).2]
    rfl
  rcases loopMove hnext with hmove | ⟨hloop, -, hmarks⟩
  · generalize hfrom : s.activity.loop = p at hmove hreturning
    generalize hto : t.activity.loop = q at hmove ⊢
    cases hmove with
    | tick => exact .checking
    | check => exact .checked
    | clear | judge => exact .marking
    | @hold now hmany =>
      rcases hbase with ⟨⟨⟩, -⟩ | ⟨_, ⟨rfl⟩, hbase⟩
      have hnow := (mem_readings hbase List.mem_cons_self).1
      exact absurd ((hs.none.few (hs.hour.trans hnow)).symm.trans hmany) Bool.false_ne_true
    | @mark healthy =>
      have hhealthy := ha _ hcall
      cases healthy with
      | false => cases hhealthy
      | true => exact .recording (by rw [hclient _ rfl]; rfl)
    | @record now later healthy =>
      cases hreturning with
      | back hc => exact absurd hc hback
      | recording hc =>
        rcases hbase with ⟨⟨⟩, -⟩ | ⟨_, ⟨rfl⟩, hbase⟩
        have hnow := (mem_readings hbase List.mem_cons_self).1
        obtain ⟨hdisabled, hhealthy, -⟩ :=
          recordSuccess_of_few (hs.none.few (hs.hour.trans hnow)) later
        refine .back ?_
        rw [hclient _ rfl]
        exact isHealthy_eq_true.mpr ⟨hdisabled, hhealthy.trans hc⟩
    | rest | keep =>
      cases hreturning with
      | back hc => exact absurd hc hback
  · rw [hloop]
    generalize s.activity.loop = p at hreturning ⊢
    cases hreturning with
    | back hc => exact absurd hc hback
    | checking => exact .checking
    | checked => exact .checked
    | marking => exact .marking
    | recording hc =>
      refine .recording ?_
      rcases hbase with ⟨-, hbase⟩ | ⟨o, rfl, -⟩
      · exact hbase ▸ hc
      · rw [hclient o rfl]
        exact healthy_perform hc (ha o hcall)

end Step

/-! ### Back in the traffic -/

/-- A run in which nothing is put down to the upstream's fault. -/
structure FaultlessRun (s : HealthState) (as : List HealthAction) (t : HealthState) : Prop where
  run : run healthStep s as = some t
  along : Along healthStep Faultless s as

section Run

variable {s t u : HealthState} {a : HealthAction} {as cs : List HealthAction}

theorem FaultlessRun.nil (s : HealthState) : FaultlessRun s [] s := ⟨rfl, trivial⟩

theorem FaultlessRun.cons (h : healthStep s a = some u) (ha : Faultless s a)
    (has : FaultlessRun u as t) : FaultlessRun s (a :: as) t where
  run := (run_cons_of_step h as).trans has.run
  along _ hv := Option.some.inj (h.symm.trans hv) ▸ ⟨ha, has.along⟩

theorem FaultlessRun.cleared (h : FaultlessRun s as t) (hs : Cleared since due s.base) :
    Cleared since due t.base :=
  run_inv_along (I := fun t => Cleared since due t.base) (fun _ _ _ => cleared_health) hs h.along
    h.run

theorem FaultlessRun.returning (h : FaultlessRun s as t) (hs : Cleared since due s.base)
    (hreturning : Returning s.base.client s.activity.loop) :
    Returning t.base.client t.activity.loop :=
  (run_inv_along
    (I := fun t => Cleared since due t.base ∧ Returning t.base.client t.activity.loop)
    (fun _ _ _ ht ha h => ⟨cleared_health ht.1 ha h, returning_step ht.1 ht.2 ha h⟩)
    ⟨hs, hreturning⟩ h.along h.run).2

/-- No errors are remembered but those from before the run. -/
theorem FaultlessRun.noneSince (h : FaultlessRun s as t) (hs : NoneSince since s.base.client) :
    NoneSince since t.base.client := by
  refine run_inv_along (I := fun t => NoneSince since t.base.client) (fun u a v hu ha h => ?_) hs
    h.along h.run
  obtain ⟨op, -, hcall, ⟨-, hbase⟩ | ⟨o, rfl, hbase⟩⟩ := healthMove h
  · exact hbase ▸ hu
  · rw [(clientStep_eq_some hbase).2]
    exact noneSince_perform hu (ha o hcall)

/-- From a check that is due an hour later on, the upstream is in the traffic whenever the loop
waits, until something is put down to its fault again. -/
theorem FaultlessRun.isHealthy_of_due (h : FaultlessRun s cs t) (hs : Cleared since due s.base)
    (htick : .tick now ∈ cs) (hdue : due ≤ now) (hwaiting : t.activity.loop = .waiting) :
    t.base.client.isHealthy = true := by
  obtain ⟨pre, post, rfl⟩ := List.append_of_mem htick
  obtain ⟨v, hpre, hrun⟩ := Option.bind_eq_some_iff.mp ((run_append s _ _).symm.trans h.run)
  obtain ⟨w, hw, hpost⟩ := run_cons_eq_some.mp hrun
  have hv : Cleared since due v.base :=
    FaultlessRun.cleared ⟨hpre, h.along.of_prefix (List.prefix_append _ _)⟩ hs
  obtain ⟨htock, halong⟩ := h.along.of_run hpre w hw
  have hchecking : w.activity.loop = .checking := by
    obtain ⟨op, hnext, -, hbase⟩ := healthMove hw
    rcases loopMove hnext with hmove | ⟨-, hno, -⟩
    · generalize v.activity.loop = p at hmove
      generalize w.activity.loop = q at hmove ⊢
      cases hmove with
      | tick => rfl
      | rest hnot =>
        rcases hbase with ⟨⟨⟩, -⟩ | ⟨_, ⟨rfl⟩, hbase⟩
        have hclock := (mem_readings hbase List.mem_cons_self).1
        exact absurd (hv.next.trans (max_le hdue hclock)) (not_le.mpr hnot)
    · exact absurd rfl (hno now)
  have hreturned := FaultlessRun.returning ⟨hpost, halong⟩ (cleared_health hv htock hw)
    (hchecking ▸ .checking)
  rw [hwaiting] at hreturned
  cases hreturned with
  | back hc => exact hc

/-! ### A check that passes -/

/-- A step that reads nothing but `now` from the clock and blames nothing on the upstream. -/
theorem exists_faultless_step {p : Activity} {op : Option ClientOp}
    (hnext : activityStep s.base.client s.activity a = some (p, op)) (hclock : s.base.clock ≤ now)
    (hreads : ∀ o ∈ op, ∀ r ∈ o.readings, r = now) (hop : ∀ o ∈ op, o.blames = false) :
    ∃ t, healthStep s a = some t ∧ Faultless s a ∧ t.activity = p ∧ t.base.clock ≤ now := by
  obtain ⟨t, ht, hactivity, hle⟩ := healthStep_enabled hnext hclock hreads
  refine ⟨t, ht, fun o ho => hop o ?_, hactivity, hle⟩
  rwa [HealthState.call, hnext] at ho

/-- A check that has passed is recorded, whether or not errors still count. -/
theorem exists_judged (hloop : s.activity.loop = .checked true) (hclock : s.base.clock ≤ now) :
    ∃ t, healthStep s (.judge now) = some t ∧ Faultless s (.judge now) ∧ t.base.clock ≤ now ∧
      (t.activity.loop = .keeping ∨ t.activity.loop = .marking true) := by
  by_cases hdisabled : s.base.client.disabled = true
  · obtain ⟨t, ht, ha, hactivity, hclock⟩ := exists_faultless_step (a := .judge now)
      (by rw [activityStep, hloop]; exact if_pos hdisabled) hclock
      (fun o ho r hr => by cases Option.some.inj ho; exact List.mem_singleton.mp hr)
      (fun o ho => by cases Option.some.inj ho; rfl)
    refine ⟨t, ht, ha, hclock, ?_⟩
    rw [hactivity]
    dsimp only
    split_ifs
    · exact .inl rfl
    · exact .inr rfl
  · obtain ⟨t, ht, ha, hactivity, hclock⟩ := exists_faultless_step (a := .judge now)
      (by rw [activityStep, hloop]; exact if_neg hdisabled) hclock (fun o ho => by cases ho)
      (fun o ho => by cases ho)
    exact ⟨t, ht, ha, hclock, .inr (congrArg Activity.loop hactivity)⟩

/-- A check that has been sent may pass at once. -/
theorem exists_check (hloop : s.activity.loop = .checking) (hclock : s.base.clock ≤ now) :
    ∃ as t, FaultlessRun s as t ∧ t.activity.loop = .waiting ∧ t.base.clock ≤ now := by
  have hreads : ∀ o ∈ some (ClientOp.recordSuccess now now), ∀ r ∈ o.readings, r = now := by
    rintro _ ⟨⟩
    simp [ClientOp.readings]
  obtain ⟨u, hu, hua, hactivity, hclock⟩ := exists_faultless_step (a := .check .ok true)
    (by rw [activityStep, hloop]) hclock (fun o ho => by cases ho) (fun o ho => by cases ho)
  obtain ⟨v, hv, hva, hclock, hkeeping | hmarking⟩ :=
    exists_judged (congrArg Activity.loop hactivity) hclock
  · obtain ⟨w, hw, hwa, hactivity, hclock⟩ := exists_faultless_step (a := .keep now now)
      (by rw [activityStep, hkeeping]) hclock hreads
      (fun o ho => by cases Option.some.inj ho; rfl)
    exact ⟨_, w, .cons hu hua (.cons hv hva (.cons hw hwa (.nil w))),
      congrArg Activity.loop hactivity, hclock⟩
  · obtain ⟨w, hw, hwa, hactivity, hclock⟩ := exists_faultless_step (a := .mark)
      (by rw [activityStep, hmarking]) hclock
      (fun o ho r hr => by cases Option.some.inj ho; cases hr)
      (fun o ho => by cases Option.some.inj ho; rfl)
    obtain ⟨x, hx, hxa, hactivity, hclock⟩ := exists_faultless_step (a := .recordCheck now now)
      (by rw [activityStep, congrArg Activity.loop hactivity]; rfl) hclock hreads
      (fun o ho => by cases Option.some.inj ho; rfl)
    exact ⟨_, x, .cons hu hua (.cons hv hva (.cons hw hwa (.cons hx hxa (.nil x)))),
      congrArg Activity.loop hactivity, hclock⟩

/-- A client that is due is checked at the next tick. -/
theorem exists_tick (hloop : s.activity.loop = .waiting) (hclock : s.base.clock ≤ now)
    (hdue : s.base.client.nextCheckAt ≤ now) :
    ∃ t, healthStep s (.tick now) = some t ∧ Faultless s (.tick now) ∧
      t.activity.loop = .checking ∧ t.base.clock ≤ now := by
  obtain ⟨t, ht, ha, hactivity, hclock⟩ := exists_faultless_step (a := .tick now)
    (by rw [activityStep, hloop]) hclock
    (fun o ho r hr => by cases Option.some.inj ho; exact List.mem_singleton.mp hr)
    (fun o ho => by cases Option.some.inj ho; rfl)
  refine ⟨t, ht, ha, ?_, hclock⟩
  rw [hactivity, isDueForCheck, if_pos (decide_eq_true hdue)]

end Run

theorem scheduled_run {as : List HealthAction} {s : HealthState}
    (hrun : run healthStep (.init interval start) as = some s) : Scheduled interval s.base := by
  refine run_inv (I := fun s => Scheduled interval s.base) (fun s a t hs h => ?_) scheduled_init
    hrun
  obtain ⟨op, -, -, ⟨-, hbase⟩ | ⟨o, -, hbase⟩⟩ := healthMove h
  · exact hbase ▸ hs
  · exact scheduled_step hs hbase

/-- An hour after a moment from which on nothing was put down to the upstream's fault. -/
theorem cleared_of_hour {as bs : List HealthAction} {s u : HealthState}
    (hreach : run healthStep (.init interval start) as = some s) (hrun : FaultlessRun s bs u)
    (hhour : s.base.clock + httpErrorWindow ≤ u.base.clock) :
    Cleared s.base.clock (u.base.clock + max interval longestBackoff) u.base where
  none := hrun.noneSince (scheduled_run hreach).past
  hour := hhour
  next := by
    have hu : run healthStep (.init interval start) (as ++ bs) = some u := by
      rw [run_append, hreach, Option.bind_some, hrun.run]
    exact (scheduled_run hu).next.trans (le_max_left _ _)

/-- **No upstream is out of the traffic for good.** Once nothing is put down to its fault any more,
it takes an hour, and then a check as late as checks may be, and from that check on the upstream is
in the traffic whenever the loop waits. It need not take longer, since the check may be sent and
answered at once. -/
theorem returns_to_traffic {interval start : ℕ} {as : List HealthAction} {s : HealthState}
    (hreach : run healthStep (.init interval start) as = some s) :
    (∀ bs u cs t now, FaultlessRun s bs u → s.base.clock + httpErrorWindow ≤ u.base.clock →
      FaultlessRun u cs t → .tick now ∈ cs → u.base.clock + max interval longestBackoff ≤ now →
      t.activity.loop = .waiting → t.base.client.isHealthy = true) ∧
    (s.activity.loop = .waiting → ∃ bs t, FaultlessRun s bs t ∧ t.activity.loop = .waiting ∧
      t.base.client.isHealthy = true ∧
      t.base.clock ≤ s.base.clock + httpErrorWindow + max interval longestBackoff) := by
  refine ⟨fun bs u cs t now hbs hhour hcs htick hdue hwaiting =>
    hcs.isHealthy_of_due (cleared_of_hour hreach hbs hhour) htick hdue hwaiting, fun hloop => ?_⟩
  obtain ⟨u, hu, hua, hactivity, hclock⟩ :=
    exists_faultless_step (a := .pass (s.base.clock + httpErrorWindow)) rfl
      (Nat.le_add_right _ httpErrorWindow)
      (fun o ho r hr => by cases Option.some.inj ho; exact List.mem_singleton.mp hr)
      (fun o ho => by cases Option.some.inj ho; rfl)
  have hbs : FaultlessRun s [.pass (s.base.clock + httpErrorWindow)] u := .cons hu hua (.nil u)
  have hhour : s.base.clock + httpErrorWindow ≤ u.base.clock := by
    obtain ⟨op, hnext, -, hbase⟩ := healthMove hu
    obtain ⟨-, rfl⟩ := Prod.mk.inj (Option.some.inj hnext)
    rcases hbase with ⟨⟨⟩, -⟩ | ⟨_, ⟨rfl⟩, hbase⟩
    exact (mem_readings hbase List.mem_cons_self).2
  have hcleared := cleared_of_hour hreach hbs hhour
  obtain ⟨v, hv, hva, hchecking, hclock⟩ := exists_tick
    ((congrArg Activity.loop hactivity).trans hloop)
    (hclock.trans (Nat.le_add_right _ (max interval longestBackoff)))
    (hcleared.next.trans (by omega))
  obtain ⟨cs, t, hcs, hwaiting, hclock⟩ := exists_check hchecking hclock
  have hround := FaultlessRun.cons hv hva hcs
  refine ⟨_, t, .cons hu hua hround, hwaiting, ?_, hclock⟩
  exact hround.isHealthy_of_due hcleared List.mem_cons_self (by omega) hwaiting

/-- Five HTTP errors within four seconds disable an upstream, and it can be back within a day, an
hour and these four seconds. -/
theorem fiveErrors_return :
    ∃ s, run healthStep (.init (86400 * second) 0)
        (failedRequests (fun now => .httpError now now) 5) = some s ∧
      s.base.client.isHealthy = false ∧
      ∃ bs t, FaultlessRun s bs t ∧ t.base.client.isHealthy = true ∧
        t.base.clock ≤ 90004 * second := by
  obtain ⟨s, hs, hdisabled, hwaiting, hclock⟩ :
      ∃ s, run healthStep (.init (86400 * second) 0)
          (failedRequests (fun now => .httpError now now) 5) = some s ∧
        s.base.client.isHealthy = false ∧ s.activity.loop = .waiting ∧
        s.base.clock = 4 * second :=
    ⟨_, rfl, rfl, rfl, rfl⟩
  obtain ⟨bs, t, hbs, -, hhealthy, hle⟩ := (returns_to_traffic hs).2 hwaiting
  rw [hclock] at hle
  exact ⟨s, hs, hdisabled, bs, t, hbs, hhealthy, hle⟩

end Poolbeg
