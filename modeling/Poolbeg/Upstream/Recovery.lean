import Poolbeg.Upstream.Health

/-!
# What a health check leaves behind

One iteration of `health_check_loop` after its check has been answered. Nothing is awaited in that
part of the loop body, and the clock reads the same throughout. Whatever requests are doing to the
upstream at that moment, the iteration ends in one of three ways: it leaves a disabled upstream as
it is, because too many HTTP errors still count; it brings the upstream back; or it takes the
upstream out of the traffic.

## Why the three are all

A check that has not passed takes the upstream out: it is marked unhealthy, and the failure that is
recorded next cannot mark it healthy. A check that has passed asks about errors if the upstream is
disabled. If there are too many, nothing is done but to put the next check off. Otherwise the
upstream is marked healthy and `record_success` is called, which asks about errors once more and
finds the same. If the upstream is not disabled, the loop does not ask; and the second question does
not arise, because an upstream that is not disabled never has five errors to its name (`ErrorInv`).

The answer of the check is where others may still act before the iteration goes on. The result is
therefore stated from any reachable state, with a check under way, and counts errors at that moment.

## Main definitions

* `checkSteps` — the iteration, from the answer to the check on

## Main results

* `checkSteps_complete` — an iteration that has begun its check can be finished
* `isHealthy_of_failed`, `isHealthy_of_held`, `isHealthy_of_passed` — the three ways it ends
* `checked_isHealthy_iff` — when the upstream is in the traffic afterwards
-/

namespace Poolbeg

open Lts UpstreamClient

/-! ### The calls that end an iteration -/

section Calls

variable {c : UpstreamClient}

theorem recentErrors_recentErrors (times : List ℕ) (now : ℕ) :
    recentErrors (recentErrors times now) now = recentErrors times now := by
  rw [recentErrors, recentErrors, List.filter_filter]
  exact List.filter_congr fun t _ => Bool.and_self _

/-- Asking twice gives the same answer. -/
theorem hasTooManyHttpErrors_prune (c : UpstreamClient) (now : ℕ) :
    (c.prune now).hasTooManyHttpErrors now = c.hasTooManyHttpErrors now := by
  have hsame : ((c.prune now).prune now).httpErrorTimes = (c.prune now).httpErrorTimes :=
    recentErrors_recentErrors _ _
  rw [hasTooManyHttpErrors, hsame]
  rfl

theorem hasTooManyHttpErrors_eq_false {now : ℕ} :
    c.hasTooManyHttpErrors now = false ↔
      (recentErrors c.httpErrorTimes now).length < maxHttpErrors := by
  rw [hasTooManyHttpErrors, decide_eq_false_iff_not, not_le]
  rfl

/-- A failed check takes the upstream out of the traffic. -/
theorem isHealthy_recordFailure (hc : c.healthy = false) (now : ℕ) :
    (c.recordFailure now).isHealthy = false := by
  have hhealthy : (c.recordFailure now).healthy = false := by
    rw [recordFailure]
    split_ifs
    · rfl
    · exact hc
  rw [isHealthy, hhealthy, Bool.and_false]

/-- A success leaves an upstream disabled that has too many errors, and remembers them. -/
theorem recordSuccess_tooMany (hdisabled : c.disabled = true) {now : ℕ}
    (hmany : c.hasTooManyHttpErrors now = true) (later : ℕ) :
    (c.recordSuccess now later).isHealthy = false ∧
      (c.recordSuccess now later).httpErrorTimes = recentErrors c.httpErrorTimes now := by
  have heq : c.recordSuccess now later =
      { ({ c with consecutiveFailures := 0 } : UpstreamClient).prune now with
        nextCheckAt := later + c.disabledRetryInterval } :=
    (if_pos hdisabled).trans (if_pos hmany)
  rw [heq]
  refine ⟨?_, rfl⟩
  change (!c.disabled && c.healthy) = false
  rw [hdisabled]
  rfl

/-- Any other success brings the upstream back, as far as the flag goes that says it is healthy, and
keeps no more than a few errors that count. Whether it is healthy is what the loop has set before.
-/
theorem recordSuccess_few {now : ℕ} (hfew : c.hasTooManyHttpErrors now = false) (later : ℕ) :
    (c.recordSuccess now later).isHealthy = c.healthy ∧
      (recentErrors (c.recordSuccess now later).httpErrorTimes now).length < maxHttpErrors := by
  rw [recordSuccess]
  split_ifs with hdisabled hmany
  · exact absurd (hfew.symm.trans hmany) Bool.false_ne_true
  · exact ⟨rfl, Nat.zero_lt_succ 4⟩
  · exact ⟨rfl, hasTooManyHttpErrors_eq_false.mp hfew⟩

/-- An upstream that is not disabled has no more than a few errors, at any time. -/
theorem ErrorInv.few (hc : ErrorInv c) (hdisabled : c.disabled = false) (now : ℕ) :
    c.hasTooManyHttpErrors now = false :=
  hasTooManyHttpErrors_eq_false.mpr ((List.length_filter_le _ _).trans_lt (hc hdisabled))

end Calls

/-! ### The steps of an iteration -/

/-- What is left of an iteration once the check has been sent: its answer, the question about
errors, and either the branch that leaves a disabled upstream alone or the one that records the
outcome. `kept` tells which. -/
def checkSteps (outcome : SendOutcome) (wellFormed : Bool) (now later : ℕ) (kept : Bool) :
    List HealthAction :=
  .check outcome wellFormed :: .judge now ::
    if kept then [.keep now later] else [.mark, .recordCheck now later]

variable {s t : HealthState}

theorem errorInv_health {a : HealthAction} (hs : ErrorInv s.base.client)
    (h : healthStep s a = some t) : ErrorInv t.base.client := by
  obtain ⟨p, op, -, ⟨-, hbase⟩ | ⟨o, -, hbase⟩⟩ := healthStep_eq_some h
  · rwa [hbase]
  · exact errorInv_step hs hbase

/-- A step that calls a method. -/
theorem healthStep_calls {a : HealthAction} {p : Activity} {op : ClientOp}
    (hnext : activityStep s.base.client s.activity a = some (p, some op))
    (h : healthStep s a = some t) :
    t.activity = p ∧ t.base.client = op.perform s.base.client := by
  rw [healthStep, hnext] at h
  obtain ⟨base, hbase, rfl⟩ := Option.map_eq_some_iff.mp h
  obtain ⟨-, rfl⟩ := clientStep_eq_some hbase
  exact ⟨rfl, rfl⟩

/-- A step that calls none. -/
theorem healthStep_calls_none {a : HealthAction} {p : Activity}
    (hnext : activityStep s.base.client s.activity a = some (p, none))
    (h : healthStep s a = some t) : t.activity = p ∧ t.base = s.base := by
  rw [healthStep, hnext] at h
  cases h
  exact ⟨rfl, rfl⟩

/-- A check that passes has recorded nothing. -/
theorem step_check {outcome : SendOutcome} {wellFormed : Bool}
    (h : healthStep s (.check outcome wellFormed) = some t) :
    t.activity.loop = .checked (outcome.isOk && wellFormed) ∧
      (outcome.isOk = true → t.base = s.base) := by
  have hloop : s.activity.loop = .checking := by
    by_contra hne
    rw [healthStep, activityStep] at h
    split at h
    · exact hne ‹_›
    · cases h
  have hnext : activityStep s.base.client s.activity (.check outcome wellFormed) =
      some ({ s.activity with loop := .checked (outcome.isOk && wellFormed) }, outcome.op) := by
    rw [activityStep, hloop]
  cases outcome with
  | ok =>
    obtain ⟨hactivity, hbase⟩ := healthStep_calls_none hnext h
    exact ⟨by rw [hactivity], fun _ => hbase⟩
  | httpError now later =>
    obtain ⟨hactivity, -⟩ := healthStep_calls hnext h
    exact ⟨by rw [hactivity], fun hok => by cases hok⟩
  | otherError =>
    obtain ⟨hactivity, hbase⟩ := healthStep_calls_none hnext h
    exact ⟨by rw [hactivity], fun _ => hbase⟩

/-- The loop asks about errors only on behalf of a disabled upstream whose check has passed. The
other checks go on to marking at once. -/
theorem step_judge {now : ℕ} {healthy : Bool} (hloop : s.activity.loop = .checked healthy)
    (h : healthStep s (.judge now) = some t) :
    if healthy && s.base.client.disabled then
      t.base.client = s.base.client.prune now ∧
        t.activity.loop =
          if s.base.client.hasTooManyHttpErrors now then .keeping else .marking healthy
    else t.base.client = s.base.client ∧ t.activity.loop = .marking healthy := by
  by_cases hask : (healthy && s.base.client.disabled) = true
  · rw [if_pos hask]
    obtain ⟨hactivity, hclient⟩ :=
      healthStep_calls (by rw [activityStep, hloop]; exact if_pos hask) h
    exact ⟨hclient, congrArg Activity.loop hactivity⟩
  · rw [if_neg hask]
    obtain ⟨hactivity, hbase⟩ :=
      healthStep_calls_none (by rw [activityStep, hloop]; exact if_neg hask) h
    exact ⟨congrArg ClientState.client hbase, congrArg Activity.loop hactivity⟩

theorem step_keep {now later : ℕ} (h : healthStep s (.keep now later) = some t) :
    s.activity.loop = .keeping ∧ t.base.client = s.base.client.recordSuccess now later := by
  cases hloop : s.activity.loop with
  | keeping =>
    obtain ⟨-, hclient⟩ := healthStep_calls (by rw [activityStep, hloop]) h
    exact ⟨rfl, hclient⟩
  | _ =>
    rw [healthStep, activityStep, hloop] at h
    cases h

theorem step_mark (h : healthStep s .mark = some t) :
    ∃ healthy, s.activity.loop = .marking healthy ∧ t.activity.loop = .recording healthy ∧
      t.base.client = s.base.client.setHealthy healthy := by
  cases hloop : s.activity.loop with
  | marking healthy =>
    obtain ⟨hactivity, hclient⟩ := healthStep_calls (by rw [activityStep, hloop]) h
    exact ⟨healthy, rfl, by rw [hactivity], hclient⟩
  | _ =>
    rw [healthStep, activityStep, hloop] at h
    cases h

theorem step_recordCheck {now later : ℕ} {healthy : Bool}
    (hloop : s.activity.loop = .recording healthy)
    (h : healthStep s (.recordCheck now later) = some t) :
    t.base.client =
      if healthy then s.base.client.recordSuccess now later
      else s.base.client.recordFailure now := by
  rw [(healthStep_calls (by rw [activityStep, hloop]) h).2]
  cases healthy <;> rfl

/-- A step that reads nothing but `now` from the clock can be taken then. -/
theorem healthStep_enabled {a : HealthAction} {p : Activity} {op : Option ClientOp} {now : ℕ}
    (hnext : activityStep s.base.client s.activity a = some (p, op)) (hclock : s.base.clock ≤ now)
    (hreads : ∀ o ∈ op, ∀ r ∈ o.readings, r = now) :
    ∃ t, healthStep s a = some t ∧ t.activity = p ∧ t.base.clock ≤ now := by
  cases op with
  | none => exact ⟨⟨s.base, p⟩, by rw [healthStep, hnext]; rfl, rfl, hclock⟩
  | some o =>
    have hreads := hreads o rfl
    have hchain : (s.base.clock :: o.readings).IsChain (· ≤ ·) ∧
        o.readings.getLastD s.base.clock ≤ now := by
      cases o <;> simp [ClientOp.readings] at hreads ⊢ <;> omega
    refine ⟨⟨s.base.leave (o.readings.getLastD s.base.clock) (o.perform s.base.client), p⟩,
      ?_, rfl, hchain.2⟩
    rw [healthStep, hnext]
    change (clientStep s.base o).map _ = _
    rw [clientStep, if_pos hchain.1]
    rfl

/-- An iteration that has sent its check can be finished, whatever the answer, at any time. Which of
the branches it takes depends on the state. -/
theorem checkSteps_complete {now : ℕ} (hloop : s.activity.loop = .checking)
    (hclock : s.base.clock ≤ now) {outcome : SendOutcome}
    (houtcome : ∀ o ∈ outcome.op, ∀ r ∈ o.readings, r = now) (wellFormed : Bool) :
    ∃ kept t, run healthStep s (checkSteps outcome wellFormed now now kept) = some t ∧
      t.activity.loop = .waiting := by
  have hreads : ∀ (b : Bool) (o : ClientOp), o ∈ some (recordOutcome b now now) →
      ∀ r ∈ o.readings, r = now := by
    intro b o ho r hr
    cases Option.some.inj ho
    cases b <;> simpa [recordOutcome, ClientOp.readings] using hr
  obtain ⟨u, hu, hactivity, hclock⟩ := healthStep_enabled (a := .check outcome wellFormed)
    (by rw [activityStep, hloop]) hclock houtcome
  have hchecked : u.activity.loop = .checked (outcome.isOk && wellFormed) :=
    congrArg Activity.loop hactivity
  obtain ⟨v, hv, hnext, hclock⟩ : ∃ v, healthStep u (.judge now) = some v ∧
      (v.activity.loop = .keeping ∨ ∃ healthy, v.activity.loop = .marking healthy) ∧
        v.base.clock ≤ now := by
    by_cases hask : (outcome.isOk && wellFormed && u.base.client.disabled) = true
    · obtain ⟨v, hv, hactivity, hclock⟩ := healthStep_enabled (a := .judge now)
        (by rw [activityStep, hchecked]; exact if_pos hask) hclock
        (fun o ho r hr => by cases Option.some.inj ho; exact List.mem_singleton.mp hr)
      refine ⟨v, hv, ?_, hclock⟩
      have hloop : v.activity.loop = _ := congrArg Activity.loop hactivity
      rw [hloop]
      dsimp only
      split_ifs
      · exact .inl rfl
      · exact .inr ⟨_, rfl⟩
    · obtain ⟨v, hv, hactivity, hclock⟩ := healthStep_enabled (a := .judge now)
        (by rw [activityStep, hchecked]; exact if_neg hask) hclock (fun o ho => by cases ho)
      exact ⟨v, hv, .inr ⟨_, congrArg Activity.loop hactivity⟩, hclock⟩
  rcases hnext with hkeeping | ⟨healthy, hmarking⟩
  · obtain ⟨w, hw, hactivity, -⟩ := healthStep_enabled (a := .keep now now)
      (by rw [activityStep, hkeeping]; rfl) hclock (hreads true)
    refine ⟨true, w, ?_, congrArg Activity.loop hactivity⟩
    rw [checkSteps, run_cons_of_step hu, run_cons_of_step hv]
    exact (run_cons_of_step hw _).trans rfl
  · obtain ⟨w, hw, hactivity, hclock⟩ := healthStep_enabled (a := .mark)
      (by rw [activityStep, hmarking]) hclock
      (fun o ho r hr => by cases Option.some.inj ho; cases hr)
    obtain ⟨x, hx, hactivity, -⟩ := healthStep_enabled (a := .recordCheck now now)
      (by rw [activityStep, congrArg Activity.loop hactivity]) hclock (hreads healthy)
    refine ⟨false, x, ?_, congrArg Activity.loop hactivity⟩
    rw [checkSteps, run_cons_of_step hu, run_cons_of_step hv]
    exact (run_cons_of_step hw _).trans ((run_cons_of_step hx _).trans rfl)

/-! ### The outcome -/

/-- An iteration without an HTTP error to hold it back: the flag is set to the outcome of the check,
which is then recorded. -/
theorem isHealthy_recorded {c : UpstreamClient} {healthy : Bool} {now : ℕ}
    (hfew : healthy = true → c.hasTooManyHttpErrors now = false) (later : ℕ) :
    let d := if healthy then (c.setHealthy healthy).recordSuccess now later
      else (c.setHealthy healthy).recordFailure now
    d.isHealthy = healthy ∧
      (healthy = true → (recentErrors d.httpErrorTimes now).length < maxHttpErrors) := by
  cases healthy with
  | true =>
    obtain ⟨hhealthy, hlength⟩ := recordSuccess_few (c := c.setHealthy true) (hfew rfl) later
    exact ⟨hhealthy, fun _ => hlength⟩
  | false =>
    exact ⟨isHealthy_recordFailure (c := c.setHealthy false) rfl now, fun h => by cases h⟩

/-- The same over the steps: from a client that is not held back, the outcome of the check is what
the iteration leaves behind. -/
theorem isHealthy_of_marked {healthy : Bool} {now later : ℕ}
    (hloop : s.activity.loop = .marking healthy)
    (hfew : healthy = true → s.base.client.hasTooManyHttpErrors now = false)
    (h : run healthStep s [.mark, .recordCheck now later] = some t) :
    t.base.client.isHealthy = healthy ∧
      (healthy = true →
        (recentErrors t.base.client.httpErrorTimes now).length < maxHttpErrors) := by
  obtain ⟨u, hu, h⟩ := run_cons_eq_some.mp h
  obtain ⟨v, hv, h⟩ := run_cons_eq_some.mp h
  cases h
  obtain ⟨marked, hmarking, hrecording, hclient⟩ := step_mark hu
  cases hloop.symm.trans hmarking
  rw [step_recordCheck hrecording hv, hclient]
  exact isHealthy_recorded hfew later

/-- The iteration of a check that has not passed takes the upstream out of the traffic. -/
theorem isHealthy_of_failed {now later : ℕ} {kept : Bool}
    (hloop : s.activity.loop = .marking false)
    (h : run healthStep s (if kept then [.keep now later] else [.mark, .recordCheck now later]) =
      some t) : t.base.client.isHealthy = false := by
  cases kept with
  | true =>
    obtain ⟨w, hw, -⟩ := run_cons_eq_some.mp h
    exact absurd (hloop.symm.trans (step_keep hw).1) (by intro h; cases h)
  | false => exact (isHealthy_of_marked hloop (fun h => by cases h) h).1

/-- The iteration of a check that has passed leaves an upstream alone that is held back. It was
disabled and stays so. -/
theorem isHealthy_of_held {now later : ℕ} {kept : Bool} {c : UpstreamClient}
    (hloop : s.activity.loop = .keeping) (hclient : s.base.client = c.prune now)
    (hdisabled : c.disabled = true) (hmany : c.hasTooManyHttpErrors now = true)
    (h : run healthStep s (if kept then [.keep now later] else [.mark, .recordCheck now later]) =
      some t) :
    t.base.client.isHealthy = false ∧
      recentErrors t.base.client.httpErrorTimes now = recentErrors c.httpErrorTimes now := by
  cases kept with
  | true =>
    obtain ⟨w, hw, h⟩ := run_cons_eq_some.mp h
    cases h
    have hmany' : (c.prune now).hasTooManyHttpErrors now = true :=
      (hasTooManyHttpErrors_prune _ _).trans hmany
    obtain ⟨hresult, htimes⟩ := recordSuccess_tooMany (c := c.prune now) hdisabled hmany' later
    rw [(step_keep hw).2, hclient, htimes, recentErrors_recentErrors]
    exact ⟨hresult, recentErrors_recentErrors _ _⟩
  | false =>
    obtain ⟨w, hw, -⟩ := run_cons_eq_some.mp h
    obtain ⟨marked, hmarking, -⟩ := step_mark hw
    exact absurd (hloop.symm.trans hmarking) (by intro h; cases h)

/-- The iteration of a check that has passed brings any other upstream back. -/
theorem isHealthy_of_passed {now later : ℕ} {kept : Bool}
    (hloop : s.activity.loop = .marking true)
    (hfew : s.base.client.hasTooManyHttpErrors now = false)
    (h : run healthStep s (if kept then [.keep now later] else [.mark, .recordCheck now later]) =
      some t) :
    t.base.client.isHealthy = true ∧
      (recentErrors t.base.client.httpErrorTimes now).length < maxHttpErrors := by
  cases kept with
  | true =>
    obtain ⟨w, hw, -⟩ := run_cons_eq_some.mp h
    exact absurd (hloop.symm.trans (step_keep hw).1) (by intro h; cases h)
  | false =>
    obtain ⟨hresult, hlength⟩ := isHealthy_of_marked hloop (fun _ => hfew) h
    exact ⟨hresult, hlength rfl⟩

/-- **A health check leaves the upstream in the traffic exactly when it has passed and fewer than
five HTTP errors count**, whatever has been done to the upstream before. The errors may be counted
when the check is answered or when the iteration is over; the number is the same. -/
theorem checked_isHealthy_iff {disabledRetryInterval start : ℕ} {as : List HealthAction}
    (hrun : run healthStep (.init disabledRetryInterval start) as = some s) {outcome : SendOutcome}
    {wellFormed kept : Bool} {now later : ℕ}
    (hcheck : run healthStep s (checkSteps outcome wellFormed now later kept) = some t) :
    (t.base.client.isHealthy = true ↔ (outcome.isOk && wellFormed) = true ∧
      (recentErrors s.base.client.httpErrorTimes now).length < maxHttpErrors) ∧
    (t.base.client.isHealthy = true ↔ (outcome.isOk && wellFormed) = true ∧
      (recentErrors t.base.client.httpErrorTimes now).length < maxHttpErrors) := by
  have hinv : ErrorInv s.base.client :=
    run_inv (I := fun s => ErrorInv s.base.client) (fun _ _ _ hs h => errorInv_health hs h)
      (errorInv_new disabledRetryInterval start) hrun
  obtain ⟨u, hu, hcheck⟩ := run_cons_eq_some.mp hcheck
  obtain ⟨v, hv, hcheck⟩ := run_cons_eq_some.mp hcheck
  obtain ⟨hchecked, hpassed⟩ := step_check hu
  have hjudge := step_judge hchecked hv
  generalize hhealthy : (outcome.isOk && wellFormed) = healthy at hchecked hjudge ⊢
  cases healthy with
  | false =>
    simp only [Bool.false_and, Bool.false_eq_true, if_false] at hjudge
    simp [isHealthy_of_failed hjudge.2 hcheck]
  | true =>
    have hbase : u.base = s.base := hpassed (Bool.and_eq_true_iff.mp hhealthy).1
    rw [hbase, Bool.true_and] at hjudge
    by_cases hheld : s.base.client.disabled = true ∧
        s.base.client.hasTooManyHttpErrors now = true
    · -- disabled, and to stay so
      obtain ⟨hdisabled, hmany⟩ := hheld
      rw [if_pos hdisabled, if_pos hmany] at hjudge
      have hnotfew : ¬ (recentErrors s.base.client.httpErrorTimes now).length < maxHttpErrors :=
        not_lt.mpr (of_decide_eq_true hmany)
      obtain ⟨hresult, htimes⟩ := isHealthy_of_held hjudge.2 hjudge.1 hdisabled hmany hcheck
      simp [hresult, htimes, hnotfew]
    · -- not disabled, or free of the errors that disabled it
      have hfew : s.base.client.hasTooManyHttpErrors now = false := by
        cases hdisabled : s.base.client.disabled with
        | false => exact hinv.few hdisabled now
        | true => simpa [hdisabled] using hheld
      have hmarking : v.activity.loop = .marking true ∧
          v.base.client.hasTooManyHttpErrors now = false := by
        split_ifs at hjudge with hdisabled hmany
        · exact absurd (hfew.symm.trans hmany) Bool.false_ne_true
        · exact ⟨hjudge.2, by rw [hjudge.1, hasTooManyHttpErrors_prune, hfew]⟩
        · exact ⟨hjudge.2, by rw [hjudge.1, hfew]⟩
      obtain ⟨hresult, hlength⟩ := isHealthy_of_passed hmarking.1 hmarking.2 hcheck
      simp [hresult, hlength, hasTooManyHttpErrors_eq_false.mp hfew]

/-! ### Back in the traffic -/

/-- Five requests fail with an HTTP error within five seconds; a check is sent an hour later. -/
def errorsAnHourAgo : List HealthAction :=
  failedRequests (fun now => .httpError now now) 5 ++ [.tick (3605 * second)]

/-- The check passes, and the upstream is back. -/
theorem checked_isHealthy_errorsAnHourAgo :
    ∃ s t, run healthStep (.init (86400 * second) 0) errorsAnHourAgo = some s ∧
      s.base.client.disabled = true ∧
      run healthStep s (checkSteps .ok true (3605 * second) (3605 * second) false) = some t ∧
      t.base.client.isHealthy = true := by
  obtain ⟨s, t, hs, hdisabled, ht, hfew⟩ :
      ∃ s t, run healthStep (.init (86400 * second) 0) errorsAnHourAgo = some s ∧
        s.base.client.disabled = true ∧
        run healthStep s (checkSteps .ok true (3605 * second) (3605 * second) false) = some t ∧
        (recentErrors s.base.client.httpErrorTimes (3605 * second)).length < maxHttpErrors :=
    ⟨_, _, rfl, rfl, rfl, by decide⟩
  exact ⟨s, t, hs, hdisabled, ht, (checked_isHealthy_iff hs ht).1.mpr ⟨rfl, hfew⟩⟩

end Poolbeg
