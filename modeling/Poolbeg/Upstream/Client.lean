import Mathlib.Data.List.Basic
import Poolbeg.Lts

/-!
# The health of an upstream

The embedding of the bookkeeping in `upstream/client.rs`. An upstream receives traffic while it is
healthy and not disabled. Two rules disable it, six consecutive failures and five HTTP errors within
an hour, and only `record_success` enables it again.

## What one step is

Each method is one step. The state it works on is spread over several atomics and a lock, but a
method is short and awaits nothing, and the interleavings of the accesses inside are the subject of
a module of their own (`Poolbeg.Upstream.Accesses`). A method that reads the clock twice takes both
readings, and the clock never goes back. Times and durations are in nanoseconds; the number of
failures is a `UInt32`, as it is in the source.

Time that passes without a call is a step as well. It changes nothing but the clock, and lets the
hour of an error run out between two calls.

## The window of an hour

The rule about HTTP errors holds with room to spare: an upstream that is not disabled has fewer than
five timestamps in its list altogether, however old they are (`ErrorInv`), because every write to
the list is followed by a check or empties it. In the other direction, no method forgets errors that
still count without having counted them: the list is pruned only of what is an hour old, and a
success empties it only when fewer than five of them count.

## Main definitions

* `UpstreamClient` and its methods — the source
* `ClientState`, `ClientOp`, `clientStep` — runs of method calls
* `ErrorInv` — what is in the list of an upstream that is not disabled

## Main results

* `errorInv_step` — every method keeps the invariant
* `sublist_step` — no method forgets five errors that count
* `healthy_fewErrors` — a healthy upstream has fewer than five errors within the hour
-/

namespace Poolbeg

open Lts

def second : ℕ := 1000000000

/-- `BASE_BACKOFF`. -/
def baseBackoff : ℕ := 10 * second

/-- `MAX_BACKOFF`. -/
def maxBackoff : ℕ := 600 * second

/-- `MAX_CONSECUTIVE_FAILURES`. -/
def maxConsecutiveFailures : UInt32 := 6

/-- `MAX_HTTP_ERRORS`. -/
def maxHttpErrors : ℕ := 5

/-- `HTTP_ERROR_WINDOW`. -/
def httpErrorWindow : ℕ := 3600 * second

/-- What an `UpstreamClient` knows about its health. Its role, its limiter and its latency are no
part of it, and are modelled where they are used. -/
structure UpstreamClient where
  healthy : Bool
  disabled : Bool
  consecutiveFailures : UInt32
  nextCheckAt : ℕ
  disabledRetryInterval : ℕ
  httpErrorTimes : List ℕ

namespace UpstreamClient

/-- `UpstreamClient::new`. -/
def new (disabledRetryInterval now : ℕ) : UpstreamClient where
  healthy := true
  disabled := false
  consecutiveFailures := 0
  nextCheckAt := now
  disabledRetryInterval := disabledRetryInterval
  httpErrorTimes := []

def isHealthy (c : UpstreamClient) : Bool := !c.disabled && c.healthy

def setHealthy (c : UpstreamClient) (healthy : Bool) : UpstreamClient :=
  { c with healthy := healthy }

def isDueForCheck (c : UpstreamClient) (now : ℕ) : Bool := decide (c.nextCheckAt ≤ now)

/-- The timestamps that `now` still counts. -/
def recentErrors (times : List ℕ) (now : ℕ) : List ℕ :=
  times.filter fun t => now - t < httpErrorWindow

/-- What `has_too_many_http_errors` does to the list. It is the only method that is called to ask
and yet writes. -/
def prune (c : UpstreamClient) (now : ℕ) : UpstreamClient :=
  { c with httpErrorTimes := recentErrors c.httpErrorTimes now }

/-- What `has_too_many_http_errors` returns. -/
def hasTooManyHttpErrors (c : UpstreamClient) (now : ℕ) : Bool :=
  decide (maxHttpErrors ≤ (c.prune now).httpErrorTimes.length)

/-- Disabled, and to be retried after the configured interval. Both rules come to this, with the
clock they have read. -/
def disable (c : UpstreamClient) (now : ℕ) : UpstreamClient :=
  { c with disabled := true, healthy := false, nextCheckAt := now + c.disabledRetryInterval }

/-- `record_success`; the clock reads `now` for the window and `later` for the schedule. A disabled
upstream comes back only if the window is not full. -/
def recordSuccess (c : UpstreamClient) (now later : ℕ) : UpstreamClient :=
  let c := { c with consecutiveFailures := 0 }
  if c.disabled then
    if c.hasTooManyHttpErrors now then
      { c.prune now with nextCheckAt := later + c.disabledRetryInterval }
    else { c with httpErrorTimes := [], disabled := false, nextCheckAt := later }
  else { c with disabled := false, nextCheckAt := later }

/-- The backoff after this many failures: `base * 2^(failures - 1)`, capped. It is asked for with
fewer than six failures, so nothing is shifted out. -/
def backoff (failures : UInt32) : ℕ :=
  -- `failures.saturating_sub(1)`
  let n : UInt32 := if failures = 0 then 0 else failures - 1
  min (baseBackoff * ((1 : UInt32) <<< n).toNat) maxBackoff

/-- `record_failure`. The counter is that of failures in a row, which a success resets. -/
def recordFailure (c : UpstreamClient) (now : ℕ) : UpstreamClient :=
  let failures := c.consecutiveFailures + 1
  let c := { c with consecutiveFailures := failures }
  if maxConsecutiveFailures ≤ failures then c.disable now
  else { c with nextCheckAt := now + backoff failures }

/-- `record_http_error`; the clock reads `now` for the window and `later` for the schedule. It does
not count as a failure in a row. -/
def recordHttpError (c : UpstreamClient) (now later : ℕ) : UpstreamClient :=
  let c := { c with httpErrorTimes := recentErrors (c.httpErrorTimes ++ [now]) now }
  if maxHttpErrors ≤ c.httpErrorTimes.length then c.disable later else c

end UpstreamClient

/-! ### Runs -/

/-- The client, the clock, and when the client became disabled, if it is. The last is remembered for
the statements and read by nothing. -/
structure ClientState where
  client : UpstreamClient
  clock : ℕ
  disabledAt : ℕ

def ClientState.init (disabledRetryInterval now : ℕ) : ClientState where
  client := .new disabledRetryInterval now
  clock := now
  disabledAt := now

inductive ClientOp
  | recordHttpError (now later : ℕ)
  | recordSuccess (now later : ℕ)
  | recordFailure (now : ℕ)
  | setHealthy (healthy : Bool)
  | hasTooManyHttpErrors (now : ℕ)
  | pass (now : ℕ)

/-- What the clock reads during the call. -/
def ClientOp.readings : ClientOp → List ℕ
  | .recordHttpError now later => [now, later]
  | .recordSuccess now later => [now, later]
  | .recordFailure now => [now]
  | .setHealthy _ => []
  | .hasTooManyHttpErrors now => [now]
  | .pass now => [now]

/-- What the call does to the client. -/
def ClientOp.perform (c : UpstreamClient) : ClientOp → UpstreamClient
  | .recordHttpError now later => c.recordHttpError now later
  | .recordSuccess now later => c.recordSuccess now later
  | .recordFailure now => c.recordFailure now
  | .setHealthy healthy => c.setHealthy healthy
  | .hasTooManyHttpErrors now => c.prune now
  | .pass _ => c

/-- When the call records a failure, if it does. -/
def ClientOp.failureAt : ClientOp → Option ℕ
  | .recordFailure now => some now
  | _ => none

/-- The clock reads `now`, after a call has left the client as `c`. -/
def ClientState.leave (s : ClientState) (now : ℕ) (c : UpstreamClient) : ClientState where
  client := c
  clock := now
  disabledAt := if !s.client.disabled && c.disabled then now else s.disabledAt

/-- A method call, or some time that passes. The readings of a call are in order and not before the
clock. -/
def clientStep (s : ClientState) (op : ClientOp) : Option ClientState :=
  if (s.clock :: op.readings).IsChain (· ≤ ·) then
    some (s.leave (op.readings.getLastD s.clock) (op.perform s.client))
  else none

variable {s t : ClientState} {op : ClientOp}

theorem clientStep_eq_some (h : clientStep s op = some t) :
    (s.clock :: op.readings).IsChain (· ≤ ·) ∧
      t = s.leave (op.readings.getLastD s.clock) (op.perform s.client) := by
  rw [clientStep] at h
  split_ifs at h with hchain
  exact ⟨hchain, (Option.some.inj h).symm⟩

theorem clock_le (h : clientStep s op = some t) : s.clock ≤ t.clock := by
  obtain ⟨hchain, rfl⟩ := clientStep_eq_some h
  cases op <;> simp_all [ClientOp.readings, ClientState.leave] <;> omega

/-! ### The list of HTTP errors -/

open UpstreamClient

variable {c : UpstreamClient}

/-- A client that is not disabled remembers fewer than five errors, recent or not. So pruning alone
never decides whether it is disabled. -/
def ErrorInv (c : UpstreamClient) : Prop :=
  c.disabled = false → c.httpErrorTimes.length < maxHttpErrors

theorem errorInv_new (disabledRetryInterval now : ℕ) :
    ErrorInv (.new disabledRetryInterval now) :=
  fun _ => Nat.zero_lt_succ 4

theorem errorInv_recordHttpError (now later : ℕ) : ErrorInv (c.recordHttpError now later) := by
  rw [recordHttpError]
  split_ifs with hmany
  · exact fun hdisabled => absurd hdisabled nofun
  · exact fun _ => not_le.mp hmany

theorem errorInv_recordSuccess (hc : ErrorInv c) (now later : ℕ) :
    ErrorInv (c.recordSuccess now later) := by
  rw [recordSuccess]
  split_ifs with hdisabled hmany
  · exact fun henabled => absurd (hdisabled.symm.trans henabled) nofun
  · exact fun _ => Nat.zero_lt_succ 4
  · exact fun _ => hc (by simpa using hdisabled)

theorem errorInv_recordFailure (hc : ErrorInv c) (now : ℕ) : ErrorInv (c.recordFailure now) := by
  rw [recordFailure]
  split_ifs
  · exact fun hdisabled => absurd hdisabled nofun
  · exact hc

theorem errorInv_prune (hc : ErrorInv c) (now : ℕ) : ErrorInv (c.prune now) :=
  fun hdisabled => (List.length_filter_le _ _).trans_lt (hc hdisabled)

/-- Every call keeps the list short while the client is not disabled. -/
theorem errorInv_step (hs : ErrorInv s.client) (h : clientStep s op = some t) :
    ErrorInv t.client := by
  obtain ⟨-, rfl⟩ := clientStep_eq_some h
  cases op with
  | recordHttpError now later => exact errorInv_recordHttpError now later
  | recordSuccess now later => exact errorInv_recordSuccess hs now later
  | recordFailure now => exact errorInv_recordFailure hs now
  | setHealthy healthy => exact hs
  | hasTooManyHttpErrors now => exact errorInv_prune hs now
  | pass now => exact hs

/-! ### Five recent errors are not forgotten -/

/-- Errors that count now have counted before. -/
theorem recentErrors_sublist (times : List ℕ) {now later : ℕ} (h : now ≤ later) :
    (recentErrors times later).Sublist (recentErrors times now) := by
  refine List.monotone_filter_right _ fun t ht => ?_
  rw [decide_eq_true_eq] at ht ⊢
  omega

/-- Pruning keeps what counts later as well. -/
theorem sublist_recentErrors {times recent : List ℕ} {now later : ℕ} (h : now ≤ later)
    (hrecent : ∀ t ∈ recent, later - t < httpErrorWindow) (hsub : recent.Sublist times) :
    recent.Sublist (recentErrors times now) := by
  have hself : recentErrors recent now = recent := by
    refine List.filter_eq_self.mpr fun t ht => decide_eq_true ?_
    have := hrecent t ht
    omega
  rw [← hself]
  exact hsub.filter _

/-- No call forgets five errors that still count when it returns. `recent` is any choice of them. -/
theorem sublist_step (h : clientStep s op = some t) {recent : List ℕ}
    (hmany : maxHttpErrors ≤ recent.length) (hrecent : ∀ x ∈ recent, t.clock - x < httpErrorWindow)
    (hsub : recent.Sublist s.client.httpErrorTimes) :
    recent.Sublist t.client.httpErrorTimes := by
  obtain ⟨hchain, rfl⟩ := clientStep_eq_some h
  cases op with
  | recordHttpError now later =>
    have hlater : now ≤ later := by simp [ClientOp.readings] at hchain; exact hchain.2
    have hkept := sublist_recentErrors hlater hrecent
      (hsub.trans (List.sublist_append_left _ [now]))
    show recent.Sublist (s.client.recordHttpError now later).httpErrorTimes
    rw [recordHttpError]
    split_ifs
    · exact hkept
    · exact hkept
  | recordSuccess now later =>
    have hlater : now ≤ later := by simp [ClientOp.readings] at hchain; exact hchain.2
    have hkept := sublist_recentErrors hlater hrecent hsub
    show recent.Sublist (s.client.recordSuccess now later).httpErrorTimes
    rw [recordSuccess]
    split_ifs with hdisabled hfew
    · exact hkept
    · -- the list is emptied only when fewer than five still count
      exact absurd (decide_eq_true (hmany.trans hkept.length_le)) hfew
    · exact hsub
  | recordFailure now =>
    show recent.Sublist (s.client.recordFailure now).httpErrorTimes
    rw [recordFailure]
    split_ifs
    · exact hsub
    · exact hsub
  | setHealthy healthy => exact hsub
  | hasTooManyHttpErrors now => exact sublist_recentErrors le_rfl hrecent hsub
  | pass now => exact hsub

/-- A client with five errors that still count receives no traffic: it has five timestamps, so it is
disabled. -/
theorem not_isHealthy_of_sublist (hc : ErrorInv c) {recent : List ℕ}
    (hmany : maxHttpErrors ≤ recent.length) (hsub : recent.Sublist c.httpErrorTimes) :
    c.isHealthy = false := by
  rw [isHealthy]
  cases hdisabled : c.disabled with
  | true => rfl
  | false => exact absurd (hmany.trans hsub.length_le) (not_le.mpr (hc hdisabled))

/-- **A client that receives traffic has fewer than five errors within the hour**, and one that has
five receives none, whatever is called on it, until some of them are an hour old. -/
theorem healthy_fewErrors {disabledRetryInterval start : ℕ} {ops : List ClientOp} {s : ClientState}
    (hrun : run clientStep (.init disabledRetryInterval start) ops = some s) :
    (∀ now, s.client.isHealthy = true →
      (recentErrors s.client.httpErrorTimes now).length < maxHttpErrors) ∧
    ∀ ops' t, run clientStep s ops' = some t →
      maxHttpErrors ≤ (recentErrors s.client.httpErrorTimes t.clock).length →
      t.client.isHealthy = false := by
  have hs : ErrorInv s.client :=
    run_inv (I := fun s => ErrorInv s.client) (fun _ _ _ hs ht => errorInv_step hs ht)
      (errorInv_new disabledRetryInterval start) hrun
  refine ⟨fun now hhealthy => ?_, fun ops' t hrun' hmany => ?_⟩
  · refine (List.length_filter_le _ _).trans_lt (hs ?_)
    simpa using (Bool.and_eq_true_iff.mp hhealthy).1
  · have hkept := run_inv (I := fun u : ClientState => ErrorInv u.client ∧
        (maxHttpErrors ≤ (recentErrors s.client.httpErrorTimes u.clock).length →
          (recentErrors s.client.httpErrorTimes u.clock).Sublist u.client.httpErrorTimes))
      (s := s) (fun u op v hu hv => ?_) ⟨hs, fun _ => List.filter_sublist⟩ hrun'
    · exact not_isHealthy_of_sublist hkept.1 hmany (hkept.2 hmany)
    · refine ⟨errorInv_step hu.1 hv, fun hmany => ?_⟩
      have hsub := recentErrors_sublist s.client.httpErrorTimes (clock_le hv)
      refine sublist_step hv hmany (fun x hx => ?_)
        (hsub.trans (hu.2 (hmany.trans hsub.length_le)))
      exact of_decide_eq_true (List.mem_filter.mp hx).2

/-- Five requests in a row come back with an HTTP error; then a health check passes. -/
def fiveErrors : List ClientOp :=
  [.recordHttpError 1 1, .recordHttpError 2 2, .recordHttpError 3 3, .recordHttpError 4 4,
    .recordHttpError 5 5]

/-- The passing check does not bring the upstream back. -/
theorem fiveErrors_staysDisabled :
    ∃ s t, run clientStep (.init (86400 * second) 0) fiveErrors = some s ∧
      run clientStep s [.setHealthy true, .recordSuccess 6 6] = some t ∧
      t.client.isHealthy = false := by
  obtain ⟨s, t, hs, ht, hmany⟩ :
      ∃ s t, run clientStep (.init (86400 * second) 0) fiveErrors = some s ∧
        run clientStep s [.setHealthy true, .recordSuccess 6 6] = some t ∧
        maxHttpErrors ≤ (recentErrors s.client.httpErrorTimes t.clock).length :=
    ⟨_, _, rfl, rfl, by decide⟩
  exact ⟨s, t, hs, ht, (healthy_fewErrors hs).2 _ t ht hmany⟩

end Poolbeg
