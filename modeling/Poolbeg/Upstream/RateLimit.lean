import Mathlib.Algebra.Order.Field.Rat
import Poolbeg.TokenBucket
import Poolbeg.Upstream.Tracker

/-!
# The rate limit of an upstream

The embedding of `middleware/rate_limit.rs` and of all who call `UpstreamClient::send_request`. A
forwarded request and a block poll ask the limiter first, and send at once if they get a token; the
tracker that has accepted a block fetches its logs, and the loop of health checks sends its check,
without asking. Times are in seconds and rational, and so are tokens.

## Who stays within the rate

A bucket is only as good as its bookkeeping: the limiter keeps the requests it has granted within
the rate, and knows nothing of the others. So the requests stay within the rate in every run without
a log fetch and a health check. In a run that has some, all requests together stay within it exactly
when each of them would have found a token in a bucket that is charged for all (`withinRate_iff`).
That bucket is in no program. It is there to say what the two kinds of requests do when they are
allowed.

## Implementation notes

The arithmetic is exact; the program uses `f64`. The bound counts `max_rps` requests at once and
`max_rps` more for every second of the window, as a bucket does that holds `max_rps` tokens. The
general theory of such buckets is in `Poolbeg.TokenBucket`; here it is shown that the limiter is
one.

The limiter is behind a mutex, so asking it is one step. Whoever gets a token sends at once, at the
time of that step. A request that waits in a queue of the client library is beyond the model.

## Main definitions

* `RateLimiter`, `RateLimiter.tryAcquire` — the limiter
* `UpstreamTraffic`, `TrafficAction`, `trafficStep` — who sends requests
* `WithinRate`, `FindsToken` — the bound, and what it asks of a request

## Main results

* `limiter_level` — the limiter is the token bucket of the requests it has granted
* `conforms_granted` — those are within the rate
* `withinRate_of_asks`, `withinRate_iff` — and so are all, if all ask
-/

namespace Poolbeg

open Lts TokenBucket BlockTracker

/-! ### The limiter -/

structure RateLimiter where
  tokens : ℚ
  maxTokens : ℚ
  refillRate : ℚ
  lastRefill : ℚ

/-- `RateLimiter::new`. -/
def RateLimiter.new (maxRps : UInt32) (now : ℚ) : RateLimiter where
  tokens := maxRps.toNat
  maxTokens := maxRps.toNat
  refillRate := maxRps.toNat
  lastRefill := now

/-- The part of `try_acquire` before the decision: what has flowed in since the last time, up to a
full bucket. -/
def RateLimiter.refill (rl : RateLimiter) (now : ℚ) : RateLimiter :=
  let elapsed := now - rl.lastRefill
  { rl with
    tokens := min (rl.tokens + elapsed * rl.refillRate) rl.maxTokens
    lastRefill := now }

/-- `try_acquire`: the limiter it leaves, and whether it grants a token. It refills in either case.
-/
def RateLimiter.tryAcquire (rl : RateLimiter) (now : ℚ) : RateLimiter × Bool :=
  let rl := rl.refill now
  if 1 ≤ rl.tokens then ({ rl with tokens := rl.tokens - 1 }, true) else (rl, false)

/-! ### Who sends requests -/

inductive Sender
  | client
  | blockPoll
  | logFetch
  | healthCheck
  deriving DecidableEq

/-- Whether requests of this kind are sent only with a token. -/
def Sender.asks : Sender → Bool
  | .client | .blockPoll => true
  | .logFetch | .healthCheck => false

/-- Where the tracker stands with a poll of this upstream. A poll that is answered with a head it
accepts goes on to its logs. -/
inductive PollPhase
  | idle
  | polling
  | fetching (head : Head)
  | awaitingLogs (head : Head)

/-- An upstream and its users: the limiter, the clock, the requests sent so far and when, the
tracker of the chain, and whether a health check is under way. The requests are remembered for the
statements only. -/
structure UpstreamTraffic where
  limiter : RateLimiter
  clock : ℚ
  sent : List (Sender × ℚ)
  tracker : TrackerState
  phase : PollPhase
  checking : Bool

def UpstreamTraffic.init (maxRps : UInt32) (start : ℚ) : UpstreamTraffic where
  limiter := .new maxRps start
  clock := start
  sent := []
  tracker := .init
  phase := .idle
  checking := false

/-- A request comes to be forwarded; the tracker polls this upstream, or another one, is answered,
fetches logs, and is answered again; the health check is sent, and answered. -/
inductive TrafficAction
  | forward (now : ℚ)
  | poll (now : ℚ)
  | pollElsewhere (poll : Poll)
  | blockAnswered (resp : Option JsonRpcResponse)
  | fetchLogs (now : ℚ)
  | logsAnswered
  | check (now : ℚ)
  | checkAnswered

/-- A request is sent. -/
def UpstreamTraffic.send (s : UpstreamTraffic) (sender : Sender) (now : ℚ) : UpstreamTraffic :=
  { s with clock := now, sent := s.sent ++ [(sender, now)] }

/-- The limiter is asked, and the request is sent if it grants a token. -/
def UpstreamTraffic.ask (s : UpstreamTraffic) (sender : Sender) (now : ℚ) :
    UpstreamTraffic × Bool :=
  let (limiter, granted) := s.limiter.tryAcquire now
  let s := { s with limiter := limiter, clock := now }
  (if granted then s.send sender now else s, granted)

variable (chainId : ℕ)

def trafficStep (s : UpstreamTraffic) : TrafficAction → Option UpstreamTraffic
  | .forward now => if s.clock ≤ now then some (s.ask .client now).1 else none
  | .poll now =>
    match s.phase with
    | .idle =>
      if s.clock ≤ now then
        let (s, granted) := s.ask .blockPoll now
        some (if granted then { s with phase := .polling } else s)
      else none
    | _ => none
  | .pollElsewhere poll =>
    match s.phase with
    | .idle => some { s with tracker := (fetchLatestBlock chainId s.tracker poll).1 }
    | _ => none
  | .blockAnswered resp =>
    match s.phase with
    | .polling =>
      match readHead resp with
      | none => some { s with phase := .idle }
      | some head =>
        match judge s.tracker head with
        | .ignored => some { s with phase := .idle }
        | .reorg =>
          some { s with phase := .idle, tracker := { s.tracker with lastBlockHash := head.hash } }
        | .accepted => some { s with phase := .fetching head }
    | _ => none
  | .fetchLogs now =>
    match s.phase with
    | .fetching head =>
      if s.clock ≤ now then
        some { s.send .logFetch now with phase := .awaitingLogs head }
      else none
    | _ => none
  | .logsAnswered =>
    match s.phase with
    | .awaitingLogs head =>
      some { s with
        phase := .idle
        tracker := { lastBlockNumber := head.number, lastBlockHash := head.hash } }
    | _ => none
  | .check now =>
    if s.clock ≤ now ∧ s.checking = false then
      some { s.send .healthCheck now with checking := true }
    else none
  | .checkAnswered => if s.checking then some { s with checking := false } else none

/-- The request a step sends. -/
def UpstreamTraffic.sends (s : UpstreamTraffic) : TrafficAction → Option (Sender × ℚ)
  | .forward now => if (s.limiter.tryAcquire now).2 then some (.client, now) else none
  | .poll now => if (s.limiter.tryAcquire now).2 then some (.blockPoll, now) else none
  | .fetchLogs now => some (.logFetch, now)
  | .check now => some (.healthCheck, now)
  | _ => none

/-- The step asks the limiter before it sends anything. -/
def TrafficAction.asks : TrafficAction → Bool
  | .fetchLogs _ | .check _ => false
  | _ => true

/-! ### The rate -/

/-- When the requests were sent. -/
def UpstreamTraffic.times (s : UpstreamTraffic) : List ℚ := s.sent.map Prod.snd

variable (maxRps : UInt32) (start : ℚ)

/-- **Within `T` seconds no more than `maxRps * (1 + T)` requests are sent**, wherever the window
begins. -/
def WithinRate (s : UpstreamTraffic) : Prop :=
  ∀ since upto, since ≤ upto →
    ((s.sent.filter fun request => since ≤ request.2 ∧ request.2 ≤ upto).length : ℚ) ≤
      maxRps.toNat * (1 + (upto - since))

/-- If the step sends a request, there is a whole token for it in a bucket from which one was taken
for every request sent before. -/
def FindsToken (s : UpstreamTraffic) (a : TrafficAction) : Prop :=
  ∀ request ∈ s.sends a,
    1 ≤ levelAfter (maxRps.toNat : ℚ) maxRps.toNat start s.times request.2

instance (s : UpstreamTraffic) (a : TrafficAction) : Decidable (FindsToken maxRps start s a) :=
  inferInstanceAs (Decidable (∀ request ∈ s.sends a, _ ≤ _))

variable {chainId} {maxRps} {start} {s t : UpstreamTraffic} {a : TrafficAction}

/-! ### What a step sends -/

/-- A step by its way of sending: not at all, after asking the limiter, or without. It is all that
the results about rates use of a step. -/
inductive TrafficMove (s : UpstreamTraffic) (a : TrafficAction) (t : UpstreamTraffic) : Prop
  | quiet (hsends : s.sends a = none) (hsent : t.sent = s.sent) (hclock : t.clock = s.clock)
      (hlimiter : t.limiter = s.limiter)
  | asked {sender : Sender} {now : ℚ} (hnow : s.clock ≤ now) (hsender : sender.asks = true)
      (hsends : s.sends a = if (s.limiter.tryAcquire now).2 then some (sender, now) else none)
      (hsent : t.sent = s.sent ++ (s.sends a).toList) (hclock : t.clock = now)
      (hlimiter : t.limiter = (s.limiter.tryAcquire now).1)
  | unasked {sender : Sender} {now : ℚ} (hnow : s.clock ≤ now) (hsender : sender.asks = false)
      (hasks : a.asks = false) (hsends : s.sends a = some (sender, now))
      (hsent : t.sent = s.sent ++ [(sender, now)]) (hclock : t.clock = now)
      (hlimiter : t.limiter = s.limiter)

theorem sent_ask (s : UpstreamTraffic) (sender : Sender) (now : ℚ) :
    (s.ask sender now).1.sent =
      s.sent ++ (if (s.limiter.tryAcquire now).2 then some (sender, now) else none).toList := by
  rcases htry : s.limiter.tryAcquire now with ⟨limiter, granted⟩
  rw [UpstreamTraffic.ask, htry]
  cases granted
  · exact (List.append_nil _).symm
  · rfl

theorem clock_ask (s : UpstreamTraffic) (sender : Sender) (now : ℚ) :
    (s.ask sender now).1.clock = now := by
  rcases htry : s.limiter.tryAcquire now with ⟨limiter, granted⟩
  rw [UpstreamTraffic.ask, htry]
  cases granted <;> rfl

theorem limiter_ask (s : UpstreamTraffic) (sender : Sender) (now : ℚ) :
    (s.ask sender now).1.limiter = (s.limiter.tryAcquire now).1 := by
  rcases htry : s.limiter.tryAcquire now with ⟨limiter, granted⟩
  rw [UpstreamTraffic.ask, htry]
  cases granted <;> rfl

theorem trafficMove (h : trafficStep chainId s a = some t) : TrafficMove s a t := by
  cases a with
  | forward now =>
    rw [trafficStep, Option.ite_none_right_eq_some] at h
    obtain ⟨hnow, h⟩ := h
    cases h
    exact .asked hnow rfl rfl (sent_ask _ _ _) (clock_ask _ _ _) (limiter_ask _ _ _)
  | poll now =>
    simp only [trafficStep] at h
    split at h
    · rw [Option.ite_none_right_eq_some] at h
      obtain ⟨hnow, h⟩ := h
      cases h
      refine .asked hnow rfl rfl ?_ ?_ ?_
      · split_ifs <;> exact sent_ask _ _ _
      · split_ifs <;> exact clock_ask _ _ _
      · split_ifs <;> exact limiter_ask _ _ _
    · cases h
  | pollElsewhere poll =>
    simp only [trafficStep] at h
    split at h
    · cases h
      exact .quiet rfl rfl rfl rfl
    · cases h
  | blockAnswered resp =>
    simp only [trafficStep] at h
    split at h
    · split at h
      · cases h
        exact .quiet rfl rfl rfl rfl
      · split at h <;> cases h <;> exact .quiet rfl rfl rfl rfl
    · cases h
  | fetchLogs now =>
    simp only [trafficStep] at h
    split at h
    · rw [Option.ite_none_right_eq_some] at h
      obtain ⟨hnow, h⟩ := h
      cases h
      exact .unasked hnow rfl rfl rfl rfl rfl rfl
    · cases h
  | logsAnswered =>
    simp only [trafficStep] at h
    split at h
    · cases h
      exact .quiet rfl rfl rfl rfl
    · cases h
  | check now =>
    rw [trafficStep, Option.ite_none_right_eq_some] at h
    obtain ⟨⟨hnow, -⟩, h⟩ := h
    cases h
    exact .unasked hnow rfl rfl rfl rfl rfl rfl
  | checkAnswered =>
    rw [trafficStep, Option.ite_none_right_eq_some] at h
    obtain ⟨-, h⟩ := h
    cases h
    exact .quiet rfl rfl rfl rfl

/-- The requests sent grow by what the step sends, at the time of the step. -/
theorem times_step (h : trafficStep chainId s a = some t) :
    t.times = s.times ++ ((s.sends a).map Prod.snd).toList ∧ s.clock ≤ t.clock ∧
      ∀ request ∈ s.sends a, request.2 = t.clock := by
  rw [UpstreamTraffic.times, UpstreamTraffic.times]
  cases trafficMove h with
  | quiet hsends hsent hclock hlimiter =>
    rw [hsends, hsent, hclock]
    exact ⟨(List.append_nil _).symm, le_rfl, fun _ hmem => by cases hmem⟩
  | asked hnow hsender hsends hsent hclock hlimiter =>
    rw [hsent, hclock, hsends]
    split_ifs
    · exact ⟨List.map_append, hnow, fun _ hmem => by cases Option.some.inj hmem; rfl⟩
    · exact ⟨List.map_append, hnow, fun _ hmem => by cases hmem⟩
  | unasked hnow hsender hasks hsends hsent hclock hlimiter =>
    rw [hsent, hclock, hsends]
    exact ⟨List.map_append, hnow, fun _ hmem => by cases Option.some.inj hmem; rfl⟩

/-! ### Within the rate -/

/-- Requests were sent in order, since the limiter was made, and in the past. -/
structure UpstreamTraffic.InOrder (start : ℚ) (s : UpstreamTraffic) : Prop where
  sorted : s.times.Pairwise (· ≤ ·)
  since : ∀ x ∈ s.times, start ≤ x
  past : ∀ x ∈ s.times, x ≤ s.clock
  clock : start ≤ s.clock

theorem inOrder_init (maxRps : UInt32) (start : ℚ) :
    (UpstreamTraffic.init maxRps start).InOrder start where
  sorted := List.Pairwise.nil
  since _ h := absurd h List.not_mem_nil
  past _ h := absurd h List.not_mem_nil
  clock := le_rfl

theorem UpstreamTraffic.InOrder.step (hs : s.InOrder start)
    (h : trafficStep chainId s a = some t) : t.InOrder start := by
  obtain ⟨htimes, hclock, hsent⟩ := times_step h
  have hnew : ∀ x ∈ ((s.sends a).map Prod.snd).toList, x = t.clock := by
    intro x hx
    obtain ⟨request, hrequest, rfl⟩ := Option.map_eq_some_iff.mp (Option.mem_toList.mp hx)
    exact hsent request hrequest
  refine ⟨?_, fun x hx => ?_, fun x hx => ?_, hs.clock.trans hclock⟩
  · rw [htimes]
    refine List.pairwise_append.mpr ⟨hs.sorted, ?_, fun x hx y hy => ?_⟩
    · cases (s.sends a).map Prod.snd <;> simp
    · rw [hnew y hy]
      exact (hs.past x hx).trans hclock
  · rw [htimes, List.mem_append] at hx
    rcases hx with hx | hx
    · exact hs.since x hx
    · exact hnew x hx ▸ hs.clock.trans hclock
  · rw [htimes, List.mem_append] at hx
    rcases hx with hx | hx
    · exact (hs.past x hx).trans hclock
    · exact (hnew x hx).le

theorem withinRate_iff_conforms :
    WithinRate maxRps s ↔ Conforms (maxRps.toNat : ℚ) maxRps.toNat s.times := by
  refine forall_congr' fun since => forall_congr' fun upto => imp_congr_right fun _ => ?_
  rw [UpstreamTraffic.times, List.filter_map, List.length_map, mul_add, mul_one]
  rfl

/-- One request more stays within the rate exactly when it finds a token. The requests before it are
within the rate. -/
theorem withinRate_step (hs : s.InOrder start) (hwithin : WithinRate maxRps s)
    (h : trafficStep chainId s a = some t) :
    WithinRate maxRps t ↔ FindsToken maxRps start s a := by
  have ht := hs.step h
  obtain ⟨htimes, -, -⟩ := times_step h
  rw [withinRate_iff_conforms] at hwithin ⊢
  rw [FindsToken]
  cases hsends : s.sends a with
  | none =>
    rw [htimes, hsends]
    refine iff_of_true ?_ fun _ hmem => by cases hmem
    simpa using hwithin
  | some request =>
    rw [hsends] at htimes
    have hsorted := ht.sorted
    have hsince := ht.since
    rw [htimes] at hsorted hsince ⊢
    refine (conforms_concat (Nat.cast_nonneg _) hsorted hsince).trans ?_
    rw [and_iff_right hwithin]
    exact ⟨fun hone _ hmem => Option.some.inj hmem ▸ hone, fun hone => hone request rfl⟩

/-! ### What the limiter knows -/

/-- When the requests were sent for which the limiter granted a token. -/
def UpstreamTraffic.granted (s : UpstreamTraffic) : List ℚ :=
  (s.sent.filter (·.1.asks)).map Prod.snd

/-- The limiter as a token bucket. -/
def RateLimiter.bucket (rl : RateLimiter) : TokenBucket ℚ := ⟨rl.tokens, rl.lastRefill⟩

/-- The limiter holds what is left of a bucket from which the granted requests took their tokens.
The others are not in its books. -/
structure UpstreamTraffic.Metered (maxRps : UInt32) (start : ℚ) (s : UpstreamTraffic) : Prop where
  maxTokens : s.limiter.maxTokens = maxRps.toNat
  refillRate : s.limiter.refillRate = maxRps.toNat
  level : ∀ now, s.clock ≤ now → s.limiter.bucket.level (maxRps.toNat : ℚ) maxRps.toNat now =
    levelAfter (maxRps.toNat : ℚ) maxRps.toNat start s.granted now

theorem metered_init (maxRps : UInt32) (start : ℚ) :
    (UpstreamTraffic.init maxRps start).Metered maxRps start where
  maxTokens := rfl
  refillRate := rfl
  level _ _ := rfl

theorem tokens_refill {rl : RateLimiter} (hmax : rl.maxTokens = maxRps.toNat)
    (hrate : rl.refillRate = maxRps.toNat) (now : ℚ) :
    (rl.refill now).tokens = rl.bucket.level (maxRps.toNat : ℚ) maxRps.toNat now := by
  rw [RateLimiter.refill, hmax, hrate, mul_comm]
  rfl

/-- A token is granted exactly when there is a whole one. -/
theorem tryAcquire_granted {rl : RateLimiter} (hmax : rl.maxTokens = maxRps.toNat)
    (hrate : rl.refillRate = maxRps.toNat) {now : ℚ} :
    (rl.tryAcquire now).2 = true ↔ 1 ≤ rl.bucket.level (maxRps.toNat : ℚ) maxRps.toNat now := by
  rw [← tokens_refill hmax hrate, RateLimiter.tryAcquire]
  by_cases hone : 1 ≤ (rl.refill now).tokens
  · rw [if_pos hone]
    exact iff_of_true rfl hone
  · rw [if_neg hone]
    exact iff_of_false Bool.false_ne_true hone

/-- Whether it grants a token or not, the limiter is a bucket that was looked at. -/
theorem bucket_tryAcquire {rl : RateLimiter} (hmax : rl.maxTokens = maxRps.toNat)
    (hrate : rl.refillRate = maxRps.toNat) (now : ℚ) :
    (rl.tryAcquire now).1.bucket =
      if (rl.tryAcquire now).2 then rl.bucket.charge (maxRps.toNat : ℚ) maxRps.toNat now
      else ⟨rl.bucket.level (maxRps.toNat : ℚ) maxRps.toNat now, now⟩ := by
  rw [charge, ← tokens_refill hmax hrate, RateLimiter.tryAcquire]
  by_cases hone : 1 ≤ (rl.refill now).tokens
  · rw [if_pos hone]
    rfl
  · rw [if_neg hone]
    rfl

theorem limits_tryAcquire (rl : RateLimiter) (now : ℚ) :
    (rl.tryAcquire now).1.maxTokens = rl.maxTokens ∧
      (rl.tryAcquire now).1.refillRate = rl.refillRate := by
  rw [RateLimiter.tryAcquire]
  split_ifs <;> exact ⟨rfl, rfl⟩

theorem granted_asked {sender : Sender} {now : ℚ} (hsender : sender.asks = true)
    (hsent : t.sent = s.sent ++ [(sender, now)]) : t.granted = s.granted ++ [now] := by
  have hself : [(sender, now)].filter (·.1.asks) = [(sender, now)] :=
    List.filter_eq_self.mpr fun x hx => by rw [List.mem_singleton.mp hx]; exact hsender
  rw [UpstreamTraffic.granted, hsent, List.filter_append, hself, List.map_append]
  rfl

theorem granted_unasked {sender : Sender} {now : ℚ} (hsender : sender.asks = false)
    (hsent : t.sent = s.sent ++ [(sender, now)]) : t.granted = s.granted := by
  have hnone : [(sender, now)].filter (·.1.asks) = [] :=
    List.filter_eq_nil_iff.mpr fun x hx => by
      rw [List.mem_singleton.mp hx, hsender]
      exact Bool.false_ne_true
  rw [UpstreamTraffic.granted, hsent, List.filter_append, hnone, List.append_nil]
  rfl

theorem UpstreamTraffic.Metered.step (hs : s.Metered maxRps start)
    (h : trafficStep chainId s a = some t) : t.Metered maxRps start := by
  cases trafficMove h with
  | quiet hsends hsent hclock hlimiter =>
    refine ⟨hlimiter ▸ hs.maxTokens, hlimiter ▸ hs.refillRate, fun now hnow => ?_⟩
    rw [hlimiter, granted, hsent]
    exact hs.level now (hclock ▸ hnow)
  | @asked sender asked hnow hsender hsends hsent hclock hlimiter =>
    obtain ⟨hmax, hrate⟩ := limits_tryAcquire s.limiter asked
    refine ⟨by rw [hlimiter, hmax, hs.maxTokens], by rw [hlimiter, hrate, hs.refillRate],
      fun now hlater => ?_⟩
    rw [hlimiter, bucket_tryAcquire hs.maxTokens hs.refillRate]
    rw [hsends] at hsent
    split_ifs at hsent ⊢
    · rw [granted_asked hsender hsent, level_charge, hs.level asked hnow, levelAfter_concat]
    · rw [level_level (Nat.cast_nonneg _) _ (hclock ▸ hlater),
        hs.level now (hnow.trans (hclock ▸ hlater)), granted, granted, hsent]
      exact congrArg (fun sent => levelAfter _ _ start ((List.filter _ sent).map Prod.snd) now)
        (List.append_nil s.sent).symm
  | unasked hnow hsender hasks hsends hsent hclock hlimiter =>
    refine ⟨hlimiter ▸ hs.maxTokens, hlimiter ▸ hs.refillRate, fun now hlater => ?_⟩
    rw [hlimiter, granted_unasked hsender hsent]
    exact hs.level now (hnow.trans (hclock ▸ hlater))

/-- **The limiter is the token bucket of the requests it has granted**, in every reachable state. -/
theorem limiter_level {as : List TrafficAction}
    (h : run (trafficStep chainId) (.init maxRps start) as = some s) :
    s.Metered maxRps start ∧ s.InOrder start :=
  run_inv (I := fun s => s.Metered maxRps start ∧ s.InOrder start)
    (fun _ _ _ hs h => ⟨hs.1.step h, hs.2.step h⟩)
    ⟨metered_init maxRps start, inOrder_init maxRps start⟩ h

/-- A granted request keeps the granted requests within the rate. -/
theorem conforms_granted_step (hs : s.Metered maxRps start) (horder : s.InOrder start)
    (hconforms : Conforms (maxRps.toNat : ℚ) maxRps.toNat s.granted)
    (h : trafficStep chainId s a = some t) :
    Conforms (maxRps.toNat : ℚ) maxRps.toNat t.granted := by
  have hsub : t.granted.Sublist t.times := List.filter_sublist.map _
  have ht := horder.step h
  cases trafficMove h with
  | quiet hsends hsent hclock hlimiter =>
    rw [UpstreamTraffic.granted, hsent]
    exact hconforms
  | @asked sender asked hnow hsender hsends hsent hclock hlimiter =>
    rw [hsends] at hsent
    split_ifs at hsent with htoken
    · rw [tryAcquire_granted hs.maxTokens hs.refillRate, hs.level asked hnow] at htoken
      rw [granted_asked hsender hsent] at hsub ⊢
      exact (conforms_concat (Nat.cast_nonneg _) (ht.sorted.sublist hsub)
        fun x hx => ht.since x (hsub.subset hx)).mpr ⟨hconforms, htoken⟩
    · rw [UpstreamTraffic.granted, hsent, Option.toList_none, List.append_nil]
      exact hconforms
  | unasked hnow hsender hasks hsends hsent hclock hlimiter =>
    rw [granted_unasked hsender hsent]
    exact hconforms

/-- **The granted requests are within the rate**, whatever else is sent. -/
theorem conforms_granted {as : List TrafficAction}
    (h : run (trafficStep chainId) (.init maxRps start) as = some s) :
    Conforms (maxRps.toNat : ℚ) maxRps.toNat s.granted :=
  (run_inv (I := fun s : UpstreamTraffic => (s.Metered maxRps start ∧ s.InOrder start) ∧
    Conforms (maxRps.toNat : ℚ) maxRps.toNat s.granted)
    (fun _ _ _ hs h => ⟨⟨hs.1.1.step h, hs.1.2.step h⟩,
      conforms_granted_step hs.1.1 hs.1.2 hs.2 h⟩)
    ⟨⟨metered_init maxRps start, inOrder_init maxRps start⟩,
      conforms_nil (Nat.cast_nonneg _) (Nat.cast_nonneg _)⟩ h).2

/-- A step that asks sends no other request. -/
theorem asks_step (hall : ∀ request ∈ s.sent, request.1.asks = true) (hasks : a.asks = true)
    (h : trafficStep chainId s a = some t) : ∀ request ∈ t.sent, request.1.asks = true := by
  cases trafficMove h with
  | quiet hsends hsent => exact hsent ▸ hall
  | asked hnow hsender hsends hsent =>
    rw [hsent, hsends]
    intro request hmem
    rcases List.mem_append.mp hmem with hmem | hmem
    · exact hall request hmem
    · split_ifs at hmem
      · rw [List.mem_singleton.mp hmem]
        exact hsender
      · cases hmem
  | unasked hnow hsender hunasked => exact absurd (hasks.symm.trans hunasked) (by decide)

/-- A run in which nothing is sent without asking stays within the rate in every state. -/
theorem withinRate_of_asks (chainId : ℕ) (maxRps : UInt32) (start : ℚ) {as : List TrafficAction}
    (h : ∀ a ∈ as, a.asks = true) :
    Always (trafficStep chainId) (WithinRate maxRps) (.init maxRps start) as := by
  intro pre s hpre hrun
  have hall : ∀ request ∈ s.sent, request.1.asks = true :=
    run_inv_along (I := fun s : UpstreamTraffic => ∀ request ∈ s.sent, request.1.asks = true)
      (fun _ _ _ hall hasks h => asks_step hall hasks h)
      (fun _ hmem => absurd hmem List.not_mem_nil)
      (along_of_forall (L := fun a => a.asks = true) fun a ha => h a (hpre.subset ha)) hrun
  have hgranted : s.granted = s.times := by
    rw [UpstreamTraffic.granted, List.filter_eq_self.mpr hall]
    rfl
  rw [withinRate_iff_conforms, ← hgranted]
  exact conforms_granted hrun

/-- **The requests sent to an upstream stay within its rate as long as no logs are fetched and no
health check is sent**, the two kinds of requests that do not ask the limiter. In a run with such
requests they stay within it, in every state of the run, exactly when each of them finds a whole
token in a bucket that is charged for all of them. -/
theorem withinRate_iff (chainId : ℕ) (maxRps : UInt32) (start : ℚ) (as : List TrafficAction) :
    ((∀ a ∈ as, a.asks = true) →
      Always (trafficStep chainId) (WithinRate maxRps) (.init maxRps start) as) ∧
    (Always (trafficStep chainId) (WithinRate maxRps) (.init maxRps start) as ↔
      Along (trafficStep chainId) (FindsToken maxRps start) (.init maxRps start) as) := by
  have hiff : Always (trafficStep chainId) (WithinRate maxRps) (.init maxRps start) as ↔
      Along (trafficStep chainId) (FindsToken maxRps start) (.init maxRps start) as :=
    always_iff_along (I := UpstreamTraffic.InOrder start) (fun _ _ _ hs h => hs.step h)
      (fun _ _ _ hs hwithin h => withinRate_step hs hwithin h) (inOrder_init maxRps start)
      (withinRate_iff_conforms.mpr (conforms_nil (Nat.cast_nonneg _) (Nat.cast_nonneg _)))
  exact ⟨withinRate_of_asks chainId maxRps start, hiff⟩

/-! ### A block and its logs -/

/-- The tracker polls an upstream that may be sent one request a second, and fetches the logs of the
block it gets a twentieth of a second later. -/
def blockAndLogs : List TrafficAction :=
  [.poll 0, .blockAnswered (pollOf "0xa" "0xh10").block, .fetchLogs (1 / 20)]

/-- Two requests are sent within a twentieth of a second. -/
theorem blockAndLogs_exceeds :
    ∃ s, run (trafficStep 1) (.init 1 0) blockAndLogs = some s ∧
      s.sent = [(.blockPoll, 0), (.logFetch, 1 / 20)] ∧ ¬ WithinRate 1 s := by
  have hrun : (run (trafficStep 1) (.init 1 0) blockAndLogs).map UpstreamTraffic.sent =
      some [(.blockPoll, 0), (.logFetch, 1 / 20)] := by decide +kernel
  obtain ⟨s, hs, hsent⟩ := Option.map_eq_some_iff.mp hrun
  refine ⟨s, hs, hsent, fun h => ?_⟩
  have hwindow := h 0 (1 / 20) (by norm_num)
  have hone : (1 : UInt32).toNat = 1 := rfl
  rw [hsent, hone] at hwindow
  norm_num at hwindow

end Poolbeg
