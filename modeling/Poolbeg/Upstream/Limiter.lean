import Mathlib.Algebra.Order.Field.Basic
import Mathlib.Data.List.Chain
import Poolbeg.Upstream.RateLimit

/-!
# The limiter by itself

What a limiter grants to a list of calls, whoever makes them. Its tokens stay between none and
`max_rps`, so a window holds no more grants than a full bucket and what is refilled during the
window. The same bound from below makes that a promise to the caller: after any call there is no
debt, and `1 / max_rps` seconds later there is a whole token.

## How it is proved

`Paced` says that the limiter is a bucket that has been charged for what it granted, and nothing
else. A call that is refused only looks at the bucket, which changes nothing that could be seen
later; a call that is granted takes a whole token, which was there. Both keep the limiter paced, and
by induction on the calls so does any list of them. What is promised is then read off the state at
the end, or at a call in the middle.

The calls come at times that do not go back, several at one time among them. A limiter for no
requests at all is excluded: it grants none, and there is no time to wait for that would help.

## Main definitions

* `RateLimiter.acquire`, `RateLimiter.acquireAll` — a list of calls
* `Paced` — the invariant

## Main results

* `Paced.acquire`, `Paced.foldl` — every call keeps it
* `acquireAll_spec` — what the limiter promises over any calls
-/

namespace Poolbeg

open TokenBucket

/-! ### Calls -/

/-- One more call, with the times of the calls that were granted so far. -/
def RateLimiter.acquire (s : RateLimiter × List ℚ) (now : ℚ) : RateLimiter × List ℚ :=
  ((s.1.tryAcquire now).1, if (s.1.tryAcquire now).2 then s.2 ++ [now] else s.2)

/-- The limiter that some calls leave, and when it granted one. -/
def RateLimiter.acquireAll (rl : RateLimiter) (calls : List ℚ) : RateLimiter × List ℚ :=
  calls.foldl RateLimiter.acquire (rl, [])

/-- The limiter is a bucket with no debt that has been charged for what it granted, and what it
granted is within the rate. `clock` is the time of the last call. -/
structure Paced (maxRps : UInt32) (start clock : ℚ) (s : RateLimiter × List ℚ) : Prop where
  maxTokens : s.1.maxTokens = maxRps.toNat
  refillRate : s.1.refillRate = maxRps.toNat
  lastRefill : s.1.lastRefill = clock
  nonneg : 0 ≤ s.1.tokens
  le : s.1.tokens ≤ maxRps.toNat
  start_le : start ≤ clock
  level : ∀ now, clock ≤ now → s.1.bucket.level (maxRps.toNat : ℚ) maxRps.toNat now =
    levelAfter (maxRps.toNat : ℚ) maxRps.toNat start s.2 now
  sorted : s.2.Pairwise (· ≤ ·)
  granted : ∀ t ∈ s.2, start ≤ t ∧ t ≤ clock
  conforms : Conforms (maxRps.toNat : ℚ) maxRps.toNat s.2

variable {maxRps : UInt32} {start clock now : ℚ} {s : RateLimiter × List ℚ} {calls : List ℚ}

theorem acquire_granted (h : (s.1.tryAcquire now).2 = true) :
    RateLimiter.acquire s now = ((s.1.tryAcquire now).1, s.2 ++ [now]) := by
  rw [RateLimiter.acquire, if_pos h]

theorem acquire_refused (h : (s.1.tryAcquire now).2 = false) :
    RateLimiter.acquire s now = ((s.1.tryAcquire now).1, s.2) := by
  rw [RateLimiter.acquire, h, if_neg Bool.false_ne_true]

theorem paced_new (maxRps : UInt32) (start : ℚ) :
    Paced maxRps start start (.new maxRps start, []) where
  maxTokens := rfl
  refillRate := rfl
  lastRefill := rfl
  nonneg := Nat.cast_nonneg _
  le := le_rfl
  start_le := le_rfl
  level _ _ := rfl
  sorted := List.Pairwise.nil
  granted _ h := absurd h List.not_mem_nil
  conforms := conforms_nil (Nat.cast_nonneg _) (Nat.cast_nonneg _)

/-- There is no debt, and no more than a full bucket. -/
theorem Paced.tokens_refill (hs : Paced maxRps start clock s) (hnow : clock ≤ now) :
    0 ≤ (s.1.refill now).tokens ∧ (s.1.refill now).tokens ≤ maxRps.toNat := by
  have helapsed : 0 ≤ now - s.1.lastRefill := by
    rw [hs.lastRefill]
    exact sub_nonneg.mpr hnow
  have hmax : (0 : ℚ) ≤ maxRps.toNat := Nat.cast_nonneg _
  rw [RateLimiter.refill, hs.maxTokens, hs.refillRate]
  exact ⟨le_min (add_nonneg hs.nonneg (mul_nonneg helapsed hmax)) hmax, min_le_right _ _⟩

theorem tokens_tryAcquire (rl : RateLimiter) (now : ℚ) :
    (rl.tryAcquire now).1.tokens =
      (rl.refill now).tokens - if (rl.tryAcquire now).2 then 1 else 0 := by
  rw [RateLimiter.tryAcquire]
  by_cases hone : 1 ≤ (rl.refill now).tokens
  · rw [if_pos hone]
    rfl
  · rw [if_neg hone]
    exact (sub_zero _).symm

theorem lastRefill_tryAcquire (rl : RateLimiter) (now : ℚ) :
    (rl.tryAcquire now).1.lastRefill = now := by
  rw [RateLimiter.tryAcquire]
  split_ifs <;> rfl

/-- A call is granted when the bucket of the calls granted so far holds a whole token. Those that
were refused do not count. -/
theorem Paced.granted_iff (hs : Paced maxRps start clock s) (hnow : clock ≤ now) :
    (s.1.tryAcquire now).2 = true ↔
      1 ≤ levelAfter (maxRps.toNat : ℚ) maxRps.toNat start s.2 now := by
  rw [tryAcquire_granted hs.maxTokens hs.refillRate, hs.level now hnow]

theorem Paced.past (hs : Paced maxRps start clock s) (hnow : clock ≤ now) :
    ∀ t ∈ s.2, start ≤ t ∧ t ≤ now :=
  fun t ht => ⟨(hs.granted t ht).1, (hs.granted t ht).2.trans hnow⟩

/-- A call that is refused only looks at the bucket. -/
theorem Paced.refuse (hs : Paced maxRps start clock s) (hnow : clock ≤ now)
    (hgrant : (s.1.tryAcquire now).2 = false) :
    Paced maxRps start now ((s.1.tryAcquire now).1, s.2) := by
  obtain ⟨hmax, hrate⟩ := limits_tryAcquire s.1 now
  obtain ⟨hnonneg, hle⟩ := hs.tokens_refill hnow
  have htokens : (s.1.tryAcquire now).1.tokens = (s.1.refill now).tokens := by
    rw [tokens_tryAcquire, hgrant]
    exact sub_zero _
  have hlook : (s.1.tryAcquire now).1.bucket =
      ⟨s.1.bucket.level (maxRps.toNat : ℚ) maxRps.toNat now, now⟩ := by
    rw [bucket_tryAcquire hs.maxTokens hs.refillRate, hgrant]
    rfl
  exact {
    maxTokens := hmax.trans hs.maxTokens
    refillRate := hrate.trans hs.refillRate
    lastRefill := lastRefill_tryAcquire _ _
    nonneg := htokens ▸ hnonneg
    le := htokens ▸ hle
    start_le := hs.start_le.trans hnow
    level := fun later hlater => by
      rw [hlook, level_level (Nat.cast_nonneg _) _ hlater, hs.level later (hnow.trans hlater)]
    sorted := hs.sorted
    granted := hs.past hnow
    conforms := hs.conforms }

/-- A call that is granted charges the bucket, which holds a whole token. -/
theorem Paced.grant (hs : Paced maxRps start clock s) (hnow : clock ≤ now)
    (hgrant : (s.1.tryAcquire now).2 = true) :
    Paced maxRps start now ((s.1.tryAcquire now).1, s.2 ++ [now]) := by
  obtain ⟨hmax, hrate⟩ := limits_tryAcquire s.1 now
  have hle := (hs.tokens_refill hnow).2
  have hone : 1 ≤ (s.1.refill now).tokens := by
    rw [Poolbeg.tokens_refill hs.maxTokens hs.refillRate,
      ← tryAcquire_granted hs.maxTokens hs.refillRate]
    exact hgrant
  have htokens : (s.1.tryAcquire now).1.tokens = (s.1.refill now).tokens - 1 := by
    rw [tokens_tryAcquire, if_pos hgrant]
  have hcharge : (s.1.tryAcquire now).1.bucket =
      s.1.bucket.charge (maxRps.toNat : ℚ) maxRps.toNat now := by
    rw [bucket_tryAcquire hs.maxTokens hs.refillRate, hgrant]
    rfl
  have hsorted : (s.2 ++ [now]).Pairwise (· ≤ ·) :=
    List.pairwise_append.mpr ⟨hs.sorted, List.pairwise_singleton _ _, fun t ht t' ht' =>
      List.mem_singleton.mp ht' ▸ (hs.past hnow t ht).2⟩
  have hgranted : ∀ t ∈ s.2 ++ [now], start ≤ t ∧ t ≤ now :=
    List.forall_mem_append.mpr
      ⟨hs.past hnow, List.forall_mem_singleton.mpr ⟨hs.start_le.trans hnow, le_rfl⟩⟩
  exact {
    maxTokens := hmax.trans hs.maxTokens
    refillRate := hrate.trans hs.refillRate
    lastRefill := lastRefill_tryAcquire _ _
    nonneg := by
      rw [htokens]
      exact sub_nonneg.mpr hone
    le := by
      rw [htokens]
      linarith
    start_le := hs.start_le.trans hnow
    level := fun later hlater => by
      rw [hcharge, level_charge, hs.level now hnow, levelAfter_concat]
    sorted := hsorted
    granted := hgranted
    conforms := (conforms_concat (Nat.cast_nonneg _) hsorted fun t ht => (hgranted t ht).1).mpr
      ⟨hs.conforms, (hs.granted_iff hnow).mp hgrant⟩ }

/-- **A call keeps the limiter paced**, granted or not. -/
theorem Paced.acquire (hs : Paced maxRps start clock s) (hnow : clock ≤ now) :
    Paced maxRps start now (RateLimiter.acquire s now) := by
  cases hgrant : (s.1.tryAcquire now).2 with
  | false =>
    rw [acquire_refused hgrant]
    exact hs.refuse hnow hgrant
  | true =>
    rw [acquire_granted hgrant]
    exact hs.grant hnow hgrant

/-! ### All calls -/

/-- **Any calls in order keep the limiter paced.** -/
theorem Paced.foldl (hs : Paced maxRps start clock s)
    (hcalls : (clock :: calls).Pairwise (· ≤ ·)) :
    ∃ clock', Paced maxRps start clock' (calls.foldl RateLimiter.acquire s) := by
  induction calls generalizing s clock with
  | nil => exact ⟨clock, hs⟩
  | cons now calls ih =>
    obtain ⟨hclock, hcalls⟩ := List.pairwise_cons.mp hcalls
    exact ih (hs.acquire (hclock now List.mem_cons_self)) hcalls

/-- A token is there as long after the last call as it takes to refill one, whatever the calls
before it were. -/
theorem Paced.granted_of_apart (hs : Paced maxRps start clock s) (hmax : 1 ≤ maxRps.toNat)
    (hapart : 1 / (maxRps.toNat : ℚ) ≤ now - clock) : (s.1.tryAcquire now).2 = true := by
  have hpos : (0 : ℚ) < maxRps.toNat := Nat.cast_pos.mpr hmax
  have hone : (1 : ℚ) ≤ maxRps.toNat := Nat.one_le_cast.mpr hmax
  have hrefilled : 1 ≤ (maxRps.toNat : ℚ) * (now - clock) := by
    rwa [div_le_iff₀' hpos] at hapart
  rw [tryAcquire_granted hs.maxTokens hs.refillRate]
  show 1 ≤ min (s.1.tokens + maxRps.toNat * (now - s.1.lastRefill)) (maxRps.toNat : ℚ)
  rw [hs.lastRefill]
  exact le_min (by linarith [hs.nonneg]) hone

/-- Calls that keep that distance are all granted, if the first one is. -/
theorem Paced.foldl_apart (hs : Paced maxRps start clock s) (hmax : 1 ≤ maxRps.toNat)
    (hcalls : (clock :: calls).Pairwise (· ≤ ·))
    (hfirst : ∀ now ∈ calls.head?, (s.1.tryAcquire now).2 = true)
    (hapart : calls.IsChain fun t t' => 1 / (maxRps.toNat : ℚ) ≤ t' - t) :
    (calls.foldl RateLimiter.acquire s).2 = s.2 ++ calls := by
  induction calls generalizing s clock with
  | nil => exact (List.append_nil _).symm
  | cons now calls ih =>
    obtain ⟨hclock, hcalls⟩ := List.pairwise_cons.mp hcalls
    have hs' := hs.acquire (hclock now List.mem_cons_self)
    rw [List.foldl_cons, ih hs' hcalls ?_ hapart.tail, acquire_granted (hfirst now rfl),
      List.append_assoc]
    · rfl
    · intro next hnext
      obtain ⟨rest, rfl⟩ := List.head?_eq_some_iff.mp hnext
      exact hs'.granted_of_apart hmax (List.isChain_cons_cons.mp hapart).1

/-- **The limiter over any calls in order**: its tokens stay between none and a full bucket, a
window holds no more grants than a full bucket and what is refilled meanwhile, and a caller that
waits for one token to be refilled between two calls is never refused. -/
theorem acquireAll_spec (maxRps : UInt32) (hmax : 1 ≤ maxRps.toNat) (start : ℚ) (calls : List ℚ)
    (hcalls : (start :: calls).Pairwise (· ≤ ·)) :
    (∀ pre, pre <+: calls → 0 ≤ ((RateLimiter.new maxRps start).acquireAll pre).1.tokens ∧
      ((RateLimiter.new maxRps start).acquireAll pre).1.tokens ≤ maxRps.toNat) ∧
    (∀ since upto, since ≤ upto →
      ((((RateLimiter.new maxRps start).acquireAll calls).2.filter fun t =>
        since ≤ t ∧ t ≤ upto).length : ℚ) ≤ maxRps.toNat * (1 + (upto - since))) ∧
    ((calls.IsChain fun t t' => 1 / (maxRps.toNat : ℚ) ≤ t' - t) →
      ((RateLimiter.new maxRps start).acquireAll calls).2 = calls) := by
  have hnew := paced_new maxRps start
  refine ⟨fun pre hpre => ?_, fun since upto hle => ?_, fun hapart => ?_⟩
  · have hsub : (start :: pre).Sublist (start :: calls) := hpre.sublist.cons_cons start
    obtain ⟨clock, hpaced⟩ := hnew.foldl (hcalls.sublist hsub)
    exact ⟨hpaced.nonneg, hpaced.le⟩
  · obtain ⟨clock, hpaced⟩ := hnew.foldl hcalls
    rw [mul_add, mul_one]
    exact hpaced.conforms since upto hle
  · refine hnew.foldl_apart hmax hcalls (fun now hnow => ?_) hapart
    -- the bucket is full at the first call
    have hlater : start ≤ now :=
      (List.pairwise_cons.mp hcalls).1 now (List.mem_of_mem_head? hnow)
    rw [hnew.granted_iff hlater, levelAfter_nil (Nat.cast_nonneg _) hlater]
    exact Nat.one_le_cast.mpr hmax

/-- Half a second apart at two requests a second. -/
theorem halfSecondApart_granted :
    ((RateLimiter.new 2 0).acquireAll [0, 1 / 2, 1]).2 = [0, 1 / 2, 1] := by
  have htwo : (2 : UInt32).toNat = 2 := rfl
  refine (acquireAll_spec 2 (by decide) 0 [0, 1 / 2, 1] ?_).2.2 ?_
  · norm_num [List.pairwise_cons]
  · norm_num [List.isChain_cons_cons, htwo]

end Poolbeg
