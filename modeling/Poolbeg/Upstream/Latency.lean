import Poolbeg.RunningAverage
import Poolbeg.Upstream.Manager

/-!
# The latency of an upstream

An upstream keeps a running average of how long its requests took, in microseconds and as one `u64`.
Before the first measurement the `u64` is `u64::MAX`, which is larger than any average, so that an
upstream nothing is known about is selected only when nothing is known about any.

## Whole numbers of 64 bits

The average is computed in 64 bits: three tenths of the new measurement and seven tenths of the old
average, rounded down. As long as ten times the longest duration fits, no step of it overflows and
it is the running average of whole numbers, which stays between the least and the greatest sample.
Only with durations of more than fifty thousand years could it be otherwise.

## Updates that overlap

Reading the stored average and storing the new one are two accesses. Two requests that return at the
same time may both read before either writes, and then one of the samples is lost. What is stored
still lies between the samples (`run_measuredBetween`).

## Main definitions

* `asMicros`, `UpstreamClient.updateLatency`, `latencyAfter`, `measured` — the source
* `UpdateFits`, `StoresBetween` — what is promised of an upstream
* `measuredOf`, `latencyStep` — the measurements of a chain, and overlapping updates

## Main results

* `measured_updateLatency` — one update is one step of the running average
* `measured_latencyAfter`, `storesBetween` — all updates
* `lowestLatency_spec` — which upstream is selected
* `latencyUs_run` — the upstreams of a chain store what is stored after their measurements
* `run_measuredBetween` — overlapping updates
-/

namespace Poolbeg

open RunningAverage Lts

/-- `Duration::as_micros`, of nanoseconds. -/
def asMicros (elapsed : ℕ) : ℕ := elapsed / 1000

/-- `u64::MAX`, what is stored before there is a measurement. -/
def unmeasured : UInt64 := 0xFFFFFFFFFFFFFFFF

/-- `update_latency`, of a `Duration`: what is stored, given what was. -/
def UpstreamClient.updateLatency (latencyUs : UInt64) (elapsed : ℕ) : UInt64 :=
  Poolbeg.updateLatency latencyUs (UInt64.ofNat (asMicros elapsed))

/-- What is stored after some measurements, one after the other. Nothing is stored in between by
anybody else. -/
def latencyAfter (samples : List ℕ) : UInt64 :=
  samples.foldl UpstreamClient.updateLatency unmeasured

/-- The average that is stored, if there is one. No measurement of a real duration comes to the
sentinel. -/
def measured (latencyUs : UInt64) : Option ℕ :=
  if latencyUs = unmeasured then none else some latencyUs.toNat

/-- No intermediate result of an update is too large for a `u64`, and neither is the duration. The
source casts from 128 bits without a check. -/
structure UpdateFits (latencyUs : UInt64) (elapsed : ℕ) : Prop where
  cast : asMicros elapsed < 2 ^ 64
  sum : latencyUs ≠ unmeasured → asMicros elapsed * 3 + latencyUs.toNat * 7 < 2 ^ 64

variable {latencyUs : UInt64} {elapsed lo hi M : ℕ} {samples : List ℕ}

theorem updateLatency_eq (latencyUs newUs : UInt64) :
    updateLatency latencyUs newUs =
      if latencyUs = unmeasured then newUs else (newUs * 3 + latencyUs * 7) / 10 := rfl

theorem latencyAfter_concat (samples : List ℕ) (elapsed : ℕ) :
    latencyAfter (samples ++ [elapsed]) =
      UpstreamClient.updateLatency (latencyAfter samples) elapsed := by
  rw [latencyAfter, List.foldl_append]
  rfl

theorem measured_eq_some_iff {v : ℕ} :
    measured latencyUs = some v ↔ latencyUs ≠ unmeasured ∧ latencyUs.toNat = v := by
  rw [measured]
  split_ifs with h <;> simp [h]

/-- Nothing below the sentinel is taken for it. -/
theorem measured_of_lt (h : latencyUs.toNat < 2 ^ 64 - 1) :
    measured latencyUs = some latencyUs.toNat := by
  refine if_neg fun heq => ?_
  rw [heq] at h
  exact absurd h (by decide)

/-! ### One update -/

/-- An average within the bound leaves room for the computation. -/
theorem updateFits (hM : 10 * M < 2 ^ 64) (hnew : asMicros elapsed ≤ M)
    (hold : ∀ v, measured latencyUs = some v → v ≤ M) : UpdateFits latencyUs elapsed where
  cast := by omega
  sum hne := by
    have hle := hold _ (measured_eq_some_iff.mpr ⟨hne, rfl⟩)
    omega

/-- The arithmetic of an update that fits is that of whole numbers. -/
theorem UpdateFits.toNat_updateLatency (h : UpdateFits latencyUs elapsed) :
    (UpstreamClient.updateLatency latencyUs elapsed).toNat =
      feed 3 7 (measured latencyUs) (asMicros elapsed) := by
  have hnew : (UInt64.ofNat (asMicros elapsed)).toNat = asMicros elapsed := by
    rw [UInt64.toNat_ofNat', Nat.mod_eq_of_lt h.cast]
  rw [UpstreamClient.updateLatency, updateLatency_eq, measured]
  split_ifs with heq
  · exact hnew
  · have hsum := h.sum heq
    rw [UInt64.toNat_div, UInt64.toNat_add, UInt64.toNat_mul, UInt64.toNat_mul, hnew]
    show (asMicros elapsed * 3 % 2 ^ 64 + latencyUs.toNat * 7 % 2 ^ 64) % 2 ^ 64 / 10 =
      (asMicros elapsed * 3 + latencyUs.toNat * 7) / 10
    rw [← Nat.add_mod, Nat.mod_eq_of_lt hsum]

/-- **One update is one step of the running average.** -/
theorem measured_updateLatency (hM : 10 * M < 2 ^ 64) (hnew : asMicros elapsed ≤ M)
    (hold : ∀ v, measured latencyUs = some v → v ≤ M) :
    measured (UpstreamClient.updateLatency latencyUs elapsed) =
      some (feed 3 7 (measured latencyUs) (asMicros elapsed)) := by
  have hfeed : feed 3 7 (measured latencyUs) (asMicros elapsed) ≤ M :=
    (feed_mem_bounds (by norm_num) (fun v hv => ⟨Nat.zero_le v, hold v hv⟩)
      ⟨Nat.zero_le _, hnew⟩).2
  have htoNat := (updateFits hM hnew hold).toNat_updateLatency
  rw [← htoNat] at hfeed ⊢
  exact measured_of_lt (by omega)

/-! ### All updates -/

/-- **What is stored is the running average of the samples**, in the order in which they came in. -/
theorem measured_latencyAfter (hM : 10 * M < 2 ^ 64) (hsamples : ∀ d ∈ samples, asMicros d ≤ M) :
    measured (latencyAfter samples) = average 3 7 (samples.map asMicros) := by
  induction samples using List.reverseRecOn with
  | nil => rfl
  | append_singleton samples d ih =>
    have hbefore := ih fun e he => hsamples e (List.mem_append_left _ he)
    have hbounds : ∀ x ∈ samples.map asMicros, 0 ≤ x ∧ x ≤ M := by
      intro x hx
      obtain ⟨e, he, rfl⟩ := List.mem_map.mp hx
      exact ⟨Nat.zero_le _, hsamples e (List.mem_append_left _ he)⟩
    have hold : ∀ v, measured (latencyAfter samples) = some v → v ≤ M := by
      intro v hv
      rw [hbefore] at hv
      exact (average_mem_bounds (by norm_num) hbounds v hv).2
    rw [latencyAfter_concat, List.map_append, List.map_singleton, average_concat, ← hbefore]
    exact measured_updateLatency hM (hsamples d List.mem_concat_self) hold

/-- What is promised of an upstream with these samples: nothing overflows, the stored latency is
between the least and the greatest sample, and it is not the sentinel. -/
structure StoresBetween (samples : List ℕ) : Prop where
  fits : ∀ before d after, samples = before ++ d :: after → UpdateFits (latencyAfter before) d
  lower : ∃ d ∈ samples, asMicros d ≤ (latencyAfter samples).toNat
  upper : ∃ d ∈ samples, (latencyAfter samples).toNat ≤ asMicros d
  ne_unmeasured : latencyAfter samples ≠ unmeasured

/-- The stored latency lies within all bounds of the samples. -/
theorem latencyAfter_mem_bounds (hM : 10 * M < 2 ^ 64) (hsamples : ∀ d ∈ samples, asMicros d ≤ M)
    (hne : samples ≠ []) (h : ∀ d ∈ samples, lo ≤ asMicros d ∧ asMicros d ≤ hi) :
    latencyAfter samples ≠ unmeasured ∧ lo ≤ (latencyAfter samples).toNat ∧
      (latencyAfter samples).toNat ≤ hi := by
  obtain ⟨v, hv, hbounds⟩ := exists_average (a := 3) (b := 7) (by norm_num)
    (List.map_eq_nil_iff.not.mpr hne) (List.forall_mem_map.mpr h)
  rw [← measured_latencyAfter hM hsamples] at hv
  obtain ⟨hmeasured, rfl⟩ := measured_eq_some_iff.mp hv
  exact ⟨hmeasured, hbounds⟩

/-- What is promised holds of all samples that are small enough: a tenth of what fits is enough,
which is tens of thousands of years. -/
theorem storesBetween (hM : 10 * M < 2 ^ 64) (hsamples : ∀ d ∈ samples, asMicros d ≤ M)
    (hne : samples ≠ []) : StoresBetween samples where
  fits := by
    rintro before d after rfl
    have hbefore : ∀ e ∈ before, asMicros e ≤ M :=
      fun e he => hsamples e (List.mem_append_left _ he)
    refine updateFits hM (hsamples d (List.mem_append_right _ List.mem_cons_self)) fun v hv => ?_
    obtain ⟨hmeasured, rfl⟩ := measured_eq_some_iff.mp hv
    have hne : before ≠ [] := fun hnil => hmeasured (by rw [hnil]; rfl)
    exact (latencyAfter_mem_bounds hM hbefore hne
      fun e he => ⟨Nat.zero_le _, hbefore e he⟩).2.2
  lower := by
    by_contra hnone
    push Not at hnone
    have h := (latencyAfter_mem_bounds hM hsamples hne
      fun e he => ⟨Nat.succ_le_of_lt (hnone e he), hsamples e he⟩).2.1
    exact absurd h (Nat.not_succ_le_self _)
  upper := by
    by_contra hnone
    push Not at hnone
    obtain ⟨e, he⟩ := List.exists_mem_of_ne_nil samples hne
    have hpos := (Nat.zero_le _).trans_lt (hnone e he)
    have h := (latencyAfter_mem_bounds hM hsamples hne
      fun e he => ⟨Nat.zero_le _, Nat.le_pred_of_lt (hnone e he)⟩).2.2
    exact absurd h (Nat.not_le.mpr (Nat.pred_lt hpos.ne'))
  ne_unmeasured :=
    (latencyAfter_mem_bounds hM hsamples hne fun e he => ⟨Nat.zero_le _, hsamples e he⟩).1

/-! ### Selection -/

section Selection

variable {ι : Type} {candidates : List ι} {latency : ι → UInt64}

/-- The selected upstream has the least latency of all candidates, and the round-robin counter stays
where it is. -/
theorem exists_select_lowestLatency (h : candidates ≠ []) (latency : ι → UInt64) (random : ℕ)
    (roundRobin : UInt64) :
    ∃ u ∈ candidates, (∀ v ∈ candidates, latency u ≤ latency v) ∧
      select candidates .lowestLatency latency random roundRobin = (some u, roundRobin) := by
  match candidates, h with
  | [u], _ =>
    exact ⟨u, List.mem_cons_self, List.forall_mem_singleton.mpr (UInt64.le_refl _), rfl⟩
  | u :: v :: us, h =>
    cases hmin : (u :: v :: us).argmin fun u => (latency u).toNat with
    | none => exact absurd (List.argmin_eq_none.mp hmin) h
    | some w =>
      refine ⟨w, List.argmin_mem hmin, fun x hx => UInt64.le_iff_toNat_le.mpr ?_, by
        rw [select, hmin]⟩
      exact List.le_of_mem_argmin (f := fun u => (latency u).toNat) hx hmin

/-- What is not the sentinel is below it. -/
theorem lt_unmeasured (h : latencyUs ≠ unmeasured) : latencyUs < unmeasured := by
  have hle : latencyUs.toNat ≤ unmeasured.toNat := Nat.le_of_lt_succ latencyUs.toNat_lt
  exact UInt64.lt_iff_toNat_lt.mpr (hle.lt_of_ne fun heq => h (UInt64.toNat_inj.mp heq))

/-- **Measured upstreams come before those that are not, and the selected one has the least
average.** Before there is a measurement of any, all are alike. -/
theorem lowestLatency_spec (hM : 10 * M < 2 ^ 64) (samples : ι → List ℕ)
    (hsamples : ∀ u, ∀ d ∈ samples u, asMicros d ≤ M) :
    (∀ u, samples u ≠ [] → StoresBetween (samples u)) ∧
      (∀ u v, samples u ≠ [] → samples v = [] →
        latencyAfter (samples u) < latencyAfter (samples v)) ∧
      ∀ candidates : List ι, candidates ≠ [] → ∀ random roundRobin, ∃ u ∈ candidates,
        select candidates .lowestLatency (fun u => latencyAfter (samples u)) random roundRobin =
            (some u, roundRobin) ∧
          (∀ v ∈ candidates, latencyAfter (samples u) ≤ latencyAfter (samples v)) ∧
          ((∃ v ∈ candidates, samples v ≠ []) → samples u ≠ []) := by
  have hrank : ∀ u v, samples u ≠ [] → samples v = [] →
      latencyAfter (samples u) < latencyAfter (samples v) := by
    intro u v hu hv
    rw [hv]
    exact lt_unmeasured (storesBetween hM (hsamples u) hu).ne_unmeasured
  refine ⟨fun u hu => storesBetween hM (hsamples u) hu, hrank, ?_⟩
  intro candidates hne random roundRobin
  obtain ⟨u, hu, hleast, hselect⟩ :=
    exists_select_lowestLatency hne (fun u => latencyAfter (samples u)) random roundRobin
  refine ⟨u, hu, hselect, hleast, ?_⟩
  rintro ⟨v, hv, hmeasured⟩ hnone
  exact absurd (hleast v hv) (UInt64.not_le.mpr (hrank v u hmeasured hnone))

/-- One upstream has answered in half a second, one in a twentieth of it, and one not yet. -/
def threeUpstreams : Fin 3 → List ℕ
  | 0 => [500000000]
  | 1 => []
  | 2 => [50000000]

theorem threeUpstreams_fastest :
    ∃ u ∈ [0, 1, 2],
      select [0, 1, 2] .lowestLatency (fun u => latencyAfter (threeUpstreams u)) 0 0 = (some u, 0) ∧
        (∀ v ∈ [0, 1, 2],
          latencyAfter (threeUpstreams u) ≤ latencyAfter (threeUpstreams v)) ∧
        ((∃ v ∈ [0, 1, 2], threeUpstreams v ≠ []) → threeUpstreams u ≠ []) :=
  (lowestLatency_spec (M := 30000000) (by norm_num) threeUpstreams (by decide)).2.2 [0, 1, 2]
    (List.cons_ne_nil _ _) 0 0

end Selection

/-! ### The upstreams of a chain -/

section Pool

variable {n : ℕ} {m : ChainManager n} {s t : PoolState n} {a : PoolAction n}
  {as : List (PoolAction n)}

/-- What a step measures of an upstream, in microseconds. -/
def measuredOf (u : Fin n) (s : PoolState n) : PoolAction n → List UInt64
  | .latency v elapsed => if v = u then [elapsed] else []
  | .move i (.answer reply) =>
    match (s.calls i).map ForwardCall.phase with
    | some (.sending v _ _) => if v = u then reply.elapsed.toList else []
    | _ => []
  | _ => []

theorem latencyUs_measure (s : PoolState n) (u v : Fin n) (elapsed : UInt64) :
    (s.measure v elapsed).latencyUs u =
      (if v = u then [elapsed] else []).foldl updateLatency (s.latencyUs u) := by
  rw [PoolState.measure]
  by_cases huv : u = v
  · subst huv
    simp
  · simp [huv, Ne.symm huv]

theorem latencyUs_receive (s : PoolState n) (u v : Fin n) (reply : SendReply) :
    (s.receive v reply).latencyUs u =
      (if v = u then reply.elapsed.toList else []).foldl updateLatency (s.latencyUs u) := by
  cases reply with
  | unreachable now later =>
    have hnone : (if v = u then (SendReply.unreachable now later).elapsed.toList else []) = [] := by
      split <;> rfl
    rw [hnone]
    rfl
  | httpError elapsed now later => exact latencyUs_measure s u v elapsed
  | unusable elapsed => exact latencyUs_measure s u v elapsed
  | ok elapsed resp => exact latencyUs_measure s u v elapsed

theorem latencyUs_step (h : poolStep m s a = some t) (u : Fin n) :
    t.latencyUs u = (measuredOf u s a).foldl updateLatency (s.latencyUs u) := by
  cases a with
  | forward i req =>
    rw [poolStep] at h
    split at h
    · cases h
      rfl
    · cases h
  | move i move =>
    obtain ⟨call, hcall, h⟩ := Option.bind_eq_some_iff.mp h
    obtain ⟨⟨s', call'⟩, hmove, rfl⟩ := Option.map_eq_some_iff.mp h
    have hstep := moveCall_spec hmove
    generalize eventOf m s call move = event at hstep
    cases hstep with
    | @answer v us roles reply hphase =>
      have hmeasured : measuredOf u s (.move i (.answer reply)) =
          if v = u then reply.elapsed.toList else [] := by
        rw [measuredOf, hcall, Option.map_some, hphase]
      rw [hmeasured]
      exact latencyUs_receive s u v reply
    | _ => rfl
  | client v op =>
    cases h
    rfl
  | latency v elapsed =>
    cases h
    exact latencyUs_measure s u v elapsed

/-- **What a chain stores for an upstream is what is stored after its measurements**, in the order
in which they are taken. -/
theorem latencyUs_run {disabledRetryInterval now : ℕ} (u : Fin n)
    (hrun : run (poolStep m) (.init n disabledRetryInterval now) as = some t) :
    t.latencyUs u = latencyAfter ((gather (poolStep m) (measuredOf u)
      (.init n disabledRetryInterval now) as).map fun elapsed => 1000 * elapsed.toNat) := by
  have hfold : ∀ latencyUs elapsed, UpstreamClient.updateLatency latencyUs (1000 * elapsed.toNat) =
      updateLatency latencyUs elapsed := by
    intro latencyUs elapsed
    rw [UpstreamClient.updateLatency, asMicros, Nat.mul_div_cancel_left _ (by norm_num),
      UInt64.ofNat_toNat]
  rw [latencyAfter, List.foldl_map]
  simp only [hfold]
  refine run_history (H := fun as t => t.latencyUs u = (gather (poolStep m) (measuredOf u)
    (.init n disabledRetryInterval now) as).foldl updateLatency unmeasured) rfl ?_ hrun
  intro as s a t hrun hs h
  rw [gather_concat hrun, List.foldl_append, ← hs]
  exact latencyUs_step h u

end Pool

/-! ### Updates that overlap -/

/-- The stored latency, and for each update under way what it has read and its duration. -/
structure LatencyState where
  latencyUs : UInt64
  loaded : List (UInt64 × ℕ)

inductive LatencyMove
  | load (elapsed : ℕ)
  | store (i : ℕ)

/-- The duration that comes in. -/
def LatencyMove.sample : LatencyMove → Option ℕ
  | .load elapsed => some elapsed
  | .store _ => none

/-- An update reads what is stored, and stores what it makes of it. In between others may do the
same, and what they store is then lost. -/
def latencyStep (s : LatencyState) : LatencyMove → Option LatencyState
  | .load elapsed => some { s with loaded := s.loaded ++ [(s.latencyUs, elapsed)] }
  | .store i => s.loaded[i]?.map fun update =>
      { latencyUs := UpstreamClient.updateLatency update.1 update.2
        loaded := s.loaded.eraseIdx i }

def LatencyState.init : LatencyState := { latencyUs := unmeasured, loaded := [] }

/-- An average within bounds, if there is one. -/
def MeasuredBetween (lo hi : ℕ) (latencyUs : UInt64) : Prop :=
  ∀ v, measured latencyUs = some v → lo ≤ v ∧ v ≤ hi

/-- All averages and durations are within bounds, those that an update has read and not yet used
included. -/
structure LatencyState.Between (lo hi : ℕ) (s : LatencyState) : Prop where
  stored : MeasuredBetween lo hi s.latencyUs
  loaded : ∀ update ∈ s.loaded, MeasuredBetween lo hi update.1 ∧
    lo ≤ asMicros update.2 ∧ asMicros update.2 ≤ hi

theorem measuredBetween_updateLatency (hhi : 10 * hi < 2 ^ 64)
    (hold : MeasuredBetween lo hi latencyUs)
    (hnew : lo ≤ asMicros elapsed ∧ asMicros elapsed ≤ hi) :
    MeasuredBetween lo hi (UpstreamClient.updateLatency latencyUs elapsed) := by
  intro v hv
  rw [measured_updateLatency hhi hnew.2 fun v hv => (hold v hv).2, Option.some.injEq] at hv
  exact hv ▸ feed_mem_bounds (by norm_num) hold hnew

variable {s t : LatencyState} {move : LatencyMove} {moves : List LatencyMove}

theorem LatencyState.Between.step (hhi : 10 * hi < 2 ^ 64) (hs : s.Between lo hi)
    (hmove : ∀ d, move.sample = some d → lo ≤ asMicros d ∧ asMicros d ≤ hi)
    (h : latencyStep s move = some t) : t.Between lo hi := by
  cases move with
  | load elapsed =>
    obtain rfl := Option.some.inj h
    refine ⟨hs.stored, fun update hupdate => ?_⟩
    obtain hupdate | hupdate := List.mem_append.mp hupdate
    · exact hs.loaded update hupdate
    · obtain rfl := List.mem_singleton.mp hupdate
      exact ⟨hs.stored, hmove elapsed rfl⟩
  | store i =>
    obtain ⟨update, hupdate, rfl⟩ := Option.map_eq_some_iff.mp h
    obtain ⟨hold, hnew⟩ := hs.loaded update (List.mem_of_getElem? hupdate)
    exact ⟨measuredBetween_updateLatency hhi hold hnew,
      fun other hother => hs.loaded other (List.mem_of_mem_eraseIdx hother)⟩

/-- **However the updates overlap**, none overflows and what is stored lies between the samples. A
sample that is lost makes no difference to the bounds. -/
theorem run_measuredBetween (hhi : 10 * hi < 2 ^ 64)
    (hsamples : ∀ move ∈ moves, ∀ d, move.sample = some d → lo ≤ asMicros d ∧ asMicros d ≤ hi)
    (hrun : run latencyStep .init moves = some s) :
    MeasuredBetween lo hi s.latencyUs ∧ ∀ update ∈ s.loaded, UpdateFits update.1 update.2 := by
  have hinit : LatencyState.init.Between lo hi :=
    { stored := fun v hv => by cases hv
      loaded := fun _ hupdate => absurd hupdate List.not_mem_nil }
  have hs : s.Between lo hi := run_inv_along (I := LatencyState.Between lo hi)
    (C := fun _ move => ∀ d, move.sample = some d → lo ≤ asMicros d ∧ asMicros d ≤ hi)
    (fun _ _ _ hs hmove h => hs.step hhi hmove h) hinit (along_of_forall hsamples) hrun
  refine ⟨hs.stored, fun update hupdate => ?_⟩
  obtain ⟨hold, hnew⟩ := hs.loaded update hupdate
  exact updateFits hhi hnew.2 fun v hv => (hold v hv).2

end Poolbeg
