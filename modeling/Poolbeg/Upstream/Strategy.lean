import Mathlib.Data.List.MinMax
import Mathlib.Data.List.Nodup
import Poolbeg.Json
import Poolbeg.Rotation

/-!
# Which upstream of a tier is tried first

The embedding of `upstream/strategy.rs`, and of the order in which `forward_request` then tries the
members of a tier: the preferred one first and the others as they are configured.

## What is selected from

An upstream is an `Arc`, and two of them are the same when they are the same pointer. Here it is an
element of a type `ι` with decidable equality. A tier is the list of its healthy members, so an
upstream that is down has no turn, and the list may differ from one request to the next.

The counter of round-robin is moved on only when there is a choice: a tier with one healthy member
is answered without it. It is a `UInt64` and wraps. What the strategy `random` draws is up to
whoever takes the step, as is what the upstreams say of their latency.

## Main definitions

* `UpstreamRole`, `UpstreamStrategy` — what is configured
* `select` — the preferred member, and the counter
* `attemptOrder` — in which order the members are tried

## Main results

* `exists_select` — some member is preferred, unless there is none
* `select_roundRobin` — what the counter does
* `attemptOrder_perm` — everyone has one turn
-/

namespace Poolbeg

open Rotation

inductive UpstreamRole
  | primary
  | secondary
  | fallback
  deriving DecidableEq

/-- How one of the healthy upstreams of a tier is selected. -/
inductive UpstreamStrategy
  | roundRobin
  | random
  | lowestLatency

variable {ι : Type}

/-! ### The preferred member -/

/-- `select`: the upstream, and the counter it leaves. The random index is drawn from as many as
there are candidates, and `latencyUs` is what the upstreams say of themselves; of several with the
lowest latency it is the first. -/
def select (candidates : List ι) (strategy : UpstreamStrategy) (latencyUs : ι → UInt64)
    (random : ℕ) (roundRobin : UInt64) : Option ι × UInt64 :=
  match candidates with
  | [] => (none, roundRobin)
  | [u] => (some u, roundRobin)
  | _ :: _ :: _ =>
    match strategy with
    | .roundRobin => (candidates[roundRobin.toNat % candidates.length]?, roundRobin + 1)
    | .random => (candidates[random % candidates.length]?, roundRobin)
    | .lowestLatency => (candidates.argmin fun u => (latencyUs u).toNat, roundRobin)

variable {candidates : List ι} {strategy : UpstreamStrategy} {latencyUs : ι → UInt64} {random : ℕ}
  {roundRobin : UInt64}

/-- **A tier with members has a preferred one**, whatever the strategy. -/
theorem exists_select (strategy : UpstreamStrategy) (latencyUs : ι → UInt64) (random : ℕ)
    (roundRobin : UInt64) (h : candidates ≠ []) :
    ∃ u ∈ candidates, (select candidates strategy latencyUs random roundRobin).1 = some u := by
  match candidates, h with
  | [u], _ => exact ⟨u, List.mem_cons_self, rfl⟩
  | u :: v :: us, h =>
    cases strategy with
    | roundRobin => exact exists_pick h roundRobin.toNat
    | random => exact exists_pick h random
    | lowestLatency =>
      cases hmin : (u :: v :: us).argmin fun u => (latencyUs u).toNat with
      | none => exact absurd (List.argmin_eq_none.mp hmin) h
      | some w => exact ⟨w, List.argmin_mem hmin, hmin⟩

/-- The counter is advanced by one exactly when round-robin has a choice. -/
theorem select_roundRobin (h : 2 ≤ candidates.length) :
    select candidates .roundRobin latencyUs random roundRobin =
      (pick candidates roundRobin.toNat, roundRobin + 1) := by
  match candidates, h with
  | _ :: _ :: _, _ => rfl

theorem select_snd_of_length_lt (h : candidates.length < 2) :
    (select candidates strategy latencyUs random roundRobin).2 = roundRobin := by
  match candidates, h with
  | [], _ => rfl
  | [_], _ => rfl

/-! ### The others -/

variable [DecidableEq ι]

/-- The members of a tier in the order they are tried. The others keep the order of the
configuration. -/
def attemptOrder (tier : List ι) (preferred : Option ι) : List ι :=
  preferred.toList ++ tier.filter fun u => decide (preferred ≠ some u)

theorem attemptOrder_some (tier : List ι) (p : ι) :
    attemptOrder tier (some p) = p :: tier.filter fun u => decide (u ≠ p) := by
  simp only [attemptOrder, Option.toList_some, List.singleton_append, ne_eq, Option.some.injEq,
    eq_comm]

/-- **Everyone has one turn.** The preferred one is a member, and no member is listed twice. -/
theorem attemptOrder_perm {tier : List ι} {p : ι} (hp : p ∈ tier) (htier : tier.Nodup) :
    (attemptOrder tier (some p)).Perm tier := by
  have hrest : tier.filter (fun u => decide (u ≠ p)) = tier.erase p := by
    rw [htier.erase_eq_filter]
    exact List.filter_congr fun u _ => by by_cases hu : u = p <;> simp [hu]
  rw [attemptOrder_some, hrest]
  exact (List.perm_cons_erase hp).symm

end Poolbeg
