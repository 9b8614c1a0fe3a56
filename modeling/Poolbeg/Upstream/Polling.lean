import Mathlib.Data.List.Sort
import Poolbeg.Upstream.Manager

/-!
# Whom the tracker polls

The loop `run` of `upstream/tracker.rs` up to the request, with `select_best_upstream`. At every
tick the tracker looks for the first tier with a healthy member, has one of its members selected,
and polls it if that has a token left. What comes of a poll is `trackerStep`.

## One counter for one tier

The tracker has a round-robin counter of its own. In contrast to that of the manager, which all
tiers share within a request, it is used for one tier in a tick. So the members of the best tier
take turns, whatever happens to their tokens: a member that has none left costs its own turns only,
since the tracker does not try another one in the same tick. While the best tier changes, nothing is
promised but that the one selected is of the best.

What the upstreams are like at a tick, and whether there is a token, is up to the label of the tick.
The flags of all upstreams are read at one moment; the source reads them one after another.

## Main definitions

* `Tick`, `bestTier`, `selectBestUpstream` — what a tick finds, and whom it selects
* `pollTick`, `polls` — the loop
* `PollsBest` — what a tick is to do

## Main results

* `pollsBest_pollTick` — a tick looks in the best tier
* `selected_polls` — who is selected, tick after tick
* `tracker_polls` — both together
-/

namespace Poolbeg

open Rotation

/-! ### The first of a list -/

/-- In a list that is in order, the first element to yield something comes before all others that
do. -/
theorem exists_first_of_findSome? {α β : Type*} {r : α → α → Prop} {f : α → Option β} {l : List α}
    {b : β} (hl : l.Pairwise r) (h : l.findSome? f = some b) :
    ∃ a ∈ l, f a = some b ∧ ∀ c ∈ l, f c ≠ none → a = c ∨ r a c := by
  obtain ⟨before, a, after, rfl, ha, hbefore⟩ := List.findSome?_eq_some_iff.mp h
  refine ⟨a, by simp, ha, fun c hc hne => ?_⟩
  rcases List.mem_append.mp hc with hc | hc
  · exact absurd (hbefore c hc) hne
  · rcases List.mem_cons.mp hc with rfl | hc
    · exact .inl rfl
    · exact .inr ((List.pairwise_cons.mp (List.pairwise_append.mp hl).2.1).1 c hc)

/-- How far back in the order of the tiers a role is. -/
def tierRank : UpstreamRole → ℕ
  | .primary => 0
  | .secondary => 1
  | .fallback => 2

theorem tierOrder_pairwise : tierOrder.Pairwise fun a b => tierRank a < tierRank b := by
  simp [tierOrder, tierRank]

theorem mem_tierOrder (role : UpstreamRole) : role ∈ tierOrder := by
  cases role <;> simp [tierOrder]

/-! ### A tick -/

variable {n : ℕ} (m : ChainManager n)

/-- What a tick finds: the upstreams as they are, what is drawn at random, and whether the one that
is selected grants a token. -/
structure Tick (n : ℕ) where
  clients : Fin n → UpstreamClient
  latencyUs : Fin n → UInt64
  random : ℕ
  granted : Bool

/-- The healthy members of a tier. -/
def healthyTier (clients : Fin n → UpstreamClient) (role : UpstreamRole) : List (Fin n) :=
  (List.finRange n).filter fun u =>
    decide (m.role u = role) && (clients u).isHealthy && !(clients u).disabled

/-- The first tier that has any. -/
def bestTier (clients : Fin n → UpstreamClient) : Option (List (Fin n)) :=
  tierOrder.findSome? fun role =>
    let tier := healthyTier m clients role
    if tier = [] then none else some tier

/-- `select_best_upstream`: the upstream, and the counter it leaves. -/
def selectBestUpstream (tick : Tick n) (roundRobin : UInt64) : Option (Fin n) × UInt64 :=
  match bestTier m tick.clients with
  | some tier => select tier m.strategy tick.latencyUs tick.random roundRobin
  | none => (none, roundRobin)

/-- What becomes of a tick. One that finds nobody, or nobody with a token, makes no poll. -/
inductive PollOutcome (ι : Type)
  | noUpstream
  | limited (upstream : ι)
  | polled (upstream : ι)

/-- The upstream that was selected. -/
def PollOutcome.selected {ι : Type} : PollOutcome ι → Option ι
  | noUpstream => none
  | limited u => some u
  | polled u => some u

/-- The body of the loop, with the counter it leaves. -/
def pollTick (roundRobin : UInt64) (tick : Tick n) : PollOutcome (Fin n) × UInt64 :=
  match selectBestUpstream m tick roundRobin with
  | (none, roundRobin) => (.noUpstream, roundRobin)
  | (some u, roundRobin) => (if tick.granted then .polled u else .limited u, roundRobin)

/-- One tick after another. -/
def polls (roundRobin : UInt64) : List (Tick n) → List (PollOutcome (Fin n))
  | [] => []
  | tick :: ticks =>
    let (outcome, roundRobin) := pollTick m roundRobin tick
    outcome :: polls roundRobin ticks

/-- An upstream is selected that is healthy and has a role as good as any healthy one, unless there
is none. -/
inductive PollsBest (tick : Tick n) : PollOutcome (Fin n) → Prop
  | nobody (h : ∀ u, (tick.clients u).isHealthy = false) : PollsBest tick .noUpstream
  | best {u : Fin n} (hhealthy : (tick.clients u).isHealthy = true)
      (hrole : ∀ v, (tick.clients v).isHealthy = true →
        tierRank (m.role u) ≤ tierRank (m.role v)) :
      PollsBest tick (if tick.granted then .polled u else .limited u)

/-! ### The best tier -/

variable {m} {clients : Fin n → UpstreamClient} {role : UpstreamRole} {ms : List (Fin n)}
  {u : Fin n} {tick : Tick n} {roundRobin : UInt64}

theorem mem_healthyTier :
    u ∈ healthyTier m clients role ↔ m.role u = role ∧ (clients u).isHealthy = true := by
  simp only [healthyTier, List.mem_filter, List.mem_finRange, true_and, Bool.and_eq_true,
    decide_eq_true_eq, UpstreamClient.isHealthy, Bool.not_eq_true']
  tauto

/-- The tier that is the best has members, and nobody outside is in a better one. -/
theorem bestTier_eq_some (h : bestTier m clients = some ms) :
    ms ≠ [] ∧ ms.Nodup ∧ ∀ u ∈ ms, (clients u).isHealthy = true ∧
      ∀ v, (clients v).isHealthy = true → tierRank (m.role u) ≤ tierRank (m.role v) := by
  obtain ⟨role, -, htier, hroles⟩ := exists_first_of_findSome? tierOrder_pairwise h
  obtain ⟨hne, heq⟩ := Option.ite_none_left_eq_some.mp htier
  cases heq
  refine ⟨hne, (List.nodup_finRange n).filter _, fun u hu => ?_⟩
  obtain ⟨rfl, hhealthy⟩ := mem_healthyTier.mp hu
  refine ⟨hhealthy, fun v hv => ?_⟩
  have hmem : v ∈ healthyTier m clients (m.role v) := mem_healthyTier.mpr ⟨rfl, hv⟩
  rcases hroles _ (mem_tierOrder (m.role v)) (by simp [List.ne_nil_of_mem hmem]) with heq | hlt
  · rw [heq]
  · exact hlt.le

theorem bestTier_eq_none (h : bestTier m clients = none) (u : Fin n) :
    (clients u).isHealthy = false := by
  rw [bestTier, List.findSome?_eq_none_iff] at h
  have hempty : healthyTier m clients (m.role u) = [] := by
    simpa using h _ (mem_tierOrder (m.role u))
  rw [← Bool.not_eq_true]
  exact fun hhealthy => List.ne_nil_of_mem (mem_healthyTier.mpr ⟨rfl, hhealthy⟩) hempty

/-- **A tick looks in the best tier.** -/
theorem pollsBest_pollTick : PollsBest m tick (pollTick m roundRobin tick).1 := by
  cases htier : bestTier m tick.clients with
  | none =>
    simp only [pollTick, selectBestUpstream, htier]
    exact .nobody (bestTier_eq_none htier)
  | some ms =>
    obtain ⟨hne, -, hbest⟩ := bestTier_eq_some htier
    obtain ⟨u, hu, hselect⟩ :=
      exists_select m.strategy tick.latencyUs tick.random roundRobin hne
    have houtcome : (pollTick m roundRobin tick).1 =
        if tick.granted then .polled u else .limited u := by
      simp only [pollTick, selectBestUpstream, htier]
      split
      · rename_i hnone
        rw [hnone] at hselect
        cases hselect
      · rename_i v counter hsome
        rw [hsome] at hselect
        rw [Option.some.inj hselect]
    rw [houtcome]
    exact .best (hbest u hu).1 (hbest u hu).2

/-! ### Taking turns -/

/-- The counter after some ticks. -/
def roundRobinAfter (m : ChainManager n) (roundRobin : UInt64) (ticks : List (Tick n)) : UInt64 :=
  ticks.foldl (fun roundRobin tick => (pollTick m roundRobin tick).2) roundRobin

theorem polls_append (before ticks : List (Tick n)) : polls m roundRobin (before ++ ticks) =
    polls m roundRobin before ++ polls m (roundRobinAfter m roundRobin before) ticks := by
  induction before generalizing roundRobin with
  | nil => rfl
  | cons tick before ih => exact congrArg _ ih

@[simp] theorem length_polls (ticks : List (Tick n)) :
    (polls m roundRobin ticks).length = ticks.length := by
  induction ticks generalizing roundRobin with
  | nil => rfl
  | cons tick ticks ih => exact congrArg _ ih

theorem pollTick_snd :
    (pollTick m roundRobin tick).2 = (selectBestUpstream m tick roundRobin).2 := by
  rw [pollTick]
  split <;> rename_i h <;> rw [h]

theorem selected_pollTick :
    (pollTick m roundRobin tick).1.selected = (selectBestUpstream m tick roundRobin).1 := by
  rw [pollTick]
  split <;> rename_i h <;> rw [h]
  · rfl
  · cases tick.granted <;> rfl

/-- A selection moves the counter by one at most. -/
theorem select_snd_le (candidates : List (Fin n)) (strategy : UpstreamStrategy)
    (latencyUs : Fin n → UInt64) (random : ℕ) :
    (select candidates strategy latencyUs random roundRobin).2.toNat ≤ roundRobin.toNat + 1 := by
  match candidates with
  | [] | [_] => exact Nat.le_succ _
  | _ :: _ :: _ =>
    cases strategy with
    | roundRobin =>
      show (roundRobin + 1).toNat ≤ _
      rw [UInt64.toNat_add]
      exact Nat.mod_le _ _
    | _ => exact Nat.le_succ _

theorem roundRobinAfter_le (ticks : List (Tick n)) :
    (roundRobinAfter m roundRobin ticks).toNat ≤ roundRobin.toNat + ticks.length := by
  induction ticks generalizing roundRobin with
  | nil => exact le_rfl
  | cons tick ticks ih =>
    have hstep : (pollTick m roundRobin tick).2.toNat ≤ roundRobin.toNat + 1 := by
      rw [pollTick_snd, selectBestUpstream]
      split
      · exact select_snd_le _ _ _ _
      · exact Nat.le_succ _
    calc (roundRobinAfter m (pollTick m roundRobin tick).2 ticks).toNat
        ≤ (pollTick m roundRobin tick).2.toNat + ticks.length := ih
      _ ≤ roundRobin.toNat + (ticks.length + 1) := by omega

/-- **Who is selected** while the best tier stays the same: whoever the counter points at, and it
goes up by one with every tick, a tick without a token included. -/
theorem selected_polls (hstrategy : m.strategy = .roundRobin) {ticks : List (Tick n)}
    (hsame : ∀ tick ∈ ticks, bestTier m tick.clients = some ms)
    (hwrap : roundRobin.toNat + ticks.length ≤ 2 ^ 64) :
    (polls m roundRobin ticks).map PollOutcome.selected =
      (List.range ticks.length).map fun k => pick ms (roundRobin.toNat + k) := by
  induction ticks generalizing roundRobin with
  | nil => rfl
  | cons tick ticks ih =>
    obtain ⟨htier, hrest⟩ := List.forall_mem_cons.mp hsame
    have hselect : selectBestUpstream m tick roundRobin =
        select ms .roundRobin tick.latencyUs tick.random roundRobin := by
      simp only [selectBestUpstream, htier, hstrategy]
    rw [List.length_cons] at hwrap ⊢
    rw [List.range_succ_eq_map, List.map_cons, List.map_map]
    show (pollTick m roundRobin tick).1.selected ::
      (polls m (pollTick m roundRobin tick).2 ticks).map PollOutcome.selected = _
    rw [selected_pollTick, pollTick_snd, hselect]
    match ms, (bestTier_eq_some htier).1 with
    | [u], _ =>
      -- a tier of one does without the counter
      have hone (c : ℕ) : pick [u] c = some u := by simp [pick, Nat.mod_one]
      show some u :: (polls m roundRobin ticks).map PollOutcome.selected = _
      rw [ih hrest (by omega)]
      simp only [hone, Function.comp_def]
    | u :: v :: us, _ =>
      rw [select_roundRobin (by simp)]
      refine congrArg _ ?_
      show (polls m (roundRobin + 1) ticks).map PollOutcome.selected = _
      cases ticks with
      | nil => rfl
      | cons next ticks =>
        rw [List.length_cons] at hwrap
        have hnext : (roundRobin + 1).toNat = roundRobin.toNat + 1 := by
          rw [UInt64.toNat_add, UInt64.toNat_one]
          exact Nat.mod_eq_of_lt (by omega)
        rw [ih hrest (by rw [List.length_cons]; omega), hnext]
        refine List.map_congr_left fun k _ => congrArg _ ?_
        show roundRobin.toNat + 1 + k = roundRobin.toNat + (k + 1)
        omega

/-- **The tracker polls the best tier, and its members in turns.** Every tick selects a healthy
upstream of the best role there is. With round-robin, and while the healthy members of that role
stay the same, as many ticks in a row as there are members select everyone once, whoever has a token
then. -/
theorem tracker_polls (m : ChainManager n) (ticks : List (Tick n)) :
    List.Forall₂ (PollsBest m) ticks (polls m 0 ticks) ∧
      (m.strategy = .roundRobin → ticks.length ≤ 2 ^ 64 → ∀ before stretch ms,
        ticks = before ++ stretch → (∀ tick ∈ stretch, bestTier m tick.clients = some ms) →
          Fair ms (((polls m 0 ticks).drop before.length).map PollOutcome.selected)) := by
  constructor
  · generalize (0 : UInt64) = roundRobin
    induction ticks generalizing roundRobin with
    | nil => exact .nil
    | cons tick ticks ih => exact .cons pollsBest_pollTick (ih _)
  · rintro hstrategy hlength before stretch ms rfl hsame
    have hcounter : (roundRobinAfter m 0 before).toNat ≤ (0 : UInt64).toNat + before.length :=
      roundRobinAfter_le before
    rw [polls_append, List.drop_left' (length_polls before)]
    cases stretch with
    | nil =>
      intro k hk
      obtain rfl : ms = [] := List.length_eq_zero_iff.mp
        (Nat.le_zero.mp ((Nat.le_add_left _ k).trans hk))
      rfl
    | cons tick stretch =>
      obtain ⟨hne, hnodup, -⟩ := bestTier_eq_some (hsame tick List.mem_cons_self)
      have hzero : (0 : UInt64).toNat = 0 := rfl
      rw [selected_polls hstrategy hsame
        (by rw [List.length_append] at hlength; omega)]
      exact (fair_iff_apart hnodup hne _ _).mpr (apart_range _ _)

end Poolbeg
