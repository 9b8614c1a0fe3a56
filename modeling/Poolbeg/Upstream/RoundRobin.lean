import Poolbeg.Upstream.Failover

/-!
# Round-robin within a tier

The strategy is to let the healthy members of a tier take turns at being preferred. Their counter is
a field of the manager and not of the tier, and every selection from two or more members moves it
on, in whichever tier. So the members of one tier take turns exactly when the selections of the
others leave the counter apart.

## Places

`selections` are all selections that move the counter, in the order in which they are made. A
request that reaches the tier makes one of them; `turnsOf` are their places among all. The member
that is preferred at a place is the one at that number, modulo the members there are. Requests of a
round therefore prefer different members exactly when no two of their places differ by a multiple of
the number of members, and this is a condition on which requests reached which tiers, in which
order.

A request that is answered by the first tier never reaches the second. As long as the second tier is
not needed, or has one member only, the places of the first are one after another, and then every
round is fair. A request that fails over moves the counter twice.

## Main definitions

* `ChainManager.reached`, `selections` — the tiers that are reached, and those that move the counter
* `preferredOf`, `turnsOf` — who is preferred by the requests of a tier, and their places

## Main results

* `roundRobin_step`, `selections_run` — what moves the counter
* `preferredOf_eq` — who is preferred, by the places
* `roundRobin_iff` — everyone has a turn exactly when the places are apart
* `apart_turnsOf_alone` — as they are when no other tier has two members to choose from
-/

namespace Poolbeg

open Lts Rotation

variable {n : ℕ}

/-- The upstream that is tried first. -/
def Tier.preferred (tier : Tier (Fin n)) : Option (Fin n) := tier.order.head?

/-- The tier that a step reaches, for any call. -/
def ChainManager.reached (m : ChainManager n) (s : PoolState n) :
    PoolAction n → List (Tier (Fin n))
  | .move i move => tiersOf ((s.calls i).bind fun call => eventOf m s call move).toList
  | _ => []

/-- Those of the tiers that have two members or more. -/
def selections (tiers : List (Tier (Fin n))) : List (Tier (Fin n)) :=
  tiers.filter fun tier => decide (2 ≤ tier.members.length)

/-- Who is preferred by the requests that reach this tier, in the order in which they do. -/
def preferredOf (role : UpstreamRole) (tiers : List (Tier (Fin n))) : List (Option (Fin n)) :=
  (tiers.filter fun tier => decide (tier.role = role)).map Tier.preferred

/-- How many selections have been made when a request reaches this tier, for each such request. The
selections of all tiers are counted. -/
def turnsOf (role : UpstreamRole) (tiers : List (Tier (Fin n))) : List ℕ :=
  ((selections tiers).zipIdx.filter fun turn => decide (turn.1.role = role)).map Prod.snd

variable {m : ChainManager n} {s t : PoolState n} {a : PoolAction n}

/-- A tier with two members or more is selected from by the counter. -/
theorem preferred_tier (hstrategy : m.strategy = .roundRobin) (s : PoolState n)
    (role : UpstreamRole) (random : ℕ) (h : 2 ≤ (m.tierUpstreams s role).length) :
    (m.tier s role random).preferred =
      pick (m.tierUpstreams s role) s.roundRobin.toNat := by
  have hne : m.tierUpstreams s role ≠ [] := by
    intro hnil
    simp [hnil] at h
  obtain ⟨u, -, hu⟩ := exists_pick hne s.roundRobin.toNat
  have hselect : m.prefer s (m.tierUpstreams s role) random = (some u, s.roundRobin + 1) := by
    rw [ChainManager.prefer, hstrategy, select_roundRobin h, hu]
  simp only [Tier.preferred, ChainManager.tier, hselect, attemptOrder_some, List.head?_cons, hu]

/-- What a move of a call does to the counter. -/
theorem roundRobin_callStep {call call' : ForwardCall (Fin n)} {move : ForwardMove}
    {event : Option (ForwardEvent (Fin n))} (hstrategy : m.strategy = .roundRobin)
    (h : CallStep m s call move event t call') :
    selections (tiersOf event.toList) = [] ∧ t.roundRobin = s.roundRobin ∨
      ∃ tier, selections (tiersOf event.toList) = [tier] ∧ t.roundRobin = s.roundRobin + 1 ∧
        tier.preferred = pick tier.members s.roundRobin.toNat := by
  cases h with
  | @skip role roles random hphase hempty =>
    have hnone : selections [m.tier s role random] = [] := by
      simp [selections, ChainManager.tier, hempty]
    exact .inl ⟨hnone, rfl⟩
  | @reach role roles random hphase hmembers =>
    by_cases hchoice : 2 ≤ (m.tierUpstreams s role).length
    · have hone : selections [m.tier s role random] = [m.tier s role random] := by
        simp [selections, ChainManager.tier, hchoice]
      refine .inr ⟨m.tier s role random, hone, ?_, preferred_tier hstrategy s role random hchoice⟩
      show (m.prefer s (m.tierUpstreams s role) random).2 = s.roundRobin + 1
      rw [ChainManager.prefer, hstrategy, select_roundRobin hchoice]
    · have hnone : selections [m.tier s role random] = [] := by
        simp [selections, ChainManager.tier, hchoice]
      exact .inl ⟨hnone, select_snd_of_length_lt (not_le.mp hchoice)⟩
  | answer hphase => exact .inl ⟨rfl, PoolState.roundRobin_receive _ _ _⟩
  | grant hphase => exact .inl ⟨rfl, rfl⟩
  | limit hphase => exact .inl ⟨rfl, rfl⟩
  | succeed hphase => exact .inl ⟨rfl, rfl⟩
  | panic hphase => exact .inl ⟨rfl, rfl⟩
  | fail hphase => exact .inl ⟨rfl, rfl⟩
  | finish hphase => exact .inl ⟨rfl, rfl⟩
  | drop hphase => exact .inl ⟨rfl, rfl⟩

/-- **What a step does to the counter**: a selection moves it on, and nothing else does. -/
theorem roundRobin_step (hstrategy : m.strategy = .roundRobin) (h : poolStep m s a = some t) :
    selections (m.reached s a) = [] ∧ t.roundRobin = s.roundRobin ∨
      ∃ tier, selections (m.reached s a) = [tier] ∧ t.roundRobin = s.roundRobin + 1 ∧
        tier.preferred = pick tier.members s.roundRobin.toNat := by
  cases a with
  | forward i req =>
    rw [poolStep] at h
    split at h
    · cases h
      exact .inl ⟨rfl, rfl⟩
    · cases h
  | move i move =>
    obtain ⟨call, hcall, h⟩ := Option.bind_eq_some_iff.mp h
    obtain ⟨⟨s', call'⟩, hmove, rfl⟩ := Option.map_eq_some_iff.mp h
    have hreached : m.reached s (.move i move) = tiersOf (eventOf m s call move).toList := by
      rw [ChainManager.reached, hcall, Option.bind_some]
    have hmoved := roundRobin_callStep hstrategy (moveCall_spec hmove)
    rw [hreached]
    exact hmoved
  | client u op =>
    cases h
    exact .inl ⟨rfl, rfl⟩
  | latency u elapsed =>
    cases h
    exact .inl ⟨rfl, rfl⟩

/-- **Each selection finds the counter where the ones before it have left it.** -/
theorem selections_run {as : List (PoolAction n)} (hstrategy : m.strategy = .roundRobin)
    (hrun : run (poolStep m) s as = some t) :
    let made := selections (gather (poolStep m) m.reached s as)
    t.roundRobin = s.roundRobin + UInt64.ofNat made.length ∧
      ∀ k tier, made[k]? = some tier →
        tier.preferred = pick tier.members (s.roundRobin + UInt64.ofNat k).toNat := by
  refine run_history (H := fun as t =>
    let made := selections (gather (poolStep m) m.reached s as)
    t.roundRobin = s.roundRobin + UInt64.ofNat made.length ∧
      ∀ k tier, made[k]? = some tier →
        tier.preferred = pick tier.members (s.roundRobin + UInt64.ofNat k).toNat) ?_ ?_ hrun
  · exact ⟨by simp [gather, selections], by simp [gather, selections]⟩
  · rintro as t a u hrun ⟨hcounter, hpreferred⟩ hu
    have hmade : selections (gather (poolStep m) m.reached s (as ++ [a])) =
        selections (gather (poolStep m) m.reached s as) ++ selections (m.reached t a) := by
      rw [gather_concat hrun, selections, List.filter_append]
      rfl
    simp only [hmade]
    obtain ⟨hnone, hsame⟩ | ⟨tier, hone, hnext, hpick⟩ := roundRobin_step hstrategy hu
    · rw [hnone, List.append_nil, hsame]
      exact ⟨hcounter, hpreferred⟩
    · rw [hone, List.length_append, List.length_singleton]
      refine ⟨?_, fun k tier' hk => ?_⟩
      · rw [hnext, hcounter, UInt64.ofNat_add, UInt64.add_assoc]
        rfl
      · rw [List.getElem?_append] at hk
        split_ifs at hk with hlt
        · exact hpreferred k tier' hk
        · rw [List.getElem?_singleton] at hk
          split_ifs at hk with hzero
          cases hk
          obtain rfl : k = (selections (gather (poolStep m) m.reached s as)).length := by
            omega
          rw [hpick, hcounter]

/-- As long as the counter does not wrap, the preferred members of a tier that keeps its members are
picked by the places of its requests. -/
theorem preferredOf_eq {role : UpstreamRole} {tiers : List (Tier (Fin n))} {ms : List (Fin n)}
    {start : UInt64} (hmembers : ∀ tier ∈ tiers, tier.role = role → tier.members = ms)
    (hchoice : 2 ≤ ms.length) (hwrap : start.toNat + (selections tiers).length ≤ 2 ^ 64)
    (hpreferred : ∀ k tier, (selections tiers)[k]? = some tier →
      tier.preferred = pick tier.members (start + UInt64.ofNat k).toNat) :
    preferredOf role tiers = (turnsOf role tiers).map fun k => pick ms (start.toNat + k) := by
  -- every request that reaches the tier makes a selection
  have hmade : tiers.filter (fun tier => decide (tier.role = role)) =
      (selections tiers).filter fun tier => decide (tier.role = role) := by
    rw [selections, List.filter_filter]
    refine List.filter_congr fun tier htier => ?_
    by_cases hrole : tier.role = role
    · simp [hrole, hmembers tier htier hrole, hchoice]
    · simp [hrole]
  have hplaces : (selections tiers).filter (fun tier => decide (tier.role = role)) =
      ((selections tiers).zipIdx.filter fun turn => decide (turn.1.role = role)).map Prod.fst := by
    conv_lhs => rw [← List.zipIdx_map_fst 0 (selections tiers), List.filter_map]
    rfl
  rw [preferredOf, hmade, hplaces, turnsOf, List.map_map, List.map_map]
  refine List.map_congr_left fun turn hturn => ?_
  obtain ⟨hturn, hrole⟩ := List.mem_filter.mp hturn
  have hplace := List.mem_zipIdx_iff_getElem?.mp hturn
  have hmem : turn.1 ∈ tiers := (List.mem_filter.mp (List.mem_of_getElem? hplace)).1
  have hlt : turn.2 < (selections tiers).length := (List.getElem?_eq_some_iff.mp hplace).1
  show turn.1.preferred = pick ms (start.toNat + turn.2)
  rw [hpreferred _ _ hplace, hmembers _ hmem (of_decide_eq_true hrole), UInt64.toNat_add,
    UInt64.toNat_ofNat', Nat.mod_eq_of_lt (by omega : turn.2 < 2 ^ 64),
    Nat.mod_eq_of_lt (by omega)]

/-- The members of a tier that is found again and again are those it has all along. -/
theorem members_eq_of_reached {role : UpstreamRole} {ms : List (Fin n)}
    {as : List (PoolAction n)}
    (hsame : Always (poolStep m) (fun s => m.tierUpstreams s role = ms) s as)
    {tier : Tier (Fin n)} (htier : tier ∈ gather (poolStep m) m.reached s as)
    (hrole : tier.role = role) : tier.members = ms := by
  obtain ⟨pre, a, post, mid, rfl, hrun, hmem⟩ := once_of_mem_gather htier
  have hms := hsame pre mid (List.prefix_append _ _) hrun
  cases a with
  | move i move =>
    obtain ⟨shown, hshown, htier⟩ := List.mem_filterMap.mp hmem
    obtain ⟨call, -, hevent⟩ := Option.bind_eq_some_iff.mp (Option.mem_toList.mp hshown)
    obtain ⟨random, -, hfound⟩ := tier_of_eventOf hevent htier
    rw [hfound, hrole]
    exact hms
  | _ => cases hmem

/-- With no other tier to choose in, the counter is the tier's own, and consecutive requests have
consecutive places. -/
theorem apart_turnsOf_alone {role : UpstreamRole} {tiers : List (Tier (Fin n))}
    (halone : ∀ tier ∈ selections tiers, tier.role = role) (k : ℕ) :
    Apart k (turnsOf role tiers) := by
  have hall : turnsOf role tiers = List.range (selections tiers).length := by
    rw [turnsOf, List.filter_eq_self.mpr, List.zipIdx_map_snd, List.range_eq_range']
    rintro ⟨tier, place⟩ hmem
    have hplace := List.mem_zipIdx_iff_getElem?.mp hmem
    exact decide_eq_true (halone tier (List.mem_of_getElem? hplace))
  rw [hall]
  exact apart_range k _

/-- **Round-robin.** As long as the members of a tier stay the same and the counter does not wrap,
any round of requests that reach the tier has everyone preferred once exactly when no two of them
have a multiple of the number of members as the number of selections from one to the other; and so
it does when no other tier has two members to choose from. -/
theorem roundRobin_iff (hstrategy : m.strategy = .roundRobin) {role : UpstreamRole}
    {ms : List (Fin n)} (hchoice : 2 ≤ ms.length) {as : List (PoolAction n)}
    (hsame : Always (poolStep m) (fun s => m.tierUpstreams s role = ms) s as)
    (hrun : run (poolStep m) s as = some t)
    (hwrap : s.roundRobin.toNat +
      (selections (gather (poolStep m) m.reached s as)).length ≤ 2 ^ 64) :
    (Fair ms (preferredOf role (gather (poolStep m) m.reached s as)) ↔
      Apart ms.length (turnsOf role (gather (poolStep m) m.reached s as))) ∧
    ((∀ tier ∈ selections (gather (poolStep m) m.reached s as), tier.role = role) →
      Fair ms (preferredOf role (gather (poolStep m) m.reached s as))) := by
  have hnodup : ms.Nodup := by
    rw [← hsame.head]
    exact nodup_tierUpstreams m s role
  have hne : ms ≠ [] := by
    intro hnil
    simp [hnil] at hchoice
  rw [preferredOf_eq (fun _ htier hrole => members_eq_of_reached hsame htier hrole) hchoice hwrap
    (selections_run hstrategy hrun).2]
  have hiff := fair_iff_apart hnodup hne s.roundRobin.toNat
    (turnsOf role (gather (poolStep m) m.reached s as))
  exact ⟨hiff, fun halone => hiff.mpr (apart_turnsOf_alone halone _)⟩

/-! ### Two tiers of two -/

/-- Two primary and two secondary upstreams. -/
def twoAndTwo : ChainManager 4 where
  chainName := "mainnet"
  role u := if u < 2 then .primary else .secondary
  strategy := .roundRobin
  debugUpstream := .off

/-- A request that a primary answers. -/
def servedByPrimary (i : ℕ) : List (PoolAction 4) :=
  [.forward i plainRequest, .move i (.reach 0), .move i (.token true),
    .move i (.answer (.ok 900 (.success (.ofU64 1) (.string "0x1")))), .move i (.record 1 1)]

theorem roundRobin_iff_primariesUp :
    Fair [0, 1] (preferredOf .primary (gather (poolStep twoAndTwo) twoAndTwo.reached
      (.init 4 (86400 * second) 0) (servedByPrimary 0 ++ servedByPrimary 1))) := by
  have hrun : ∃ t, run (poolStep twoAndTwo) (.init 4 (86400 * second) 0)
      (servedByPrimary 0 ++ servedByPrimary 1) = some t := ⟨_, rfl⟩
  obtain ⟨t, hrun⟩ := hrun
  have hsame : Always (poolStep twoAndTwo) (fun s => twoAndTwo.tierUpstreams s .primary = [0, 1])
      (.init 4 (86400 * second) 0) (servedByPrimary 0 ++ servedByPrimary 1) := by decide +kernel
  exact (roundRobin_iff rfl (by decide) hsame hrun (by decide +kernel)).2 (by decide +kernel)

/-- A primary upstream is asked and does not answer. -/
def noAnswer (i : ℕ) : List (PoolAction 4) :=
  [.move i (.token true), .move i (.answer (.unreachable 1 1)), .move i (.record 1 1)]

/-- A request that both primaries leave unanswered and a secondary answers. -/
def servedBySecondary (i : ℕ) : List (PoolAction 4) :=
  [.forward i plainRequest, .move i (.reach 0)] ++ noAnswer i ++ noAnswer i ++
    [.move i (.reach 0), .move i (.token true),
      .move i (.answer (.ok 900 (.success (.ofU64 1) (.string "0x1")))), .move i (.record 1 1)]

/-- **Both requests try the same primary first**, although all upstreams stay healthy. The
secondary's selection in between has moved the counter past the other one. -/
theorem twoRequests_onePreferred :
    ∃ t, run (poolStep twoAndTwo) (.init 4 (86400 * second) 0)
        (servedBySecondary 0 ++ servedBySecondary 1) = some t ∧
      Always (poolStep twoAndTwo) (fun s => twoAndTwo.tierUpstreams s .primary = [0, 1])
        (.init 4 (86400 * second) 0) (servedBySecondary 0 ++ servedBySecondary 1) ∧
      (selections (gather (poolStep twoAndTwo) twoAndTwo.reached (.init 4 (86400 * second) 0)
        (servedBySecondary 0 ++ servedBySecondary 1))).length ≤ 2 ^ 64 ∧
      ¬ Fair [0, 1] (preferredOf .primary (gather (poolStep twoAndTwo) twoAndTwo.reached
        (.init 4 (86400 * second) 0) (servedBySecondary 0 ++ servedBySecondary 1))) := by
  have hrun : ∃ t, run (poolStep twoAndTwo) (.init 4 (86400 * second) 0)
      (servedBySecondary 0 ++ servedBySecondary 1) = some t := ⟨_, rfl⟩
  obtain ⟨t, hrun⟩ := hrun
  have hpreferred : preferredOf .primary (gather (poolStep twoAndTwo) twoAndTwo.reached
      (.init 4 (86400 * second) 0) (servedBySecondary 0 ++ servedBySecondary 1)) =
        [some 0, some 0] := by decide +kernel
  refine ⟨t, hrun, by decide +kernel, by decide +kernel, fun hfair => ?_⟩
  have hround := hfair 0 (by rw [hpreferred]; decide)
  rw [hpreferred] at hround
  exact absurd hround (by decide)

end Poolbeg
