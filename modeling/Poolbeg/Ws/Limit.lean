import Mathlib.Logic.Function.Basic
import Poolbeg.Lts

/-!
# The limit on WebSocket connections

`handle_ws` compares the number of connections with the limit and hands the upgrade to axum; the
task that axum starts once the upgrade is complete counts itself. Between the two the connection is
nowhere in the count, so upgrades that are asked for while others are under way are all compared
with the same number.

## When the limit holds

It holds as long as every upgrade that is accepted finds room for itself and for all that are under
way (`withinLimit_iff`), and when one does not, nothing but the start of accepted upgrades stands
between the server and a count over the limit. The condition is about the state in which an upgrade
is accepted: how many connections are counted then, and how many upgrades have been accepted and
have neither started nor failed.

One upgrade at a time always finds room, since the comparison is strict. An upgrade that is refused
changes nothing. A connection that ends is uncounted by its own task, which has counted it, so the
counter never goes below zero.

## Main definitions

* `WsServer`, `UpgradeAction`, `upgradeStep` — the server
* `WsServer.WithinLimit`, `WsServer.Reserved` — the limit, and room for all
* `Reserves` — an upgrade is accepted only with room for those under way

## Main results

* `wsConnectionCount_eq` — the count is the number of running connections
* `always_reserved_iff` — when there is room for all in every state
* `withinLimit_iff` — and when the count stays within the limit
-/

namespace Poolbeg

open Lts

variable {ι : Type} [DecidableEq ι]

/-! ### The server -/

/-- The two counts, the chains of the upgrades that were accepted and are not complete, and the
chains of the connections that are running. The program keeps the counts only. -/
structure WsServer (ι : Type) where
  wsConnectionCount : ℕ
  wsConnections : ι → ℕ
  upgrading : List ι
  running : List ι

def WsServer.init : WsServer ι where
  wsConnectionCount := 0
  wsConnections := fun _ => 0
  upgrading := []
  running := []

/-- A request for an upgrade on a chain; the start of the task of one that was accepted, or its
failure; and the end of a connection. -/
inductive UpgradeAction (ι : Type)
  | handleWs (chain : ι)
  | start (chain : ι)
  | fail (chain : ι)
  | close (chain : ι)
  deriving DecidableEq

def UpgradeAction.isStart : UpgradeAction ι → Bool
  | .start _ => true
  | _ => false

variable (maxWsConnections : ℕ)

/-- An upgrade over the limit is answered with `503` and changes nothing. -/
def upgradeStep (s : WsServer ι) : UpgradeAction ι → Option (WsServer ι)
  | .handleWs chain =>
    if maxWsConnections ≤ s.wsConnectionCount then some s
    else some { s with upgrading := chain :: s.upgrading }
  | .start chain =>
    if chain ∈ s.upgrading then
      some {
        wsConnectionCount := s.wsConnectionCount + 1
        wsConnections := Function.update s.wsConnections chain (s.wsConnections chain + 1)
        upgrading := s.upgrading.erase chain
        running := chain :: s.running }
    else none
  | .fail chain =>
    if chain ∈ s.upgrading then some { s with upgrading := s.upgrading.erase chain } else none
  | .close chain =>
    if chain ∈ s.running then
      some {
        wsConnectionCount := s.wsConnectionCount - 1
        wsConnections := Function.update s.wsConnections chain (s.wsConnections chain - 1)
        upgrading := s.upgrading
        running := s.running.erase chain }
    else none

/-- **The count is within the limit.** -/
def WsServer.WithinLimit (s : WsServer ι) : Prop := s.wsConnectionCount ≤ maxWsConnections

/-- There is room for all that are running or under way. -/
def WsServer.Reserved (s : WsServer ι) : Prop :=
  s.wsConnectionCount + s.upgrading.length ≤ maxWsConnections

/-- If the step accepts an upgrade, there is room for it beside those under way. The comparison of
the source looks at those that are counted. -/
def Reserves (s : WsServer ι) : UpgradeAction ι → Prop
  | .handleWs _ => s.wsConnectionCount < maxWsConnections →
      s.wsConnectionCount + s.upgrading.length < maxWsConnections
  | _ => True

instance (s : WsServer ι) (a : UpgradeAction ι) : Decidable (Reserves maxWsConnections s a) := by
  cases a <;> unfold Reserves <;> infer_instance

variable {maxWsConnections} {s t : WsServer ι} {a : UpgradeAction ι}

/-! ### The count -/

/-- The count of all chains is the number of running connections, and so it is for each chain. -/
def WsServer.Counted (s : WsServer ι) : Prop :=
  s.wsConnectionCount = s.running.length ∧ ∀ chain, s.wsConnections chain = s.running.count chain

theorem upgradesCounted_step (hs : s.Counted) (h : upgradeStep maxWsConnections s a = some t) :
    t.Counted := by
  obtain ⟨hcount, hchains⟩ := hs
  cases a with
  | handleWs chain =>
    rw [upgradeStep] at h
    split_ifs at h <;> cases h <;> exact ⟨hcount, hchains⟩
  | start chain =>
    rw [upgradeStep, Option.ite_none_right_eq_some] at h
    obtain ⟨-, h⟩ := h
    cases h
    refine ⟨congrArg Nat.succ hcount, fun other => ?_⟩
    rcases eq_or_ne other chain with rfl | hne
    · simp [hchains]
    · refine (Function.update_of_ne hne _ _).trans ((hchains other).trans ?_)
      exact (List.count_cons_of_ne hne.symm).symm
  | fail chain =>
    rw [upgradeStep, Option.ite_none_right_eq_some] at h
    obtain ⟨-, h⟩ := h
    cases h
    exact ⟨hcount, hchains⟩
  | close chain =>
    rw [upgradeStep, Option.ite_none_right_eq_some] at h
    obtain ⟨hmem, h⟩ := h
    cases h
    refine ⟨?_, fun other => ?_⟩
    · exact (congrArg (· - 1) hcount).trans (List.length_erase_of_mem hmem).symm
    · rcases eq_or_ne other chain with rfl | hne
      · simp [hchains]
      · refine (Function.update_of_ne hne _ _).trans ((hchains other).trans ?_)
        exact (List.count_erase_of_ne hne).symm

/-- **The counts are the numbers of running connections**, so no subtraction takes from a count
that is zero. -/
theorem wsConnectionCount_eq {as : List (UpgradeAction ι)}
    (h : run (upgradeStep maxWsConnections) .init as = some s) : s.Counted :=
  run_inv (fun _ _ _ hs h => upgradesCounted_step hs h) ⟨rfl, fun _ => rfl⟩ h

/-! ### Room for all that are under way -/

theorem reserved_step (hs : s.Reserved maxWsConnections)
    (h : upgradeStep maxWsConnections s a = some t) :
    t.Reserved maxWsConnections ↔ Reserves maxWsConnections s a := by
  rw [WsServer.Reserved] at hs ⊢
  cases a with
  | handleWs chain =>
    rw [upgradeStep] at h
    rw [Reserves]
    split_ifs at h with hfull
    · cases h
      exact iff_of_true hs fun hroom => absurd hroom (not_lt.mpr hfull)
    · cases h
      rw [imp_iff_right (not_le.mp hfull)]
      exact Iff.rfl
  | start chain =>
    rw [upgradeStep, Option.ite_none_right_eq_some] at h
    obtain ⟨hmem, h⟩ := h
    cases h
    refine iff_of_true ?_ trivial
    have hlength := List.length_erase_add_one hmem
    dsimp only
    omega
  | fail chain =>
    rw [upgradeStep, Option.ite_none_right_eq_some] at h
    obtain ⟨hmem, h⟩ := h
    cases h
    refine iff_of_true ?_ trivial
    have hlength := List.length_erase_add_one hmem
    dsimp only
    omega
  | close chain =>
    rw [upgradeStep, Option.ite_none_right_eq_some] at h
    obtain ⟨-, h⟩ := h
    cases h
    refine iff_of_true ?_ trivial
    exact (Nat.add_le_add_right (Nat.sub_le _ 1) _).trans hs

variable (maxWsConnections) in
/-- The upgrades under way can all start, one after the other, whatever the count is by then. -/
theorem run_starts (s : WsServer ι) :
    ∃ t, run (upgradeStep maxWsConnections) s (s.upgrading.map .start) = some t ∧
      t.wsConnectionCount = s.wsConnectionCount + s.upgrading.length := by
  generalize hupgrading : s.upgrading = chains
  induction chains generalizing s with
  | nil => exact ⟨s, rfl, rfl⟩
  | cons chain chains ih =>
    obtain ⟨u, hstep, hrest, hone⟩ : ∃ u, upgradeStep maxWsConnections s (.start chain) = some u ∧
        u.upgrading = chains ∧ u.wsConnectionCount = s.wsConnectionCount + 1 := by
      have hmem : chain ∈ s.upgrading := hupgrading ▸ List.mem_cons_self
      refine ⟨_, if_pos hmem, ?_, rfl⟩
      exact (congrArg (List.erase · chain) hupgrading).trans (List.erase_cons_head chain chains)
    obtain ⟨t, ht, hcount⟩ := ih u hrest
    refine ⟨t, ?_, ?_⟩
    · rw [List.map_cons, run_cons_of_step hstep]
      exact ht
    · rw [hcount, hone, List.length_cons]
      omega

/-- There is room for all that are running or under way, in every state of a run, exactly when every
upgrade that is accepted leaves it so. -/
theorem always_reserved_iff (as : List (UpgradeAction ι)) :
    Always (upgradeStep maxWsConnections) (WsServer.Reserved maxWsConnections) .init as ↔
      Along (upgradeStep maxWsConnections) (Reserves maxWsConnections) .init as :=
  always_iff_along (I := fun _ => True) (fun _ _ _ _ _ => trivial)
    (fun _ _ _ _ hs h => reserved_step hs h) trivial (Nat.zero_le maxWsConnections)

/-- **The count stays within the limit in every run in which each upgrade that is accepted finds
room beside those under way.** In any other run it takes no more than that the upgrades accepted so
far start, at some point, for the count to exceed the limit. -/
theorem withinLimit_iff (maxWsConnections : ℕ) (as : List (UpgradeAction ι)) :
    (Along (upgradeStep maxWsConnections) (Reserves maxWsConnections) .init as →
      Always (upgradeStep maxWsConnections) (WsServer.WithinLimit maxWsConnections) .init as) ∧
    (¬ Along (upgradeStep maxWsConnections) (Reserves maxWsConnections) .init as →
      ∃ pre starts t, pre <+: as ∧ (∀ a ∈ starts, a.isStart = true) ∧
        run (upgradeStep maxWsConnections) .init (pre ++ starts) = some t ∧
        ¬ t.WithinLimit maxWsConnections) := by
  rw [← always_reserved_iff]
  constructor
  · exact fun h => h.mono fun _ hs => (Nat.le_add_right _ _).trans hs
  · intro h
    simp only [Always, not_forall] at h
    obtain ⟨pre, s, hpre, hrun, hover⟩ := h
    obtain ⟨t, ht, hcount⟩ := run_starts maxWsConnections s
    refine ⟨pre, s.upgrading.map .start, t, hpre, fun a ha => ?_, ?_, ?_⟩
    · obtain ⟨chain, -, rfl⟩ := List.mem_map.mp ha
      rfl
    · rw [run_append, hrun]
      exact ht
    · rw [WsServer.WithinLimit, hcount]
      exact hover

/-! ### Two upgrades at once -/

/-- Both are compared with a count of zero before either task has counted itself. -/
def twoUpgrades : List (UpgradeAction Unit) :=
  [.handleWs (), .handleWs (), .start (), .start ()]

/-- One connection is allowed, and two are counted. -/
theorem twoUpgrades_exceed :
    ∃ s, run (upgradeStep 1) .init twoUpgrades = some s ∧ s.wsConnectionCount = 2 ∧
      ¬ s.WithinLimit 1 :=
  ⟨_, rfl, rfl, by rw [WsServer.WithinLimit]; decide⟩

/-- Along the condition: the second is asked for once the first is counted, and refused. -/
theorem withinLimit_oneByOne :
    Always (upgradeStep 1) (WsServer.WithinLimit 1) .init
      ([.handleWs (), .start (), .handleWs ()] : List (UpgradeAction Unit)) :=
  (withinLimit_iff 1 _).1 (by decide)

end Poolbeg
