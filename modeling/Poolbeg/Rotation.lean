import Mathlib.Data.List.Nodup
import Mathlib.Data.List.Perm.Subperm
import Mathlib.Data.Nat.ModEq

/-!
# Taking turns by a counter

A rotation picks from a list by a counter, reduced modulo the length of the list. If the counter
goes up by one with every pick, any full round of consecutive picks takes everyone once. If it is
used for other things as well, that depends on how far it goes up from one pick to the next: a round
takes everyone once exactly when no two of its picks find the counter at the same residue.

A round may begin anywhere, not only where the counter is a multiple of the length. So fairness is a
property of every window of as many picks as there are entries, and the picks that do not fill a
window are not asked about.

## Main definitions

* `Rotation.pick` — the entry a counter points at
* `Rotation.Fair` — every round takes everyone once
* `Rotation.Apart` — every round finds the counter at different residues

## Main results

* `Rotation.pick_eq_iff`, `Rotation.perm_picks_iff` — two picks, and a round of them
* `Rotation.fair_iff_apart` — when a rotation is fair
* `Rotation.apart_range` — a counter of its own
-/

namespace Rotation

variable {α : Type*}

/-- The entry a counter points at. There is none only if the list is empty. -/
def pick (xs : List α) (c : ℕ) : Option α := xs[c % xs.length]?

/-- Among any `xs.length` consecutive picks, everyone is picked once, wherever the window begins. -/
def Fair (xs : List α) (picks : List (Option α)) : Prop :=
  ∀ k, k + xs.length ≤ picks.length → ((picks.drop k).take xs.length).Perm (xs.map some)

/-- Among any `n` consecutive values, no two are congruent modulo `n`. A counter that something else
moves as well may fail this. -/
def Apart (n : ℕ) (values : List ℕ) : Prop :=
  ∀ k, k + n ≤ values.length →
    ((values.drop k).take n).Pairwise fun c d => ¬ c ≡ d [MOD n]

theorem exists_pick {xs : List α} (hne : xs ≠ []) (c : ℕ) : ∃ x ∈ xs, pick xs c = some x := by
  have hlt : c % xs.length < xs.length := Nat.mod_lt _ (List.length_pos_of_ne_nil hne)
  exact ⟨_, List.getElem_mem hlt, List.getElem?_eq_getElem hlt⟩

theorem pick_eq_iff {xs : List α} (hnodup : xs.Nodup) (hne : xs ≠ []) {c d : ℕ} :
    pick xs c = pick xs d ↔ c ≡ d [MOD xs.length] := by
  have hc : c % xs.length < xs.length := Nat.mod_lt _ (List.length_pos_of_ne_nil hne)
  have hd : d % xs.length < xs.length := Nat.mod_lt _ (List.length_pos_of_ne_nil hne)
  rw [pick, pick, List.getElem?_eq_getElem hc, List.getElem?_eq_getElem hd, Option.some.injEq,
    hnodup.getElem_inj_iff]
  exact Iff.rfl

/-- As many picks as there are entries take everyone once exactly when they differ, which for picks
by a counter means different residues. -/
theorem perm_picks_iff {xs : List α} (hnodup : xs.Nodup) (hne : xs ≠ []) {values : List ℕ}
    (hlength : values.length = xs.length) :
    (values.map (pick xs)).Perm (xs.map some) ↔
      values.Pairwise fun c d => ¬ c ≡ d [MOD xs.length] := by
  have hdiffer : (values.map (pick xs)).Nodup ↔
      values.Pairwise fun c d => ¬ c ≡ d [MOD xs.length] := by
    rw [List.Nodup, List.pairwise_map]
    simp only [ne_eq, pick_eq_iff hnodup hne]
  rw [← hdiffer]
  constructor
  · exact fun hperm => hperm.nodup_iff.mpr (hnodup.map (Option.some_injective α))
  · intro hpicks
    have hsub : values.map (pick xs) ⊆ xs.map some := by
      intro x hx
      obtain ⟨c, -, rfl⟩ := List.mem_map.mp hx
      obtain ⟨y, hy, hpick⟩ := exists_pick hne c
      exact hpick ▸ List.mem_map_of_mem hy
    refine (hpicks.subperm hsub).perm_of_length_le ?_
    rw [List.length_map, List.length_map, hlength]

/-- **Picks are fair exactly when the counter is apart** wherever it is looked at. The value that it
has at the start does not matter. -/
theorem fair_iff_apart {xs : List α} (hnodup : xs.Nodup) (hne : xs ≠ []) (start : ℕ)
    (values : List ℕ) :
    Fair xs (values.map fun k => pick xs (start + k)) ↔ Apart xs.length values := by
  refine forall_congr' fun k => ?_
  rw [List.length_map]
  refine imp_congr_right fun hk => ?_
  have hwindow : (((values.map fun k => pick xs (start + k)).drop k).take xs.length) =
      (((values.drop k).take xs.length).map (start + ·)).map (pick xs) := by
    rw [List.map_map, List.map_take, List.map_drop]
    rfl
  rw [hwindow, perm_picks_iff hnodup hne (by simp; omega), List.pairwise_map]
  refine List.Pairwise.iff fun c d => ?_
  rw [Nat.ModEq.add_iff_left (Nat.ModEq.refl start)]

/-- A counter that is looked at every time it goes up is apart. -/
theorem apart_range (n length : ℕ) : Apart n (List.range length) := by
  intro k hk
  rw [List.length_range] at hk
  rw [List.range_eq_range', List.drop_range', List.take_range'_of_length_ge (by omega)]
  refine List.Pairwise.imp_of_mem (fun {c d} hc hd hlt hmod => ?_) List.pairwise_lt_range'
  rw [List.mem_range'_1] at hc hd
  have hdvd := (Nat.modEq_iff_dvd' hlt.le).mp hmod
  have hle := Nat.le_of_dvd (by omega) hdvd
  omega

end Rotation
