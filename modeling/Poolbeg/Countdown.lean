import Mathlib.Algebra.BigOperators.Finprod
import Poolbeg.Lts

/-!
# Runs that come to an end

Some labels of a transition system are its own business: it takes them without being asked. If each
of them lowers a measure, then a run of such labels is no longer than the measure of the state it
starts from, and some run of them ends in a state where none is left to take.

The measure is usually a sum over processes, of which there are finitely many at any time, and a
step changes one of the summands. `total` is that sum.

## No fairness

Nothing is assumed about the order in which the labels are taken. The bound holds for every order,
so there is no run of them that goes on for ever, and a state that is quiet is reached by any of
them that is taken as far as it goes. What is then to be shown about a quiet state, that nobody is
left waiting in it, is another matter and a different one for every system.

The rules hold under an invariant, since a measure usually goes down only in reachable states.

## Main definitions

* `Lts.Quiet` — no label of a kind can be taken
* `Lts.total` — a sum over processes

## Main results

* `Lts.length_le_of_decreasing` — every run is short
* `Lts.exists_run_quiet` — and some run goes to the end
* `Lts.total_update` — what a step of one process does to the sum
-/

namespace Lts

variable {σ α : Type*} {step : σ → α → Option σ} {A : α → Prop} {I : σ → Prop} {μ : σ → ℕ}

/-- No label of this kind can be taken. Labels of other kinds may still be. -/
def Quiet (step : σ → α → Option σ) (A : α → Prop) (s : σ) : Prop := ∀ a, A a → step s a = none

/-- **A run is no longer than the measure it starts from**, if every step lowers the measure.
Nothing is assumed about the order of the steps. -/
theorem length_le_of_decreasing (hI : ∀ s a t, I s → A a → step s a = some t → I t)
    (hμ : ∀ s a t, I s → A a → step s a = some t → μ t < μ s) :
    ∀ {as : List α} {s t : σ}, I s → (∀ a ∈ as, A a) → run step s as = some t →
      as.length + μ t ≤ μ s
  | [], s, t, _, _, hrun => by
    obtain rfl := Option.some.inj hrun
    exact (Nat.zero_add _).le
  | a :: as, s, t, hs, has, hrun => by
    obtain ⟨u, hu, hrest⟩ := run_cons_eq_some.mp hrun
    obtain ⟨ha, has⟩ := List.forall_mem_cons.mp has
    have hlower := hμ s a u hs ha hu
    have hlength := length_le_of_decreasing hI hμ (hI s a u hs ha hu) has hrest
    rw [List.length_cons]
    omega

/-- **Some run goes on until nothing is left to take**, if every step lowers a measure. Any step
that can be taken is one to begin with. -/
theorem exists_run_quiet (hI : ∀ s a t, I s → A a → step s a = some t → I t)
    (hμ : ∀ s a t, I s → A a → step s a = some t → μ t < μ s) (s : σ) (hs : I s) :
    ∃ as t, (∀ a ∈ as, A a) ∧ run step s as = some t ∧ Quiet step A t := by
  by_cases hquiet : Quiet step A s
  · exact ⟨[], s, fun _ ha => absurd ha List.not_mem_nil, rfl, hquiet⟩
  · simp only [Quiet, not_forall] at hquiet
    obtain ⟨a, ha, hnext⟩ := hquiet
    obtain ⟨u, hu⟩ := Option.ne_none_iff_exists'.mp hnext
    have hlower := hμ s a u hs ha hu
    obtain ⟨as, t, has, hrun, ht⟩ := exists_run_quiet hI hμ u (hI s a u hs ha hu)
    exact ⟨a :: as, t, List.forall_mem_cons.mpr ⟨ha, has⟩,
      (run_cons_of_step hu as).trans hrun, ht⟩
termination_by μ s

/-! ### Sums over processes -/

section Total

variable {ι : Type*} {f : ι → ℕ}

/-- The sum of the values of a function that is zero almost everywhere. Each process has its own
summand. -/
noncomputable def total (f : ι → ℕ) : ℕ := ∑ᶠ i, f i

/-- A sum changes by what one summand changes. -/
theorem total_update [DecidableEq ι] (hf : f.support.Finite) (i : ι) (n : ℕ) :
    total (Function.update f i n) + f i = total f + n := by
  have hi : i ∈ insert i hf.toFinset := Finset.mem_insert_self i _
  have hold : f.support ⊆ (insert i hf.toFinset : Finset ι) := by
    intro j hj
    exact Finset.mem_insert_of_mem (hf.mem_toFinset.mpr hj)
  have hnew : (Function.update f i n).support ⊆ (insert i hf.toFinset : Finset ι) := by
    intro j hj
    by_cases hji : j = i
    · subst hji
      exact hi
    · refine hold ?_
      rwa [Function.mem_support, Function.update_of_ne hji] at hj
  rw [total, total, finsum_eq_sum_of_support_subset _ hold, finsum_eq_sum_of_support_subset _ hnew,
    Finset.sum_update_of_mem hi, ← Finset.add_sum_erase _ f hi, Finset.sdiff_singleton_eq_erase]
  omega

end Total

end Lts
