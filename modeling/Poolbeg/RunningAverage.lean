import Mathlib.Data.List.Induction
import Mathlib.Data.Nat.Notation

/-!
# Running averages in whole numbers

A running average is fed one number after another. The first is taken as it is, and from then on the
average is the weighted mean of the new number and the average so far, rounded down. Rounding down
does not take it below what all numbers are at least, so the average always lies between the
smallest and the largest.

The bounds are on all numbers that were ever fed. An average that is rounded down each time may end
up lower than the exact one by more than the last rounding, but never below the least number: a mean
of numbers that are at least `lo` is at least `lo`, and so is what is left of it when it is rounded
down to a whole number.

## Main definitions

* `blend` — one mean, rounded down
* `feed`, `average` — the average of a list, from the left

## Main results

* `average_concat` — one number more
* `exists_average` — the average of some numbers lies between their bounds
-/

namespace RunningAverage

variable {a b x y lo hi : ℕ} {xs : List ℕ}

/-- The mean of two numbers with weights `a` and `b`, rounded down. The new number comes first, the
average so far second. -/
def blend (a b x y : ℕ) : ℕ := (x * a + y * b) / (a + b)

theorem le_blend (hab : 0 < a + b) (hx : lo ≤ x) (hy : lo ≤ y) : lo ≤ blend a b x y := by
  rw [blend, Nat.le_div_iff_mul_le hab, Nat.mul_add]
  exact Nat.add_le_add (Nat.mul_le_mul_right a hx) (Nat.mul_le_mul_right b hy)

theorem blend_le (hab : 0 < a + b) (hx : x ≤ hi) (hy : y ≤ hi) : blend a b x y ≤ hi := by
  have hsum : x * a + y * b ≤ hi * (a + b) := by
    rw [Nat.mul_add]
    exact Nat.add_le_add (Nat.mul_le_mul_right a hx) (Nat.mul_le_mul_right b hy)
  calc blend a b x y ≤ hi * (a + b) / (a + b) := Nat.div_le_div_right hsum
    _ = hi := Nat.mul_div_cancel hi hab

/-- The average after one more number. The first number is its own average. -/
def feed (a b : ℕ) (avg : Option ℕ) (x : ℕ) : ℕ := avg.elim x (blend a b x)

/-- The running average; of no numbers there is none. -/
def average (a b : ℕ) (xs : List ℕ) : Option ℕ := xs.foldl (fun avg x => some (feed a b avg x)) none

@[simp] theorem average_nil : average a b [] = none := rfl

/-- The average after one number more depends on the others by their average alone. -/
theorem average_concat (xs : List ℕ) (x : ℕ) :
    average a b (xs ++ [x]) = some (feed a b (average a b xs) x) := by
  rw [average, List.foldl_append]
  rfl

/-- One number more keeps the average within bounds for the numbers. -/
theorem feed_mem_bounds (hab : 0 < a + b) {avg : Option ℕ}
    (havg : ∀ v, avg = some v → lo ≤ v ∧ v ≤ hi) (hx : lo ≤ x ∧ x ≤ hi) :
    lo ≤ feed a b avg x ∧ feed a b avg x ≤ hi := by
  cases avg with
  | none => exact hx
  | some v =>
    obtain ⟨hlo, hhi⟩ := havg v rfl
    exact ⟨le_blend hab hx.1 hlo, blend_le hab hx.2 hhi⟩

/-- An average is within the bounds of the numbers, if there is one. -/
theorem average_mem_bounds (hab : 0 < a + b) (h : ∀ x ∈ xs, lo ≤ x ∧ x ≤ hi) :
    ∀ v, average a b xs = some v → lo ≤ v ∧ v ≤ hi := by
  induction xs using List.reverseRecOn with
  | nil => exact fun v hv => by cases hv
  | append_singleton xs x ih =>
    intro v hv
    rw [average_concat, Option.some.injEq] at hv
    have hxs := ih fun y hy => h y (List.mem_append_left _ hy)
    exact hv ▸ feed_mem_bounds hab hxs (h x List.mem_concat_self)

/-- **The average of some numbers lies between their bounds.** Rounding down does not take it below
a bound that is a natural number itself. -/
theorem exists_average (hab : 0 < a + b) (hne : xs ≠ []) (h : ∀ x ∈ xs, lo ≤ x ∧ x ≤ hi) :
    ∃ v, average a b xs = some v ∧ lo ≤ v ∧ v ≤ hi := by
  obtain ⟨ys, y, rfl⟩ := (List.eq_nil_or_concat xs).resolve_left hne
  rw [List.concat_eq_append] at h ⊢
  exact ⟨_, average_concat ys y, average_mem_bounds hab h _ (average_concat ys y)⟩

example : average 3 7 [10, 15, 0] = some 7 := by decide

end RunningAverage
