import Mathlib.Data.List.Nodup

/-!
# Adding to a list what it has not

`supplement xs ys` is `xs` followed by the entries of `ys` that are not in it. Each entry of `ys` is
compared with `xs` alone, and not with those of `ys` before it, so an entry that `ys` repeats is
added as often as it occurs there.

What stands in `xs` stays in its places, in front. So the result has no repetitions exactly if `xs`
has none and what is added has none.

## Main definitions

* `supplement`

## Main results

* `mem_supplement` — nothing is lost
* `nodup_supplement_iff` — when nothing is repeated
-/

namespace Supplement

variable {α : Type*} [DecidableEq α] {xs ys : List α} {a : α}

/-- A list, followed by what it has not. Entries of `ys` are compared with `xs` only, and keep their
order. -/
def supplement (xs ys : List α) : List α := xs ++ ys.filter (· ∉ xs)

theorem mem_supplement : a ∈ supplement xs ys ↔ a ∈ xs ∨ a ∈ ys := by
  rw [supplement, List.mem_append, List.mem_filter, decide_eq_true_eq]
  by_cases ha : a ∈ xs
  · simp only [ha, true_or]
  · simp only [ha, false_or, not_false_eq_true, and_true]

/-- What is added is apart from what was there. -/
theorem nodup_supplement_iff (hxs : xs.Nodup) :
    (supplement xs ys).Nodup ↔ (ys.filter (· ∉ xs)).Nodup := by
  rw [supplement, List.nodup_append']
  refine ⟨fun h => h.2.1, fun h => ⟨hxs, h, fun a ha hadded => ?_⟩⟩
  exact of_decide_eq_true (List.mem_filter.mp hadded).2 ha

end Supplement
