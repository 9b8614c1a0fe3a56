import Mathlib.Data.List.DropRight

/-!
# Trimming

`trim p` drops from both ends of a list what satisfies `p`. It is what remains when such ends are
put around it, and it puts none of its own into a list that neither begins nor ends with them.

The two ends are dropped one after the other, the front first. The order does not matter, but it is
what the proofs follow: a list of nothing but ends is empty after the first step already.

## Main definitions

* `trim`

## Main results

* `exists_eq_append_trim` — what was dropped
* `trim_append_append` — whatever is put around a list is dropped again
* `trim_eq_self` — a list without such ends stays as it is
-/

namespace Poolbeg

variable {α : Type} {p : α → Bool} {l before after : List α}

/-- A list without what satisfies `p` at its ends. What satisfies it further in stays. -/
def trim (p : α → Bool) (l : List α) : List α := (l.dropWhile p).rdropWhile p

/-- A list is its trimmed middle between two ends of what is dropped. This is all there is to know
of `trim` where its argument is known. -/
theorem exists_eq_append_trim (p : α → Bool) (l : List α) :
    ∃ before after, l = before ++ trim p l ++ after ∧ (∀ a ∈ before, p a) ∧ ∀ a ∈ after, p a := by
  refine ⟨l.takeWhile p, (l.dropWhile p).rtakeWhile p, ?_, fun _ => List.mem_takeWhile_imp,
    fun _ => List.mem_rtakeWhile_imp⟩
  rw [List.append_assoc, trim, List.rdropWhile_append_rtakeWhile, List.takeWhile_append_dropWhile]

theorem rdropWhile_append_of_pos (hafter : ∀ a ∈ after, p a) :
    (l ++ after).rdropWhile p = l.rdropWhile p := by
  rw [List.rdropWhile, List.reverse_append, List.dropWhile_append_of_pos, List.rdropWhile]
  exact fun a ha => hafter a (List.mem_reverse.mp ha)

/-- What was put around a list is dropped with its ends, whether or not the list has such ends
itself. -/
theorem trim_append_append (hbefore : ∀ a ∈ before, p a) (hafter : ∀ a ∈ after, p a) :
    trim p (before ++ l ++ after) = trim p l := by
  rw [trim, List.append_assoc, List.dropWhile_append_of_pos hbefore, List.dropWhile_append]
  split
  · rename_i hempty
    rw [List.isEmpty_iff] at hempty
    rw [List.dropWhile_eq_nil_iff.mpr hafter, trim, hempty]
  · rw [rdropWhile_append_of_pos hafter, trim]

/-- Nothing is dropped from a list that neither begins nor ends with what is dropped. -/
theorem trim_eq_self (hhead : ∀ a, l.head? = some a → ¬ p a)
    (hlast : ∀ a, l.getLast? = some a → ¬ p a) : trim p l = l := by
  rw [trim, List.dropWhile_eq_self_iff.mpr, List.rdropWhile_eq_self_iff.mpr]
  · exact fun hne => hlast _ (List.getLast?_eq_some_getLast hne)
  · intro hpos
    rw [← List.head_eq_getElem (List.ne_nil_of_length_pos hpos)]
    exact hhead _ (List.head?_eq_some_head _)

theorem exists_trim_cons {a : α} (h : ¬ p a) : ∃ l', trim p (a :: l) = a :: l' := by
  rw [trim, List.dropWhile_cons_of_neg h]
  have hprefix := List.rdropWhile_prefix p (a :: l)
  cases htrim : (a :: l).rdropWhile p with
  | nil => exact absurd (List.rdropWhile_eq_nil_iff.mp htrim a List.mem_cons_self) h
  | cons a' l' =>
    rw [htrim] at hprefix
    exact ⟨l', by rw [(List.cons_prefix_cons.mp hprefix).1]⟩

end Poolbeg
