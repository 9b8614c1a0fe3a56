import Mathlib.Data.List.Infix
import Mathlib.Data.Nat.Notation

/-!
# Cutting a list of sized items

Items of different sizes stand one after another, as the characters of a text do in its bytes. A
position, counted in units of size from the start, is a cut when it lies between two items or at an
end. A position within the list that is not a cut lies inside an item, and that is the item that
straddles it.

Both notions are existential: a cut is witnessed by what stands before it, and a position that is
none by the item it lies in. One of the two witnesses always exists (`isCut_iff_not_straddles`),
whatever the sizes are. An item of size zero straddles nothing.

## Main definitions

* `Boundary.total` — the size of a list
* `Boundary.IsCut` — a position between two items
* `Boundary.Straddles` — a position inside one

## Main results

* `Boundary.isCut_iff_not_straddles` — a position within the list is one or the other
* `Boundary.forall_not_straddles_iff` — lists in which every position is a cut
-/

namespace Boundary

variable {α : Type*} {size : α → ℕ} {a : α} {l : List α} {n : ℕ}

/-- The size of a list. -/
def total (size : α → ℕ) : List α → ℕ
  | [] => 0
  | a :: l => size a + total size l

@[simp] theorem total_nil : total size [] = 0 := rfl

/-- The size of a list is that of its first item and of the others. -/
@[simp] theorem total_cons (a : α) (l : List α) : total size (a :: l) = size a + total size l := rfl

@[simp] theorem total_append (l l' : List α) :
    total size (l ++ l') = total size l + total size l' := by
  induction l with
  | nil => rw [List.nil_append, total_nil, Nat.zero_add]
  | cons a l ih => rw [List.cons_append, total_cons, ih, total_cons, Nat.add_assoc]

theorem total_replicate (n : ℕ) (a : α) : total size (List.replicate n a) = n * size a := by
  induction n with
  | zero => rw [List.replicate_zero, total_nil, Nat.zero_mul]
  | succ n ih => rw [List.replicate_succ, total_cons, ih, Nat.succ_mul, Nat.add_comm]

/-- A position between two items, or at either end: the items up to there come to it exactly. -/
def IsCut (size : α → ℕ) (l : List α) (n : ℕ) : Prop := ∃ pre, pre <+: l ∧ total size pre = n

/-- A position inside an item: some items before it fall short of it, and with the item they go
beyond. -/
def Straddles (size : α → ℕ) (l : List α) (n : ℕ) : Prop :=
  ∃ before a after, l = before ++ a :: after ∧ total size before < n ∧
    n < total size before + size a

/-- A position inside an item lies before the end. -/
theorem Straddles.lt_total (h : Straddles size l n) : n < total size l := by
  obtain ⟨before, a, after, rfl, -, hlt⟩ := h
  rw [total_append, total_cons]
  omega

theorem isCut_zero (l : List α) : IsCut size l 0 := ⟨[], List.nil_prefix, rfl⟩

theorem not_straddles_zero (l : List α) : ¬ Straddles size l 0 := by
  rintro ⟨_, _, _, _, hlt, _⟩
  exact Nat.not_lt_zero _ hlt

/-- Behind the first item, a cut is one of the rest. -/
theorem isCut_cons (hn : 0 < n) :
    IsCut size (a :: l) n ↔ size a ≤ n ∧ IsCut size l (n - size a) := by
  constructor
  · rintro ⟨pre, hpre, rfl⟩
    cases pre with
    | nil => exact absurd hn (Nat.lt_irrefl 0)
    | cons b pre =>
      obtain ⟨rfl, htail⟩ := List.cons_prefix_cons.mp hpre
      rw [total_cons, Nat.add_sub_cancel_left]
      exact ⟨Nat.le_add_right _ _, pre, htail, rfl⟩
  · rintro ⟨hle, pre, hpre, htotal⟩
    refine ⟨a :: pre, List.cons_prefix_cons.mpr ⟨rfl, hpre⟩, ?_⟩
    rw [total_cons, htotal, Nat.add_sub_cancel' hle]

/-- A position is inside the first item or behind it. -/
theorem straddles_cons (hn : 0 < n) :
    Straddles size (a :: l) n ↔ n < size a ∨ size a ≤ n ∧ Straddles size l (n - size a) := by
  constructor
  · rintro ⟨before, b, after, hl, hlo, hhi⟩
    cases before with
    | nil =>
      obtain ⟨rfl, -⟩ := List.cons.inj hl
      exact .inl (by simpa using hhi)
    | cons c before =>
      obtain ⟨rfl, rfl⟩ := List.cons.inj hl
      rw [total_cons] at hlo hhi
      exact .inr ⟨by omega, before, b, after, rfl, by omega, by omega⟩
  · rintro (hlt | ⟨hle, before, b, after, rfl, hlo, hhi⟩)
    · exact ⟨[], a, l, rfl, hn, by simpa using hlt⟩
    · refine ⟨a :: before, b, after, rfl, ?_, ?_⟩
      · rw [total_cons]
        omega
      · rw [total_cons]
        omega

/-- **A position within the list is a cut unless an item straddles it.** The induction is on the
list, and moves the position by the size of the first item. -/
theorem isCut_iff_not_straddles (h : n ≤ total size l) :
    IsCut size l n ↔ ¬ Straddles size l n := by
  induction l generalizing n with
  | nil =>
    obtain rfl := Nat.le_zero.mp h
    exact iff_of_true (isCut_zero []) (not_straddles_zero [])
  | cons a l ih =>
    obtain rfl | hn := Nat.eq_zero_or_pos n
    · exact iff_of_true (isCut_zero _) (not_straddles_zero _)
    rw [isCut_cons hn, straddles_cons hn]
    by_cases hle : size a ≤ n
    · rw [total_cons] at h
      simp only [hle, ih (Nat.sub_le_iff_le_add'.mpr h), true_and, Nat.not_lt.mpr hle, false_or]
    · simp only [hle, false_and, Nat.lt_of_not_le hle, true_or, not_true_eq_false]

/-- Every position is fine when every item is as small as can be. An item of two is straddled in its
middle. -/
theorem forall_not_straddles_iff : (∀ n, ¬ Straddles size l n) ↔ ∀ a ∈ l, size a ≤ 1 := by
  constructor
  · intro h a ha
    by_contra hlt
    obtain ⟨before, after, rfl⟩ := List.append_of_mem ha
    exact h (total size before + 1) ⟨before, a, after, rfl, by omega, by omega⟩
  · rintro h n ⟨before, a, after, rfl, hlo, hhi⟩
    have hle := h a (List.mem_append_right _ List.mem_cons_self)
    omega

end Boundary
