import Mathlib.Data.List.Induction
import Mathlib.Order.BoundedOrder.Basic
import Mathlib.Order.MinMax

/-!
# Running maxima and records

What a list that is read from the left has shown so far: its peak, the last entry that attains it,
and its records, the entries above all entries before them. Entries are compared by a key, and the
peak of nothing is the least key.

All of these look at a list from the right end: `peak_concat`, `latest_concat` and `along_concat`
say what one entry more makes of them. A loop that carries the peak along looks at it from the left;
that is `recordsAbove`, and `recordsAbove_eq_records` says that it finds the records.

## Ties

Two entries may have one key. An entry that only attains the peak is no record, since it is not
above the one before it, but it is the latest to attain the peak from then on. So the last record
and `latest` may be different entries, though they have the same key.

## Main definitions

* `Records.along` — the entries that stand in some relation to those before them
* `Records.peak`, `Records.latest` — the greatest key, and who attained it last
* `Records.records`, `Records.recordsAbove` — the records, by themselves and as a loop finds them

## Main results

* `Records.peak_concat`, `Records.latest_concat` — one entry more
* `Records.recordsAbove_eq_records` — carrying the peak along finds the records
-/

namespace Records

variable {α β : Type*}

/-! ### Entries and those before them -/

/-- The entries that stand in a relation to the list of the entries before them, in their order. -/
def along (p : List α → α → Prop) [∀ earlier, DecidablePred (p earlier)] (xs : List α) : List α :=
  (xs.zipIdx.filter fun e => p (xs.take e.2) e.1).map Prod.fst

section Along

variable {p q : List α → α → Prop} [∀ earlier, DecidablePred (p earlier)]
  [∀ earlier, DecidablePred (q earlier)]

@[simp] theorem along_nil : along p [] = [] := rfl

/-- One entry more is kept or not, and changes nothing about the others. So a property of the list
is shown by induction from its end. -/
theorem along_concat (xs : List α) (x : α) :
    along p (xs ++ [x]) = along p xs ++ if p xs x then [x] else [] := by
  have hearlier : xs.zipIdx.filter (fun e => p ((xs ++ [x]).take e.2) e.1) =
      xs.zipIdx.filter fun e => p (xs.take e.2) e.1 := by
    refine List.filter_congr fun e he => ?_
    have hlt : e.2 < xs.length := (List.mem_zipIdx' he).1
    rw [List.take_append_of_le_length hlt.le]
  rw [along, along, List.zipIdx_append, List.filter_append, hearlier, List.map_append]
  by_cases hx : p xs x <;> simp [hx]

end Along

/-! ### The peak and who attains it -/

variable [LinearOrder β] [OrderBot β] {key : α → β} {xs : List α} {x : α} {b : β}

/-- The greatest key. -/
def peak (key : α → β) (xs : List α) : β := (xs.map key).foldl max ⊥

@[simp] theorem peak_nil : peak key [] = ⊥ := rfl

theorem peak_concat (xs : List α) (x : α) :
    peak key (xs ++ [x]) = max (peak key xs) (key x) := by
  rw [peak, List.map_append, List.foldl_append]
  rfl

/-- The last entry that attains the peak. There is none only if there are no entries. -/
def latest (key : α → β) (xs : List α) : Option α :=
  (xs.filter fun x => key x = peak key xs).getLast?

@[simp] theorem latest_nil : latest key ([] : List α) = none := rfl

/-- An entry attains the peak unless it is below it. Entries that tie with it count. -/
theorem latest_concat (xs : List α) (x : α) :
    latest key (xs ++ [x]) = if peak key xs ≤ key x then some x else latest key xs := by
  rw [latest, peak_concat, List.filter_append]
  split_ifs with hle
  · rw [max_eq_right hle]
    simp
  · have hlt := not_le.mp hle
    rw [max_eq_left hlt.le, latest]
    simp [hlt.ne]

/-! ### Records -/

/-- The entries above all entries before them. The first entry is one. -/
def records (key : α → β) (xs : List α) : List α :=
  along (fun earlier x => ∀ y ∈ earlier, key y < key x) xs

/-- The records above a bound, found by carrying the bound along. This is how a loop finds them that
remembers nothing but the last one. -/
def recordsAbove (key : α → β) : β → List α → List α
  | _, [] => []
  | b, x :: xs => if b < key x then x :: recordsAbove key (key x) xs else recordsAbove key b xs

omit [OrderBot β] in
/-- A loop that has come to the end of a list goes on with one entry more. -/
theorem recordsAbove_concat (b : β) (xs : List α) (x : α) :
    recordsAbove key b (xs ++ [x]) =
      recordsAbove key b xs ++ if b < key x ∧ ∀ y ∈ xs, key y < key x then [x] else [] := by
  induction xs generalizing b with
  | nil => simp [recordsAbove]
  | cons y xs ih =>
    rw [List.cons_append, recordsAbove, recordsAbove]
    split_ifs with hy h h
    · rw [ih, if_pos ⟨h.2 y List.mem_cons_self, fun z hz => h.2 z (List.mem_cons_of_mem _ hz)⟩]
      rfl
    · rw [ih, if_neg fun h' => h ⟨hy.trans h'.1, List.forall_mem_cons.mpr h'⟩]
      rfl
    · rw [ih, if_pos ⟨h.1, fun z hz => h.2 z (List.mem_cons_of_mem _ hz)⟩]
    · have hle := not_lt.mp hy
      rw [ih, if_neg fun h' =>
        h ⟨h'.1, List.forall_mem_cons.mpr ⟨hle.trans_lt h'.1, h'.2⟩⟩]

omit [OrderBot β] in
/-- **Carrying the peak along finds the records**, if all entries are above the first bound. Below
it a record might be passed over. -/
theorem recordsAbove_eq_records (h : ∀ x ∈ xs, b < key x) :
    recordsAbove key b xs = records key xs := by
  induction xs using List.reverseRecOn with
  | nil => rfl
  | append_singleton xs x ih =>
    rw [List.forall_mem_append, List.forall_mem_singleton] at h
    rw [recordsAbove_concat, records, along_concat, ih h.1, records]
    simp only [h.2, true_and]

end Records
