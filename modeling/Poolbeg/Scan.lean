import Mathlib.Data.List.Infix

/-!
# Texts with placeholders

A text in which placeholders stand is scanned from the left: where one begins it is taken, and
otherwise one symbol is literal. What `scan` finds is the only way to read the text so that no
literal symbol is the first of a placeholder, and replacing what was found never looks at what was
put in its place.

`splitOnce` cuts a list at the first occurrence of a separator.

## Two descriptions

A `Grammar` says what placeholders look like and nothing about how they are found. A reading of a
text is a list of pieces, and it is `Leftmost` when every placeholder has been taken at the first
place where one could have been. A `Placeholders` adds a function that takes a placeholder off the
head of a text if one stands there, and this is what makes scanning a program.

The law of this function, `take_eq_some`, says that at most one placeholder begins at any place. It
is what makes the reading unique. A grammar in which one placeholder begins like another has no such
function.

## Main definitions

* `Scan.Grammar`, `Scan.Piece`, `Scan.Grammar.Leftmost` — readings
* `Scan.Placeholders`, `Scan.Placeholders.scan`, `Scan.Placeholders.replaceAll` — finding one
* `Scan.splitOnce` — cutting at a separator

## Main results

* `Scan.Placeholders.scan_eq_iff` — scanning and writing out are inverse to each other
* `Scan.Grammar.Leftmost.map` — readings by grammars that have the same texts
* `Scan.splitOnce_eq_some_iff`, `Scan.splitOnce_eq_none_iff` — where a list is cut
-/

namespace Scan

variable {α β γ : Type*}

/-! ### Placeholders -/

/-- How placeholders are written: which ones there are, and the text of each, which is not empty.
Two of them may have one text. -/
structure Grammar (α β : Type*) where
  Valid : β → Prop
  text : β → List α
  text_ne_nil : ∀ b, text b ≠ []

/-- A part of a reading: a symbol that stands for itself, or a placeholder. -/
inductive Piece (α β : Type*)
  | literal (a : α)
  | placeholder (b : β)

/-- What comes in the place of a piece. -/
def Piece.replace (f : β → List α) : Piece α β → List α
  | literal a => [a]
  | placeholder b => f b

/-- The same piece of another grammar. -/
def Piece.map (f : β → γ) : Piece α β → Piece α γ
  | literal a => literal a
  | placeholder b => placeholder (f b)

theorem Piece.map_map {δ : Type*} (f : β → γ) (f' : γ → δ) (piece : Piece α β) :
    (piece.map f).map f' = piece.map (f' ∘ f) := by
  cases piece <;> rfl

/-- Changing the grammar first makes no difference to what is put in. -/
theorem Piece.replace_map (f : γ → List α) (f' : β → γ) (piece : Piece α β) :
    (piece.map f').replace f = piece.replace (f ∘ f') := by
  cases piece <;> rfl

/-- What the pieces are the reading of. -/
def Grammar.textOf (g : Grammar α β) (ps : List (Piece α β)) : List α :=
  ps.flatMap (Piece.replace g.text)

/-- No literal symbol is the first of a placeholder, in what remains of the text from there on. So
placeholders are taken as early as they come. -/
def Grammar.Leftmost (g : Grammar α β) : List (Piece α β) → Prop
  | [] => True
  | .literal a :: ps => (∀ b rest, g.Valid b → a :: g.textOf ps ≠ g.text b ++ rest) ∧ g.Leftmost ps
  | .placeholder b :: ps => g.Valid b ∧ g.Leftmost ps

namespace Grammar

variable {g : Grammar α β} {h : Grammar α γ}

theorem textOf_literal (g : Grammar α β) (a : α) (ps : List (Piece α β)) :
    g.textOf (.literal a :: ps) = a :: g.textOf ps := rfl

theorem textOf_placeholder (g : Grammar α β) (b : β) (ps : List (Piece α β)) :
    g.textOf (.placeholder b :: ps) = g.text b ++ g.textOf ps := rfl

/-- A change that leaves every placeholder as it is leaves a reading as it is. -/
theorem Leftmost.map_eq_self {f : β → β} (hf : ∀ b, g.Valid b → f b = b) :
    ∀ {ps : List (Piece α β)}, g.Leftmost ps → ps.map (Piece.map f) = ps
  | [], _ => rfl
  | .literal a :: _, ⟨_, hps⟩ => congrArg (Piece.literal a :: ·) (map_eq_self hf hps)
  | .placeholder b :: _, ⟨hb, hps⟩ => by
    rw [List.map_cons, map_eq_self hf hps, Piece.map, hf b hb]

/-- Two grammars with the same texts have the same readings: a reading of one is a reading of the
other, placeholder by placeholder. -/
theorem Leftmost.map {f : β → γ} (hf : ∀ b, g.Valid b → h.Valid (f b) ∧ h.text (f b) = g.text b)
    (hback : ∀ c, h.Valid c → ∃ b, g.Valid b ∧ g.text b = h.text c) :
    ∀ {ps : List (Piece α β)}, g.Leftmost ps →
      h.Leftmost (ps.map (Piece.map f)) ∧ h.textOf (ps.map (Piece.map f)) = g.textOf ps
  | [], _ => ⟨trivial, rfl⟩
  | .literal a :: ps, ⟨hnone, hps⟩ => by
    obtain ⟨hleft, htext⟩ := Leftmost.map hf hback hps
    rw [List.map_cons, Piece.map, textOf_literal, textOf_literal, htext]
    refine ⟨⟨fun c rest hc heq => ?_, hleft⟩, rfl⟩
    obtain ⟨b, hb, hbc⟩ := hback c hc
    exact hnone b rest hb (by rw [hbc, ← heq, htext])
  | .placeholder b :: ps, ⟨hb, hps⟩ => by
    obtain ⟨hleft, htext⟩ := Leftmost.map hf hback hps
    rw [List.map_cons, Piece.map, textOf_placeholder, textOf_placeholder, htext, (hf b hb).2]
    exact ⟨⟨(hf b hb).1, hleft⟩, rfl⟩

end Grammar

/-- How one is taken off the head of a text. There is at most one that begins there, and `take`
finds it if there is. -/
structure Placeholders (α β : Type*) extends Grammar α β where
  take : List α → Option (β × List α)
  take_eq_some : ∀ {s b rest}, take s = some (b, rest) ↔ Valid b ∧ s = text b ++ rest

namespace Placeholders

variable {p : Placeholders α β} {s rest : List α} {b : β} {ps : List (Piece α β)}

theorem length_lt (h : p.take s = some (b, rest)) : rest.length < s.length := by
  rw [(p.take_eq_some.mp h).2, List.length_append]
  exact Nat.lt_add_of_pos_left (List.length_pos_iff.mpr (p.text_ne_nil b))

/-- Scanning from the left: a placeholder is taken where one begins, and everything else is literal.
-/
def scan (p : Placeholders α β) : List α → List (Piece α β)
  | [] => []
  | a :: s =>
    match h : p.take (a :: s) with
    | some (b, rest) =>
      have := length_lt h
      .placeholder b :: p.scan rest
    | none => .literal a :: p.scan s
termination_by s => s.length
decreasing_by
  · exact this
  · exact Nat.lt_succ_self s.length

/-- The text with every placeholder replaced. What is put in is not scanned again. -/
def replaceAll (p : Placeholders α β) (f : β → List α) (s : List α) : List α :=
  (p.scan s).flatMap (Piece.replace f)

theorem take_nil : p.take [] = none := by
  rw [Option.eq_none_iff_forall_ne_some]
  rintro ⟨b, rest⟩ h
  exact absurd (length_lt h) (Nat.not_lt_zero _)

theorem scan_of_take (h : p.take s = some (b, rest)) :
    p.scan s = .placeholder b :: p.scan rest := by
  cases s with
  | nil => cases take_nil.symm.trans h
  | cons a s =>
    rw [scan]
    split
    · rename_i h'
      cases h.symm.trans h'
      rfl
    · rename_i h'
      cases h.symm.trans h'

theorem scan_cons (a : α) (h : p.take (a :: s) = none) :
    p.scan (a :: s) = .literal a :: p.scan s := by
  rw [scan]
  split
  · rename_i h'
    cases h.symm.trans h'
  · rfl

/-- Nothing is taken exactly where no placeholder begins. -/
theorem take_eq_none : p.take s = none ↔ ∀ b rest, p.Valid b → s ≠ p.text b ++ rest := by
  rw [Option.eq_none_iff_forall_ne_some]
  exact ⟨fun h b rest hb hs => h (b, rest) (p.take_eq_some.mpr ⟨hb, hs⟩),
    fun h x hx => h x.1 x.2 (p.take_eq_some.mp hx).1 (p.take_eq_some.mp hx).2⟩

/-- Nothing is lost by scanning: put together again, the pieces are the text. -/
theorem textOf_scan (s : List α) : p.textOf (p.scan s) = s := by
  fun_induction scan p s with
  | case1 => rfl
  | case2 a s b rest h hlt ih =>
    rw [(p.take_eq_some.mp h).2, Grammar.textOf_placeholder, ih]
  | case3 a s h ih => rw [Grammar.textOf_literal, ih]

theorem leftmost_scan (s : List α) : p.Leftmost (p.scan s) := by
  fun_induction scan p s with
  | case1 => trivial
  | case2 a s b rest h hlt ih => exact ⟨(p.take_eq_some.mp h).1, ih⟩
  | case3 a s h ih => exact ⟨(textOf_scan (p := p) s).symm ▸ take_eq_none.mp h, ih⟩

/-- A reading that takes every placeholder where it begins is the one that is found. -/
theorem scan_textOf : ∀ {ps : List (Piece α β)}, p.Leftmost ps → p.scan (p.textOf ps) = ps
  | [], _ => by rw [Grammar.textOf, List.flatMap_nil, scan]
  | .literal a :: ps, ⟨hnone, hps⟩ => by
    have htake : p.take (a :: p.textOf ps) = none := take_eq_none.mpr hnone
    rw [Grammar.textOf_literal, scan_cons a htake, scan_textOf hps]
  | .placeholder b :: ps, ⟨hb, hps⟩ => by
    have htake : p.take (p.text b ++ p.textOf ps) = some (b, p.textOf ps) :=
      p.take_eq_some.mpr ⟨hb, rfl⟩
    rw [Grammar.textOf_placeholder, scan_of_take htake, scan_textOf hps]

/-- **Scanning finds the one reading without a placeholder among the literal symbols.** -/
theorem scan_eq_iff : p.scan s = ps ↔ p.Leftmost ps ∧ p.textOf ps = s := by
  constructor
  · rintro rfl
    exact ⟨leftmost_scan s, textOf_scan s⟩
  · rintro ⟨hps, rfl⟩
    exact scan_textOf hps

end Placeholders

/-! ### Cutting at a separator -/

section Split

variable [DecidableEq α] {sep s before after : List α}

/-- What stands before and after the first occurrence. -/
def splitOnce (sep : List α) : List α → Option (List α × List α)
  | [] => if sep = [] then some ([], []) else none
  | a :: s =>
    if sep <+: a :: s then some ([], (a :: s).drop sep.length)
    else (splitOnce sep s).map fun x => (a :: x.1, x.2)

theorem splitOnce_of_starts (h : sep <+: s) : splitOnce sep s = some ([], s.drop sep.length) := by
  cases s with
  | nil => rw [splitOnce, if_pos (List.prefix_nil.mp h), List.drop_nil]
  | cons a s => rw [splitOnce, if_pos h]

/-- Without one at the head, the first symbol is before the cut. -/
theorem splitOnce_cons (a : α) (h : ¬ sep <+: a :: s) :
    splitOnce sep (a :: s) = (splitOnce sep s).map fun x => (a :: x.1, x.2) := by
  rw [splitOnce, if_neg h]

/-- A list is not cut exactly if the separator does not occur in it. -/
theorem splitOnce_eq_none_iff : splitOnce sep s = none ↔ ¬ sep <:+: s := by
  induction s with
  | nil => rw [splitOnce, List.infix_nil]; split_ifs with h <;> simp [h]
  | cons a s ih =>
    rw [List.infix_cons_iff]
    by_cases h : sep <+: a :: s
    · simp [splitOnce_of_starts h, h]
    · rw [splitOnce_cons a h, Option.map_eq_none_iff, ih, or_iff_right h]

/-- The parts stand around an occurrence, and none ends before it does. So the cut is at the first
one. -/
theorem splitOnce_eq_some_iff (hsep : sep ≠ []) : splitOnce sep s = some (before, after) ↔
    s = before ++ sep ++ after ∧ ¬ sep <:+: (before ++ sep).dropLast := by
  induction s generalizing before with
  | nil =>
    rw [splitOnce, if_neg hsep]
    simp [hsep]
  | cons a s ih =>
    by_cases h : sep <+: a :: s
    · rw [splitOnce_of_starts h, Option.some.injEq, Prod.mk.injEq]
      constructor
      · rintro ⟨rfl, rfl⟩
        refine ⟨(List.prefix_append_drop h), fun hinfix => ?_⟩
        have hlength := hinfix.length_le
        have hpos := List.length_pos_iff.mpr hsep
        rw [List.nil_append, List.length_dropLast] at hlength
        omega
      · rintro ⟨hs, hnone⟩
        cases before with
        | nil => exact ⟨rfl, by rw [hs, List.nil_append, List.drop_left]⟩
        | cons c before =>
          refine absurd (List.IsPrefix.isInfix ?_) hnone
          have hstarts : (c :: before ++ sep).dropLast <+: a :: s := by
            rw [hs]
            exact (List.dropLast_prefix _).trans (List.prefix_append _ _)
          exact List.prefix_of_prefix_length_le h hstarts (by simp)
    · rw [splitOnce_cons a h, Option.map_eq_some_iff]
      have hdropLast (before : List α) :
          (a :: before ++ sep).dropLast = a :: (before ++ sep).dropLast := by
        rw [List.cons_append, List.dropLast_cons_of_ne_nil]
        exact List.append_ne_nil_of_right_ne_nil before hsep
      constructor
      · rintro ⟨⟨before, after⟩, hsplit, ⟨⟩⟩
        obtain ⟨rfl, hnone⟩ := ih.mp hsplit
        refine ⟨rfl, fun hinfix => ?_⟩
        rw [hdropLast, List.infix_cons_iff] at hinfix
        refine hinfix.elim (fun hstarts => h (hstarts.trans ?_)) hnone
        rw [List.prefix_cons_inj]
        exact (List.dropLast_prefix _).trans (List.prefix_append _ _)
      · rintro ⟨hs, hnone⟩
        cases before with
        | nil => exact absurd (hs ▸ List.prefix_append sep after) h
        | cons c before =>
          obtain ⟨rfl, rfl⟩ := List.cons.inj hs
          rw [hdropLast, List.infix_cons_iff, not_or] at hnone
          exact ⟨(before, after), ih.mpr ⟨rfl, hnone.2⟩, rfl⟩

end Split

end Scan
