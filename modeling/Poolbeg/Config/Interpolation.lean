import Poolbeg.Scan

/-!
# Environment variables in the configuration

`Config::load` replaces what matches `\$\{([^}]+)\}` in the text of the configuration before the
text is parsed. `interpolateEnvVars` does as the code does: it cuts the captured group at the first
`:-`, if there is one, and looks the variable up.

The comment there speaks of two kinds of references, `${VAR}` and `${VAR:-default}`. Every text is a
template of these in exactly one way, and interpolation puts the values in, once: what a value or a
default looks like is not read again.

## Which template

That a text can be written as a template says little by itself, since plain text may hold anything
that looks like a reference. The template meant is the leftmost one, in which no reference begins
inside a plain part or runs across its end (`Scan.Grammar.Leftmost`). There is exactly one for every
text, and it does not depend on the environment.

`${}` is plain text, since a group is not empty, and so is a brace that is never closed. The name of
a variable is whatever stands before the first `:-`. It may be empty where there is a default, as in
`${:-x}`.

## Main definitions

* `interpolateEnvVars` — as in the code
* `EnvReference`, `EnvReference.value` — the two kinds of references and what they stand for
* `references`, `expand` — templates, and putting the values in

## Main results

* `interpolateEnvVars_spec` — interpolation expands the one template there is
-/

namespace Poolbeg

open Scan

/-- `std::env::var`; a variable whose value is not Unicode counts as unset. A name may be any text,
the empty one too, and is looked up as it is. -/
abbrev Env : Type := List Char → Option (List Char)

/-! ### As in the code -/

/-- A match at the head of a text, with what follows: the group ends at the next brace, and is not
empty. It may hold anything else, a dollar sign and line breaks too. -/
def takeCapture (s : List Char) : Option (List Char × List Char) :=
  if ['$', '{'] <+: s then (splitOnce ['}'] (s.drop 2)).filter (·.1 ≠ []) else none

/-- A match, by the group that is captured. -/
def captureText (expr : List Char) : List Char := ['$', '{'] ++ expr ++ ['}']

theorem splitOnce_brace_iff {s expr rest : List Char} :
    splitOnce ['}'] s = some (expr, rest) ↔ s = expr ++ ['}'] ++ rest ∧ '}' ∉ expr := by
  rw [splitOnce_eq_some_iff (List.cons_ne_nil _ _), List.dropLast_concat, List.singleton_infix_iff]

theorem takeCapture_eq_some {s expr rest : List Char} : takeCapture s = some (expr, rest) ↔
    (expr ≠ [] ∧ '}' ∉ expr) ∧ s = captureText expr ++ rest := by
  rw [takeCapture, Option.ite_none_right_eq_some, Option.filter_eq_some_iff, splitOnce_brace_iff,
    decide_eq_true_iff, captureText]
  constructor
  · rintro ⟨⟨s, rfl⟩, ⟨hs, hbrace⟩, hne⟩
    rw [List.append_assoc, List.append_assoc, ← List.append_assoc expr, ← hs]
    exact ⟨⟨hne, hbrace⟩, rfl⟩
  · rintro ⟨⟨hne, hbrace⟩, rfl⟩
    refine ⟨⟨expr ++ ['}'] ++ rest, ?_⟩, ⟨rfl, hbrace⟩, hne⟩
    simp only [List.append_assoc]

/-- The matches of the regular expression, as placeholders that a scan can find. Matches that begin
at one place are one. -/
def captures : Placeholders Char (List Char) where
  Valid expr := expr ≠ [] ∧ '}' ∉ expr
  text := captureText
  text_ne_nil _ := List.cons_ne_nil _ _
  take := takeCapture
  take_eq_some := takeCapture_eq_some

/-- What a match is replaced by. With a default, an empty variable counts as an unset one; without
one, an unset variable as an empty one. -/
def replacement (env : Env) (expr : List Char) : List Char :=
  match splitOnce [':', '-'] expr with
  | some (varName, defaultVal) => ((env varName).filter (!·.isEmpty)).getD defaultVal
  | none => (env expr).getD []

/-- `interpolate_env_vars`: all matches from left to right, each replaced. What comes in their
places is not looked at again. -/
def interpolateEnvVars (env : Env) (input : List Char) : List Char :=
  captures.replaceAll (replacement env) input

/-! ### As it is described -/

/-- The two kinds of references. -/
inductive EnvReference
  | var (name : List Char)
  | withDefault (name defaultVal : List Char)

/-- The variable that is looked up. -/
def EnvReference.name : EnvReference → List Char
  | var name | withDefault name _ => name

/-- What stands between the braces. -/
def EnvReference.expr : EnvReference → List Char
  | var name => name
  | withDefault name defaultVal => name ++ [':', '-'] ++ defaultVal

/-- A name has no `:-`, and the brace that closes a reference is its only one. Nothing is asked of a
default besides. -/
structure EnvReference.Valid (r : EnvReference) : Prop where
  expr_ne_nil : r.expr ≠ []
  brace_notMem : '}' ∉ r.expr
  name : ¬ [':', '-'] <:+: r.name

/-- An unset variable is empty, unless there is a default, which an empty one has, too. -/
def EnvReference.value (env : Env) : EnvReference → List Char
  | var name => (env name).getD []
  | withDefault name defaultVal =>
    match env name with
    | none | some [] => defaultVal
    | some v => v

/-- The references, as what may stand in a template. They are other placeholders than the captured
groups, with the same texts. -/
def references : Grammar Char EnvReference where
  Valid := EnvReference.Valid
  text r := captureText r.expr
  text_ne_nil _ := List.cons_ne_nil _ _

/-- The text with the values in the places of the references. This is what interpolation is for. -/
def expand (env : Env) (template : List (Piece Char EnvReference)) : List Char :=
  template.flatMap (Piece.replace (EnvReference.value env))

/-! ### One is the other -/

/-- The reference that a captured group is. -/
def EnvReference.ofExpr (expr : List Char) : EnvReference :=
  match splitOnce [':', '-'] expr with
  | some (name, defaultVal) => .withDefault name defaultVal
  | none => .var expr

/-- The name ends at the first `:-`, so a default may hold another one. -/
theorem splitOnce_default_iff {expr name defaultVal : List Char} :
    splitOnce [':', '-'] expr = some (name, defaultVal) ↔
      expr = name ++ [':', '-'] ++ defaultVal ∧ ¬ [':', '-'] <:+: name := by
  have hlast : ¬ [':', '-'] <:+ name ++ [':'] := fun h => by
    have := h.getLast (List.cons_ne_nil _ _)
    simp at this
  have hdropLast : (name ++ [':', '-']).dropLast = name ++ [':'] := by simp
  rw [splitOnce_eq_some_iff (List.cons_ne_nil _ _), hdropLast, List.infix_concat_iff,
    or_iff_right hlast]

/-- A group is what stands between the braces of the reference it is. -/
theorem EnvReference.expr_ofExpr (expr : List Char) : (ofExpr expr).expr = expr := by
  rw [ofExpr]
  cases h : splitOnce [':', '-'] expr with
  | none => rfl
  | some parts => exact (splitOnce_default_iff.mp h).1.symm

theorem EnvReference.ofExpr_expr {r : EnvReference} (hr : r.Valid) : ofExpr r.expr = r := by
  rw [ofExpr]
  cases r with
  | var name =>
    have hname : ¬ [':', '-'] <:+: name := hr.name
    rw [expr, splitOnce_eq_none_iff.mpr hname]
  | withDefault name defaultVal =>
    have hname : ¬ [':', '-'] <:+: name := hr.name
    rw [expr, splitOnce_default_iff.mpr ⟨rfl, hname⟩]

theorem EnvReference.valid_ofExpr {expr : List Char} (hexpr : captures.Valid expr) :
    (ofExpr expr).Valid where
  expr_ne_nil := (expr_ofExpr expr).symm ▸ hexpr.1
  brace_notMem := (expr_ofExpr expr).symm ▸ hexpr.2
  name := by
    rw [ofExpr]
    cases h : splitOnce [':', '-'] expr with
    | none => exact splitOnce_eq_none_iff.mp h
    | some parts => exact (splitOnce_default_iff.mp h).2

/-- The code replaces a group by the value of the reference it is, with the default or without one.
-/
theorem EnvReference.value_ofExpr (env : Env) (expr : List Char) :
    (ofExpr expr).value env = replacement env expr := by
  rw [ofExpr, replacement]
  cases splitOnce [':', '-'] expr with
  | none => rfl
  | some parts =>
    simp only [value]
    cases env parts.1 with
    | none => rfl
    | some v => cases v <;> rfl

/-- **Interpolation reads every text as a template in the one way there is, and expands it.** The
template has the text for its own, and takes every reference as early as it comes. -/
theorem interpolateEnvVars_spec (input : List Char) :
    ∃ template, references.Leftmost template ∧ references.textOf template = input ∧
      (∀ other, references.Leftmost other → references.textOf other = input → other = template) ∧
      ∀ env, interpolateEnvVars env input = expand env template := by
  have htoCaptures : ∀ r, references.Valid r →
      captures.Valid r.expr ∧ captures.text r.expr = references.text r :=
    fun r hr => ⟨⟨hr.expr_ne_nil, hr.brace_notMem⟩, rfl⟩
  have htoReferences : ∀ expr, captures.Valid expr →
      references.Valid (.ofExpr expr) ∧ references.text (.ofExpr expr) = captures.text expr :=
    fun expr hexpr => ⟨EnvReference.valid_ofExpr hexpr,
      congrArg captureText (EnvReference.expr_ofExpr expr)⟩
  obtain ⟨hleft, htext⟩ := (captures.leftmost_scan input).map htoReferences
    fun r hr => ⟨r.expr, htoCaptures r hr⟩
  refine ⟨_, hleft, htext.trans (captures.textOf_scan input), fun other hother hinput => ?_,
    fun env => ?_⟩
  · obtain ⟨hleft', htext'⟩ := hother.map htoCaptures
      fun expr hexpr => ⟨.ofExpr expr, htoReferences expr hexpr⟩
    rw [captures.scan_eq_iff.mpr ⟨hleft', htext'.trans hinput⟩, List.map_map]
    have hself := hother.map_eq_self (f := EnvReference.ofExpr ∘ EnvReference.expr)
      fun r hr => EnvReference.ofExpr_expr hr
    exact hself.symm.trans <| List.map_congr_left fun piece _ => (piece.map_map _ _).symm
  · rw [interpolateEnvVars, Placeholders.replaceAll, expand, List.flatMap_map]
    refine List.flatMap_congr fun piece _ => ?_
    rw [Piece.replace_map]
    exact congrArg (Piece.replace · piece)
      (funext fun expr => (EnvReference.value_ofExpr env expr).symm)

end Poolbeg
