import Mathlib.Logic.Function.Basic
import Poolbeg.Lts

/-!
# Systems that run together

A system has parts that take steps of their own, any number of the same kind side by side, and
sometimes two of them have to take a step together. `family` puts systems side by side, and `joint`
has two systems take the steps that a common label stands for, each in the state it is in; which
steps these are may depend on both states.

Whatever a composed system does, each of its parts makes a run of its own. So what is known of the
runs of a part is known of it wherever it is put. Nothing has to be shown about the composed system
for this, and nothing about the other parts.

## How two systems meet

A label of `joint` stands for a list of steps of either system, so that a step of one may come with
several of the other, or with none. It is enabled only if all of these steps are, one after the
other. The lists are a function of the state and of the label, and this is how the two systems speak
to each other: what one system hands over is written into the step that the other takes.

## Main definitions

* `Lts.family`, `Lts.labelsOf` — side by side
* `Lts.joint`, `Lts.fstLabels`, `Lts.sndLabels` — together

## Main results

* `Lts.run_family` — each member of a family makes a run
* `Lts.run_joint_fst`, `Lts.run_joint_snd` — and so does each of two systems that run together
-/

namespace Lts

/-! ### Side by side -/

section Family

variable {κ : Type*} [DecidableEq κ] {σ α : κ → Type*} {step : ∀ k, σ k → α k → Option (σ k)}
  {s t : ∀ k, σ k} {k : κ}

/-- Systems side by side: a label is one of one of them. They have states and labels of their own
types, and a step of one leaves the others where they are. -/
def family (step : ∀ k, σ k → α k → Option (σ k)) (s : ∀ k, σ k) (a : Σ k, α k) :
    Option (∀ k, σ k) :=
  (step a.1 (s a.1) a.2).map (Function.update s a.1)

/-- The labels that are those of a member, in their order, without the index. -/
def labelsOf (k : κ) : List (Σ k, α k) → List (α k) :=
  List.filterMap fun a => if h : a.1 = k then some (h ▸ a.2) else none

theorem labelsOf_cons_self (a : α k) (as : List (Σ k, α k)) :
    labelsOf k (⟨k, a⟩ :: as) = a :: labelsOf k as := by
  simp [labelsOf]

theorem labelsOf_cons_of_ne {j : κ} (h : j ≠ k) (a : α j) (as : List (Σ k, α k)) :
    labelsOf k (⟨j, a⟩ :: as) = labelsOf k as := by
  simp [labelsOf, h]

/-- The labels of a member are those that are its own. -/
theorem mem_labelsOf {a : α k} {as : List (Σ k, α k)} : a ∈ labelsOf k as ↔ ⟨k, a⟩ ∈ as := by
  induction as with
  | nil => exact iff_of_false List.not_mem_nil List.not_mem_nil
  | cons b as ih =>
    obtain ⟨j, b⟩ := b
    by_cases h : j = k
    · subst h
      rw [labelsOf_cons_self, List.mem_cons, List.mem_cons, ih, Sigma.mk.injEq, heq_eq_eq]
      exact or_congr_left (and_iff_right rfl).symm
    · rw [labelsOf_cons_of_ne h, List.mem_cons, ih]
      refine (or_iff_right fun heq => h ?_).symm
      cases heq
      rfl

/-- A step of a family is one of the member it is a label of, and the others stay. -/
theorem family_eq_some {a : α k} :
    family step s ⟨k, a⟩ = some t ↔ ∃ u, step k (s k) a = some u ∧ t = Function.update s k u := by
  rw [family, Option.map_eq_some_iff]
  exact exists_congr fun u => and_congr_right fun _ => eq_comm

/-- **Every member of a family makes a run**, and it ends where the member stands when the family
has made its own. -/
theorem run_family (k : κ) {as : List (Σ k, α k)} (hrun : run (family step) s as = some t) :
    run (step k) (s k) (labelsOf k as) = some (t k) := by
  induction as generalizing s with
  | nil => exact Option.some.inj hrun ▸ rfl
  | cons a as ih =>
    obtain ⟨j, a⟩ := a
    obtain ⟨u, hu, hrest⟩ := run_cons_eq_some.mp hrun
    obtain ⟨v, hv, rfl⟩ := family_eq_some.mp hu
    have htail := ih hrest
    by_cases h : j = k
    · subst h
      rw [Function.update_self] at htail
      rw [labelsOf_cons_self]
      exact (run_cons_of_step hv _).trans htail
    · rw [Function.update_of_ne (Ne.symm h)] at htail
      rwa [labelsOf_cons_of_ne h]

end Family

/-! ### Together -/

section Joint

variable {σ τ α β γ : Type*} {step₁ : σ → α → Option σ} {step₂ : τ → β → Option τ}
  {parts : σ × τ → γ → Option (List α × List β)} {s t : σ × τ} {c : γ}

/-- Two systems that run together: a label stands for steps of both of them. Which these are is
looked up in the state before the step, and if `parts` says `none` the label is not enabled. -/
def joint (step₁ : σ → α → Option σ) (step₂ : τ → β → Option τ)
    (parts : σ × τ → γ → Option (List α × List β)) (s : σ × τ) (c : γ) : Option (σ × τ) :=
  (parts s c).bind fun p =>
    (run step₁ s.1 p.1).bind fun t => (run step₂ s.2 p.2).map fun u => (t, u)

/-- The steps of the first one. Where the label is not enabled there are none. -/
def fstLabels (parts : σ × τ → γ → Option (List α × List β)) (s : σ × τ) (c : γ) : List α :=
  ((parts s c).map Prod.fst).getD []

/-- The steps of the second one. -/
def sndLabels (parts : σ × τ → γ → Option (List α × List β)) (s : σ × τ) (c : γ) : List β :=
  ((parts s c).map Prod.snd).getD []

theorem joint_eq_some : joint step₁ step₂ parts s c = some t ↔
    ∃ as bs, parts s c = some (as, bs) ∧ run step₁ s.1 as = some t.1 ∧
      run step₂ s.2 bs = some t.2 := by
  obtain ⟨t, u⟩ := t
  simp only [joint, Option.bind_eq_some_iff, Option.map_eq_some_iff, Prod.mk.injEq, Prod.exists]
  constructor
  · rintro ⟨as, bs, hparts, _, hfst, _, hsnd, rfl, rfl⟩
    exact ⟨as, bs, hparts, hfst, hsnd⟩
  · rintro ⟨as, bs, hparts, hfst, hsnd⟩
    exact ⟨as, bs, hparts, t, hfst, u, hsnd, rfl, rfl⟩

theorem joint_fst (h : joint step₁ step₂ parts s c = some t) :
    run step₁ s.1 (fstLabels parts s c) = some t.1 := by
  obtain ⟨as, bs, hparts, hfst, -⟩ := joint_eq_some.mp h
  rwa [fstLabels, hparts]

theorem joint_snd (h : joint step₁ step₂ parts s c = some t) :
    run step₂ s.2 (sndLabels parts s c) = some t.2 := by
  obtain ⟨as, bs, hparts, -, hsnd⟩ := joint_eq_some.mp h
  rwa [sndLabels, hparts]

variable {cs : List γ}

/-- **The first of two systems makes a run**, with the steps that are its part of each label, put
one after the other. -/
theorem run_joint_fst (hrun : run (joint step₁ step₂ parts) s cs = some t) :
    run step₁ s.1 (gather (joint step₁ step₂ parts) (fstLabels parts) s cs) = some t.1 :=
  run_gather (fun _ _ _ => joint_fst) hrun

/-- **And so does the second.** -/
theorem run_joint_snd (hrun : run (joint step₁ step₂ parts) s cs = some t) :
    run step₂ s.2 (gather (joint step₁ step₂ parts) (sndLabels parts) s cs) = some t.2 :=
  run_gather (fun _ _ _ => joint_snd) hrun

end Joint

end Lts
