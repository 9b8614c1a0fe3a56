import Mathlib.Data.List.Infix

/-!
# Runs of a labelled transition system

A transition system is a partial function `step : σ → α → Option σ`: the label resolves all the
nondeterminism, and a label that is not enabled in a state has no successor. Concurrency is
interleaving, so a run is a list of labels, and a statement about every interleaving is a statement
about every list.

Three predicates on runs carry everything.

* `Always step P s as` says that `P` holds in every state the run `as` reaches from `s`.
* `Along step C s as` says that every step the run takes meets `C`, a condition on the state
  *before* the step and on its label.
* `Once step E s as` says that one of its steps met `E`.

The first is what an invariant promises and the second is what a run has to respect for the promise
to hold. `always_iff_along` is the rule connecting them: when `C` is exactly what a single step
needs in order to keep `P`, the runs that keep `P` are exactly the runs that respect `C`.

## Runs that stop

A list of labels need not be a run to its end: where a label is not enabled it stops. `Always` asks
about the states up to there and `Along` about the steps up to there, so both make sense of any
list, and a statement about them needs no hypothesis that the list is a run.

## Deciding a run

`Always` and `Along` are decidable where the predicate is, by walking along the list. So what
happens in a given run is a matter of evaluation.

## Main definitions

* `Lts.run` — the state a list of labels leads to
* `Lts.Always`, `Lts.Along`, `Lts.Once` — the predicates
* `Lts.gather` — what the steps of a run yield

## Main results

* `Lts.run_inv`, `Lts.run_inv_along` — invariants, unconditional and along a condition
* `Lts.run_history` — invariants that relate a state to the labels that led to it
* `Lts.run_gather` — runs of a system that another one simulates
* `Lts.along_congr`, `Lts.Along.imp` — exchanging one condition for another under an invariant
* `Lts.exists_of_not_along` — where a run misses a condition
* `Lts.always_iff_along`, `Lts.holds_iff_along` — the exactness rules
-/

namespace Lts

variable {σ α : Type*} {step : σ → α → Option σ} {I P : σ → Prop} {C R : σ → α → Prop}

/-! ### Runs -/

/-- The state a list of labels leads to, if every label is enabled when its turn comes. What is not
determined by the state is in the labels. -/
def run (step : σ → α → Option σ) : σ → List α → Option σ
  | s, [] => some s
  | s, a :: as => (step s a).bind fun t => run step t as

@[simp] theorem run_nil (s : σ) : run step s [] = some s := rfl

theorem run_cons (s : σ) (a : α) (as : List α) :
    run step s (a :: as) = (step s a).bind fun t => run step t as := rfl

theorem run_cons_of_step {s t : σ} {a : α} (h : step s a = some t) (as : List α) :
    run step s (a :: as) = run step t as := by
  rw [run_cons, h, Option.bind_some]

theorem run_cons_eq_some {s u : σ} {a : α} {as : List α} :
    run step s (a :: as) = some u ↔ ∃ t, step s a = some t ∧ run step t as = some u := by
  rw [run_cons, Option.bind_eq_some_iff]

theorem run_singleton (s : σ) (a : α) : run step s [a] = step s a := Option.bind_fun_some _

/-- A property every step keeps holds wherever a run ends. The induction on runs is done here, once.
-/
theorem run_inv (hstep : ∀ s a t, I s → step s a = some t → I t) :
    ∀ {as : List α} {s t : σ}, I s → run step s as = some t → I t
  | [], s, t, hs, hrun => by
    rw [run_nil, Option.some.injEq] at hrun
    exact hrun ▸ hs
  | a :: as, s, t, hs, hrun => by
    obtain ⟨u, hu, hrest⟩ := run_cons_eq_some.mp hrun
    exact run_inv hstep (hstep s a u hs hu) hrest

/-- What a system that takes fewer steps does, the other does, too. -/
theorem run_mono {step' : σ → α → Option σ}
    (hstep : ∀ s a t, step s a = some t → step' s a = some t) :
    ∀ {as : List α} {s t : σ}, run step s as = some t → run step' s as = some t
  | [], _, _, hrun => hrun
  | _ :: as, s, t, hrun => by
    obtain ⟨u, hu, hrest⟩ := run_cons_eq_some.mp hrun
    exact (run_cons_of_step (hstep s _ u hu) as).trans (run_mono hstep hrest)

theorem run_append (s : σ) (as bs : List α) :
    run step s (as ++ bs) = (run step s as).bind fun t => run step t bs := by
  induction as generalizing s with
  | nil => rfl
  | cons a as ih =>
    rw [List.cons_append, run_cons, run_cons, Option.bind_assoc]
    exact congrArg _ (funext ih)

theorem run_concat_eq_some {s u : σ} {a : α} {as : List α} :
    run step s (as ++ [a]) = some u ↔ ∃ t, run step s as = some t ∧ step t a = some u := by
  rw [run_append, Option.bind_eq_some_iff]
  refine exists_congr fun t => and_congr_right fun _ => ?_
  rw [run_cons]
  exact Eq.congr_left (Option.bind_fun_some _)

/-- What the labels so far say about the state: a relation that every step keeps holds wherever a
run ends. -/
theorem run_history {H : List α → σ → Prop} {s : σ} (hinit : H [] s)
    (hstep : ∀ as t a u, run step s as = some t → H as t → step t a = some u → H (as ++ [a]) u)
    {as : List α} {t : σ} (hrun : run step s as = some t) : H as t := by
  induction as using List.reverseRecOn generalizing t with
  | nil => exact Option.some.inj hrun ▸ hinit
  | append_singleton as a ih =>
    obtain ⟨u, hu, ht⟩ := run_concat_eq_some.mp hrun
    exact hstep as u a t hu (ih hu) ht

/-! ### Some step of a run -/

/-- `E` held of the state before one of the steps and of its label. This is how something is said
about the past of a run without keeping it in the state. -/
def Once (step : σ → α → Option σ) (E : σ → α → Prop) (s : σ) (as : List α) : Prop :=
  ∃ pre a post t, as = pre ++ a :: post ∧ run step s pre = some t ∧ E t a

variable {E : σ → α → Prop}

theorem Once.append {s : σ} {as : List α} (h : Once step E s as) (bs : List α) :
    Once step E s (as ++ bs) := by
  obtain ⟨pre, a, post, t, rfl, hrun, hE⟩ := h
  exact ⟨pre, a, post ++ bs, t, List.append_assoc _ _ _, hrun, hE⟩

theorem once_concat {s t : σ} {a : α} {as : List α} (hrun : run step s as = some t) (hE : E t a) :
    Once step E s (as ++ [a]) :=
  ⟨as, a, [], t, rfl, hrun, hE⟩

/-- What has happened by the end happened in the last step or before it. -/
theorem once_of_concat {s t : σ} {a : α} {as : List α} (hrun : run step s as = some t)
    (h : Once step E s (as ++ [a])) : Once step E s as ∨ E t a := by
  obtain ⟨pre, b, post, u, has, hu, hE⟩ := h
  induction post using List.reverseRecOn with
  | nil =>
    obtain ⟨rfl, hab⟩ := List.append_inj' has rfl
    obtain rfl := List.singleton_inj.mp hab
    exact .inr (Option.some.inj (hrun.symm.trans hu) ▸ hE)
  | append_singleton post c =>
    rw [← List.cons_append, ← List.append_assoc] at has
    obtain ⟨rfl, -⟩ := List.append_inj' has rfl
    exact .inl ⟨pre, b, post, u, rfl, hu, hE⟩

theorem Once.mono {E' : σ → α → Prop} {s : σ} {as : List α} (h : Once step E s as)
    (hEE' : ∀ t a, E t a → E' t a) : Once step E' s as := by
  obtain ⟨pre, a, post, t, has, hrun, hE⟩ := h
  exact ⟨pre, a, post, t, has, hrun, hEE' t a hE⟩

/-- What the steps of a run yield, in order. A log, or the part that another system has in a run, is
gathered so. -/
def gather {β : Type*} (step : σ → α → Option σ) (f : σ → α → List β) : σ → List α → List β
  | _, [] => []
  | s, a :: as => f s a ++ ((step s a).map fun t => gather step f t as).getD []

theorem gather_concat {β : Type*} {f : σ → α → List β} {s t : σ} {as : List α}
    (hrun : run step s as = some t) (a : α) :
    gather step f s (as ++ [a]) = gather step f s as ++ f t a := by
  induction as generalizing s with
  | nil =>
    obtain rfl := Option.some.inj hrun
    cases h : step s a <;> simp [gather, h]
  | cons b as ih =>
    obtain ⟨u, hu, hrest⟩ := run_cons_eq_some.mp hrun
    simp only [List.cons_append, gather, hu, Option.map_some, Option.getD_some, List.append_assoc,
      ih hrest]

theorem once_of_mem_gather {β : Type*} {f : σ → α → List β} {b : β} {s : σ} {as : List α}
    (h : b ∈ gather step f s as) : Once step (fun s a => b ∈ f s a) s as := by
  induction as generalizing s with
  | nil => cases h
  | cons a as ih =>
    rcases List.mem_append.mp h with hb | hb
    · exact ⟨[], a, as, s, rfl, rfl, hb⟩
    · cases hstep : step s a with
      | none => simp [hstep] at hb
      | some t =>
        rw [hstep] at hb
        obtain ⟨pre, c, post, u, rfl, hrun, hE⟩ := ih hb
        exact ⟨a :: pre, c, post, u, rfl, (run_cons_of_step hstep pre).trans hrun, hE⟩

theorem mem_gather_of_once {β : Type*} {f : σ → α → List β} {b : β} {s : σ} {as : List α}
    (h : Once step (fun s a => b ∈ f s a) s as) : b ∈ gather step f s as := by
  obtain ⟨pre, a, post, t, rfl, hrun, hb⟩ := h
  induction pre generalizing s with
  | nil =>
    obtain rfl := Option.some.inj hrun
    exact List.mem_append_left _ hb
  | cons c pre ih =>
    obtain ⟨u, hu, hrest⟩ := run_cons_eq_some.mp hrun
    refine List.mem_append_right _ ?_
    rw [hu]
    exact ih hrest

/-- **A run of a system is one of whatever it simulates**: if each step is so many steps of another
system, between what `π` makes of the states, a run is those steps one after the other. -/
theorem run_gather {τ β : Type*} {step' : τ → β → Option τ} {π : σ → τ} {f : σ → α → List β}
    (hsim : ∀ s a t, step s a = some t → run step' (π s) (f s a) = some (π t)) {as : List α}
    {s t : σ} (hrun : run step s as = some t) :
    run step' (π s) (gather step f s as) = some (π t) := by
  induction as generalizing s with
  | nil => exact Option.some.inj hrun ▸ rfl
  | cons a as ih =>
    obtain ⟨u, hu, hrest⟩ := run_cons_eq_some.mp hrun
    rw [gather, hu, Option.map_some, Option.getD_some, run_append, hsim s a u hu, Option.bind_some,
      ih hrest]

/-! ### Every state of a run -/

/-- `P` holds in every state that a prefix of `as` reaches from `s`. -/
def Always (step : σ → α → Option σ) (P : σ → Prop) (s : σ) (as : List α) : Prop :=
  ∀ pre t, pre <+: as → run step s pre = some t → P t

theorem Always.head {s : σ} {as : List α} (h : Always step P s as) : P s :=
  h [] s List.nil_prefix rfl

theorem Always.last {s t : σ} {as : List α} (h : Always step P s as)
    (hrun : run step s as = some t) : P t :=
  h as t (List.prefix_refl as) hrun

theorem Always.mono {P' : σ → Prop} {s : σ} {as : List α} (h : Always step P s as)
    (hPP' : ∀ t, P t → P' t) : Always step P' s as :=
  fun pre t hpre hrun => hPP' t (h pre t hpre hrun)

theorem always_nil {s : σ} : Always step P s [] ↔ P s := by
  refine ⟨fun h => h.head, fun hs pre t hpre hrun => ?_⟩
  rw [List.prefix_nil.mp hpre, run_nil, Option.some.injEq] at hrun
  exact hrun ▸ hs

theorem always_cons {s : σ} {a : α} {as : List α} :
    Always step P s (a :: as) ↔ P s ∧ ∀ t, step s a = some t → Always step P t as := by
  constructor
  · intro h
    refine ⟨h.head, fun t ht pre u hpre hrun => ?_⟩
    exact h (a :: pre) u (List.cons_prefix_cons.mpr ⟨rfl, hpre⟩)
      ((run_cons_of_step ht pre).trans hrun)
  · rintro ⟨hs, htail⟩ pre u hpre hrun
    cases pre with
    | nil =>
      rw [run_nil, Option.some.injEq] at hrun
      exact hrun ▸ hs
    | cons b pre =>
      obtain ⟨rfl, htl⟩ := List.cons_prefix_cons.mp hpre
      obtain ⟨t, ht, hrun⟩ := run_cons_eq_some.mp hrun
      exact htail t ht pre u htl hrun

instance decidableAlways [DecidablePred P] :
    ∀ (s : σ) (as : List α), Decidable (Always step P s as)
  | _, [] => decidable_of_iff _ always_nil.symm
  | s, a :: as =>
    match h : step s a with
    | none =>
      have hstuck : ∀ t, step s a = some t → Always step P t as :=
        fun t ht => absurd (h.symm.trans ht) (Option.some_ne_none t).symm
      decidable_of_iff (P s) <| (and_iff_left hstuck).symm.trans always_cons.symm
    | some t =>
      have := decidableAlways t as
      decidable_of_iff (P s ∧ Always step P t as) <| Iff.trans
        (and_congr_right fun _ =>
          ⟨fun ht _ hu => Option.some.inj (h.symm.trans hu) ▸ ht, fun hall => hall t h⟩)
        always_cons.symm

/-! ### Every step of a run -/

/-- Every step that `as` takes from `s` meets `C`. A label that is not enabled stops the run, and
nothing is asked of what follows it. -/
def Along (step : σ → α → Option σ) (C : σ → α → Prop) : σ → List α → Prop
  | _, [] => True
  | s, a :: as => ∀ t, step s a = some t → C s a ∧ Along step C t as

instance decidableAlong [∀ s a, Decidable (C s a)] :
    ∀ (s : σ) (as : List α), Decidable (Along step C s as)
  | _, [] => isTrue trivial
  | s, a :: as =>
    match h : step s a with
    | none => isTrue fun t ht => absurd (h.symm.trans ht) (Option.some_ne_none t).symm
    | some t =>
      have := decidableAlong t as
      decidable_of_iff (C s a ∧ Along step C t as)
        ⟨fun hC _ hu => Option.some.inj (h.symm.trans hu) ▸ hC, fun hC => hC t h⟩

/-- A property kept by every step that meets `C` holds wherever a run along `C` ends. -/
theorem run_inv_along (hstep : ∀ s a t, I s → C s a → step s a = some t → I t) :
    ∀ {as : List α} {s t : σ}, I s → Along step C s as → run step s as = some t → I t
  | [], s, t, hs, _, hrun => by
    rw [run_nil, Option.some.injEq] at hrun
    exact hrun ▸ hs
  | a :: as, s, t, hs, halong, hrun => by
    obtain ⟨u, hu, hrest⟩ := run_cons_eq_some.mp hrun
    obtain ⟨hC, htail⟩ := halong u hu
    exact run_inv_along hstep (hstep s a u hs hC hu) htail hrest

theorem Along.mono {C' : σ → α → Prop} {s : σ} {as : List α} (h : Along step C s as)
    (hCC' : ∀ s a, C s a → C' s a) : Along step C' s as := by
  induction as generalizing s with
  | nil => trivial
  | cons a as ih =>
    intro t ht
    obtain ⟨hC, htail⟩ := h t ht
    exact ⟨hCC' s a hC, ih htail⟩

/-- A run along `C` is one along whatever `C` entails where `I` holds. -/
theorem Along.imp {D : σ → α → Prop} (hI : ∀ s a t, I s → C s a → step s a = some t → I t)
    (hD : ∀ s a t, I s → C s a → step s a = some t → D s a) {s : σ} {as : List α} (hs : I s)
    (h : Along step C s as) : Along step D s as := by
  induction as generalizing s with
  | nil => trivial
  | cons a as ih =>
    intro t ht
    obtain ⟨hC, htail⟩ := h t ht
    exact ⟨hD s a t hs hC ht, ih (hI s a t hs hC ht) htail⟩

/-- What a step of a run yields is among what the run yields. -/
theorem along_mem_gather {β : Type*} {f : σ → α → List β} {s : σ} {as : List α} {bs : List β}
    (h : gather step f s as ⊆ bs) : Along step (fun s a => ∀ b ∈ f s a, b ∈ bs) s as := by
  induction as generalizing s with
  | nil => trivial
  | cons a as ih =>
    intro t ht
    rw [gather, ht, Option.map_some, Option.getD_some] at h
    exact ⟨fun b hb => h (List.mem_append_left _ hb),
      ih fun b hb => h (List.mem_append_right _ hb)⟩

/-- A condition on labels alone is met along a run that uses only such labels. -/
theorem along_of_forall {L : α → Prop} {s : σ} {as : List α} (h : ∀ a ∈ as, L a) :
    Along step (fun _ a => L a) s as := by
  induction as generalizing s with
  | nil => trivial
  | cons a as ih =>
    rw [List.forall_mem_cons] at h
    exact fun t _ => ⟨h.1, ih h.2⟩

theorem Along.of_prefix {s : σ} {pre as : List α} (h : Along step C s as) (hpre : pre <+: as) :
    Along step C s pre := by
  induction pre generalizing s as with
  | nil => trivial
  | cons b pre ih =>
    cases as with
    | nil => exact absurd (List.prefix_nil.mp hpre) (List.cons_ne_nil b pre)
    | cons a as =>
      obtain ⟨rfl, htl⟩ := List.cons_prefix_cons.mp hpre
      intro t ht
      exact ⟨(h t ht).1, ih (h t ht).2 htl⟩

/-- The step a run along `C` takes after `pre` meets `C`. -/
theorem Along.at_step {s t u : σ} {a : α} {pre post : List α}
    (h : Along step C s (pre ++ a :: post))
    (hrun : run step s pre = some t) (ht : step t a = some u) : C t a := by
  induction pre generalizing s with
  | nil =>
    obtain rfl := Option.some.inj hrun
    exact (h u ht).1
  | cons b pre ih =>
    obtain ⟨v, hv, hrest⟩ := run_cons_eq_some.mp hrun
    exact ih (h v hv).2 hrest

/-- A run that is not along `C` takes a step that misses it, in some state that it reaches. -/
theorem exists_of_not_along {s : σ} {as : List α} (h : ¬ Along step C s as) :
    ∃ pre a post t u, as = pre ++ a :: post ∧ run step s pre = some t ∧ step t a = some u ∧
      ¬ C t a := by
  induction as generalizing s with
  | nil => exact absurd trivial h
  | cons a as ih =>
    obtain ⟨t, ht, hmiss⟩ : ∃ t, step s a = some t ∧ ¬ (C s a ∧ Along step C t as) := by
      rw [Along] at h
      push Not at h
      obtain ⟨t, ht, hmiss⟩ := h
      exact ⟨t, ht, fun hC => hmiss hC.1 hC.2⟩
    by_cases hC : C s a
    · obtain ⟨pre, b, post, v, u, rfl, hrun, hu, hmiss⟩ := ih fun htail => hmiss ⟨hC, htail⟩
      exact ⟨a :: pre, b, post, v, u, rfl, (run_cons_of_step ht pre).trans hrun, hu, hmiss⟩
    · exact ⟨[], a, as, s, t, rfl, rfl, ht, hC⟩

/-- Runs along a condition compose. -/
theorem Along.append {s t : σ} {as bs : List α} (has : Along step C s as)
    (hrun : run step s as = some t) (hbs : Along step C t bs) : Along step C s (as ++ bs) := by
  induction as generalizing s with
  | nil =>
    obtain rfl := Option.some.inj hrun
    exact hbs
  | cons a as ih =>
    intro u hu
    obtain ⟨v, hv, hrest⟩ := run_cons_eq_some.mp hrun
    obtain rfl := Option.some.inj (hv.symm.trans hu)
    exact ⟨(has v hu).1, ih (has v hu).2 hrest⟩

/-- What a system simulates by its runs along `C` is along whatever `C` comes to over there. -/
theorem along_gather {τ β : Type*} {step' : τ → β → Option τ} {π : σ → τ} {f : σ → α → List β}
    {D : τ → β → Prop}
    (hsim : ∀ s a t, step s a = some t → run step' (π s) (f s a) = some (π t))
    (hD : ∀ s a t, C s a → step s a = some t → Along step' D (π s) (f s a)) {as : List α}
    {s t : σ} (h : Along step C s as) (hrun : run step s as = some t) :
    Along step' D (π s) (gather step f s as) := by
  induction as generalizing s with
  | nil => trivial
  | cons a as ih =>
    obtain ⟨u, hu, hrest⟩ := run_cons_eq_some.mp hrun
    obtain ⟨hC, htail⟩ := h u hu
    rw [gather, hu, Option.map_some, Option.getD_some]
    exact (hD s a u hC hu).append (hsim s a u hu) (ih htail hrest)

/-- What is left of a run along `C` goes on along `C`. -/
theorem Along.of_run {s t : σ} {pre post : List α} (h : Along step C s (pre ++ post))
    (hrun : run step s pre = some t) : Along step C t post := by
  induction pre generalizing s with
  | nil => exact Option.some.inj hrun ▸ h
  | cons a pre ih =>
    obtain ⟨u, hu, hrest⟩ := run_cons_eq_some.mp hrun
    exact ih (h u hu).2 hrest

/-- What every step along `C` keeps holds in every state of a run along `C`. -/
theorem Along.always (h : ∀ s a t, I s → C s a → step s a = some t → I t) {s : σ} {as : List α}
    (hs : I s) (halong : Along step C s as) : Always step I s as :=
  fun _ _ hpre hrun => run_inv_along h hs (halong.of_prefix hpre) hrun

/-- Two step conditions that agree wherever `I` holds are met by the same runs, provided the first
one keeps `I`. -/
theorem along_congr (hRC : ∀ s a t, I s → step s a = some t → (R s a ↔ C s a))
    (hI : ∀ s a t, I s → R s a → step s a = some t → I t) {s : σ} {as : List α} (hs : I s) :
    Along step R s as ↔ Along step C s as := by
  induction as generalizing s with
  | nil => exact Iff.rfl
  | cons a as ih =>
    refine forall_congr' fun t => forall_congr' fun ht => ?_
    have hhead := hRC s a t hs ht
    constructor
    · rintro ⟨hR, htail⟩
      exact ⟨hhead.mp hR, (ih (hI s a t hs hR ht)).mp htail⟩
    · rintro ⟨hC, htail⟩
      have hR := hhead.mpr hC
      exact ⟨hR, (ih (hI s a t hs hR ht)).mpr htail⟩

/-- `Always` as a condition on steps: each one lands where `P` holds. -/
theorem always_iff_along_next {s : σ} {as : List α} (hs : P s) :
    Always step P s as ↔ Along step (fun s a => ∀ t, step s a = some t → P t) s as := by
  induction as generalizing s with
  | nil => exact ⟨fun _ => trivial, fun _ => always_nil.mpr hs⟩
  | cons a as ih =>
    rw [always_cons]
    constructor
    · rintro ⟨-, h⟩ t ht
      exact ⟨fun u hu => (h u hu).head, (ih (h t ht).head).mp (h t ht)⟩
    · intro h
      exact ⟨hs, fun t ht => (ih ((h t ht).1 t ht)).mpr (h t ht).2⟩

/-- **The exactness rule**, for a run that is known to be along `D`. Under an invariant `I`, if `C`
is what a step from a `P`-state needs in order to land in a `P`-state, then the run stays in `P`
exactly when all its steps meet `C`. -/
theorem always_iff_along_of_along {D : σ → α → Prop}
    (hI : ∀ s a t, I s → D s a → step s a = some t → I t)
    (hP : ∀ s a t, I s → D s a → P s → step s a = some t → (P t ↔ C s a)) {s : σ} {as : List α}
    (hD : Along step D s as) (hIs : I s) (hPs : P s) : Always step P s as ↔ Along step C s as := by
  induction as generalizing s with
  | nil => exact ⟨fun _ => trivial, fun _ => always_nil.mpr hPs⟩
  | cons a as ih =>
    rw [always_cons]
    constructor
    · rintro ⟨-, h⟩ t ht
      obtain ⟨hDs, hDt⟩ := hD t ht
      have hPt := (h t ht).head
      exact ⟨(hP s a t hIs hDs hPs ht).mp hPt,
        (ih hDt (hI s a t hIs hDs ht) hPt).mp (h t ht)⟩
    · intro h
      refine ⟨hPs, fun t ht => ?_⟩
      obtain ⟨hDs, hDt⟩ := hD t ht
      have hPt := (hP s a t hIs hDs hPs ht).mpr (h t ht).1
      exact (ih hDt (hI s a t hIs hDs ht) hPt).mpr (h t ht).2

/-- **The exactness rule**, for all runs. -/
theorem always_iff_along (hI : ∀ s a t, I s → step s a = some t → I t)
    (hP : ∀ s a t, I s → P s → step s a = some t → (P t ↔ C s a)) {s : σ} {as : List α}
    (hIs : I s) (hPs : P s) : Always step P s as ↔ Along step C s as :=
  always_iff_along_of_along (D := fun _ _ => True) (fun s a t hs _ => hI s a t hs)
    (fun s a t hs _ => hP s a t hs) (along_of_forall (L := fun _ => True) fun _ _ => trivial)
    hIs hPs

/-- What a step that misses `C` takes away is never given back: a run ends with `P` exactly when it
began with it and was along `C`. -/
theorem holds_iff_along (hI : ∀ s a t, I s → step s a = some t → I t)
    (hP : ∀ s a t, I s → step s a = some t → (P t ↔ P s ∧ C s a)) {s t : σ} {as : List α}
    (hIs : I s) (hrun : run step s as = some t) : P t ↔ P s ∧ Along step C s as := by
  induction as generalizing s with
  | nil =>
    obtain rfl := Option.some.inj hrun
    exact (and_iff_left trivial).symm
  | cons a as ih =>
    obtain ⟨u, hu, hrest⟩ := run_cons_eq_some.mp hrun
    have halong : Along step C s (a :: as) ↔ C s a ∧ Along step C u as :=
      ⟨fun h => h u hu, fun h v hv => Option.some.inj (hu.symm.trans hv) ▸ h⟩
    rw [ih (hI s a u hIs hu) hrest, hP s a u hIs hu, halong, and_assoc]

end Lts
