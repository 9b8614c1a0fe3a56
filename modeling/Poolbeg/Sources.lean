import Mathlib.Order.Basic
import Poolbeg.Lts

/-!
# A log that several sources write to

A run of a transition system appends entries to a log, each with the source it comes from. Every
source keeps its own entries in order; whether the whole log is in order depends on how the sources
interleave.

`always_ordered_iff` says what it depends on: the log is in order in every state of a run exactly
when every entry comes after what the *other* sources have written by then. `along_mono_iff` reads
the same for a cell that holds the last entry written: it never decreases exactly when the log is in
order.

Where an entry of one source has to wait for an entry of another, `Backed J` says that every entry
finds what it needs in the log before it, and `always_backed_iff` that a run keeps to this exactly
when every entry does as it is written.

## Main definitions

* `Lts.Ordered`, `Lts.After`, `Lts.Backed`

## Main results

* `Lts.always_ordered_iff`, `Lts.along_mono_iff`, `Lts.always_backed_iff`
-/

namespace Lts

variable {σ α ι β : Type*} {step : σ → α → Option σ} {I : σ → Prop} {log : σ → List (ι × β)}
  {emit : σ → α → Option (ι × β)} {r : β → β → Prop}

/-- Every entry is related to all later ones. -/
def Ordered (r : β → β → Prop) (log : List (ι × β)) : Prop := log.Pairwise fun x y => r x.2 y.2

/-- The entry comes after all entries of the other sources. About those of its own source nothing is
said. -/
def After (r : β → β → Prop) (log : List (ι × β)) (e : ι × β) : Prop :=
  ∀ x ∈ log, x.1 ≠ e.1 → r x.2 e.2

theorem ordered_nil : Ordered r ([] : List (ι × β)) := List.Pairwise.nil

/-- A log with one entry more is in order if it was and the entry comes after all others. -/
theorem ordered_append_singleton {log : List (ι × β)} {e : ι × β} :
    Ordered r (log ++ [e]) ↔ Ordered r log ∧ ∀ x ∈ log, r x.2 e.2 := by
  rw [Ordered, List.pairwise_append]
  refine ⟨fun ⟨hlog, _, h⟩ => ⟨hlog, fun x hx => h x hx e (List.mem_singleton_self e)⟩, ?_⟩
  rintro ⟨hlog, h⟩
  refine ⟨hlog, List.pairwise_singleton _ e, fun x hx y hy => ?_⟩
  rw [List.mem_singleton.mp hy]
  exact h x hx

/-- **The log stays in order exactly when every entry comes after those of the other sources**,
provided that each source keeps its own entries in order. -/
theorem always_ordered_iff (hI : ∀ s a t, I s → step s a = some t → I t)
    (hlog : ∀ s a t, I s → step s a = some t → log t = log s ++ (emit s a).toList)
    (hown : ∀ s a t e, I s → step s a = some t → emit s a = some e →
      ∀ x ∈ log s, x.1 = e.1 → r x.2 e.2)
    {s : σ} {as : List α} (hIs : I s) (hs : Ordered r (log s)) :
    Always step (fun s => Ordered r (log s)) s as ↔
      Along step (fun s a => ∀ e, emit s a = some e → After r (log s) e) s as := by
  refine always_iff_along hI (fun s a t hIs hs ht => ?_) hIs hs
  rw [hlog s a t hIs ht]
  cases he : emit s a with
  | none =>
    rw [Option.toList_none, List.append_nil]
    exact ⟨fun _ => nofun, fun _ => hs⟩
  | some e =>
    rw [Option.toList_some, ordered_append_singleton, and_iff_right hs]
    constructor
    · intro h e' he' x hx _
      obtain rfl := Option.some.inj he'
      exact h x hx
    · intro h x hx
      by_cases hsrc : x.1 = e.1
      · exact hown s a t e hIs ht he x hx hsrc
      · exact h e rfl x hx hsrc

/-- **A cell that holds the last entry of the log never decreases exactly when the log stays in
order.** Before the first entry the cell is least. -/
theorem along_mono_iff [Preorder β] (cell : σ → β)
    (hI : ∀ s a t, I s → step s a = some t → I t)
    (hlog : ∀ s a t, I s → step s a = some t → log t = log s ++ (emit s a).toList)
    (hcell : ∀ s a t, I s → step s a = some t → cell t = (emit s a).elim (cell s) Prod.snd)
    (hlast : ∀ s, I s → (log s = [] ∧ ∀ b, cell s ≤ b) ∨ ∃ pre i, log s = pre ++ [(i, cell s)])
    {s : σ} {as : List α} (hIs : I s) (hs : Ordered (· ≤ ·) (log s)) :
    Along step (fun s a => ∀ t, step s a = some t → cell s ≤ cell t) s as ↔
      Always step (fun s => Ordered (· ≤ ·) (log s)) s as := by
  symm
  refine always_iff_along hI (fun s a t hIs hs ht => ?_) hIs hs
  have hnext : (∀ t', step s a = some t' → cell s ≤ cell t') ↔ cell s ≤ cell t :=
    ⟨fun h => h t ht, fun h t' ht' => Option.some.inj (ht.symm.trans ht') ▸ h⟩
  rw [hnext, hlog s a t hIs ht, hcell s a t hIs ht]
  cases emit s a with
  | none =>
    rw [Option.toList_none, List.append_nil]
    exact ⟨fun _ => le_refl _, fun _ => hs⟩
  | some e =>
    rw [Option.toList_some, ordered_append_singleton, and_iff_right hs]
    rcases hlast s hIs with ⟨hnil, hbot⟩ | ⟨pre, i, hpre⟩
    · rw [hnil]
      exact ⟨fun _ => hbot e.2, fun _ _ hx => absurd hx List.not_mem_nil⟩
    · rw [hpre] at hs ⊢
      have hle := (ordered_append_singleton.mp hs).2
      constructor
      · intro h
        exact h (i, cell s) (List.mem_append_right _ (List.mem_singleton_self _))
      · intro h x hx
        rcases List.mem_append.mp hx with hx | hx
        · exact (hle x hx).trans h
        · rw [List.mem_singleton.mp hx]
          exact h

/-! ### Entries that need earlier ones -/

section Backed

variable {β : Type*} {J : List β → β → Prop}

/-- Every entry finds what it needs in the log before it. -/
def Backed (J : List β → β → Prop) (log : List β) : Prop :=
  ∀ pre e post, log = pre ++ e :: post → J pre e

theorem backed_nil : Backed J [] :=
  fun _ _ _ h => absurd h.symm (List.append_ne_nil_of_right_ne_nil _ (List.cons_ne_nil _ _))

theorem backed_append_singleton {log : List β} {e : β} :
    Backed J (log ++ [e]) ↔ Backed J log ∧ J log e := by
  refine ⟨fun h => ⟨fun pre x post hlog => ?_, h log e [] rfl⟩, ?_⟩
  · exact h pre x (post ++ [e]) (by rw [hlog, List.append_assoc, List.cons_append])
  · rintro ⟨hlog, he⟩ pre x post heq
    rcases List.eq_nil_or_concat post with rfl | ⟨post, y, rfl⟩
    · obtain ⟨rfl, hx⟩ := List.append_inj' heq rfl
      rw [← List.singleton_inj.mp hx]
      exact he
    · rw [List.concat_eq_append, ← List.cons_append, ← List.append_assoc] at heq
      exact hlog pre x post (List.append_inj' heq rfl).1

/-- **A run keeps its log backed exactly when every entry is backed as it is written.** -/
theorem always_backed_iff {σ α : Type*} {step : σ → α → Option σ} {I : σ → Prop} {log : σ → List β}
    {emit : σ → α → Option β} (hI : ∀ s a t, I s → step s a = some t → I t)
    (hlog : ∀ s a t, I s → step s a = some t → log t = log s ++ (emit s a).toList)
    {s : σ} {as : List α} (hIs : I s) (hs : Backed J (log s)) :
    Always step (fun s => Backed J (log s)) s as ↔
      Along step (fun s a => ∀ e, emit s a = some e → J (log s) e) s as := by
  refine always_iff_along hI (fun s a t hIs hs ht => ?_) hIs hs
  rw [hlog s a t hIs ht]
  cases emit s a with
  | none =>
    rw [Option.toList_none, List.append_nil]
    exact ⟨fun _ => nofun, fun _ => hs⟩
  | some e =>
    rw [Option.toList_some, backed_append_singleton, and_iff_right hs]
    exact ⟨fun h e' he' => Option.some.inj he' ▸ h, fun h => h e rfl⟩

end Backed

end Lts
