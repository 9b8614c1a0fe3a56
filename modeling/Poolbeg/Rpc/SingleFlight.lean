import Mathlib.Data.Set.Finite.Basic
import Poolbeg.Rpc.InFlight

/-!
# One execution a key

Coalescing is there so that one upstream call is made for all concurrent requests of a key. The map
is asked and written in two separate steps, and nothing is checked again in between: two calls that
both find no entry both insert one, and both execute.

## When the promise is kept

While no call inserts over an entry that is there, the entry of a key is the one of the only leader
the key has, and at most one of its calls executes. The condition is about the state a step happens
in, and it is what an atomic insertion under the `DashMap`'s own entry lock would give.

## When it is broken

An insertion over an entry is not always two executions at once: the leader of the overwritten entry
may be past its upstream call. But then it removes the key as it returns, whosever entry is there,
and so takes the younger leader's entry away; the next call finds none and leads beside it. Either
way a continuation in which nobody is cancelled has two calls of the key executing. So the condition
is not only enough but needed, up to what happens next.

## Main definitions

* `CoalescerState.AtMostOne` — at most one call of a key is executing
* `NoOverwrite` — a step does not insert over an entry
* `CoalescerState.Exclusive` — the invariant: whoever holds a sender has the entry of its key

## Main results

* `atMostOne_of_noOverwrite` — one execution a key, along runs that do not overwrite
* `overwrite_executes_twice` — and what follows an overwrite
-/

namespace Poolbeg

open Lts

section SingleFlight

variable {κ τ ρ : Type}

/-- The upstream call of `i` is in flight, and it was made for the key. -/
def CoalescerState.Executing (s : CoalescerState κ τ ρ) (key : κ) (i : ℕ) : Prop :=
  ∃ ch, s.calls i = some ⟨key, .executing ch⟩

/-- No key has two upstream calls in flight. -/
def CoalescerState.AtMostOne (s : CoalescerState κ τ ρ) : Prop :=
  ∀ key i j, s.Executing key i → s.Executing key j → i = j

/-- The key a step inserts, if it does. -/
def CoalescerState.inserts (s : CoalescerState κ τ ρ) : CallAction κ ρ → Option κ
  | .insert i =>
    match s.calls i with
    | some ⟨key, .leading⟩ => some key
    | _ => none
  | _ => none

/-- The step does not insert over an entry. `insert` in the source is not conditional, and nothing
is looked up between the two. -/
def NoOverwrite (s : CoalescerState κ τ ρ) (a : CallAction κ ρ) : Prop :=
  ∀ key ∈ s.inserts a, s.coalescer.inFlight key = none

instance (s : CoalescerState κ τ ρ) (a : CallAction κ ρ) : Decidable (NoOverwrite s a) :=
  inferInstanceAs (Decidable (∀ key ∈ s.inserts a, s.coalescer.inFlight key = none))

/-- Whoever holds a sender has the entry of its key. Since a key has one entry, nobody else of that
key holds one. -/
def CoalescerState.Exclusive (s : CoalescerState κ τ ρ) : Prop :=
  ∀ i key ch, s.holding i = some (key, ch) → s.coalescer.inFlight key = some ch

variable {s t : CoalescerState κ τ ρ} {a : CallAction κ ρ}

theorem CoalescerState.holding_of_executing {i ch : ℕ} {key : κ}
    (h : s.calls i = some ⟨key, .executing ch⟩) : s.holding i = some (key, ch) :=
  CoalescerState.holding_eq h

variable [DecidableEq κ]

/-- A key has one leader. -/
theorem CoalescerState.Exclusive.unique (hs : s.Exclusive) (hacc : s.coalescer.Accounted s.holding)
    {i j ch ch' : ℕ} {key : κ} (hi : s.holding i = some (key, ch))
    (hj : s.holding j = some (key, ch')) : i = j := by
  obtain rfl := Option.some.inj ((hs i key ch hi).symm.trans (hs j key ch' hj))
  exact hacc.holder_unique hi hj

theorem CoalescerState.Exclusive.atMostOne (hs : s.Exclusive)
    (hacc : s.coalescer.Accounted s.holding) : s.AtMostOne := by
  rintro key i j ⟨ch, hi⟩ ⟨ch', hj⟩
  exact hs.unique hacc (CoalescerState.holding_of_executing hi)
    (CoalescerState.holding_of_executing hj)

variable {serialize : ρ → Option τ} {deserialize : τ → Option ρ}

/-! ### Without overwriting -/

omit [DecidableEq κ] in
theorem holding_of_update_none {i j : ℕ} {x : κ × ℕ}
    (h : t.holding = Function.update s.holding i none) (hj : t.holding j = some x) :
    j ≠ i ∧ s.holding j = some x := by
  have hji : j ≠ i := by
    rintro rfl
    rw [h, Function.update_self] at hj
    exact absurd hj (Option.some_ne_none _).symm
  rw [h, Function.update_of_ne hji] at hj
  exact ⟨hji, hj⟩

theorem exclusive_insert {i : ℕ} {key : κ} (hs : s.Exclusive)
    (hentry : s.coalescer.inFlight key = none)
    (hcoalescer : t.coalescer = s.coalescer.insert i key)
    (hholding : t.holding = Function.update s.holding i (some (key, s.coalescer.channels.length))) :
    t.Exclusive := by
  intro j key' ch' hj
  rw [hcoalescer, Coalescer.inFlight_insert, Coalescer.remove_of_none hentry]
  by_cases hji : j = i
  · subst hji
    rw [hholding, Function.update_self] at hj
    cases hj
    rw [Function.update_self]
  · rw [hholding, Function.update_of_ne hji] at hj
    have hkept := hs j key' ch' hj
    have hkey : key' ≠ key := by
      rintro rfl
      exact absurd (hkept.symm.trans hentry) (Option.some_ne_none _)
    rw [Function.update_of_ne hkey]
    exact hkept

theorem inserts_eq {i ch : ℕ} {key : κ}
    (h : coalescerStep serialize deserialize s (.insert i) = some t)
    (hholding : t.holding i = some (key, ch)) : s.inserts (.insert i) = some key := by
  cases callMove h with
  | @insert _ key' hcall =>
    have hi := congrFun (s.holding_advance i key' (.executing s.coalescer.channels.length)) i
    rw [Function.update_self] at hi
    cases hi.symm.trans hholding
    rw [CoalescerState.inserts, hcall]

/-- A step that does not overwrite keeps leaders exclusive. -/
theorem exclusive_step (hacc : s.coalescer.Accounted s.holding) (hs : s.Exclusive)
    (hno : NoOverwrite s a) (h : coalescerStep serialize deserialize s a = some t) :
    t.Exclusive := by
  cases ledgerStep h with
  | quiet hkept hcoalescer hholding =>
    intro i key ch hi
    rw [hcoalescer]
    exact hs i key ch (hholding ▸ hi)
  | send hcall hm hcoalescer hholding =>
    intro i key ch hi
    rw [hcoalescer]
    exact hs i key ch (hholding ▸ hi)
  | @insert i key hi hcoalescer hholding =>
    have hnew : t.holding i = some (key, s.coalescer.channels.length) := by
      rw [hholding, Function.update_self]
    exact exclusive_insert hs (hno key (inserts_eq h hnew)) hcoalescer hholding
  | @finish i key ch hi hcoalescer hholding =>
    intro j key' ch' hj
    obtain ⟨hji, hj⟩ := holding_of_update_none hholding hj
    have hkey : key' ≠ key := by
      rintro rfl
      exact hji (hs.unique hacc hj hi)
    rw [hcoalescer]
    change (s.coalescer.remove key).inFlight key' = some ch'
    rw [Coalescer.inFlight_remove, Function.update_of_ne hkey]
    exact hs j key' ch' hj
  | abandon hcall hcoalescer hholding =>
    intro j key' ch' hj
    rw [hcoalescer]
    exact hs j key' ch' (holding_of_update_none hholding hj).2

omit [DecidableEq κ] in
theorem CoalescerState.exclusive_init : (.init : CoalescerState κ τ ρ).Exclusive :=
  fun _ _ _ hi => absurd hi (Option.some_ne_none _).symm

/-- **At most one call of a key executes**, in every state of a run in which no call inserts over an
entry. Cancellations are allowed; an orphan only makes the later calls wait. -/
theorem atMostOne_of_noOverwrite {as : List (CallAction κ ρ)}
    (h : Along (coalescerStep serialize deserialize) NoOverwrite .init as) :
    Always (coalescerStep serialize deserialize) CoalescerState.AtMostOne .init as := by
  have hinv := Along.always (I := fun s : CoalescerState κ τ ρ =>
      s.coalescer.Accounted s.holding ∧ s.Exclusive) (fun s a t hs hno ht =>
    ⟨accounted_step hs.1 ht, exclusive_step hs.1 hs.2 hno ht⟩)
    ⟨.new, CoalescerState.exclusive_init⟩ h
  exact hinv.mono fun s hs => hs.2.atMostOne hs.1

/-- A client leads, another one waits for it and both get its answer. -/
def coalescedCalls : List (CallAction String JsonRpcResponse) :=
  [.call 0 "poolbeg:1:5d", .lookup 0, .insert 0, .call 1 "poolbeg:1:5d", .lookup 1,
    .upstream 0 (.success (.ofU64 1) (.string "0x10")), .broadcast 0, .remove 0, .recv 1]

theorem coalescedCalls_atMostOne :
    Always (requestCoalescerStep .tree) CoalescerState.AtMostOne .init coalescedCalls :=
  atMostOne_of_noOverwrite (by decide)

/-! ### Overwriting -/

/-- Only finitely many calls have been made. -/
def CoalescerState.FinitelyMany (s : CoalescerState κ τ ρ) : Prop :=
  {n | s.calls n ≠ none}.Finite

theorem finitelyMany_step (hs : s.FinitelyMany)
    (h : coalescerStep serialize deserialize s a = some t) : t.FinitelyMany := by
  refine (hs.insert a.index).subset fun n hn => ?_
  by_cases hna : n = a.index
  · exact .inl hna
  · refine .inr ?_
    rw [Set.mem_ofPred_eq, calls_of_ne h hna] at hn
    exact hn

/-- The steps of a run without cancellation. -/
def Uncancelled (as : List (CallAction κ ρ)) : Prop :=
  ∀ i, .cancel i ∉ as

variable (serialize deserialize) in
/-- A fresh call of a key without an entry leads. -/
theorem run_lead {n : ℕ} {key : κ} (hfresh : s.calls n = none)
    (hentry : s.coalescer.inFlight key = none) :
    ∃ t, run (coalescerStep serialize deserialize) s [.call n key, .lookup n, .insert n] = some t ∧
      t.Executing key n ∧ ∀ j, j ≠ n → t.calls j = s.calls j := by
  let s₁ := s.advance n key .start
  let s₂ := s₁.advance n key .leading
  have h₁ : coalescerStep serialize deserialize s (.call n key) = some s₁ := by
    simp only [coalescerStep, hfresh]
    rfl
  have h₂ : coalescerStep serialize deserialize s₁ (.lookup n) = some s₂ := by
    have hentry₁ : s₁.coalescer.inFlight key = none := hentry
    simp only [coalescerStep, s.calls_advance_self n key .start, s₁, hentry₁]
    rfl
  obtain ⟨t, h₃, hn⟩ : ∃ t, coalescerStep serialize deserialize s₂ (.insert n) = some t ∧
      t.Executing key n := by
    simp only [coalescerStep, s₁.calls_advance_self n key .leading, s₂]
    exact ⟨_, rfl, _, CoalescerState.calls_advance_self _ _ _ _⟩
  refine ⟨t, ?_, hn, fun j hj => ?_⟩
  · rw [run_cons_of_step h₁, run_cons_of_step h₂, run_cons_of_step h₃, run_nil]
  · exact (calls_of_ne h₃ hj).trans ((calls_of_ne h₂ hj).trans (calls_of_ne h₁ hj))

variable (serialize deserialize) in
/-- A leader past its upstream call returns, and no entry of its key is left. -/
theorem run_return {j ch : ℕ} {key : κ} {resp : ρ}
    (hj : s.calls j = some ⟨key, .executed ch resp⟩ ∨ s.calls j = some ⟨key, .sent ch resp⟩) :
    ∃ post t, Uncancelled post ∧ run (coalescerStep serialize deserialize) s post = some t ∧
      t.coalescer.inFlight key = none ∧ ∀ n, n ≠ j → t.calls n = s.calls n := by
  have hremove : ∀ u : CoalescerState κ τ ρ, u.calls j = some ⟨key, .sent ch resp⟩ →
      ∃ t, coalescerStep serialize deserialize u (.remove j) = some t ∧
        t.coalescer.inFlight key = none := by
    intro u hu
    simp only [coalescerStep, hu]
    exact ⟨_, rfl, u.coalescer.inFlight_remove_self key⟩
  rcases hj with hj | hj
  · obtain ⟨u, hu, hsent⟩ : ∃ u, coalescerStep serialize deserialize s (.broadcast j) = some u ∧
        u.calls j = some ⟨key, .sent ch resp⟩ := by
      simp only [coalescerStep, hj]
      cases serialize resp with
      | none => exact ⟨_, rfl, s.calls_advance_self _ _ _⟩
      | some m => exact ⟨_, rfl, s.calls_advance_self _ _ _⟩
    obtain ⟨t, ht, hentry⟩ := hremove u hsent
    refine ⟨[.broadcast j, .remove j], t, fun i => by simp, ?_, hentry, fun n hn => ?_⟩
    · rw [run_cons_of_step hu, run_cons_of_step ht, run_nil]
    · exact (calls_of_ne ht hn).trans (calls_of_ne hu hn)
  · obtain ⟨t, ht, hentry⟩ := hremove s hj
    exact ⟨[.remove j], t, fun i => by simp, run_cons_of_step ht [], hentry,
      fun n hn => calls_of_ne ht hn⟩

variable (serialize deserialize) in
/-- Once the leader of an entry is past its upstream call, it takes the entry of the call executing
beside it away as it returns, and the next call leads. Two calls are then executing, the one beside
it and the new one. -/
theorem executes_twice_of_late {i j ch : ℕ} {key : κ} {resp : ρ} (hfin : s.FinitelyMany)
    (hi : s.Executing key i)
    (hj : s.calls j = some ⟨key, .executed ch resp⟩ ∨ s.calls j = some ⟨key, .sent ch resp⟩) :
    ∃ post t, Uncancelled post ∧ run (coalescerStep serialize deserialize) s post = some t ∧
      ¬ t.AtMostOne := by
  obtain ⟨chi, hi⟩ := hi
  obtain ⟨n, hn⟩ := hfin.exists_notMem
  rw [Set.mem_ofPred_eq, not_not] at hn
  have hij : i ≠ j := by
    rintro rfl
    rcases hj with hj | hj
    · cases hi.symm.trans hj
    · cases hi.symm.trans hj
  have hnj : n ≠ j := by
    rintro rfl
    rcases hj with hj | hj
    · exact absurd (hn.symm.trans hj) (Option.some_ne_none _).symm
    · exact absurd (hn.symm.trans hj) (Option.some_ne_none _).symm
  have hin : i ≠ n := by
    rintro rfl
    exact absurd (hn.symm.trans hi) (Option.some_ne_none _).symm
  obtain ⟨post, u, hpost, hu, hnone, hkept⟩ :=
    run_return serialize deserialize hj
  obtain ⟨t, ht, hnt, hkept'⟩ :=
    run_lead serialize deserialize ((hkept n hnj).trans hn) hnone
  refine ⟨post ++ [.call n key, .lookup n, .insert n], t, fun m => by simp [hpost m], ?_,
    fun hone => ?_⟩
  · rw [run_append, hu, Option.bind_some, ht]
  · have hit : t.calls i = some ⟨key, .executing chi⟩ :=
      (hkept' i hin).trans ((hkept i hij).trans hi)
    exact hin (hone key i n ⟨chi, hit⟩ hnt)

/-- **An insertion over an entry breaks the promise**: some continuation without cancellation has
two calls of the key executing. If the older leader is still executing, nothing more is needed. -/
theorem overwrite_executes_twice (hfin : s.FinitelyMany) (howned : s.coalescer.Owned s.holding)
    {i ch : ℕ} {key : κ} (hi : s.calls i = some ⟨key, .leading⟩)
    (hentry : s.coalescer.inFlight key = some ch) :
    ∃ post t, Uncancelled post ∧
      run (coalescerStep serialize deserialize) s (.insert i :: post) = some t ∧
      ¬ t.AtMostOne := by
  obtain ⟨u, hu, hiu⟩ : ∃ u, coalescerStep serialize deserialize s (.insert i) = some u ∧
      u.Executing key i := by
    simp only [coalescerStep, hi]
    exact ⟨_, rfl, _, s.calls_advance_self _ _ _⟩
  obtain ⟨j, hj⟩ := howned key ch hentry
  obtain ⟨⟨key', phase⟩, hcall, hholding⟩ := Option.bind_eq_some_iff.mp hj
  obtain ⟨ch', hsender, heq⟩ := Option.map_eq_some_iff.mp hholding
  obtain ⟨rfl, rfl⟩ := Prod.mk.inj heq.symm
  have hji : j ≠ i := by
    rintro rfl
    cases hi.symm.trans hcall
    cases hsender
  have hju := (calls_of_ne hu hji).trans hcall
  have hlate : ∀ resp, (u.calls j = some ⟨key, .executed ch resp⟩ ∨
      u.calls j = some ⟨key, .sent ch resp⟩) → ∃ post t, Uncancelled post ∧
        run (coalescerStep serialize deserialize) s (.insert i :: post) = some t ∧
        ¬ t.AtMostOne := by
    intro resp hlate
    obtain ⟨post, t, hpost, ht, htwice⟩ :=
      executes_twice_of_late serialize deserialize (finitelyMany_step hfin hu) hiu hlate
    exact ⟨post, t, hpost, (run_cons_of_step hu post).trans ht, htwice⟩
  cases phase with
  | executing _ =>
    cases hsender
    refine ⟨[], u, fun _ => List.not_mem_nil, run_cons_of_step hu [], fun hone => ?_⟩
    exact hji (hone key j i ⟨ch, hju⟩ hiu)
  | executed _ resp =>
    cases hsender
    exact hlate resp (.inl hju)
  | sent _ resp =>
    cases hsender
    exact hlate resp (.inr hju)
  | start | waiting | leading | returned | cancelled => cases hsender

end SingleFlight

/-! ### Two clients at once -/

/-- Two clients ask for the same while nothing is in flight. -/
def simultaneousCalls : List (CallAction String JsonRpcResponse) :=
  [.call 0 "poolbeg:1:5d", .call 1 "poolbeg:1:5d", .lookup 0, .lookup 1, .insert 0, .insert 1]

/-- Neither of them finds the other, and both execute. -/
theorem simultaneousCalls_execute_twice :
    Uncancelled simultaneousCalls ∧
      ∃ s, run (requestCoalescerStep .tree) .init simultaneousCalls = some s ∧
        ¬ s.AtMostOne := by
  refine ⟨fun i => by simp [simultaneousCalls], _, rfl, fun hone => ?_⟩
  exact absurd (hone "poolbeg:1:5d" 0 1 ⟨0, rfl⟩ ⟨1, rfl⟩) Nat.zero_ne_one

end Poolbeg
