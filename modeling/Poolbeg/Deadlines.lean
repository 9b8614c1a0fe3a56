import Poolbeg.Lts

/-!
# Time with deadlines

A transition system whose steps take no time, and a clock that moves in between. A step may set a
deadline under a key or clear it, and time passes only as far as no deadline is overrun: who sets
one relies on something clearing it before it is too late.

Leaving the waits out of a timed run gives a run of the system without time. So everything that is
known of the system without time is known of the timed one, and only what speaks of the clock has to
be shown anew.

## Deadlines that stop the clock

That time does not pass a deadline is an assumption about the environment, put into the steps: it
says that whatever clears a deadline is done in time. A deadline that nothing can clear would stop
the clock for good, and then statements about later times would hold for want of any. `exists_wait`
says that this is not so where every deadline can be cleared: time can pass as far as one likes.

## Main definitions

* `Lts.DeadlineEffect` — what a step does to the deadlines
* `Lts.Clocked`, `Lts.timedStep` — the timed system
* `Lts.untimed` — a run without its waits

## Main results

* `Lts.run_untimed` — a timed run is one of the system
* `Lts.inTime_run` — no deadline is overrun
* `Lts.exists_wait` — time can always pass, if every deadline can be cleared
-/

namespace Lts

variable {σ α κ : Type*}

/-- What a step does to the deadlines. A deadline is set by how long after the step it is, so that a
step need not know the time. -/
inductive DeadlineEffect (κ : Type*)
  | keep
  | clear (k : κ)
  | set (k : κ) (after : ℕ)

/-- A state with a clock and the deadlines that are set, each under its key. Time is counted in
whole units from the start. -/
structure Clocked (σ κ : Type*) where
  state : σ
  clock : ℕ
  deadlines : List (κ × ℕ)

/-- No deadline is set. -/
def Clocked.start (s : σ) : Clocked σ κ := ⟨s, 0, []⟩

/-- A step of the system, or a wait. -/
inductive TimedLabel (α : Type*)
  | act (a : α)
  | wait (d : ℕ)

/-- The steps without the waits. They are what the system without time sees of a timed run. -/
def untimed : List (TimedLabel α) → List α
  | [] => []
  | .act a :: as => a :: untimed as
  | .wait _ :: as => untimed as

variable [DecidableEq κ]

/-- The deadlines after a step. There is at most one under a key: a new one takes the place of what
was there. -/
def DeadlineEffect.apply (clock : ℕ) : DeadlineEffect κ → List (κ × ℕ) → List (κ × ℕ)
  | keep, ds => ds
  | clear k, ds => ds.filter (·.1 ≠ k)
  | set k after, ds => (k, clock + after) :: ds.filter (·.1 ≠ k)

variable {step : σ → α → Option σ} {effect : σ → α → DeadlineEffect κ}

/-- A step at the present time, or a wait that overruns no deadline. Steps are not held up by
deadlines; only the clock is. -/
def timedStep (step : σ → α → Option σ) (effect : σ → α → DeadlineEffect κ) (s : Clocked σ κ) :
    TimedLabel α → Option (Clocked σ κ)
  | .act a => (step s.state a).map fun t =>
      ⟨t, s.clock, (effect s.state a).apply s.clock s.deadlines⟩
  | .wait d =>
    if ∀ e ∈ s.deadlines, s.clock + d ≤ e.2 then some { s with clock := s.clock + d } else none

/-- The steps by what enables them. Proofs about a timed run go by these two cases. -/
inductive TimedMove (step : σ → α → Option σ) (effect : σ → α → DeadlineEffect κ)
    (s : Clocked σ κ) : TimedLabel α → Clocked σ κ → Prop
  | act {a : α} {t : σ} (h : step s.state a = some t) :
      TimedMove step effect s (.act a)
        ⟨t, s.clock, (effect s.state a).apply s.clock s.deadlines⟩
  | wait {d : ℕ} (h : ∀ e ∈ s.deadlines, s.clock + d ≤ e.2) :
      TimedMove step effect s (.wait d) { s with clock := s.clock + d }

variable {s t : Clocked σ κ} {l : TimedLabel α} {as : List (TimedLabel α)}

theorem timedMove (h : timedStep step effect s l = some t) : TimedMove step effect s l t := by
  cases l with
  | act a =>
    obtain ⟨u, hu, rfl⟩ := Option.map_eq_some_iff.mp h
    exact .act hu
  | wait d =>
    rw [timedStep, Option.ite_none_right_eq_some] at h
    obtain ⟨hwait, h⟩ := h
    exact Option.some.inj h ▸ .wait hwait

omit [DecidableEq κ] in
theorem untimed_append (as bs : List (TimedLabel α)) :
    untimed (as ++ bs) = untimed as ++ untimed bs := by
  induction as with
  | nil => rfl
  | cons l as ih => cases l <;> simp [untimed, ih]

/-- **What a timed run does to the state, a run without time does.** -/
theorem run_untimed (hrun : run (timedStep step effect) s as = some t) :
    run step s.state (untimed as) = some t.state := by
  induction as generalizing s with
  | nil =>
    obtain rfl := Option.some.inj hrun
    rfl
  | cons l as ih =>
    obtain ⟨u, hu, hrest⟩ := run_cons_eq_some.mp hrun
    cases timedMove hu with
    | act h => exact (run_cons_of_step h _).trans (ih hrest)
    | @wait d h => exact ih (s := { s with clock := s.clock + d }) hrest

/-! ### The deadlines -/

theorem DeadlineEffect.mem_apply {e : DeadlineEffect κ} {clock : ℕ} {ds : List (κ × ℕ)}
    {x : κ × ℕ} (h : x ∈ e.apply clock ds) :
    x ∈ ds ∨ ∃ after, e = .set x.1 after ∧ x.2 = clock + after := by
  cases e with
  | keep => exact .inl h
  | clear k => exact .inl (List.mem_of_mem_filter h)
  | set k after =>
    rcases List.mem_cons.mp h with rfl | h
    · exact .inr ⟨after, rfl, rfl⟩
    · exact .inl (List.mem_of_mem_filter h)

/-- A step keeps the deadlines under other keys, so whoever has set one can count on it until
something clears it. -/
theorem DeadlineEffect.mem_apply_of_mem {e : DeadlineEffect κ} {clock : ℕ} {ds : List (κ × ℕ)}
    {x : κ × ℕ} (h : x ∈ ds) (hclear : e ≠ .clear x.1) (hset : ∀ after, e ≠ .set x.1 after) :
    x ∈ e.apply clock ds := by
  cases e with
  | keep => exact h
  | clear k => exact List.mem_filter.mpr ⟨h, decide_eq_true fun hk => hclear (hk ▸ rfl)⟩
  | set k after =>
    refine List.mem_cons_of_mem _ (List.mem_filter.mpr ⟨h, decide_eq_true fun hk => ?_⟩)
    exact hset after (hk ▸ rfl)

/-- No deadline is overrun: every one that is set is now or later. -/
def Clocked.InTime (s : Clocked σ κ) : Prop := ∀ e ∈ s.deadlines, s.clock ≤ e.2

/-- A new deadline is not overrun, and a wait overruns none. -/
theorem inTime_step (hs : s.InTime) (h : timedStep step effect s l = some t) : t.InTime := by
  intro e he
  cases timedMove h with
  | act h =>
    rcases DeadlineEffect.mem_apply he with hold | ⟨after, -, hnew⟩
    · exact hs e hold
    · exact hnew ▸ Nat.le_add_right _ _
  | wait hwait => exact hwait e he

theorem inTime_run {s₀ : σ} (hrun : run (timedStep step effect) (.start s₀) as = some s) :
    s.InTime :=
  run_inv (I := Clocked.InTime) (fun _ _ _ hu hv => inTime_step hu hv)
    (fun _ he => absurd he List.not_mem_nil) hrun

/-- **Time can always pass**, if there is for each deadline a step that clears it. All of them are
cleared first, one after the other, and then nothing is in the way. -/
theorem exists_wait (hclear : ∀ s k, ∃ a t, step s a = some t ∧ effect s a = .clear k)
    (s : Clocked σ κ) (d : ℕ) :
    ∃ as t, run (timedStep step effect) s as = some t ∧ t.clock = s.clock + d := by
  obtain ⟨s, clock, ds⟩ := s
  induction hn : ds.length using Nat.strong_induction_on generalizing s ds with
  | _ n ih =>
    cases ds with
    | nil =>
      refine ⟨[.wait d], ⟨s, clock + d, []⟩, ?_, rfl⟩
      rw [run_cons, timedStep, if_pos fun _ he => absurd he List.not_mem_nil]
      rfl
    | cons x ds =>
      obtain ⟨a, u, hu, heffect⟩ := hclear s x.1
      have hcleared : (effect s a).apply clock (x :: ds) = ds.filter (·.1 ≠ x.1) := by
        rw [heffect, DeadlineEffect.apply, List.filter_cons_of_neg (by simp)]
      have hlt : (ds.filter (·.1 ≠ x.1)).length < n :=
        hn ▸ Nat.lt_succ_of_le (List.length_filter_le _ _)
      obtain ⟨as, t, hrun, hclock⟩ := ih _ hlt u _ rfl
      refine ⟨.act a :: as, t, ?_, hclock⟩
      rw [run_cons, timedStep, hu, Option.map_some, Option.bind_some]
      exact hcleared ▸ hrun

end Lts
