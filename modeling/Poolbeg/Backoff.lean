import Mathlib.Algebra.Group.Nat.Defs
import Mathlib.Data.List.Chain
import Mathlib.Order.MinMax

/-!
# Waiting between attempts

After every attempt there is a wait. It doubles from one attempt to the next, up to a cap, and an
attempt that goes well sets it back to where it began before it is waited out.

What is waited after an attempt is decided by how many attempts there have been since the last one
that went well (`waitAfter_eq`). That one counts too, since the wait is doubled after it has been
waited out, whether the attempt went well or badly.

The cap does not get in the way of the doubling: doubling what is capped and capping it again is
capping what would have been doubled without it, and so the wait after `k` attempts is `base * 2 ^
k` or the cap, whichever is less.

## Main definitions

* `Backoff.waitOf`, `Backoff.next` — one attempt
* `Backoff.waitAfter`, `Backoff.streak` — a list of them

## Main results

* `Backoff.waitAfter_eq` — the wait, by the attempts since the last that went well
* `Backoff.length_le_of_apart` — attempts that are apart are few in any interval
-/

namespace Backoff

variable (base cap : ℕ)

/-- The wait after an attempt; `wait` is what it would be if the attempt went badly. After one that
went well it is the first one again. -/
def waitOf (wait : ℕ) (good : Bool) : ℕ := if good then base else wait

/-- The wait that the next attempt begins with. It is doubled in either case, after it has been
waited out. -/
def next (wait : ℕ) (good : Bool) : ℕ := min (waitOf base wait good * 2) cap

/-- The wait that the attempt after these begins with. -/
def waitAfter (outcomes : List Bool) : ℕ := outcomes.foldl (next base cap) base

/-- How many attempts there have been since the last one that went well, with that one. If none did,
it is how many there have been. -/
def streak (outcomes : List Bool) : ℕ :=
  outcomes.foldl (fun n good => if good then 1 else n + 1) 0

variable {base cap}

theorem waitAfter_concat (outcomes : List Bool) (good : Bool) :
    waitAfter base cap (outcomes ++ [good]) =
      next base cap (waitAfter base cap outcomes) good := by
  rw [waitAfter, List.foldl_append]
  rfl

theorem streak_concat (outcomes : List Bool) (good : Bool) :
    streak (outcomes ++ [good]) = if good then 1 else streak outcomes + 1 := by
  rw [streak, List.foldl_append]
  rfl

/-- **What is waited after so many attempts in a row**: twice as much for each of them, up to the
cap. -/
theorem waitAfter_eq (hcap : base ≤ cap) (outcomes : List Bool) :
    waitAfter base cap outcomes = min (base * 2 ^ streak outcomes) cap := by
  induction outcomes using List.reverseRecOn with
  | nil =>
    change base = min (base * 2 ^ 0) cap
    omega
  | append_singleton outcomes good ih =>
    rw [waitAfter_concat, streak_concat, next, waitOf]
    cases good with
    | true => simp
    | false =>
      rw [if_neg Bool.false_ne_true, if_neg Bool.false_ne_true, ih, Nat.pow_succ, ← Nat.mul_assoc]
      omega

/-- A wait is never shorter than the first one. -/
theorem base_le_waitAfter (hcap : base ≤ cap) (outcomes : List Bool) :
    base ≤ waitAfter base cap outcomes := by
  rw [waitAfter_eq hcap]
  exact le_min (Nat.le_mul_of_pos_right _ (Nat.two_pow_pos _)) hcap

/-- **What is apart is rare.** Times of which each is so far from the one before are few in any
interval, one more at most than fit into its length. -/
theorem length_le_of_apart {apart since upto : ℕ} {times : List ℕ}
    (h : times.Pairwise fun a b => a + apart ≤ b) (hle : since ≤ upto)
    (hwithin : ∀ t ∈ times, since ≤ t ∧ t ≤ upto) :
    times.length * apart ≤ upto - since + apart := by
  induction times generalizing since with
  | nil => simp
  | cons t times ih =>
    obtain ⟨hfirst, hrest⟩ := List.pairwise_cons.mp h
    obtain ⟨⟨hsince, hupto⟩, hwithin⟩ := List.forall_mem_cons.mp hwithin
    cases times with
    | nil => simp
    | cons t' times =>
      have hnext := hfirst t' List.mem_cons_self
      have hall : t + apart ≤ upto := hnext.trans (hwithin t' List.mem_cons_self).2
      have hbound := ih hrest hall fun x hx => ⟨hfirst x hx, (hwithin x hx).2⟩
      rw [List.length_cons, Nat.succ_mul]
      omega

end Backoff
