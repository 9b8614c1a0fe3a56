import Mathlib.Algebra.Order.Field.Basic
import Mathlib.Algebra.Order.Ring.Cast
import Mathlib.Data.List.Infix
import Mathlib.Tactic.Linarith
import Mathlib.Tactic.Ring

/-!
# Token buckets

A bucket of capacity `b` that is refilled at rate `r`: it starts full, never holds more than `b`,
and every event takes a token out of it, whether there is one or not. The events are a list of times
in their order.

## Two readings of a limit

One looks at every interval: it may hold `b` events and `r` more for every unit of its length
(`Conforms`). The other follows the bucket: every event finds a whole token. They come to the same.
`conforms_concat` is the step between them, for the next event of a list, and rests on
`le_level_iff`: what is in a bucket is decided by the intervals that end now. So a bucket, which is
two numbers, knows of all events so far what a limit on intervals has to know.

## Implementation notes

Tokens and times are elements of an ordered field, and the arithmetic is exact. A bucket may go
below zero here, since an event takes its token in any case; whoever turns events away leaves them
out of the list.

## Main definitions

* `TokenBucket`, `TokenBucket.level`, `TokenBucket.charge` — a bucket, what is in it, taking a token
* `levelAfter` — what is in the bucket after a list of events
* `Conforms` — every interval holds as many events as it may

## Main results

* `level_level` — looking at a bucket in between changes nothing
* `le_level_iff` — what is in a bucket, by the intervals that end now
* `conforms_concat` — the next event keeps the limit exactly when it finds a whole token
-/

variable {K : Type*} [Field K] [LinearOrder K]

/-- What a bucket held when it was last looked at. What it holds later follows from this alone. -/
structure TokenBucket (K : Type*) where
  tokens : K
  last : K

namespace TokenBucket

variable (b r : K)

/-- A bucket that is full, as every one is at the start. -/
def full (start : K) : TokenBucket K := ⟨b, start⟩

/-- What is in the bucket later on: what was there and what has been refilled since, up to the
capacity. It may be negative, if more has been taken than there was. -/
def level (bucket : TokenBucket K) (now : K) : K := min (bucket.tokens + r * (now - bucket.last)) b

/-- A token is taken. -/
def charge (bucket : TokenBucket K) (now : K) : TokenBucket K := ⟨bucket.level b r now - 1, now⟩

/-- What is left after a list of events. Every event takes a token, whether there is one or not, so
this is a bucket of events that have been let through. -/
def after (start : K) (log : List K) : TokenBucket K := log.foldl (charge b r) (full b start)

/-- What is in the bucket some time after a list of events. -/
def levelAfter (start : K) (log : List K) (now : K) : K := (after b r start log).level b r now

/-- **Every interval holds as many events as it may**: `b`, and `r` more for every unit of its
length. -/
def Conforms (log : List K) : Prop :=
  ∀ since upto, since ≤ upto →
    ((log.filter fun t => since ≤ t ∧ t ≤ upto).length : K) ≤ b + r * (upto - since)

variable {b r} {start now later t : K} {log : List K}

theorem after_concat (start : K) (log : List K) (t : K) :
    after b r start (log ++ [t]) = (after b r start log).charge b r t := by
  rw [after, List.foldl_append]
  rfl

theorem level_charge (bucket : TokenBucket K) (t now : K) :
    (bucket.charge b r t).level b r now = min (bucket.level b r t - 1 + r * (now - t)) b := rfl

theorem levelAfter_concat (start : K) (log : List K) (t now : K) :
    levelAfter b r start (log ++ [t]) now =
      min (levelAfter b r start log t - 1 + r * (now - t)) b := by
  rw [levelAfter, after_concat, level_charge]
  rfl

variable [IsStrictOrderedRing K]

/-- **Asking changes nothing**: the level later is the one it would have been. -/
theorem level_level (hr : 0 ≤ r) (bucket : TokenBucket K) (h : now ≤ later) :
    (⟨bucket.level b r now, now⟩ : TokenBucket K).level b r later = bucket.level b r later := by
  have hgain : 0 ≤ r * (later - now) := mul_nonneg hr (sub_nonneg.mpr h)
  have hsplit : bucket.tokens + r * (later - bucket.last) =
      bucket.tokens + r * (now - bucket.last) + r * (later - now) := by ring
  rw [level, level, level, hsplit]
  rcases le_total (bucket.tokens + r * (now - bucket.last)) b with hle | hle
  · rw [min_eq_left hle]
  · rw [min_eq_right hle, min_eq_right (by linarith), min_eq_right (by linarith)]

/-- A full bucket stays full. -/
theorem levelAfter_nil (hr : 0 ≤ r) (h : start ≤ now) : levelAfter b r start [] now = b := by
  have hgain : 0 ≤ r * (now - start) := mul_nonneg hr (sub_nonneg.mpr h)
  rw [levelAfter, after, List.foldl_nil, full, level]
  exact min_eq_right (by linarith)

/-- **What is in the bucket is decided by the intervals that end now.** There is room for `x` tokens
below the capacity, and the events from any one on leave room for them, too. The induction is on the
list from its end. -/
theorem le_level_iff (hr : 0 ≤ r) {x : K} (hstart : start ≤ now) (hsorted : log.Pairwise (· ≤ ·))
    (hlog : ∀ t ∈ log, start ≤ t ∧ t ≤ now) :
    x ≤ levelAfter b r start log now ↔ x ≤ b ∧ ∀ pre t post, log = pre ++ t :: post →
      x + (post.length + 1) ≤ b + r * (now - t) := by
  induction log using List.reverseRecOn generalizing x now with
  | nil =>
    rw [levelAfter_nil hr hstart]
    refine ⟨fun hx => ⟨hx, fun pre t post heq => ?_⟩, fun h => h.1⟩
    exact absurd heq.symm (List.append_ne_nil_of_right_ne_nil _ (List.cons_ne_nil _ _))
  | append_singleton log s ih =>
    obtain ⟨hsorted, -, hle⟩ := List.pairwise_append.mp hsorted
    have hs := hlog s (List.mem_append_right _ (List.mem_singleton_self s))
    have hlog' : ∀ t ∈ log, start ≤ t ∧ t ≤ s := fun t ht =>
      ⟨(hlog t (List.mem_append_left _ ht)).1, hle t ht s (List.mem_singleton_self s)⟩
    have hshift : x ≤ levelAfter b r start log s - 1 + r * (now - s) ↔
        x + 1 - r * (now - s) ≤ levelAfter b r start log s := by
      constructor <;> intro h <;> linarith
    rw [levelAfter_concat, le_min_iff, hshift, ih hs.1 hsorted hlog']
    constructor
    · rintro ⟨⟨hlast, hearlier⟩, hx⟩
      refine ⟨hx, fun pre t post heq => ?_⟩
      rcases List.eq_nil_or_concat' post with rfl | ⟨post, y, rfl⟩
      · obtain ⟨-, hts⟩ := List.append_inj' heq rfl
        rw [← List.singleton_inj.mp hts, List.length_nil, Nat.cast_zero]
        linarith
      · rw [← List.cons_append, ← List.append_assoc] at heq
        have hbefore := hearlier pre t post (List.append_inj' heq rfl).1
        have hsplit : r * (now - t) = r * (s - t) + r * (now - s) := by ring
        rw [List.length_append, List.length_singleton, Nat.cast_add, Nat.cast_one, hsplit]
        linarith
    · rintro ⟨hx, h⟩
      refine ⟨⟨?_, fun pre t post heq => ?_⟩, hx⟩
      · have hlast := h log s [] rfl
        rw [List.length_nil, Nat.cast_zero] at hlast
        linarith
      · have hlast := h pre t (post ++ [s]) (by rw [heq, List.append_assoc, List.cons_append])
        have hsplit : r * (now - t) = r * (s - t) + r * (now - s) := by ring
        rw [List.length_append, List.length_singleton, Nat.cast_add, Nat.cast_one, hsplit] at hlast
        linarith

/-! ### Intervals -/

omit [Field K] [IsStrictOrderedRing K] in
/-- Events that lie in an interval are counted in it. The events from one place of the list to
another are such. -/
theorem length_le_filter {sub log : List K} {since upto : K} (hsub : sub.Sublist log)
    (h : ∀ t ∈ sub, since ≤ t ∧ t ≤ upto) :
    sub.length ≤ (log.filter fun t => since ≤ t ∧ t ≤ upto).length := by
  have hself : (sub.filter fun t => since ≤ t ∧ t ≤ upto) = sub :=
    List.filter_eq_self.mpr fun t ht => decide_eq_true (h t ht)
  rw [← hself]
  exact (hsub.filter _).length_le

omit [Field K] [IsStrictOrderedRing K] in
/-- The events from a time on, if there are any, are those from the first of them on. -/
theorem split_at_since (log : List K) (since : K) :
    (∀ t ∈ log, t < since) ∨
      ∃ pre t post, log = pre ++ t :: post ∧ since ≤ t ∧ ∀ x ∈ pre, x < since := by
  induction log with
  | nil => exact .inl fun _ h => absurd h List.not_mem_nil
  | cons t log ih =>
    rcases le_or_gt since t with ht | ht
    · exact .inr ⟨[], t, log, rfl, ht, fun _ h => absurd h List.not_mem_nil⟩
    · rcases ih with hall | ⟨pre, s, post, rfl, hs, hpre⟩
      · exact .inl (List.forall_mem_cons.mpr ⟨ht, hall⟩)
      · exact .inr ⟨t :: pre, s, post, rfl, hs, List.forall_mem_cons.mpr ⟨ht, hpre⟩⟩

theorem Conforms.of_sublist {log' : List K} (h : Conforms b r log) (hsub : log'.Sublist log) :
    Conforms b r log' := by
  intro since upto hle
  have hcount : ((log'.filter fun t => since ≤ t ∧ t ≤ upto).length : K) ≤
      (log.filter fun t => since ≤ t ∧ t ≤ upto).length :=
    Nat.cast_le.mpr (hsub.filter _).length_le
  exact hcount.trans (h since upto hle)

theorem conforms_nil (hb : 0 ≤ b) (hr : 0 ≤ r) : Conforms b r ([] : List K) := by
  intro since upto hle
  have hgain : 0 ≤ r * (upto - since) := mul_nonneg hr (sub_nonneg.mpr hle)
  rw [List.filter_nil, List.length_nil, Nat.cast_zero]
  linarith

/-- The interval that is the moment of an event shows that the capacity is one at least. -/
theorem Conforms.one_le (h : Conforms b r (log ++ [t])) : 1 ≤ b := by
  have hcount := length_le_filter (List.sublist_append_right log [t])
    (fun x hx => by rw [List.mem_singleton.mp hx]; exact ⟨le_refl t, le_refl t⟩)
  have hwindow := (Nat.cast_le.mpr hcount).trans (h t t (le_refl t))
  rw [List.length_singleton, Nat.cast_one, sub_self, mul_zero, add_zero] at hwindow
  exact hwindow

/-- The interval from an earlier event to the last one. -/
theorem Conforms.length_le {pre post : List K} {s : K}
    (h : Conforms b r (pre ++ s :: post ++ [t]))
    (hsorted : (pre ++ s :: post ++ [t]).Pairwise (· ≤ ·)) :
    1 + ((post.length : K) + 1) ≤ b + r * (t - s) := by
  obtain ⟨hbefore, -, hle⟩ := List.pairwise_append.mp hsorted
  have hle : ∀ x ∈ pre ++ s :: post, x ≤ t := fun x hx => hle x hx t (List.mem_singleton_self t)
  have hs : s ≤ t := hle s (List.mem_append_right _ List.mem_cons_self)
  have hpost : ∀ x ∈ s :: post ++ [t], s ≤ x ∧ x ≤ t := by
    intro x hx
    rcases List.mem_append.mp hx with hx | hx
    · refine ⟨?_, hle x (List.mem_append_right _ hx)⟩
      rcases List.mem_cons.mp hx with rfl | hx
      · exact le_refl x
      · exact (List.pairwise_cons.mp (List.pairwise_append.mp hbefore).2.1).1 x hx
    · rw [List.mem_singleton.mp hx]
      exact ⟨hs, le_refl t⟩
  have hsub : (s :: post ++ [t]).Sublist (pre ++ s :: post ++ [t]) :=
    (List.sublist_append_right pre (s :: post)).append_right [t]
  have hwindow := (Nat.cast_le.mpr (length_le_filter hsub hpost)).trans (h s t hs)
  rw [List.length_append, List.length_cons, List.length_singleton] at hwindow
  push_cast at hwindow
  linarith

/-- Any interval with the last event in it is no wider than one that begins with an event, unless it
has no other event in it. -/
theorem Conforms.concat (h : Conforms b r log) (hr : 0 ≤ r) (hone : 1 ≤ b)
    (hsplits : ∀ pre s post, log = pre ++ s :: post →
      1 + ((post.length : K) + 1) ≤ b + r * (t - s)) : Conforms b r (log ++ [t]) := by
  intro since upto hwindow
  have hgain : 0 ≤ r * (upto - since) := mul_nonneg hr (sub_nonneg.mpr hwindow)
  rw [List.filter_append]
  by_cases hin : since ≤ t ∧ t ≤ upto
  · have hself : ([t].filter fun x => since ≤ x ∧ x ≤ upto) = [t] := by simp [hin]
    rw [hself, List.length_append, List.length_singleton, Nat.cast_add, Nat.cast_one]
    rcases split_at_since log since with hnone | ⟨pre, s, post, rfl, hs, hpre⟩
    · have hnil : (log.filter fun x => since ≤ x ∧ x ≤ upto) = [] :=
        List.filter_eq_nil_iff.mpr fun x hx => by simp [hnone x hx]
      rw [hnil, List.length_nil, Nat.cast_zero]
      linarith
    · have hnil : (pre.filter fun x => since ≤ x ∧ x ≤ upto) = [] :=
        List.filter_eq_nil_iff.mpr fun x hx => by simp [hpre x hx]
      have hcount : (((pre ++ s :: post).filter fun x => since ≤ x ∧ x ≤ upto).length : K) ≤
          post.length + 1 := by
        rw [List.filter_append, hnil, List.nil_append]
        exact_mod_cast List.length_filter_le _ (s :: post)
      have hsplit := hsplits pre s post rfl
      have hmono : r * (t - s) ≤ r * (upto - since) :=
        mul_le_mul_of_nonneg_left (by linarith [hin.2]) hr
      linarith
  · have hnone : ([t].filter fun x => since ≤ x ∧ x ≤ upto) = [] := by simpa using hin
    rw [hnone, List.append_nil]
    exact h since upto hwindow

/-- **The next event keeps every interval within the limit exactly when it finds a whole token.**
This is what makes a bucket a limiter: it knows what there is to know of the past. -/
theorem conforms_concat (hr : 0 ≤ r) (hsorted : (log ++ [t]).Pairwise (· ≤ ·))
    (hlog : ∀ x ∈ log ++ [t], start ≤ x) :
    Conforms b r (log ++ [t]) ↔ Conforms b r log ∧ 1 ≤ levelAfter b r start log t := by
  obtain ⟨hbefore, -, hle⟩ := List.pairwise_append.mp hsorted
  have hstart := hlog t (List.mem_append_right _ (List.mem_singleton_self t))
  rw [le_level_iff hr hstart hbefore fun x hx =>
    ⟨hlog x (List.mem_append_left _ hx), hle x hx t (List.mem_singleton_self t)⟩]
  constructor
  · intro h
    refine ⟨h.of_sublist (List.sublist_append_left _ _), h.one_le, fun pre s post heq => ?_⟩
    rw [heq] at h hsorted
    exact h.length_le hsorted
  · rintro ⟨hconforms, hone, hsplits⟩
    exact hconforms.concat hr hone hsplits

end TokenBucket
