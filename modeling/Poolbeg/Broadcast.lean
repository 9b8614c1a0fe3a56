import Mathlib.Data.List.Infix

/-!
# Broadcast channels that overwrite

A broadcast channel keeps the last `capacity` values in a ring and never makes the sender wait. A
receiver has a position of its own. If the value there has been overwritten, the receiver is told
how many values it missed and is put at the oldest one that is still held.

## The channel is a parameter

A program sees of such a channel only its operations, so these are a parameter: `Channel` is what
can be done with one, and `Documented` what its documentation promises, in terms of two things that
the channel does not show, namely all values that were ever sent on it and the position of a
receiver among them. `RingBuffer` is a channel that keeps these promises, so there is one.

Nothing is promised about a receiver that has found nothing, and nothing about two receivers at
once: each has a position, and receiving moves no other.

## What a receiver can rely on

`Reads` is what follows. What a receiver got is in order and without repetition, every value it
passed was either got or counted as missed, and the last `capacity` values are never among the
missed ones. It is stated from any position on, so that a part of a receiver's life can be looked at
on its own.

## Main definitions

* `Broadcast.Channel`, `Broadcast.Documented` — the operations and the promises
* `Broadcast.RingBuffer`, `Broadcast.RingBuffer.documented` — a channel that keeps them
* `Broadcast.Reads` — what was got and what was missed

## Main results

* `Broadcast.Documented.recv_message`, `Broadcast.Documented.recv_lagged` — the promises read
  backwards, from what `recv` returned
* `Broadcast.Reads.send`, `Broadcast.Reads.message`, `Broadcast.Reads.lagged` — what a step does to
  what a receiver can rely on
* `Broadcast.Reads.got_of_unmissed` — nothing missed is everything got
-/

namespace Broadcast

/-! ### Channels -/

/-- What `recv` returns: a value, the number of values that were overwritten before they were
received, that all senders are gone and nothing is left, or nothing yet. -/
inductive Received (α : Type*)
  | message (a : α)
  | lagged (missed : ℕ)
  | closed
  | pending

/-- A broadcast channel as a program uses it. `Shared` is what the senders and receivers share, and
`recv` moves a receiver on. -/
structure Channel (α : Type) where
  Shared : Type
  Receiver : Type
  isOpen : Shared → Bool
  send : Shared → α → Shared
  close : Shared → Shared
  subscribe : Shared → Receiver
  recv : Shared → Receiver → Received α × Receiver

/-- What the documentation of a channel that holds `capacity` values promises. `sent` is all that
was ever sent on the channel, in order, and `position` how many of these values are behind a
receiver.

A new receiver gets what is sent from then on. A receiver gets the value at its position, unless
more than `capacity` values are waiting for it: then the oldest ones have been overwritten, it is
told how many, and it is put at the oldest one still held. A receiver with nothing waiting for it
waits, or is told that the channel is closed. -/
structure Documented {α : Type} (channel : Channel α) (capacity : ℕ) where
  sent : channel.Shared → List α
  position : channel.Receiver → ℕ
  sent_send : ∀ s a, sent (channel.send s a) = sent s ++ [a]
  sent_close : ∀ s, sent (channel.close s) = sent s
  position_subscribe : ∀ s, position (channel.subscribe s) = (sent s).length
  recv_held : ∀ s r a, (sent s).length ≤ position r + capacity → (sent s)[position r]? = some a →
    ∃ r', channel.recv s r = (.message a, r') ∧ position r' = position r + 1
  recv_overwritten : ∀ s r, position r + capacity < (sent s).length →
    ∃ r', channel.recv s r = (.lagged ((sent s).length - capacity - position r), r') ∧
      position r' = (sent s).length - capacity
  recv_passed : ∀ s r, (sent s).length ≤ position r →
    (channel.recv s r).1 = if channel.isOpen s then .pending else .closed

section Documented

variable {α : Type} {channel : Channel α} {capacity k : ℕ} {s : channel.Shared}
  {r r' : channel.Receiver} {a : α}

/-- A value that was received is the one at the receiver's position, and was still held. -/
theorem Documented.recv_message (law : Documented channel capacity)
    (h : channel.recv s r = (.message a, r')) :
    (law.sent s).length ≤ law.position r + capacity ∧
      (law.sent s)[law.position r]? = some a ∧ law.position r' = law.position r + 1 := by
  rcases le_or_gt (law.sent s).length (law.position r + capacity) with hle | hlt
  · rcases hb : (law.sent s)[law.position r]? with _ | b
    · have hpassed := law.recv_passed s r (List.getElem?_eq_none_iff.mp hb)
      rw [h] at hpassed
      split at hpassed <;> cases hpassed
    · obtain ⟨q, hrecv, hposition⟩ := law.recv_held s r b hle hb
      obtain ⟨hab, rfl⟩ := Prod.mk.inj (h.symm.trans hrecv)
      cases hab
      exact ⟨hle, rfl, hposition⟩
  · obtain ⟨q, hrecv, -⟩ := law.recv_overwritten s r hlt
    cases h.symm.trans hrecv

/-- A receiver that is told it lagged had more than `capacity` values waiting for it, and passes as
many as it is told. -/
theorem Documented.recv_lagged (law : Documented channel capacity)
    (h : channel.recv s r = (.lagged k, r')) :
    law.position r + capacity < (law.sent s).length ∧
      law.position r' = (law.sent s).length - capacity ∧ law.position r + k = law.position r' := by
  rcases le_or_gt (law.sent s).length (law.position r + capacity) with hle | hlt
  · rcases hb : (law.sent s)[law.position r]? with _ | b
    · have hpassed := law.recv_passed s r (List.getElem?_eq_none_iff.mp hb)
      rw [h] at hpassed
      split at hpassed <;> cases hpassed
    · obtain ⟨q, hrecv, -⟩ := law.recv_held s r b hle hb
      cases h.symm.trans hrecv
  · obtain ⟨q, hrecv, hposition⟩ := law.recv_overwritten s r hlt
    obtain ⟨hk, rfl⟩ := Prod.mk.inj (h.symm.trans hrecv)
    cases hk
    exact ⟨hlt, hposition, by omega⟩

end Documented

/-! ### A ring -/

/-- A channel by what was sent on it and whether there is a sender left. Positions are absolute; the
ring is the end of the list. -/
structure RingBuffer (α : Type) where
  sent : List α
  isOpen : Bool

variable {α : Type}

/-- `recv` at a position, with the position afterwards. -/
def RingBuffer.recv (capacity : ℕ) (ring : RingBuffer α) (next : ℕ) : Received α × ℕ :=
  if next + capacity < ring.sent.length then
    (.lagged (ring.sent.length - capacity - next), ring.sent.length - capacity)
  else
    match ring.sent[next]? with
    | some a => (.message a, next + 1)
    | none => (if ring.isOpen then .pending else .closed, next)

/-- The operations on a ring. -/
def RingBuffer.channel (α : Type) (capacity : ℕ) : Channel α where
  Shared := RingBuffer α
  Receiver := ℕ
  isOpen := RingBuffer.isOpen
  send ring a := { ring with sent := ring.sent ++ [a] }
  close ring := { ring with isOpen := false }
  subscribe ring := ring.sent.length
  recv := RingBuffer.recv capacity

theorem RingBuffer.recv_held {capacity next : ℕ} {ring : RingBuffer α} {a : α}
    (hheld : ring.sent.length ≤ next + capacity) (ha : ring.sent[next]? = some a) :
    ring.recv capacity next = (.message a, next + 1) := by
  rw [recv, if_neg (not_lt.mpr hheld), ha]

theorem RingBuffer.recv_passed {capacity next : ℕ} {ring : RingBuffer α}
    (hpassed : ring.sent.length ≤ next) :
    ring.recv capacity next = (if ring.isOpen then .pending else .closed, next) := by
  rw [recv, if_neg (not_lt.mpr (hpassed.trans (Nat.le_add_right next capacity))),
    List.getElem?_eq_none_iff.mpr hpassed]

/-- A ring keeps what the documentation promises. -/
def RingBuffer.documented (α : Type) (capacity : ℕ) :
    Documented (RingBuffer.channel α capacity) capacity where
  sent := RingBuffer.sent
  position := id
  sent_send _ _ := rfl
  sent_close _ := rfl
  position_subscribe _ := rfl
  recv_held _ _ _ hheld ha := ⟨_, recv_held hheld ha, rfl⟩
  recv_overwritten _ _ hlt := ⟨_, if_pos hlt, rfl⟩
  recv_passed _ _ hpassed := congrArg Prod.fst (recv_passed hpassed)

/-! ### What a receiver can rely on -/

variable {capacity first next n missed k : ℕ} {sent got : List α} {a : α}

/-- A receiver that was at `first` and is now at `next` has got these values since, and missed so
many. -/
structure Reads (capacity : ℕ) (sent : List α) (first next : ℕ) (got : List α) (missed : ℕ) :
    Prop where
  first_le : first ≤ next
  le_length : next ≤ sent.length
  counted : got.length + missed = next - first
  ordered : got.Sublist ((sent.take next).drop first)
  recent : (sent.take next).drop (max first (sent.length - capacity)) <:+ got

/-- A receiver that has not moved has got nothing. -/
theorem Reads.start (hle : first ≤ sent.length) : Reads capacity sent first first [] 0 where
  first_le := le_rfl
  le_length := hle
  counted := (Nat.sub_self _).symm
  ordered := List.nil_sublist _
  recent := by
    rw [List.drop_eq_nil_of_le]
    rw [List.length_take]
    omega

/-- Sending does not change what was got, and moves the ring on. -/
theorem Reads.send (h : Reads capacity sent first next got missed) (a : α) :
    Reads capacity (sent ++ [a]) first next got missed := by
  have htake : (sent ++ [a]).take next = sent.take next :=
    List.take_append_of_le_length h.le_length
  have hlength : (sent ++ [a]).length = sent.length + 1 := List.length_append
  refine ⟨h.first_le, ?_, h.counted, htake.symm ▸ h.ordered, ?_⟩
  · rw [hlength]
    exact h.le_length.trans (Nat.le_succ _)
  · rw [htake]
    refine List.IsSuffix.trans ?_ h.recent
    have hmax : max first (sent.length - capacity) ≤
        max first ((sent ++ [a]).length - capacity) := by
      omega
    obtain ⟨d, hd⟩ := Nat.exists_eq_add_of_le hmax
    rw [hd, ← List.drop_drop]
    exact List.drop_suffix _ _

/-- What is taken up to the next position ends with the value there. -/
theorem drop_take_succ {m : ℕ} (hm : m ≤ next) (ha : sent[next]? = some a) :
    (sent.take (next + 1)).drop m = (sent.take next).drop m ++ [a] := by
  obtain ⟨hlt, rfl⟩ := List.getElem?_eq_some_iff.mp ha
  rw [← List.take_concat_get' sent next hlt, List.drop_append_of_le_length]
  rw [List.length_take]
  omega

/-- The receiver gets the value at its position. -/
theorem Reads.message (h : Reads capacity sent first next got missed)
    (hheld : sent.length ≤ next + capacity) (ha : sent[next]? = some a) :
    Reads capacity sent first (next + 1) (got ++ [a]) missed := by
  have hlt := (List.getElem?_eq_some_iff.mp ha).1
  have hfirst := h.first_le
  have hcounted := h.counted
  refine ⟨by omega, hlt, ?_, ?_, ?_⟩
  · rw [List.length_append, List.length_singleton]
    omega
  · rw [drop_take_succ hfirst ha]
    exact h.ordered.append (List.Sublist.refl _)
  · rw [drop_take_succ (max_le hfirst (by omega)) ha]
    obtain ⟨front, hfront⟩ := h.recent
    exact ⟨front, by rw [← List.append_assoc, hfront]⟩

/-- The receiver is put at the oldest value, and what it passes is counted. -/
theorem Reads.lagged (h : Reads capacity sent first next got missed)
    (hn : n = sent.length - capacity) (hk : next + k = n) :
    Reads capacity sent first n got (missed + k) := by
  have hfirst := h.first_le
  have hcounted := h.counted
  refine ⟨by omega, by omega, by omega, h.ordered.trans ?_, ?_⟩
  · refine List.Sublist.drop ?_ first
    exact List.take_sublist_take_left (by omega)
  · rw [List.drop_eq_nil_of_le]
    · exact List.nil_suffix
    · rw [List.length_take, ← hn]
      omega

/-- **If nothing is missed everything is got**, in the order in which it was sent. -/
theorem Reads.got_of_unmissed (h : Reads capacity sent first next got 0) :
    got = (sent.take next).drop first := by
  refine h.ordered.eq_of_length ?_
  rw [List.length_drop, List.length_take, min_eq_left h.le_length]
  exact h.counted

end Broadcast
