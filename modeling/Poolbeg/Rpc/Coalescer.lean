import Mathlib.Data.List.Basic
import Poolbeg.Rpc.Types

/-!
# The request coalescer

The embedding of `rpc/coalescer.rs`. `in_flight` maps a cache key to the sending half of a broadcast
channel of capacity one. A call looks its key up; if there is an entry it subscribes and waits, and
otherwise, or if waiting fails, it inserts a channel of its own, awaits the upstream call,
broadcasts the response and removes the key.

## What one step is

The map is a `DashMap`, whose operations are atomic one by one and not together. Lookup and
insertion are therefore separate steps: two calls with one key may both find it absent and both
lead, and the second insertion then overwrites the first. A call is also apart from its neighbours
wherever it awaits, and that is where it may be cancelled: while it waits for a leader, and while
its upstream call is out. Between the answer of the upstream and the removal of the key nothing is
awaited, but broadcasting and removing are two accesses of shared data, and other threads may act
between them.

## The reference count

A channel is closed when its last sender is dropped: the clone in the map or the one its leader
holds. `Accounted` is that reference count, and `Owned` says that the leader of every entry is still
there. Both are statements about the operations on the map and what the calls hold, not about the
steps of the calls, so that each operation is looked at once, and a step of a call is a short list
of operations. A leader that is cancelled after its insertion drops its own sender and leaves the
clone in the map behind, which nobody will ever use or drop; this is how an entry loses its owner.

## Main definitions

* `Channel`, `Coalescer` and its operations — the shared data
* `CallPhase`, `Call`, `CallAction`, `coalescerStep` — the calls of `coalesce_or_execute`
* `requestCoalescerStep` — the same, on responses and their texts
* `CallMove` — what a step does, branch by branch
* `Coalescer.Accounted`, `Coalescer.Owned` — who holds which sender

## Main results

* `callMove` — there are no other branches
* `Coalescer.Accounted.insert`, `.remove`, `.dropSender`, `.send` — the count is kept
* `Coalescer.Owned.dropSender_iff` — which leaders may disappear
-/

namespace Poolbeg

/-! ### Broadcast channels and the map -/

/-- A broadcast channel of capacity one: the messages sent so far and the number of its senders.
`key` and `owner` record who opened it and for what; no operation reads them, and they are there for
the invariants only. -/
structure Channel (κ τ : Type) where
  key : κ
  owner : ℕ
  sent : List τ
  senders : ℕ

/-- What a receiver finds. A receiver that was overtaken has lagged; since a leader sends once, this
happens only to a channel that was sent on twice. -/
inductive Received (τ : Type)
  | message (m : τ)
  | lagged
  | closed
  | pending

/-- `Receiver::recv` of a receiver that has seen `pos` messages. -/
def Channel.recv {κ τ : Type} (c : Channel κ τ) (pos : ℕ) : Received τ :=
  match c.sent.drop pos with
  | [] => if c.senders = 0 then .closed else .pending
  | [m] => .message m
  | _ => .lagged

/-- `RequestCoalescer`: an entry of the map is the number of a channel. Channels are never removed
from the list, so that a waiter can still read one whose senders are gone. -/
structure Coalescer (κ τ : Type) where
  inFlight : κ → Option ℕ
  channels : List (Channel κ τ)

namespace Coalescer

variable {κ τ : Type}

/-- `RequestCoalescer::new`. -/
def new : Coalescer κ τ where
  inFlight := fun _ => none
  channels := []

/-- A sender of the channel is dropped. -/
def dropSender (k : Coalescer κ τ) (ch : ℕ) : Coalescer κ τ :=
  { k with channels := k.channels.modify ch fun c => { c with senders := c.senders - 1 } }

/-- `Sender::send`. -/
def send (k : Coalescer κ τ) (ch : ℕ) (m : τ) : Coalescer κ τ :=
  { k with channels := k.channels.modify ch fun c => { c with sent := c.sent ++ [m] } }

variable [DecidableEq κ]

/-- `in_flight.remove(&key)`, which drops the sender in the map. -/
def remove (k : Coalescer κ τ) (key : κ) : Coalescer κ τ :=
  match k.inFlight key with
  | none => k
  | some ch =>
    { inFlight := Function.update k.inFlight key none, channels := (k.dropSender ch).channels }

/-- `broadcast::channel(1)` and `in_flight.insert(key, tx.clone())`: the number of the channel
opened is the number of channels so far, and a sender that was in the map is dropped. -/
def insert (k : Coalescer κ τ) (owner : ℕ) (key : κ) : Coalescer κ τ where
  inFlight := Function.update (k.remove key).inFlight key (some k.channels.length)
  channels := (k.remove key).channels ++ [{ key := key, owner := owner, sent := [], senders := 2 }]

end Coalescer

/-! ### Calls -/

/-- Where a call of `coalesce_or_execute` stands. `leading` is past the lookup and about to insert;
`executed` has the answer of its upstream call; `sent` is past the broadcast and about to remove the
key. -/
inductive CallPhase (ρ : Type)
  | start
  | waiting (ch pos : ℕ)
  | leading
  | executing (ch : ℕ)
  | executed (ch : ℕ) (resp : ρ)
  | sent (ch : ℕ) (resp : ρ)
  | returned (resp : ρ)
  | cancelled

structure Call (κ ρ : Type) where
  key : κ
  phase : CallPhase ρ

/-- The channel whose sender a call holds. A leader holds one from its insertion to its return, and
a waiter holds only a receiver. -/
def CallPhase.sender {ρ : Type} : CallPhase ρ → Option ℕ
  | .executing ch => some ch
  | .executed ch _ => some ch
  | .sent ch _ => some ch
  | _ => none

/-- A call that is suspended and does not lead. -/
def CallPhase.Idle {ρ : Type} : CallPhase ρ → Prop
  | .start => True
  | .waiting _ _ => True
  | _ => False

theorem CallPhase.Idle.sender {ρ : Type} {phase : CallPhase ρ} (h : phase.Idle) :
    phase.sender = none := by
  cases phase <;> first | rfl | exact absurd h not_false

/-- The coalescer and the calls made so far, by number. -/
structure CoalescerState (κ τ ρ : Type) where
  coalescer : Coalescer κ τ
  calls : ℕ → Option (Call κ ρ)

inductive CallAction (κ ρ : Type)
  | call (i : ℕ) (key : κ)
  | lookup (i : ℕ)
  | insert (i : ℕ)
  | upstream (i : ℕ) (resp : ρ)
  | broadcast (i : ℕ)
  | remove (i : ℕ)
  | recv (i : ℕ)
  | cancel (i : ℕ)

section System

variable {κ τ ρ : Type}

/-- The call `i` moves on. -/
def CoalescerState.advance (s : CoalescerState κ τ ρ) (i : ℕ) (key : κ) (phase : CallPhase ρ) :
    CoalescerState κ τ ρ :=
  { s with calls := Function.update s.calls i (some { key := key, phase := phase }) }

theorem CoalescerState.calls_advance_self (s : CoalescerState κ τ ρ) (i : ℕ) (key : κ)
    (phase : CallPhase ρ) : (s.advance i key phase).calls i = some ⟨key, phase⟩ :=
  Function.update_self _ _ _

theorem CoalescerState.calls_advance_of_ne (s : CoalescerState κ τ ρ) {i j : ℕ} (key : κ)
    (phase : CallPhase ρ) (h : j ≠ i) : (s.advance i key phase).calls j = s.calls j :=
  Function.update_of_ne h _ _

def CoalescerState.init : CoalescerState κ τ ρ where
  coalescer := .new
  calls := fun _ => none

variable [DecidableEq κ] (serialize : ρ → Option τ) (deserialize : τ → Option ρ)

/-- One atomic step of `coalesce_or_execute`. `upstream` is the answer to the awaited call, and
`cancel` drops the future of a call that is suspended. -/
def coalescerStep (s : CoalescerState κ τ ρ) : CallAction κ ρ → Option (CoalescerState κ τ ρ)
  | .call i key =>
    match s.calls i with
    | none => some (s.advance i key .start)
    | some _ => none
  | .lookup i =>
    match s.calls i with
    | some ⟨key, .start⟩ =>
      match s.coalescer.inFlight key with
      | none => some (s.advance i key .leading)
      | some ch =>
        s.coalescer.channels[ch]?.map fun c => s.advance i key (.waiting ch c.sent.length)
    | _ => none
  | .insert i =>
    match s.calls i with
    | some ⟨key, .leading⟩ =>
      let t := s.advance i key (.executing s.coalescer.channels.length)
      some { t with coalescer := s.coalescer.insert i key }
    | _ => none
  | .upstream i resp =>
    match s.calls i with
    | some ⟨key, .executing ch⟩ => some (s.advance i key (.executed ch resp))
    | _ => none
  | .broadcast i =>
    match s.calls i with
    | some ⟨key, .executed ch resp⟩ =>
      let t := s.advance i key (.sent ch resp)
      match serialize resp with
      | none => some t
      | some m => some { t with coalescer := s.coalescer.send ch m }
    | _ => none
  | .remove i =>
    match s.calls i with
    | some ⟨key, .sent ch resp⟩ =>
      -- the leader's own sender goes out of scope as it returns
      let t := s.advance i key (.returned resp)
      some { t with coalescer := (s.coalescer.remove key).dropSender ch }
    | _ => none
  | .recv i =>
    match s.calls i with
    | some ⟨key, .waiting ch pos⟩ =>
      s.coalescer.channels[ch]?.bind fun c =>
        match c.recv pos with
        | .pending => none
        | .message m =>
          match deserialize m with
          | some resp => some (s.advance i key (.returned resp))
          | none => some (s.advance i key .leading)
        | _ => some (s.advance i key .leading)
    | _ => none
  | .cancel i =>
    match s.calls i with
    | some ⟨key, .start⟩ => some (s.advance i key .cancelled)
    | some ⟨key, .waiting _ _⟩ => some (s.advance i key .cancelled)
    | some ⟨key, .executing ch⟩ =>
      let t := s.advance i key .cancelled
      some { t with coalescer := s.coalescer.dropSender ch }
    | _ => none

/-- What a step of a call does. Every branch of the source is one constructor, with what it found as
its premises; the invariants are proved from these and never look at the step function. -/
inductive CallMove (s : CoalescerState κ τ ρ) : CallAction κ ρ → CoalescerState κ τ ρ → Prop
  | call {i : ℕ} {key : κ} (hcall : s.calls i = none) :
      CallMove s (.call i key) (s.advance i key .start)
  | lead {i : ℕ} {key : κ} (hcall : s.calls i = some ⟨key, .start⟩)
      (hentry : s.coalescer.inFlight key = none) :
      CallMove s (.lookup i) (s.advance i key .leading)
  | subscribe {i : ℕ} {key : κ} {ch : ℕ} {c : Channel κ τ}
      (hcall : s.calls i = some ⟨key, .start⟩) (hentry : s.coalescer.inFlight key = some ch)
      (hc : s.coalescer.channels[ch]? = some c) :
      CallMove s (.lookup i) (s.advance i key (.waiting ch c.sent.length))
  | insert {i : ℕ} {key : κ} (hcall : s.calls i = some ⟨key, .leading⟩) :
      CallMove s (.insert i)
        { s.advance i key (.executing s.coalescer.channels.length) with
          coalescer := s.coalescer.insert i key }
  | upstream {i : ℕ} {key : κ} {ch : ℕ} {resp : ρ} (hcall : s.calls i = some ⟨key, .executing ch⟩) :
      CallMove s (.upstream i resp) (s.advance i key (.executed ch resp))
  | withhold {i : ℕ} {key : κ} {ch : ℕ} {resp : ρ}
      (hcall : s.calls i = some ⟨key, .executed ch resp⟩) (hm : serialize resp = none) :
      CallMove s (.broadcast i) (s.advance i key (.sent ch resp))
  | broadcast {i : ℕ} {key : κ} {ch : ℕ} {resp : ρ} {m : τ}
      (hcall : s.calls i = some ⟨key, .executed ch resp⟩) (hm : serialize resp = some m) :
      CallMove s (.broadcast i)
        { s.advance i key (.sent ch resp) with coalescer := s.coalescer.send ch m }
  | remove {i : ℕ} {key : κ} {ch : ℕ} {resp : ρ} (hcall : s.calls i = some ⟨key, .sent ch resp⟩) :
      CallMove s (.remove i)
        { s.advance i key (.returned resp) with
          coalescer := (s.coalescer.remove key).dropSender ch }
  | receive {i : ℕ} {key : κ} {ch pos : ℕ} {c : Channel κ τ} {m : τ} {resp : ρ}
      (hcall : s.calls i = some ⟨key, .waiting ch pos⟩)
      (hc : s.coalescer.channels[ch]? = some c) (hrecv : c.recv pos = .message m)
      (hresp : deserialize m = some resp) :
      CallMove s (.recv i) (s.advance i key (.returned resp))
  | retry {i : ℕ} {key : κ} {ch pos : ℕ} {c : Channel κ τ}
      (hcall : s.calls i = some ⟨key, .waiting ch pos⟩)
      (hc : s.coalescer.channels[ch]? = some c) (hpending : c.recv pos ≠ .pending)
      (hunread : ∀ m, c.recv pos = .message m → deserialize m = none) :
      CallMove s (.recv i) (s.advance i key .leading)
  | leave {i : ℕ} {key : κ} {phase : CallPhase ρ} (hcall : s.calls i = some ⟨key, phase⟩)
      (hidle : phase.Idle) : CallMove s (.cancel i) (s.advance i key .cancelled)
  | abandon {i : ℕ} {key : κ} {ch : ℕ} (hcall : s.calls i = some ⟨key, .executing ch⟩) :
      CallMove s (.cancel i)
        { s.advance i key .cancelled with coalescer := s.coalescer.dropSender ch }

variable {serialize deserialize} {s t : CoalescerState κ τ ρ} {a : CallAction κ ρ}

/-- A step is one of these moves. -/
theorem callMove (h : coalescerStep serialize deserialize s a = some t) :
    CallMove serialize deserialize s a t := by
  cases a with
  | call i key =>
    simp only [coalescerStep] at h
    split at h
    · rename_i hcall
      cases h
      exact .call hcall
    · cases h
  | lookup i =>
    simp only [coalescerStep] at h
    split at h
    · rename_i key hcall
      split at h
      · rename_i hentry
        cases h
        exact .lead hcall hentry
      · rename_i ch hentry
        obtain ⟨c, hc, rfl⟩ := Option.map_eq_some_iff.mp h
        exact .subscribe hcall hentry hc
    · cases h
  | insert i =>
    simp only [coalescerStep] at h
    split at h
    · rename_i key hcall
      cases h
      exact .insert hcall
    · cases h
  | upstream i resp =>
    simp only [coalescerStep] at h
    split at h
    · rename_i key ch hcall
      cases h
      exact .upstream hcall
    · cases h
  | broadcast i =>
    simp only [coalescerStep] at h
    split at h
    · rename_i key ch resp hcall
      split at h
      · rename_i hm
        cases h
        exact .withhold hcall hm
      · rename_i m hm
        cases h
        exact .broadcast hcall hm
    · cases h
  | remove i =>
    simp only [coalescerStep] at h
    split at h
    · rename_i key ch resp hcall
      cases h
      exact .remove hcall
    · cases h
  | recv i =>
    simp only [coalescerStep] at h
    split at h
    · rename_i key ch pos hcall
      obtain ⟨c, hc, h⟩ := Option.bind_eq_some_iff.mp h
      split at h
      · cases h
      · rename_i m hrecv
        split at h
        · rename_i resp hresp
          cases h
          exact .receive hcall hc hrecv hresp
        · rename_i hunread
          cases h
          refine .retry hcall hc (by rw [hrecv]; rintro ⟨⟩) fun m' hm' => ?_
          cases hrecv.symm.trans hm'
          exact hunread
      · rename_i hpending hmessage
        cases h
        exact .retry hcall hc hpending fun m hm => absurd hm (hmessage m)
    · cases h
  | cancel i =>
    simp only [coalescerStep] at h
    split at h
    · rename_i key hcall
      cases h
      exact .leave hcall trivial
    · rename_i key ch pos hcall
      cases h
      exact .leave hcall trivial
    · rename_i key ch hcall
      cases h
      exact .abandon hcall
    · cases h

end System

/-- `RequestCoalescer::coalesce_or_execute` on responses and their texts, by cache key. -/
def requestCoalescerStep {Text : Type} (serde : SerdeJson Text) :
    CoalescerState String Text JsonRpcResponse → CallAction String JsonRpcResponse →
      Option (CoalescerState String Text JsonRpcResponse) :=
  coalescerStep (fun resp => some (resp.toText serde)) (JsonRpcResponse.ofText serde)

/-! ### The reference count -/

section Ledger

theorem Coalescer.getElem?_dropSender {κ τ : Type} (k : Coalescer κ τ) (ch j : ℕ) :
    (k.dropSender ch).channels[j]? = k.channels[j]?.map fun c =>
      { c with senders := if ch = j then c.senders - 1 else c.senders } := by
  rw [Coalescer.dropSender, List.getElem?_modify, Option.map_eq_map]
  refine congrArg (fun f => Option.map f k.channels[j]?) (funext fun c => ?_)
  split_ifs <;> rfl

theorem Coalescer.getElem?_send {κ τ : Type} (k : Coalescer κ τ) (ch j : ℕ) (m : τ) :
    (k.send ch m).channels[j]? = k.channels[j]?.map fun c =>
      { c with sent := if ch = j then c.sent ++ [m] else c.sent } := by
  rw [Coalescer.send, List.getElem?_modify, Option.map_eq_map]
  refine congrArg (fun f => Option.map f k.channels[j]?) (funext fun c => ?_)
  split_ifs <;> rfl

variable {κ τ : Type} [DecidableEq κ] {k : Coalescer κ τ} {holding : ℕ → Option (κ × ℕ)}
  {i ch : ℕ} {key : κ}

/-- The senders of every channel are the clone in the map, while the entry of its key is that
channel, and its opener's own, while the opener holds it. `holding` tells what each call holds,
whatever the calls are. -/
structure Coalescer.Accounted (k : Coalescer κ τ) (holding : ℕ → Option (κ × ℕ)) : Prop where
  entry : ∀ key ch, k.inFlight key = some ch → ∃ c, k.channels[ch]? = some c ∧ c.key = key
  holder : ∀ i key ch, holding i = some (key, ch) →
    ∃ c, k.channels[ch]? = some c ∧ c.key = key ∧ c.owner = i
  senders : ∀ ch c, k.channels[ch]? = some c →
    c.senders = (if k.inFlight c.key = some ch then 1 else 0) +
      (if holding c.owner = some (c.key, ch) then 1 else 0)

/-- Every entry has a call that holds a sender of its channel. It is what a waiter depends on: an
entry without one is waited for in vain. -/
def Coalescer.Owned (k : Coalescer κ τ) (holding : ℕ → Option (κ × ℕ)) : Prop :=
  ∀ key ch, k.inFlight key = some ch → ∃ i, holding i = some (key, ch)

theorem Coalescer.remove_of_none (h : k.inFlight key = none) : k.remove key = k := by
  rw [Coalescer.remove, h]

theorem Coalescer.inFlight_remove (k : Coalescer κ τ) (key : κ) :
    (k.remove key).inFlight = Function.update k.inFlight key none := by
  rw [Coalescer.remove]
  split
  · rename_i h
    exact (Function.update_eq_self_iff.mpr h.symm).symm
  · rfl

theorem Coalescer.inFlight_insert (k : Coalescer κ τ) (i : ℕ) (key : κ) :
    (k.insert i key).inFlight =
      Function.update (k.remove key).inFlight key (some k.channels.length) := rfl

theorem Coalescer.channels_remove (h : k.inFlight key = some ch) :
    (k.remove key).channels = (k.dropSender ch).channels := by
  rw [Coalescer.remove, h]

theorem Coalescer.inFlight_remove_self (k : Coalescer κ τ) (key : κ) :
    (k.remove key).inFlight key = none := by
  rw [k.inFlight_remove, Function.update_self]

@[simp] theorem Coalescer.length_remove (k : Coalescer κ τ) (key : κ) :
    (k.remove key).channels.length = k.channels.length := by
  cases h : k.inFlight key with
  | none => rw [Coalescer.remove_of_none h]
  | some ch => rw [Coalescer.channels_remove h, Coalescer.dropSender, List.length_modify]

namespace Coalescer.Accounted

/-- A channel has one opener. -/
theorem holder_unique (h : k.Accounted holding) {j : ℕ} {key' : κ}
    (hi : holding i = some (key, ch)) (hj : holding j = some (key', ch)) : i = j := by
  obtain ⟨c, hc, -, rfl⟩ := h.holder i key ch hi
  obtain ⟨c', hc', -, rfl⟩ := h.holder j key' ch hj
  rw [hc] at hc'
  rw [Option.some.inj hc']

theorem new : (Coalescer.new : Coalescer κ τ).Accounted fun _ => none where
  entry := nofun
  holder := nofun
  senders := fun ch c h => absurd h (by simp [Coalescer.new])

/-- Sending does not change the count. -/
theorem send (h : k.Accounted holding) (m : τ) : (k.send ch m).Accounted holding where
  entry := by
    intro key' ch' hentry
    obtain ⟨c, hc, hkey⟩ := h.entry key' ch' hentry
    exact ⟨_, (k.getElem?_send ch ch' m).trans (congrArg _ hc), hkey⟩
  holder := by
    intro i key' ch' hhold
    obtain ⟨c, hc, hkey⟩ := h.holder i key' ch' hhold
    exact ⟨_, (k.getElem?_send ch ch' m).trans (congrArg _ hc), hkey⟩
  senders := by
    intro ch' c' hc'
    rw [k.getElem?_send, Option.map_eq_some_iff] at hc'
    obtain ⟨c, hc, rfl⟩ := hc'
    exact h.senders ch' c hc

/-- A call gives up the sender it holds. -/
theorem dropSender (h : k.Accounted holding) (hi : holding i = some (key, ch)) :
    (k.dropSender ch).Accounted (Function.update holding i none) where
  entry := by
    intro key' ch' hentry
    obtain ⟨c, hc, hkey⟩ := h.entry key' ch' hentry
    exact ⟨_, (k.getElem?_dropSender ch ch').trans (congrArg _ hc), hkey⟩
  holder := by
    intro j key' ch' hhold
    have hj : j ≠ i := by
      rintro rfl
      rw [Function.update_self] at hhold
      exact absurd hhold nofun
    rw [Function.update_of_ne hj] at hhold
    obtain ⟨c, hc, hkey⟩ := h.holder j key' ch' hhold
    exact ⟨_, (k.getElem?_dropSender ch ch').trans (congrArg _ hc), hkey⟩
  senders := by
    intro ch' c' hc'
    rw [k.getElem?_dropSender, Option.map_eq_some_iff] at hc'
    obtain ⟨c, hc, rfl⟩ := hc'
    have hcount := h.senders ch' c hc
    change (if ch = ch' then c.senders - 1 else c.senders) =
      (if k.inFlight c.key = some ch' then 1 else 0) +
        (if Function.update holding i none c.owner = some (c.key, ch') then 1 else 0)
    by_cases hch : ch = ch'
    · subst hch
      obtain ⟨c', hc', rfl, rfl⟩ := h.holder i key ch hi
      obtain rfl := Option.some.inj (hc.symm.trans hc')
      rw [if_pos hi] at hcount
      rw [if_pos rfl, Function.update_self, if_neg (Option.some_ne_none _).symm]
      omega
    · rw [if_neg hch, hcount]
      by_cases howner : c.owner = i
      · rw [howner, Function.update_self, hi]
        simp [hch]
      · rw [Function.update_of_ne howner]

/-- The map gives up the sender of an entry. -/
theorem remove (h : k.Accounted holding) : (k.remove key).Accounted holding := by
  cases hentry : k.inFlight key with
  | none => rwa [Coalescer.remove_of_none hentry]
  | some ch =>
    have hchannel : ∀ ch', (k.remove key).channels[ch']? =
        k.channels[ch']?.map fun c : Channel κ τ =>
        { c with senders := if ch = ch' then c.senders - 1 else c.senders } := fun ch' => by
      rw [Coalescer.channels_remove hentry, k.getElem?_dropSender]
    obtain ⟨c₀, hc₀, hkey₀⟩ := h.entry key ch hentry
    refine ⟨?_, ?_, ?_⟩
    · intro key' ch' hentry'
      rw [k.inFlight_remove] at hentry'
      by_cases hne : key' = key
      · subst hne
        rw [Function.update_self] at hentry'
        exact absurd hentry' (Option.some_ne_none _).symm
      · rw [Function.update_of_ne hne] at hentry'
        obtain ⟨c, hc, hkey⟩ := h.entry key' ch' hentry'
        exact ⟨_, (hchannel ch').trans (congrArg _ hc), hkey⟩
    · intro j key' ch' hhold
      obtain ⟨c, hc, hkey⟩ := h.holder j key' ch' hhold
      exact ⟨_, (hchannel ch').trans (congrArg _ hc), hkey⟩
    · intro ch' c' hc'
      rw [hchannel, Option.map_eq_some_iff] at hc'
      obtain ⟨c, hc, rfl⟩ := hc'
      have hcount := h.senders ch' c hc
      rw [k.inFlight_remove]
      change (if ch = ch' then c.senders - 1 else c.senders) =
        (if Function.update k.inFlight key none c.key = some ch' then 1 else 0) +
          (if holding c.owner = some (c.key, ch') then 1 else 0)
      by_cases hch : ch = ch'
      · subst hch
        obtain rfl := Option.some.inj (hc.symm.trans hc₀)
        rw [hkey₀, if_pos hentry] at hcount
        rw [if_pos rfl, hkey₀, Function.update_self, if_neg (Option.some_ne_none _).symm]
        omega
      · rw [if_neg hch, hcount]
        by_cases hkey : c.key = key
        · rw [hkey, Function.update_self, hentry]
          simp [hch]
        · rw [Function.update_of_ne hkey]

/-- A call that holds nothing opens a channel. -/
theorem insert (h : k.Accounted holding) (hi : holding i = none) :
    (k.insert i key).Accounted (Function.update holding i (some (key, k.channels.length))) := by
  have hrem : (k.remove key).Accounted holding := h.remove
  have hold : ∀ ch c, (k.remove key).channels[ch]? = some c →
      (k.insert i key).channels[ch]? = some c := fun ch c hc =>
    (List.getElem?_append_left (List.getElem?_eq_some_iff.mp hc).1).trans hc
  have hnew : (k.insert i key).channels[k.channels.length]? =
      some { key := key, owner := i, sent := [], senders := 2 } := by
    rw [← k.length_remove key]
    exact List.getElem?_concat_length
  refine ⟨?_, ?_, ?_⟩
  · intro key' ch' hentry
    rw [k.inFlight_insert] at hentry
    by_cases hkey : key' = key
    · subst hkey
      rw [Function.update_self, Option.some.injEq] at hentry
      exact ⟨_, hentry ▸ hnew, rfl⟩
    · rw [Function.update_of_ne hkey] at hentry
      obtain ⟨c, hc, hck⟩ := hrem.entry key' ch' hentry
      exact ⟨c, hold ch' c hc, hck⟩
  · intro j key' ch' hhold
    by_cases hj : j = i
    · subst hj
      rw [Function.update_self] at hhold
      cases hhold
      exact ⟨_, hnew, rfl, rfl⟩
    · rw [Function.update_of_ne hj] at hhold
      obtain ⟨c, hc, hck⟩ := hrem.holder j key' ch' hhold
      exact ⟨c, hold ch' c hc, hck⟩
  · intro ch' c hc
    rw [k.inFlight_insert]
    by_cases hch : ch' = k.channels.length
    · subst hch
      obtain rfl := Option.some.inj (hc.symm.trans hnew)
      rw [Function.update_self, Function.update_self, if_pos rfl, if_pos rfl]
    · have hlt : ch' < (k.remove key).channels.length := by
        have := (List.getElem?_eq_some_iff.mp hc).1
        rw [Coalescer.insert, List.length_append, List.length_singleton, k.length_remove] at this
        rw [k.length_remove]
        omega
      have hc' : (k.remove key).channels[ch']? = some c :=
        (List.getElem?_append_left hlt).symm.trans hc
      rw [hrem.senders ch' c hc']
      congr 1
      · by_cases hkey : c.key = key
        · rw [hkey, Function.update_self, k.inFlight_remove_self]
          simp [Ne.symm hch]
        · rw [Function.update_of_ne hkey]
      · by_cases howner : c.owner = i
        · rw [howner, Function.update_self, hi]
          simp [Ne.symm hch]
        · rw [Function.update_of_ne howner]

end Coalescer.Accounted

namespace Coalescer.Owned

theorem insert (h : k.Owned holding) (hi : holding i = none) :
    (k.insert i key).Owned (Function.update holding i (some (key, k.channels.length))) := by
  intro key' ch' hentry
  rw [k.inFlight_insert] at hentry
  by_cases hkey : key' = key
  · subst hkey
    rw [Function.update_self, Option.some.injEq] at hentry
    exact ⟨i, by rw [Function.update_self, hentry]⟩
  · rw [Function.update_of_ne hkey, k.inFlight_remove, Function.update_of_ne hkey] at hentry
    obtain ⟨j, hj⟩ := h key' ch' hentry
    have hne : j ≠ i := by
      rintro rfl
      exact absurd (hi.symm.trans hj) (Option.some_ne_none _).symm
    exact ⟨j, (Function.update_of_ne hne _ _).trans hj⟩

/-- A leader that removes its key leaves no entry behind that was its own. It may remove the entry
of another, which then has none. -/
theorem finish (h : k.Owned holding) (hi : holding i = some (key, ch)) :
    ((k.remove key).dropSender ch).Owned (Function.update holding i none) := by
  intro key' ch' hentry
  change (k.remove key).inFlight key' = some ch' at hentry
  rw [k.inFlight_remove] at hentry
  by_cases hkey : key' = key
  · subst hkey
    rw [Function.update_self] at hentry
    exact absurd hentry (Option.some_ne_none _).symm
  · rw [Function.update_of_ne hkey] at hentry
    obtain ⟨j, hj⟩ := h key' ch' hentry
    have hne : j ≠ i := by
      rintro rfl
      rw [hi] at hj
      cases hj
      exact hkey rfl
    exact ⟨j, (Function.update_of_ne hne _ _).trans hj⟩

/-- A leader that disappears leaves an orphan exactly when the entry of its key is its own.
Otherwise it has been overwritten or removed, and the entry, if any, is another's. -/
theorem dropSender_iff (h : k.Owned holding) (hk : k.Accounted holding)
    (hi : holding i = some (key, ch)) :
    (k.dropSender ch).Owned (Function.update holding i none) ↔ k.inFlight key ≠ some ch := by
  constructor
  · intro howned hentry
    obtain ⟨j, hj⟩ := howned key ch hentry
    by_cases hne : j = i
    · subst hne
      rw [Function.update_self] at hj
      exact absurd hj (Option.some_ne_none _).symm
    · rw [Function.update_of_ne hne] at hj
      exact hne (hk.holder_unique hj hi)
  · intro hentry key' ch' hentry'
    obtain ⟨j, hj⟩ := h key' ch' hentry'
    have hne : j ≠ i := by
      rintro rfl
      rw [hi] at hj
      cases hj
      exact hentry hentry'
    exact ⟨j, (Function.update_of_ne hne _ _).trans hj⟩

end Coalescer.Owned

end Ledger

end Poolbeg
