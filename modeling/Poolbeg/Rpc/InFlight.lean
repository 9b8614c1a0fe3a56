import Poolbeg.Lts
import Poolbeg.Rpc.Coalescer

/-!
# Every entry of `in_flight` is resolved

A later call of a key subscribes to whatever the map holds for it, so it relies on the leader behind
the entry: that it is still running and will broadcast, or close the channel. Cancelling a leader
drops the sender it holds but not the clone in the map, so the entry is orphaned, and the calls of
that key that come later wait for a message that nobody sends on a channel that nobody closes. It is
the only way to break the promise.

## The argument

A step of a call does one of six things to the map, the channels and the senders held, and
`LedgerStep` lists them. The reference count is kept by all of them, so in a reachable state a
leader that is still there can be run to its end: it broadcasts, removes the key and drops its
sender, after which the channel has a message or no sender is left. What remains is whether the
leader is there. Five of the six keep every entry owned, and the sixth, a cancellation, does exactly
if the entry of the key is not the cancelled leader's. The promise along a run is therefore a
condition on its cancellations, each read in the state it happens in.

## After an orphan

`Hung` is the other side: an orphaned entry, with every call of the key before its lookup, waiting
on the orphan's channel, or over. It is kept by every step whatsoever, because only a leader of the
key touches its entry, and no call of the key becomes one while the entry is there.

## Main definitions

* `LedgerStep` — what a step does to the map, the channels and the senders held
* `CoalescerState.Held` — every entry belongs to a running call that resolves it
* `EntryKept` — what is asked of a cancellation
* `CoalescerState.Hung` — an orphan and the calls that run into it

## Main results

* `ledgerStep`, `channelOrigin` — nothing else happens to the map and to a channel
* `always_held_iff` — when the promise is kept along a run
* `hung_run` — what becomes of a key whose entry is orphaned
-/

namespace Poolbeg

open Lts

/-! ### What a step does -/

section Promise

variable {κ τ ρ : Type}

/-- The sender a call holds, by key and channel. The sender is the leader's own and not its clone in
the map. -/
def Call.holding (c : Call κ ρ) : Option (κ × ℕ) := c.phase.sender.map (c.key, ·)

def CoalescerState.holding (s : CoalescerState κ τ ρ) (i : ℕ) : Option (κ × ℕ) :=
  (s.calls i).bind Call.holding

theorem CoalescerState.holding_eq {s : CoalescerState κ τ ρ} {i : ℕ} {key : κ}
    {phase : CallPhase ρ} (h : s.calls i = some ⟨key, phase⟩) :
    s.holding i = phase.sender.map (key, ·) := by
  rw [CoalescerState.holding, h]
  rfl

theorem CoalescerState.holding_advance (s : CoalescerState κ τ ρ) (i : ℕ) (key : κ)
    (phase : CallPhase ρ) :
    (s.advance i key phase).holding = Function.update s.holding i (phase.sender.map (key, ·)) := by
  funext j
  by_cases hj : j = i
  · subst hj
    rw [Function.update_self]
    exact CoalescerState.holding_eq (s.calls_advance_self j key phase)
  · rw [Function.update_of_ne hj, CoalescerState.holding, CoalescerState.holding,
      s.calls_advance_of_ne key phase hj]

/-- A call that moves on without taking or giving up a sender. -/
theorem CoalescerState.holding_advance_of_eq {s : CoalescerState κ τ ρ} {i : ℕ} {key : κ}
    {phase phase' : CallPhase ρ} (hcall : s.calls i = some ⟨key, phase⟩)
    (h : phase'.sender = phase.sender) : (s.advance i key phase').holding = s.holding := by
  rw [s.holding_advance, h, ← CoalescerState.holding_eq hcall, Function.update_eq_self]

variable [DecidableEq κ] {serialize : ρ → Option τ} {deserialize : τ → Option ρ}
  {s t : CoalescerState κ τ ρ} {a : CallAction κ ρ}

/-- What the promise asks of a cancellation: the entry of the key is not the cancelled leader's. A
leader that was overwritten may be cancelled, and so may anyone who does not lead. -/
def EntryKept (s : CoalescerState κ τ ρ) : CallAction κ ρ → Prop
  | .cancel i => ∀ key ch, s.calls i = some ⟨key, .executing ch⟩ →
      s.coalescer.inFlight key ≠ some ch
  | _ => True

/-- What a step does to the map, the channels and the senders held. Everything that is quiet leaves
all three alone; the others are the operations on the map, with who takes or gives up a sender. -/
inductive LedgerStep (serialize : ρ → Option τ) (s t : CoalescerState κ τ ρ) :
    CallAction κ ρ → Prop
  | quiet {a : CallAction κ ρ} (hkept : EntryKept s a) (hcoalescer : t.coalescer = s.coalescer)
      (hholding : t.holding = s.holding) : LedgerStep serialize s t a
  | send {i : ℕ} {key : κ} {ch : ℕ} {resp : ρ} {m : τ}
      (hcall : s.calls i = some ⟨key, .executed ch resp⟩) (hm : serialize resp = some m)
      (hcoalescer : t.coalescer = s.coalescer.send ch m)
      (hholding : t.holding = s.holding) : LedgerStep serialize s t (.broadcast i)
  | insert {i : ℕ} {key : κ} (hi : s.holding i = none)
      (hcoalescer : t.coalescer = s.coalescer.insert i key)
      (hholding : t.holding =
        Function.update s.holding i (some (key, s.coalescer.channels.length))) :
      LedgerStep serialize s t (.insert i)
  | finish {i : ℕ} {key : κ} {ch : ℕ} (hi : s.holding i = some (key, ch))
      (hcoalescer : t.coalescer = (s.coalescer.remove key).dropSender ch)
      (hholding : t.holding = Function.update s.holding i none) :
      LedgerStep serialize s t (.remove i)
  | abandon {i : ℕ} {key : κ} {ch : ℕ} (hcall : s.calls i = some ⟨key, .executing ch⟩)
      (hcoalescer : t.coalescer = s.coalescer.dropSender ch)
      (hholding : t.holding = Function.update s.holding i none) :
      LedgerStep serialize s t (.cancel i)

theorem ledgerStep (h : coalescerStep serialize deserialize s a = some t) :
    LedgerStep serialize s t a := by
  cases callMove h with
  | call hcall =>
    refine .quiet trivial rfl ((s.holding_advance _ _ .start).trans ?_)
    exact Function.update_eq_self_iff.mpr (by rw [CoalescerState.holding, hcall]; rfl)
  | lead hcall hentry => exact .quiet trivial rfl (CoalescerState.holding_advance_of_eq hcall rfl)
  | subscribe hcall hentry hc =>
    exact .quiet trivial rfl (CoalescerState.holding_advance_of_eq hcall rfl)
  | insert hcall =>
    exact .insert (CoalescerState.holding_eq hcall) rfl (s.holding_advance _ _ _)
  | upstream hcall => exact .quiet trivial rfl (CoalescerState.holding_advance_of_eq hcall rfl)
  | withhold hcall hm => exact .quiet trivial rfl (CoalescerState.holding_advance_of_eq hcall rfl)
  | broadcast hcall hm => exact .send hcall hm rfl (CoalescerState.holding_advance_of_eq hcall rfl)
  | remove hcall =>
    exact .finish (CoalescerState.holding_eq hcall) rfl (s.holding_advance _ _ _)
  | receive hcall hc hrecv hresp =>
    exact .quiet trivial rfl (CoalescerState.holding_advance_of_eq hcall rfl)
  | retry hcall hc hpending hunread =>
    exact .quiet trivial rfl (CoalescerState.holding_advance_of_eq hcall rfl)
  | leave hcall hidle =>
    refine .quiet ?_ rfl (CoalescerState.holding_advance_of_eq hcall hidle.sender.symm)
    intro key' ch' hcall'
    cases hcall.symm.trans hcall'
    exact absurd hidle not_false
  | abandon hcall => exact .abandon hcall rfl (s.holding_advance _ _ _)

/-! ### What a step leaves alone -/

/-- The call that moves. -/
def CallAction.index : CallAction κ ρ → ℕ
  | .call i _ | .lookup i | .insert i | .upstream i _ | .broadcast i | .remove i | .recv i
  | .cancel i => i

theorem calls_of_ne (h : coalescerStep serialize deserialize s a = some t) {j : ℕ}
    (hj : j ≠ a.index) : t.calls j = s.calls j := by
  cases callMove h with
  | call | lead | subscribe | insert | upstream | withhold | broadcast | remove | receive | retry
  | leave | abandon => exact s.calls_advance_of_ne _ _ hj

omit [DecidableEq κ] in
theorem Coalescer.exists_of_dropSender {k : Coalescer κ τ} {ch j : ℕ} {c : Channel κ τ}
    (h : (k.dropSender ch).channels[j]? = some c) :
    ∃ c', k.channels[j]? = some c' ∧ c'.key = c.key ∧ c'.owner = c.owner ∧ c'.sent = c.sent := by
  rw [k.getElem?_dropSender, Option.map_eq_some_iff] at h
  obtain ⟨c', hc', rfl⟩ := h
  exact ⟨c', hc', rfl, rfl, rfl⟩

theorem Coalescer.exists_of_remove {k : Coalescer κ τ} {key : κ} {j : ℕ} {c : Channel κ τ}
    (h : (k.remove key).channels[j]? = some c) :
    ∃ c', k.channels[j]? = some c' ∧ c'.key = c.key ∧ c'.owner = c.owner ∧ c'.sent = c.sent := by
  cases hentry : k.inFlight key with
  | none =>
    rw [Coalescer.remove_of_none hentry] at h
    exact ⟨c, h, rfl, rfl, rfl⟩
  | some ch =>
    rw [Coalescer.channels_remove hentry] at h
    exact Coalescer.exists_of_dropSender h

/-- Where a channel comes from: it was there with what it had, its opener has just broadcast, or a
leader has just opened it. Only the opener of a channel ever sends on it. -/
inductive ChannelOrigin (serialize : ρ → Option τ) (s : CoalescerState κ τ ρ) (ch : ℕ)
    (c : Channel κ τ) : CallAction κ ρ → Prop
  | kept {a : CallAction κ ρ} {c' : Channel κ τ} (hc : s.coalescer.channels[ch]? = some c')
      (hkey : c'.key = c.key) (howner : c'.owner = c.owner) (hsent : c'.sent = c.sent) :
      ChannelOrigin serialize s ch c a
  | told {c' : Channel κ τ} {resp : ρ} {m : τ} (hc : s.coalescer.channels[ch]? = some c')
      (hkey : c'.key = c.key) (howner : c'.owner = c.owner)
      (hcall : s.calls c.owner = some ⟨c.key, .executed ch resp⟩) (hm : serialize resp = some m)
      (hsent : c.sent = c'.sent ++ [m]) : ChannelOrigin serialize s ch c (.broadcast c.owner)
  | opened (hcall : s.calls c.owner = some ⟨c.key, .leading⟩)
      (hch : ch = s.coalescer.channels.length) (hsent : c.sent = []) :
      ChannelOrigin serialize s ch c (.insert c.owner)

theorem channelOrigin (hs : s.coalescer.Accounted s.holding)
    (h : coalescerStep serialize deserialize s a = some t) {ch : ℕ} {c : Channel κ τ}
    (hc : t.coalescer.channels[ch]? = some c) : ChannelOrigin serialize s ch c a := by
  cases callMove h with
  | call | lead | subscribe | upstream | withhold | receive | retry | leave =>
    exact .kept hc rfl rfl rfl
  | @insert i key hcall =>
    have hc' : ((s.coalescer.remove key).channels ++
        [{ key := key, owner := i, sent := [], senders := 2 }])[ch]? = some c := hc
    rw [List.getElem?_append] at hc'
    split_ifs at hc' with hlt
    · obtain ⟨c', hc', hkey, howner, hsent⟩ := Coalescer.exists_of_remove hc'
      exact .kept hc' hkey howner hsent
    · have hlast := (List.getElem?_eq_some_iff.mp hc').1
      rw [List.length_singleton] at hlast
      obtain rfl := List.mem_singleton.mp (List.mem_of_getElem? hc')
      rw [Coalescer.length_remove] at hlt hlast
      exact .opened hcall (by omega) rfl
  | @broadcast i key ch' resp m hcall hm =>
    have hc' : (s.coalescer.send ch' m).channels[ch]? = some c := hc
    rw [Coalescer.getElem?_send, Option.map_eq_some_iff] at hc'
    obtain ⟨c', hc', rfl⟩ := hc'
    by_cases hch : ch' = ch
    · subst hch
      obtain ⟨c₁, hc₁, rfl, rfl⟩ := hs.holder i key ch' (CoalescerState.holding_eq hcall)
      obtain rfl := Option.some.inj (hc'.symm.trans hc₁)
      exact .told hc' rfl rfl hcall hm (if_pos rfl)
    · exact .kept hc' rfl rfl (if_neg hch).symm
  | remove hcall =>
    obtain ⟨c₁, hc₁, hkey₁, howner₁, hsent₁⟩ := Coalescer.exists_of_dropSender hc
    obtain ⟨c₂, hc₂, hkey₂, howner₂, hsent₂⟩ := Coalescer.exists_of_remove hc₁
    exact .kept hc₂ (hkey₂.trans hkey₁) (howner₂.trans howner₁) (hsent₂.trans hsent₁)
  | abandon hcall =>
    obtain ⟨c', hc', hkey, howner, hsent⟩ := Coalescer.exists_of_dropSender hc
    exact .kept hc' hkey howner hsent

/-- A message was there before, or its channel's opener has just broadcast it. -/
theorem message_step (hs : s.coalescer.Accounted s.holding)
    (h : coalescerStep serialize deserialize s a = some t) {ch : ℕ} {c : Channel κ τ} {m : τ}
    (hc : t.coalescer.channels[ch]? = some c) (hm : m ∈ c.sent) :
    (∃ c', s.coalescer.channels[ch]? = some c' ∧ c'.owner = c.owner ∧ m ∈ c'.sent) ∨
      a = .broadcast c.owner ∧
        ∃ key resp, s.calls c.owner = some ⟨key, .executed ch resp⟩ ∧ serialize resp = some m := by
  cases channelOrigin hs h hc with
  | kept hc' hkey howner hsent => exact .inl ⟨_, hc', howner, hsent ▸ hm⟩
  | told hc' hkey howner hcall hserialize hsent =>
    rw [hsent, List.mem_append, List.mem_singleton] at hm
    rcases hm with hm | rfl
    · exact .inl ⟨_, hc', howner, hm⟩
    · exact .inr ⟨rfl, _, _, hcall, hserialize⟩
  | opened hcall hch hsent =>
    rw [hsent] at hm
    exact absurd hm List.not_mem_nil

omit [DecidableEq κ] in
theorem Channel.mem_sent_of_recv {c : Channel κ τ} {pos : ℕ} {msg : τ}
    (h : c.recv pos = .message msg) : msg ∈ c.sent := by
  rw [Channel.recv] at h
  split at h
  · split_ifs at h
  · rename_i msg' hdrop
    cases h
    refine List.mem_of_mem_drop (i := pos) ?_
    rw [hdrop]
    exact List.mem_singleton_self msg
  · cases h

/-! ### Every entry has a leader that resolves it -/

/-- The channel has a message or is closed. In both cases `recv` returns to whoever waits on it. -/
def Coalescer.Resolved (k : Coalescer κ τ) (ch : ℕ) : Prop :=
  ∃ c, k.channels[ch]? = some c ∧ (c.sent ≠ [] ∨ c.senders = 0)

/-- What a leader still does by itself, given the upstream's answer. -/
def CallPhase.rest (i : ℕ) (resp : ρ) : CallPhase ρ → List (CallAction κ ρ)
  | .executing _ => [.upstream i resp, .broadcast i, .remove i]
  | .executed _ _ => [.broadcast i, .remove i]
  | .sent _ _ => [.remove i]
  | _ => []

variable (serialize deserialize) in
/-- Every entry belongs to a call that is still running, holds a sender of that channel, and
resolves it when it runs to its end, whatever the upstream answers. -/
def CoalescerState.Held (s : CoalescerState κ τ ρ) : Prop :=
  ∀ key ch, s.coalescer.inFlight key = some ch →
    ∃ i phase, s.calls i = some ⟨key, phase⟩ ∧ phase.sender = some ch ∧
      ∀ resp, ∃ t, run (coalescerStep serialize deserialize) s (phase.rest i resp) = some t ∧
        t.coalescer.Resolved ch

theorem accounted_step (hs : s.coalescer.Accounted s.holding)
    (h : coalescerStep serialize deserialize s a = some t) :
    t.coalescer.Accounted t.holding := by
  cases ledgerStep h with
  | quiet hkept hcoalescer hholding => rwa [hcoalescer, hholding]
  | send hcall hm hcoalescer hholding =>
    rw [hcoalescer, hholding]
    exact hs.send _
  | insert hi hcoalescer hholding =>
    rw [hcoalescer, hholding]
    exact hs.insert hi
  | finish hi hcoalescer hholding =>
    rw [hcoalescer, hholding]
    exact hs.remove.dropSender hi
  | abandon hcall hcoalescer hholding =>
    rw [hcoalescer, hholding]
    exact hs.dropSender (CoalescerState.holding_eq hcall)

theorem owned_step_iff (hs : s.coalescer.Accounted s.holding) (howned : s.coalescer.Owned s.holding)
    (h : coalescerStep serialize deserialize s a = some t) :
    t.coalescer.Owned t.holding ↔ EntryKept s a := by
  cases ledgerStep h with
  | quiet hkept hcoalescer hholding =>
    rw [hcoalescer, hholding]
    exact iff_of_true howned hkept
  | send hcall hm hcoalescer hholding =>
    rw [hcoalescer, hholding]
    exact iff_of_true howned trivial
  | insert hi hcoalescer hholding =>
    rw [hcoalescer, hholding]
    exact iff_of_true (howned.insert hi) trivial
  | finish hi hcoalescer hholding =>
    rw [hcoalescer, hholding]
    exact iff_of_true (howned.finish hi) trivial
  | @abandon i key ch hcall hcoalescer hholding =>
    rw [hcoalescer, hholding, howned.dropSender_iff hs (CoalescerState.holding_eq hcall)]
    constructor
    · intro hne key' ch' hcall'
      cases hcall.symm.trans hcall'
      exact hne
    · exact fun hkept => hkept key ch hcall

variable (serialize deserialize) in
/-- A leader that has broadcast closes its channel as it returns. -/
theorem closes_of_sent {i ch : ℕ} {key : κ} {resp : ρ} (hs : s.coalescer.Accounted s.holding)
    (hcall : s.calls i = some ⟨key, .sent ch resp⟩) :
    ∃ t c, coalescerStep serialize deserialize s (.remove i) = some t ∧
      t.coalescer.channels[ch]? = some c ∧ c.senders = 0 := by
  obtain ⟨t, ht⟩ : ∃ t, coalescerStep serialize deserialize s (.remove i) = some t := by
    simp only [coalescerStep, hcall]
    exact ⟨_, rfl⟩
  have hi : s.holding i = some (key, ch) := CoalescerState.holding_eq hcall
  have hacc := accounted_step hs ht
  have ht' := ht
  simp only [coalescerStep, hcall, Option.some.injEq] at ht'
  subst ht'
  -- the channel keeps its key and its opener while its senders are dropped
  have hrem : (s.coalescer.remove key).Accounted s.holding := hs.remove
  obtain ⟨c, hc, rfl, rfl⟩ := hrem.holder i key ch hi
  have hc' := (Coalescer.getElem?_dropSender (s.coalescer.remove c.key) ch ch).trans
    (congrArg _ hc)
  refine ⟨_, _, ht, hc', ?_⟩
  have hentry : (s.coalescer.remove c.key).inFlight c.key ≠ some ch := by
    rw [Coalescer.inFlight_remove_self]
    exact (Option.some_ne_none _).symm
  have hhold : (s.advance c.owner c.key (.returned resp)).holding c.owner ≠ some (c.key, ch) := by
    rw [s.holding_advance, Function.update_self]
    exact (Option.some_ne_none _).symm
  rw [hacc.senders ch _ hc']
  exact congrArg₂ (· + ·) (if_neg hentry) (if_neg hhold)

theorem resolves_of_sent {i ch : ℕ} {key : κ} {resp : ρ} (hs : s.coalescer.Accounted s.holding)
    (hcall : s.calls i = some ⟨key, .sent ch resp⟩) :
    ∃ t, run (coalescerStep serialize deserialize) s [.remove i] = some t ∧
      t.coalescer.Resolved ch := by
  obtain ⟨t, c, ht, hc, hclosed⟩ := closes_of_sent serialize deserialize hs hcall
  exact ⟨t, run_cons_of_step ht [], c, hc, .inr hclosed⟩

theorem resolves_of_executed {i ch : ℕ} {key : κ} {resp : ρ}
    (hs : s.coalescer.Accounted s.holding) (hcall : s.calls i = some ⟨key, .executed ch resp⟩) :
    ∃ t, run (coalescerStep serialize deserialize) s [.broadcast i, .remove i] = some t ∧
      t.coalescer.Resolved ch := by
  obtain ⟨u, hu, hcall'⟩ : ∃ u, coalescerStep serialize deserialize s (.broadcast i) = some u ∧
      u.calls i = some ⟨key, .sent ch resp⟩ := by
    simp only [coalescerStep, hcall]
    cases serialize resp with
    | none => exact ⟨_, rfl, Function.update_self _ _ _⟩
    | some m => exact ⟨_, rfl, Function.update_self _ _ _⟩
  obtain ⟨t, ht, hresolved⟩ := resolves_of_sent (accounted_step hs hu) hcall'
  exact ⟨t, (run_cons_of_step hu _).trans ht, hresolved⟩

theorem resolves_of_executing {i ch : ℕ} {key : κ} (hs : s.coalescer.Accounted s.holding)
    (hcall : s.calls i = some ⟨key, .executing ch⟩) (resp : ρ) :
    ∃ t, run (coalescerStep serialize deserialize) s
        [.upstream i resp, .broadcast i, .remove i] = some t ∧ t.coalescer.Resolved ch := by
  obtain ⟨u, hu, hcall'⟩ : ∃ u,
      coalescerStep serialize deserialize s (.upstream i resp) = some u ∧
      u.calls i = some ⟨key, .executed ch resp⟩ := by
    simp only [coalescerStep, hcall]
    exact ⟨_, rfl, Function.update_self _ _ _⟩
  obtain ⟨t, ht, hresolved⟩ := resolves_of_executed (accounted_step hs hu) hcall'
  exact ⟨t, (run_cons_of_step hu _).trans ht, hresolved⟩

/-- Whoever holds the sender of an entry resolves it, so only the holder has to be there. The
upstream's answer decides what is broadcast and not whether the channel is resolved. -/
theorem held_iff_owned (hs : s.coalescer.Accounted s.holding) :
    s.Held serialize deserialize ↔ s.coalescer.Owned s.holding := by
  refine forall_congr' fun key => forall_congr' fun ch => imp_congr_right fun _ => ?_
  constructor
  · rintro ⟨i, phase, hcall, hsender, -⟩
    exact ⟨i, by rw [CoalescerState.holding_eq hcall, hsender]; rfl⟩
  · rintro ⟨i, hi⟩
    obtain ⟨⟨key', phase⟩, hcall, hholding⟩ := Option.bind_eq_some_iff.mp hi
    obtain ⟨ch', hsender, heq⟩ := Option.map_eq_some_iff.mp hholding
    cases heq
    refine ⟨i, phase, hcall, hsender, fun resp => ?_⟩
    cases phase with
    | executing _ =>
      cases hsender
      exact resolves_of_executing hs hcall resp
    | executed _ _ =>
      cases hsender
      exact resolves_of_executed hs hcall
    | sent _ _ =>
      cases hsender
      exact resolves_of_sent hs hcall
    | _ => exact absurd hsender nofun

variable (serialize deserialize) in
/-- **Every entry belongs to a running call that resolves it, in every state of a run, exactly when
no leader is cancelled while the entry of its key is its own.** Ownership is kept by a step if and
only if the step meets the condition, so the two sides agree step by step. -/
theorem always_held_iff (as : List (CallAction κ ρ)) :
    Always (coalescerStep serialize deserialize) (CoalescerState.Held serialize deserialize)
        .init as ↔
      Along (coalescerStep serialize deserialize) EntryKept .init as := by
  refine always_iff_along (I := fun s => s.coalescer.Accounted s.holding)
    (fun s a t hs ht => accounted_step hs ht) (fun s a t hs hheld ht => ?_) .new nofun
  rw [held_iff_owned (accounted_step hs ht)]
  exact owned_step_iff hs ((held_iff_owned hs).mp hheld) ht

/-! ### What an orphaned entry does to its key -/

/-- A call that is not past its lookup, or waits for a message after the first `n` of the channel,
or is over. -/
def CallPhase.Hung (ch n : ℕ) : CallPhase ρ → Prop
  | .start => True
  | .waiting ch' pos => ch' = ch ∧ n ≤ pos
  | .returned _ => True
  | .cancelled => True
  | _ => False

/-- The entry of the key is an orphan and every call of the key runs into it. The messages it may
still have were sent before the waiters came, so they do not see them. -/
def CoalescerState.Hung (s : CoalescerState κ τ ρ) (key : κ) (ch : ℕ) : Prop :=
  s.coalescer.inFlight key = some ch ∧
    ∃ c, s.coalescer.channels[ch]? = some c ∧
      ∀ i phase, s.calls i = some ⟨key, phase⟩ → phase.Hung ch c.sent.length

theorem CallPhase.Hung.sender {ch n : ℕ} {phase : CallPhase ρ} (h : phase.Hung ch n) :
    phase.sender = none := by
  cases phase <;> first | rfl | exact absurd h not_false

omit [DecidableEq κ] in
theorem CoalescerState.holding_ne_of_hung {key : κ} {ch n : ℕ}
    (h : ∀ i phase, s.calls i = some ⟨key, phase⟩ → phase.Hung ch n) (i ch' : ℕ) :
    s.holding i ≠ some (key, ch') := by
  intro hi
  obtain ⟨⟨key', phase⟩, hcall, hholding⟩ := Option.bind_eq_some_iff.mp hi
  obtain ⟨_, hsender, heq⟩ := Option.map_eq_some_iff.mp hholding
  cases heq
  exact absurd ((h i phase hcall).sender.symm.trans hsender) (Option.some_ne_none _).symm

/-- Removing another key leaves the channel of this one alone. -/
theorem Coalescer.Accounted.getElem?_remove {k : Coalescer κ τ} {holding : ℕ → Option (κ × ℕ)}
    (h : k.Accounted holding) {key key' : κ} {ch : ℕ} {c : Channel κ τ} (hne : key' ≠ key)
    (hentry : k.inFlight key = some ch) (hc : k.channels[ch]? = some c) :
    (k.remove key').channels[ch]? = some c := by
  cases hentry' : k.inFlight key' with
  | none => rwa [Coalescer.remove_of_none hentry']
  | some ch' =>
    have hch : ch' ≠ ch := by
      rintro rfl
      obtain ⟨c₁, hc₁, hkey₁⟩ := h.entry key ch' hentry
      obtain ⟨c₂, hc₂, hkey₂⟩ := h.entry key' ch' hentry'
      obtain rfl := Option.some.inj (hc₁.symm.trans hc₂)
      exact hne (hkey₂.symm.trans hkey₁)
    rw [Coalescer.channels_remove hentry', k.getElem?_dropSender, hc, Option.map_some, if_neg hch]

/-- An entry that no call of its key touches stays, and so does its channel. -/
theorem LedgerStep.entry_kept {key : κ} {ch : ℕ} {c : Channel κ τ}
    (h : LedgerStep serialize s t a) (hs : s.coalescer.Accounted s.holding)
    (hentry : s.coalescer.inFlight key = some ch) (hc : s.coalescer.channels[ch]? = some c)
    (hbefore : ∀ i ch', s.holding i ≠ some (key, ch'))
    (hafter : ∀ i ch', t.holding i ≠ some (key, ch')) :
    t.coalescer.inFlight key = some ch ∧ t.coalescer.channels[ch]? = some c := by
  -- a channel that some call holds is not the one of the entry
  have hother : ∀ {i key' ch'}, s.holding i = some (key', ch') → ch' ≠ ch ∧ key ≠ key' := by
    intro i key' ch' hi
    have hkey : key ≠ key' := by
      rintro rfl
      exact hbefore i ch' hi
    refine ⟨?_, hkey⟩
    rintro rfl
    obtain ⟨c₁, hc₁, hkey₁⟩ := hs.entry key ch' hentry
    obtain ⟨c₂, hc₂, hkey₂, -⟩ := hs.holder i key' ch' hi
    obtain rfl := Option.some.inj (hc₁.symm.trans hc₂)
    exact hkey (hkey₁.symm.trans hkey₂)
  cases h with
  | quiet hkept hcoalescer hholding =>
    rw [hcoalescer]
    exact ⟨hentry, hc⟩
  | send hcall hm hcoalescer hholding =>
    obtain ⟨hch, -⟩ := hother (CoalescerState.holding_eq hcall)
    rw [hcoalescer, Coalescer.getElem?_send, hc, Option.map_some, if_neg hch]
    exact ⟨hentry, rfl⟩
  | @insert i key' hi hcoalescer hholding =>
    have hkey : key ≠ key' := by
      rintro rfl
      refine hafter i s.coalescer.channels.length ?_
      rw [hholding, Function.update_self]
    rw [hcoalescer, Coalescer.inFlight_insert, Function.update_of_ne hkey,
      Coalescer.inFlight_remove, Function.update_of_ne hkey]
    have hrem := hs.getElem?_remove (Ne.symm hkey) hentry hc
    exact ⟨hentry, (List.getElem?_append_left (List.getElem?_eq_some_iff.mp hrem).1).trans hrem⟩
  | finish hi hcoalescer hholding =>
    obtain ⟨hch, hkey⟩ := hother hi
    rw [hcoalescer, Coalescer.getElem?_dropSender, hs.getElem?_remove (Ne.symm hkey) hentry hc,
      Option.map_some, if_neg hch]
    refine ⟨?_, rfl⟩
    change (s.coalescer.remove _).inFlight key = _
    rw [Coalescer.inFlight_remove, Function.update_of_ne hkey, hentry]
  | abandon hcall hcoalescer hholding =>
    obtain ⟨hch, -⟩ := hother (CoalescerState.holding_eq hcall)
    rw [hcoalescer, Coalescer.getElem?_dropSender, hc, Option.map_some, if_neg hch]
    exact ⟨hentry, rfl⟩

omit [DecidableEq κ] in
theorem hung_advance {key key' : κ} {ch n i : ℕ} {phase : CallPhase ρ}
    (hcalls : ∀ j phase, s.calls j = some ⟨key, phase⟩ → phase.Hung ch n)
    (hphase : key' = key → phase.Hung ch n ∧ ∀ resp, phase ≠ .returned resp) {j : ℕ}
    {phase' : CallPhase ρ} (hj : (s.advance i key' phase).calls j = some ⟨key, phase'⟩) :
    phase'.Hung ch n ∧ ∀ resp, phase' = .returned resp → s.calls j = some ⟨key, phase'⟩ := by
  by_cases hij : j = i
  · subst hij
    rw [s.calls_advance_self, Option.some.injEq, Call.mk.injEq] at hj
    obtain ⟨rfl, rfl⟩ := hj
    exact ⟨(hphase rfl).1, fun resp hresp => absurd hresp ((hphase rfl).2 resp)⟩
  · rw [s.calls_advance_of_ne key' phase hij] at hj
    exact ⟨hcalls j phase' hj, fun _ _ => hj⟩

/-- The channel of an orphaned entry stays open: the clone in the map is a sender of it, and nobody
removes the entry. -/
theorem recv_of_orphan {key : κ} {ch pos : ℕ} {c : Channel κ τ}
    (hs : s.coalescer.Accounted s.holding) (hentry : s.coalescer.inFlight key = some ch)
    (hc : s.coalescer.channels[ch]? = some c) (hpos : c.sent.length ≤ pos) :
    c.recv pos = .pending := by
  obtain ⟨c₁, hc₁, hkey₁⟩ := hs.entry key ch hentry
  obtain rfl := Option.some.inj (hc.symm.trans hc₁)
  have hopen : c.senders ≠ 0 := by
    rw [hs.senders ch c hc, hkey₁, if_pos hentry]
    omega
  rw [Channel.recv, List.drop_eq_nil_of_le hpos]
  exact if_neg hopen

theorem hung_calls {key : κ} {ch : ℕ} {c : Channel κ τ} (hs : s.coalescer.Accounted s.holding)
    (hentry : s.coalescer.inFlight key = some ch) (hc : s.coalescer.channels[ch]? = some c)
    (hcalls : ∀ i phase, s.calls i = some ⟨key, phase⟩ → phase.Hung ch c.sent.length)
    (h : coalescerStep serialize deserialize s a = some t) {j : ℕ} {phase : CallPhase ρ}
    (hj : t.calls j = some ⟨key, phase⟩) :
    phase.Hung ch c.sent.length ∧
      ∀ resp, phase = .returned resp → s.calls j = some ⟨key, phase⟩ := by
  -- a call of the key that waits receives nothing
  have hwait : ∀ {i ch' pos c'}, s.calls i = some ⟨key, .waiting ch' pos⟩ →
      s.coalescer.channels[ch']? = some c' → c'.recv pos = .pending := by
    intro i ch' pos c' hcall hc'
    obtain ⟨rfl, hpos⟩ := hcalls i _ hcall
    obtain rfl := Option.some.inj (hc.symm.trans hc')
    exact recv_of_orphan hs hentry hc hpos
  cases callMove h with
  | call hcall =>
    refine hung_advance hcalls ?_ hj
    exact fun _ => ⟨trivial, nofun⟩
  | lead hcall hnone =>
    refine hung_advance hcalls ?_ hj
    rintro rfl
    exact absurd (hentry.symm.trans hnone) (Option.some_ne_none _)
  | subscribe hcall hsome hc' =>
    refine hung_advance hcalls ?_ hj
    rintro rfl
    obtain rfl := Option.some.inj (hentry.symm.trans hsome)
    obtain rfl := Option.some.inj (hc.symm.trans hc')
    exact ⟨⟨rfl, le_rfl⟩, nofun⟩
  | insert hcall | upstream hcall | withhold hcall _ | broadcast hcall _ | remove hcall =>
    -- no call of the key leads
    refine hung_advance hcalls ?_ hj
    rintro rfl
    exact absurd (hcalls _ _ hcall) not_false
  | receive hcall hc' hrecv hresp =>
    refine hung_advance hcalls ?_ hj
    rintro rfl
    exact absurd ((hwait hcall hc').symm.trans hrecv) nofun
  | retry hcall hc' hpending hunread =>
    refine hung_advance hcalls ?_ hj
    rintro rfl
    exact absurd (hwait hcall hc') hpending
  | leave hcall _ | abandon hcall =>
    refine hung_advance hcalls ?_ hj
    exact fun _ => ⟨trivial, nofun⟩

theorem hung_step {key : κ} {ch : ℕ} (hs : s.coalescer.Accounted s.holding)
    (hhung : s.Hung key ch) (h : coalescerStep serialize deserialize s a = some t) :
    t.Hung key ch ∧ ∀ i resp, t.calls i = some ⟨key, .returned resp⟩ →
      s.calls i = some ⟨key, .returned resp⟩ := by
  obtain ⟨hentry, c, hc, hcalls⟩ := hhung
  have hcalls' : ∀ i phase, t.calls i = some ⟨key, phase⟩ → phase.Hung ch c.sent.length :=
    fun i phase hi => (hung_calls hs hentry hc hcalls h hi).1
  obtain ⟨hentry', hc'⟩ := (ledgerStep h).entry_kept hs hentry hc
    (CoalescerState.holding_ne_of_hung hcalls) (CoalescerState.holding_ne_of_hung hcalls')
  exact ⟨⟨hentry', c, hc', hcalls'⟩,
    fun i resp hi => (hung_calls hs hentry hc hcalls h hi).2 resp rfl⟩

/-- **An orphaned entry hangs its key**: in every run from there, no call of that key returns that
had not returned before. There is no timeout in `coalesce_or_execute` that would end the wait. -/
theorem hung_run {key : κ} {ch : ℕ} {as : List (CallAction κ ρ)}
    (hs : s.coalescer.Accounted s.holding) (hhung : s.Hung key ch)
    (hrun : run (coalescerStep serialize deserialize) s as = some t) :
    t.Hung key ch ∧ ∀ i resp, t.calls i = some ⟨key, .returned resp⟩ →
      s.calls i = some ⟨key, .returned resp⟩ := by
  have hinv := run_inv
    (I := fun u => u.coalescer.Accounted u.holding ∧ u.Hung key ch ∧
      ∀ i resp, u.calls i = some ⟨key, .returned resp⟩ → s.calls i = some ⟨key, .returned resp⟩)
    (fun u b v hu hv => ?_) ⟨hs, hhung, fun _ _ hi => hi⟩ hrun
  · exact hinv.2
  · obtain ⟨hacc, hhung, hret⟩ := hu
    obtain ⟨hhung', hret'⟩ := hung_step hacc hhung hv
    exact ⟨accounted_step hacc hv, hhung', fun i resp hi => hret i resp (hret' i resp hi)⟩

end Promise

/-! ### A leader that disconnects -/

/-- A client leads, disconnects while the upstream call is awaited, and another client sends the
same request. -/
def disconnectedLeader : List (CallAction String JsonRpcResponse) :=
  [.call 0 "poolbeg:1:5d", .lookup 0, .insert 0, .cancel 0, .call 1 "poolbeg:1:5d", .lookup 1]

/-- The first client is gone and the second waits on the channel of the first. -/
theorem calls_disconnectedLeader {s : CoalescerState String Value JsonRpcResponse}
    (hrun : run (requestCoalescerStep .tree) .init disconnectedLeader = some s) {i : ℕ}
    {phase : CallPhase JsonRpcResponse} (hi : s.calls i = some ⟨"poolbeg:1:5d", phase⟩) :
    phase = .cancelled ∨ phase = .waiting 0 0 := by
  cases hrun
  by_cases h1 : i = 1
  · subst h1
    cases hi
    exact .inr rfl
  · by_cases h0 : i = 0
    · subst h0
      cases hi
      exact .inl rfl
    · simp [CoalescerState.advance, Function.update_of_ne h1, Function.update_of_ne h0,
        CoalescerState.init] at hi

/-- The entry stays without its leader, and no request with that key is ever answered. -/
theorem disconnectedLeader_not_held :
    ∃ s, run (requestCoalescerStep .tree) .init disconnectedLeader = some s ∧
      ¬ s.Held (fun resp => some (resp.toText .tree)) (JsonRpcResponse.ofText .tree) ∧
      ∀ as t, run (requestCoalescerStep .tree) s as = some t →
        ∀ i resp, t.calls i ≠ some ⟨"poolbeg:1:5d", .returned resp⟩ := by
  obtain ⟨s, hrun, hentry, hchannel⟩ :
      ∃ s, run (requestCoalescerStep .tree) .init disconnectedLeader = some s ∧
        s.coalescer.inFlight "poolbeg:1:5d" = some 0 ∧
        s.coalescer.channels[0]? =
          some { key := "poolbeg:1:5d", owner := 0, sent := [], senders := 1 } :=
    ⟨_, rfl, rfl, rfl⟩
  have hacc : s.coalescer.Accounted s.holding :=
    run_inv (I := fun u => u.coalescer.Accounted u.holding)
      (fun _ _ _ hu hv => accounted_step hu hv) .new hrun
  refine ⟨s, hrun, ?_, ?_⟩
  · intro hheld
    obtain ⟨i, phase, hcall, hsender, -⟩ := hheld _ 0 hentry
    rcases calls_disconnectedLeader hrun hcall with rfl | rfl
    · exact absurd hsender nofun
    · exact absurd hsender nofun
  · intro as t hrun' i resp hi
    have hhung : s.Hung "poolbeg:1:5d" 0 := by
      refine ⟨hentry, _, hchannel, fun i phase hcall => ?_⟩
      rcases calls_disconnectedLeader hrun hcall with rfl | rfl
      · trivial
      · exact ⟨rfl, le_rfl⟩
    rcases calls_disconnectedLeader hrun ((hung_run hacc hhung hrun').2 i resp hi) with h | h
    · exact absurd h nofun
    · exact absurd h nofun

end Poolbeg
