import Mathlib.Algebra.BigOperators.Group.List.Basic
import Mathlib.Algebra.Order.BigOperators.Group.List
import Mathlib.Data.List.Nodup
import Poolbeg.Ws.Connection

/-!
# The count of subscriptions

`ws_subscriptions` is counted up when a subscription is in the map, down when one was taken out of
it, and down at the end of a connection by what `remove_client_subscriptions` has removed. That
function does not compare senders: it keeps every subscription whose channel is not closed yet, and
at that point the forwarder, which holds the receiver, has not been aborted. What it keeps is never
subtracted.

So the count is right exactly as long as every connection finds its channel closed for every
subscription it looks at when it leaves (`wsSubscriptions_iff`), which takes a write that has failed
before.

## Shares

The count of a chain is the sum of the shares of its connections. A share is what is in the map,
corrected by at most one while the read loop is between the map and the counter, and each step adds
to the count what it changes of the connection's share. When a connection has left, its share is
what it has kept. So between two operations the count is the number of open subscriptions plus what
was kept, and it is right if and only if nothing was.

## Implementation notes

The counter is an integer here; an `AtomicUsize` agrees with it because it is never negative
(`wsSubscriptions_nonneg`). The map and the counter are two accesses, so a reader in between may see
the count one off; the result is about states in which no handler is in the middle of an operation.

## Main definitions

* `ChainConnections`, `ChainAction`, `chainStep` — the connections of a chain
* `Connection.counted`, `Connection.kept` — what a connection has been counted for
* `FoundClosed` — the condition

## Main results

* `counted_step`, `kept_step` — one step of a connection
* `wsSubscriptions_nonneg` — the counter does not wrap
* `wsSubscriptions_iff` — when the count is right
-/

namespace Poolbeg

open Lts

variable {Text ι : Type}

/-! ### The connections of a chain -/

/-- All connections a chain has had, and the count of its subscriptions. Those that have closed stay
in the list, with what they have kept. -/
structure ChainConnections where
  conns : List Connection
  wsSubscriptions : ℤ

def ChainConnections.init : ChainConnections where
  conns := []
  wsSubscriptions := 0

inductive ChainAction (Text : Type)
  | connect
  | step (i : ℕ) (a : ConnectionAction Text)

/-- What a step of a connection adds to `ws_subscriptions`. On the way out it is subtracted once, as
a difference of sizes. -/
def ReadPhase.countChange (phase : ReadPhase) : ConnectionAction Text → ℤ
  | .count => 1
  | .uncount => -1
  | .subtract =>
    match phase with
    | .subtracting removed => -removed
    | _ => 0
  | _ => 0

variable (serde : SerdeJson Text) (toLowercase : String → String) (app : AppConfig ι) (chain : ι)

def chainStep (s : ChainConnections) : ChainAction Text → Option ChainConnections
  | .connect => some { s with conns := s.conns ++ [.opened] }
  | .step i a =>
    (s.conns[i]?).bind fun c => (connectionStep serde toLowercase app chain c a).map fun d =>
      { conns := s.conns.set i d, wsSubscriptions := s.wsSubscriptions + c.phase.countChange a }

/-- No handler is in the middle of an operation: every connection is waiting for a message, or has
closed. -/
def ChainConnections.Quiescent (s : ChainConnections) : Prop :=
  ∀ c ∈ s.conns, c.phase = .reading ∨ c.phase = .closed

/-- The registered subscriptions of a connection that is still open; a closed one has none that
count. -/
def Connection.openSubs (c : Connection) : ℕ :=
  match c.phase with
  | .closed => 0
  | _ => c.subs.length

def ChainConnections.openSubscriptions (s : ChainConnections) : ℕ :=
  (s.conns.map Connection.openSubs).sum

/-! ### What a connection has been counted for -/

/-- By how much the count is ahead of the map. A subscription is registered before it is counted,
and removed before it is uncounted. -/
def ReadPhase.ahead : ReadPhase → ℤ
  | .handling _ (.registered _ _) => -1
  | .handling _ (.removed _ _) => 1
  | .subtracting removed => removed
  | _ => 0

/-- What a connection contributes to the count. -/
def Connection.counted (c : Connection) : ℤ := c.subs.length + c.phase.ahead

/-- The subscriptions that have been kept on the way out, by the walk over the map so far. -/
def Connection.kept (c : Connection) : ℕ :=
  match c.phase with
  | .retaining _ kept => kept.length
  | .subtracting _ | .aborting | .closed => c.subs.length
  | _ => 0

/-- The read loop is running. -/
def ReadPhase.Serving : ReadPhase → Prop
  | .reading | .handling _ _ => True
  | _ => False

/-- The map of a connection: ids are registered once and have been issued, one has just been
registered before it is counted, and a walk over the map keeps no more than there is. -/
structure Connection.Tidy (c : Connection) : Prop where
  nodup : c.phase.Serving → (subscriptionIds c.subs).Nodup
  issued : c.phase.Serving → ∀ subscriptionId ∈ subscriptionIds c.subs, subscriptionId ∈ c.issued
  registered : ∀ h subscriptionId id, c.phase = .handling h (.registered subscriptionId id) →
    c.subs ≠ []
  retaining : ∀ todo kept, c.phase = .retaining todo kept →
    todo.length + kept.length ≤ c.subs.length

theorem Connection.tidy_opened : Connection.opened.Tidy := by
  refine ⟨fun _ => List.nodup_nil, fun _ _ h => absurd h List.not_mem_nil, ?_, ?_⟩
  · rintro _ _ _ ⟨⟩
  · rintro _ _ ⟨⟩

variable {serde toLowercase app chain} {c d : Connection} {a : ConnectionAction Text}

/-! ### Every step keeps the map tidy -/

/-- The read loop moves on and leaves the map alone. -/
theorem Connection.Tidy.moveTo (hc : c.Tidy) {phase : ReadPhase}
    (hserving : phase.Serving → c.phase.Serving)
    (hregistered : ∀ h subscriptionId id, phase ≠ .handling h (.registered subscriptionId id))
    (hretaining : ∀ todo kept, phase ≠ .retaining todo kept) : (c.moveTo phase).Tidy where
  nodup h := hc.nodup (hserving h)
  issued h := hc.issued (hserving h)
  registered _ _ _ h := absurd h (hregistered _ _ _)
  retaining _ _ h := absurd h (hretaining _ _)

/-- The work on a request is done. -/
theorem Connection.Tidy.answered (hc : c.Tidy) (hserving : c.phase.Serving) (h : Handling) :
    (c.moveTo (.handling h .next)).Tidy := by
  refine hc.moveTo (fun _ => hserving) ?_ ?_
  · rintro _ _ _ ⟨⟩
  · rintro _ _ ⟨⟩

/-- The loop is over. -/
theorem Connection.Tidy.left (hc : c.Tidy) {phase : ReadPhase} (hserving : ¬ phase.Serving)
    (hretaining : ∀ todo kept, phase ≠ .retaining todo kept) : (c.moveTo phase).Tidy := by
  refine hc.moveTo (fun h => absurd h hserving) (fun _ _ _ h => ?_) hretaining
  exact hserving (h ▸ trivial)

theorem Handling.begin_ne_registered (h : Handling) (routed : Routed) (h' : Handling)
    (subscriptionId : String) (id : Value) :
    h.begin routed ≠ .handling h' (.registered subscriptionId id) := by
  cases routed <;> rintro ⟨⟩

theorem Handling.begin_ne_retaining (h : Handling) (routed : Routed)
    (todo kept : List ClientSubscription) : h.begin routed ≠ .retaining todo kept := by
  cases routed <;> rintro ⟨⟩

theorem tidy_register {h : Handling} (sub : ClientSubscription) {id : Value} (hc : c.Tidy)
    (hserving : c.phase.Serving) (hfresh : sub.subscriptionId ∉ c.issued) :
    Connection.Tidy { c with
      phase := .handling h (.registered sub.subscriptionId id)
      subs := insertSubscription c.subs sub
      issued := sub.subscriptionId :: c.issued } := by
  have hnew : sub.subscriptionId ∉ subscriptionIds c.subs :=
    fun hmem => hfresh (hc.issued hserving _ hmem)
  have hids : subscriptionIds (insertSubscription c.subs sub) =
      subscriptionIds c.subs ++ [sub.subscriptionId] := by
    rw [insertSubscription_of_fresh hnew, subscriptionIds, List.map_append]
    rfl
  refine ⟨fun _ => ?_, fun _ => ?_, fun _ _ _ _ => ?_, ?_⟩
  · rw [hids]
    rw [← List.concat_eq_append]
    exact List.Nodup.concat hnew (hc.nodup hserving)
  · intro subscriptionId hmem
    rw [hids, List.mem_append, List.mem_singleton] at hmem
    rcases hmem with hmem | rfl
    · exact List.mem_cons_of_mem _ (hc.issued hserving _ hmem)
    · exact List.mem_cons_self
  · rw [insertSubscription]
    exact List.append_ne_nil_of_right_ne_nil _ (List.cons_ne_nil _ _)
  · rintro _ _ ⟨⟩

theorem tidy_step (hc : c.Tidy) (h : connectionStep serde toLowercase app chain c a = some d) :
    d.Tidy := by
  cases connectionMove h with
  | message hphase => exact hc.answered (by rw [hphase]; trivial) _
  | begin hphase hremaining =>
    exact hc.moveTo (fun _ => by rw [hphase]; trivial) (Handling.begin_ne_registered _ _)
      (Handling.begin_ne_retaining _ _)
  | register hphase hsending hfresh =>
    exact tidy_register ⟨_, _, _⟩ hc (by rw [hphase]; trivial) hfresh
  | count hphase => exact hc.answered (by rw [hphase]; trivial) _
  | @remove handling subscriptionId id hphase hsending hfound =>
    have hserving : c.phase.Serving := by
      rw [hphase]
      trivial
    have hsub := subscriptionIds_remove_subset c.subs subscriptionId
    refine ⟨fun _ => ?_, fun _ sid hmem => hc.issued hserving sid (hsub hmem), ?_, ?_⟩
    · exact (hc.nodup hserving).sublist (List.filter_sublist.map _)
    · rintro _ _ _ ⟨⟩
    · rintro _ _ ⟨⟩
  | removeNone hphase => exact hc.answered (by rw [hphase]; trivial) _
  | uncount hphase => exact hc.answered (by rw [hphase]; trivial) _
  | answer hphase => exact hc.answered (by rw [hphase]; trivial) _
  | @reply handling hphase hremaining =>
    have hsend : (c.send handling.outgoing).Tidy := by
      rw [Connection.send]
      split
      · exact hc
      · exact ⟨hc.nodup, hc.issued, hc.registered, hc.retaining⟩
    refine hsend.moveTo (fun _ => ?_) ?_ ?_
    · rw [c.phase_send, hphase]
      trivial
    · rintro _ _ _ ⟨⟩
    · rintro _ _ ⟨⟩
  | disconnect hphase => exact hc.left not_false (by rintro _ _ ⟨⟩)
  | lock hphase hsending horder =>
    refine ⟨fun h => absurd h not_false, fun h => absurd h not_false, by rintro _ _ _ ⟨⟩, ?_⟩
    rintro _ _ ⟨⟩
    exact horder.length_eq.le
  | @check sub todo kept hphase =>
    refine ⟨fun h => absurd h not_false, fun h => absurd h not_false, by rintro _ _ _ ⟨⟩, ?_⟩
    rintro _ _ ⟨⟩
    have hle := hc.retaining _ _ hphase
    rw [List.length_cons] at hle
    change todo.length + (if c.channelClosed then kept else kept ++ [sub]).length ≤ c.subs.length
    split
    · omega
    · rw [List.length_append, List.length_singleton]
      omega
  | release hphase =>
    refine ⟨fun h => absurd h not_false, fun h => absurd h not_false, ?_, ?_⟩
    · rintro _ _ _ ⟨⟩
    · rintro _ _ ⟨⟩
  | subtract hphase => exact hc.left not_false (by rintro _ _ ⟨⟩)
  | abort hphase => exact hc.left not_false (by rintro _ _ ⟨⟩)
  | ignore => exact hc
  | dispatch | skip | notify | unlock | forward | writeFails | dropReceiver =>
    exact ⟨hc.nodup, hc.issued, hc.registered, hc.retaining⟩

/-! ### What a step adds -/

theorem Handling.ahead_begin (h : Handling) (routed : Routed) : (h.begin routed).ahead = 0 := by
  cases routed <;> rfl

theorem counted_moveTo (c : Connection) (phase : ReadPhase) :
    (c.moveTo phase).counted = c.counted + (phase.ahead - c.phase.ahead) := by
  change (c.subs.length : ℤ) + phase.ahead = c.subs.length + c.phase.ahead + _
  omega

/-- The read loop moves on, and neither the map nor the count changes. -/
theorem counted_moveTo_of_eq {phase : ReadPhase} (h : phase.ahead = c.phase.ahead) :
    (c.moveTo phase).counted = c.counted + 0 := by
  rw [counted_moveTo, h, sub_self]

/-- **A step adds to the count what it changes of the connection's share.** The steps of the
forwarder and of events change neither. -/
theorem counted_step (hc : c.Tidy) (h : connectionStep serde toLowercase app chain c a = some d) :
    d.counted = c.counted + c.phase.countChange a := by
  cases connectionMove h with
  | message hphase => exact counted_moveTo_of_eq (by rw [hphase]; rfl)
  | begin hphase hremaining =>
    exact counted_moveTo_of_eq (by rw [hphase, Handling.ahead_begin]; rfl)
  | @register handling subType logFilter id subscriptionId hphase hsending hfresh =>
    have hserving : c.phase.Serving := by
      rw [hphase]
      trivial
    have hnew : subscriptionId ∉ subscriptionIds c.subs :=
      fun hmem => hfresh (hc.issued hserving _ hmem)
    have hinsert : insertSubscription c.subs ⟨subscriptionId, subType, logFilter⟩ =
        c.subs ++ [⟨subscriptionId, subType, logFilter⟩] := insertSubscription_of_fresh hnew
    simp only [Connection.counted, hphase, hinsert, List.length_append, List.length_singleton,
      ReadPhase.ahead, ReadPhase.countChange]
    push_cast
    omega
  | count hphase =>
    rw [counted_moveTo, hphase]
    rfl
  | @remove handling subscriptionId id hphase hsending hfound =>
    have hserving : c.phase.Serving := by
      rw [hphase]
      trivial
    have hlength := length_removeSubscription (hc.nodup hserving) hfound
    simp only [Connection.counted, hphase, ReadPhase.ahead, ReadPhase.countChange, ← hlength]
    push_cast
    omega
  | removeNone hphase => exact counted_moveTo_of_eq (by rw [hphase]; rfl)
  | uncount hphase =>
    rw [counted_moveTo, hphase]
    rfl
  | answer hphase => exact counted_moveTo_of_eq (by rw [hphase]; rfl)
  | @reply handling hphase hremaining =>
    rw [counted_moveTo_of_eq (by rw [c.phase_send, hphase]; rfl), Connection.counted, c.subs_send,
      c.phase_send]
    rfl
  | disconnect hphase => exact counted_moveTo_of_eq (by rw [hphase]; rfl)
  | lock hphase => exact counted_moveTo_of_eq (by rw [hphase]; rfl)
  | check hphase => exact counted_moveTo_of_eq (by rw [hphase]; rfl)
  | @release kept hphase =>
    have hle := hc.retaining [] kept hphase
    rw [List.length_nil, Nat.zero_add] at hle
    simp only [Connection.counted, hphase, ReadPhase.ahead, ReadPhase.countChange,
      Nat.cast_sub hle]
    omega
  | @subtract removed hphase =>
    rw [counted_moveTo, hphase]
    exact congrArg _ (zero_sub (removed : ℤ))
  | abort hphase => exact counted_moveTo_of_eq (by rw [hphase]; rfl)
  | dispatch | ignore | skip | notify | unlock | forward | writeFails | dropReceiver =>
    exact (add_zero _).symm

/-- A walk looks at a subscription, and its channel is not closed. -/
def Connection.FindsOpen (c : Connection) : ConnectionAction Text → Prop
  | .check => c.channelClosed = false
  | _ => False

instance (c : Connection) (a : ConnectionAction Text) : Decidable (c.FindsOpen a) := by
  cases a <;> unfold Connection.FindsOpen <;> infer_instance

/-- **A connection keeps a subscription when it finds its channel open**, and never otherwise. -/
theorem kept_step (h : connectionStep serde toLowercase app chain c a = some d) :
    d.kept = c.kept + if c.FindsOpen a then 1 else 0 := by
  have hmoved : ∀ {phase phase' : ReadPhase}, c.phase = phase' →
      (c.moveTo phase).kept = (c.moveTo phase').kept → (c.moveTo phase).kept = c.kept + 0 := by
    rintro phase _ rfl hkept
    exact hkept
  cases connectionMove h with
  | message hphase => exact hmoved hphase rfl
  | @begin handling request remaining hphase hremaining =>
    refine hmoved hphase ?_
    cases routeRequest toLowercase app.blockedMethods request <;> rfl
  | register hphase => simp [Connection.kept, hphase, Connection.FindsOpen]
  | count hphase => exact hmoved hphase rfl
  | remove hphase => simp [Connection.kept, hphase, Connection.FindsOpen]
  | removeNone hphase => exact hmoved hphase rfl
  | uncount hphase => exact hmoved hphase rfl
  | answer hphase => exact hmoved hphase rfl
  | reply hphase => simp [Connection.kept, hphase, Connection.FindsOpen, Connection.moveTo]
  | disconnect hphase => exact hmoved hphase rfl
  | lock hphase => exact hmoved hphase rfl
  | @check sub todo kept hphase =>
    cases hclosed : c.channelClosed <;>
      simp [Connection.kept, hphase, Connection.FindsOpen, Connection.moveTo, hclosed]
  | release hphase => simp [Connection.kept, hphase, Connection.FindsOpen]
  | subtract hphase => exact hmoved hphase rfl
  | abort hphase => exact hmoved hphase rfl
  | dispatch | ignore | skip | notify | unlock | forward | writeFails | dropReceiver => rfl

/-! ### The count of a chain -/

variable {s t : ChainConnections} {b : ChainAction Text}

/-- Every subscription that a leaving connection looks at finds its channel closed. `is_closed` asks
whether the receiver is gone, and the forwarder drops it when a write fails. -/
def FoundClosed (s : ChainConnections) : ChainAction Text → Prop
  | .connect => True
  | .step i a => ∀ c ∈ s.conns[i]?, ¬ c.FindsOpen a

instance (s : ChainConnections) (b : ChainAction Text) : Decidable (FoundClosed s b) :=
  match b with
  | .connect => isTrue trivial
  | .step i a => inferInstanceAs (Decidable (∀ c ∈ s.conns[i]?, ¬ c.FindsOpen a))

variable (serde toLowercase app chain) in
/-- What a step of the chain does. -/
inductive ChainMove (s : ChainConnections) : ChainAction Text → ChainConnections → Prop
  | connect : ChainMove s .connect { s with conns := s.conns ++ [.opened] }
  | step {i : ℕ} {a : ConnectionAction Text} {c d : Connection} (hc : s.conns[i]? = some c)
      (hd : connectionStep serde toLowercase app chain c a = some d) :
      ChainMove s (.step i a)
        { conns := s.conns.set i d, wsSubscriptions := s.wsSubscriptions + c.phase.countChange a }

theorem chainMove (h : chainStep serde toLowercase app chain s b = some t) :
    ChainMove serde toLowercase app chain s b t := by
  cases b with
  | connect =>
    cases h
    exact .connect
  | step i a =>
    obtain ⟨c, hc, h⟩ := Option.bind_eq_some_iff.mp h
    obtain ⟨d, hd, rfl⟩ := Option.map_eq_some_iff.mp h
    exact .step hc hd

/-- Every connection is tidy, and the count is the sum of what they contribute. -/
structure ChainConnections.Counted (s : ChainConnections) : Prop where
  tidy : ∀ c ∈ s.conns, c.Tidy
  count : s.wsSubscriptions = (s.conns.map Connection.counted).sum

theorem ChainConnections.counted_init : ChainConnections.init.Counted :=
  ⟨fun _ h => absurd h List.not_mem_nil, rfl⟩

/-- A connection steps: the others are where they were. -/
theorem exists_set_eq {conns : List Connection} {i : ℕ} (hc : conns[i]? = some c) (d : Connection) :
    ∃ pre post, conns = pre ++ c :: post ∧ conns.set i d = pre ++ d :: post := by
  obtain ⟨hi, rfl⟩ := List.getElem?_eq_some_iff.mp hc
  have hset : ∃ pre post, conns = pre ++ conns[i] :: post ∧ pre.length = i ∧
      conns.set i d = pre ++ d :: post := List.exists_of_set hi
  obtain ⟨pre, post, heq, -, hset⟩ := hset
  exact ⟨pre, post, heq, hset⟩

theorem chainCounted_step (hs : s.Counted)
    (h : chainStep serde toLowercase app chain s b = some t) : t.Counted := by
  cases chainMove h with
  | connect =>
    refine ⟨fun c hc => ?_, ?_⟩
    · rcases List.mem_append.mp hc with hc | hc
      · exact hs.tidy c hc
      · exact List.mem_singleton.mp hc ▸ Connection.tidy_opened
    · rw [List.map_append, List.sum_append, ← hs.count]
      exact (add_zero _).symm
  | @step i a c d hc hd =>
    have htidy := hs.tidy c (List.mem_of_getElem? hc)
    refine ⟨fun x hx => ?_, ?_⟩
    · rcases List.mem_or_eq_of_mem_set hx with hx | rfl
      · exact hs.tidy x hx
      · exact tidy_step htidy hd
    · obtain ⟨pre, post, hconns, hset⟩ := exists_set_eq hc d
      have hcount := hs.count
      rw [hconns] at hcount
      change s.wsSubscriptions + c.phase.countChange a = ((s.conns.set i d).map _).sum
      simp only [hset, hcount, List.map_append, List.map_cons, List.sum_append, List.sum_cons,
        counted_step htidy hd]
      omega

/-- No connection has kept anything on its way out. -/
def ChainConnections.NoneKept (s : ChainConnections) : Prop := ∀ c ∈ s.conns, c.kept = 0

theorem noneKept_step (h : chainStep serde toLowercase app chain s b = some t) :
    t.NoneKept ↔ s.NoneKept ∧ FoundClosed s b := by
  cases chainMove h with
  | connect =>
    rw [ChainConnections.NoneKept, List.forall_mem_append, List.forall_mem_singleton]
    exact and_congr_right fun _ => ⟨fun _ => trivial, fun _ => rfl⟩
  | @step i a c d hc hd =>
    have hkept : d.kept = 0 ↔ c.kept = 0 ∧ ¬ c.FindsOpen a := by
      rw [kept_step hd]
      split <;> simp [*]
    have hfound : FoundClosed s (.step i a) ↔ ¬ c.FindsOpen a := by
      rw [FoundClosed, hc]
      exact ⟨fun h => h c rfl, fun h c' hc' => Option.some.inj hc' ▸ h⟩
    obtain ⟨pre, post, hconns, hset⟩ := exists_set_eq hc d
    change (∀ x ∈ s.conns.set i d, x.kept = 0) ↔ (∀ x ∈ s.conns, x.kept = 0) ∧ _
    rw [hset, hconns, hfound]
    simp only [List.forall_mem_append, List.forall_mem_cons, hkept]
    tauto

/-! ### The promise -/

theorem Connection.Tidy.counted_nonneg (hc : c.Tidy) : 0 ≤ c.counted := by
  have hahead : (∃ h subscriptionId id, c.phase = .handling h (.registered subscriptionId id)) ∨
      0 ≤ c.phase.ahead := by
    rcases c.phase with _ | ⟨h, stage⟩ | _ | _ | removed | _ | _
    case handling =>
      cases stage with
      | registered subscriptionId id => exact .inl ⟨h, subscriptionId, id, rfl⟩
      | removed => exact .inr Int.one_nonneg
      | next | subscribing | unsubscribing | calling => exact .inr le_rfl
    case subtracting => exact .inr (Int.natCast_nonneg removed)
    all_goals exact .inr le_rfl
  rw [Connection.counted]
  rcases hahead with ⟨h, subscriptionId, id, hphase⟩ | hahead
  · have hpos := List.length_pos_of_ne_nil (hc.registered h subscriptionId id hphase)
    rw [hphase]
    change 0 ≤ (c.subs.length : ℤ) + -1
    omega
  · omega

variable (serde toLowercase app chain) in
/-- The count is never negative, so the atomic counter never wraps around below zero. A subscription
is removed from the map before it is uncounted. -/
theorem wsSubscriptions_nonneg {as : List (ChainAction Text)}
    (hrun : run (chainStep serde toLowercase app chain) .init as = some s) :
    0 ≤ s.wsSubscriptions := by
  have hs := run_inv (I := ChainConnections.Counted) (fun _ _ _ hs h => chainCounted_step hs h)
    ChainConnections.counted_init hrun
  rw [hs.count]
  refine List.sum_nonneg fun n hn => ?_
  obtain ⟨c, hc, rfl⟩ := List.mem_map.mp hn
  exact (hs.tidy c hc).counted_nonneg

/-- Between two operations, a connection has been counted for what is registered while it is open,
and for what it has kept after that. -/
theorem Connection.counted_of_quiescent (h : c.phase = .reading ∨ c.phase = .closed) :
    c.counted = c.openSubs + c.kept := by
  rcases h with h | h
  · simp [Connection.counted, Connection.openSubs, Connection.kept, h, ReadPhase.ahead]
  · simp [Connection.counted, Connection.openSubs, Connection.kept, h, ReadPhase.ahead]

theorem sum_counted_of_quiescent {conns : List Connection}
    (h : ∀ c ∈ conns, c.phase = .reading ∨ c.phase = .closed) :
    (conns.map Connection.counted).sum =
      ((conns.map Connection.openSubs).sum : ℕ) + ((conns.map Connection.kept).sum : ℕ) := by
  induction conns with
  | nil => rfl
  | cons c conns ih =>
    obtain ⟨hc, hconns⟩ := List.forall_mem_cons.mp h
    simp only [List.map_cons, List.sum_cons, Connection.counted_of_quiescent hc, ih hconns]
    push_cast
    omega

/-- Between two operations, the count is right exactly when nothing has been kept. The shares of
open connections are their subscriptions. -/
theorem ChainConnections.Counted.eq_iff (hs : s.Counted) (hquiet : s.Quiescent) :
    s.wsSubscriptions = s.openSubscriptions ↔ s.NoneKept := by
  have hkept : (s.conns.map Connection.kept).sum = 0 ↔ s.NoneKept := by
    rw [List.sum_eq_zero_iff, List.forall_mem_map]
    rfl
  rw [hs.count, sum_counted_of_quiescent hquiet, ← hkept, ChainConnections.openSubscriptions]
  omega

/-- Once all connections have closed, nothing is registered. -/
theorem ChainConnections.openSubscriptions_of_closed (h : ∀ c ∈ s.conns, c.phase = .closed) :
    s.openSubscriptions = 0 := by
  rw [ChainConnections.openSubscriptions, List.sum_eq_zero_iff, List.forall_mem_map]
  intro c hc
  rw [Connection.openSubs, h c hc]

/-- **Between two operations, the count is the number of registered subscriptions of the open
connections exactly when no connection that left has found its channel open** for a subscription it
looked at. -/
theorem wsSubscriptions_iff {as : List (ChainAction Text)}
    (hrun : run (chainStep serde toLowercase app chain) .init as = some s) (hquiet : s.Quiescent) :
    s.wsSubscriptions = s.openSubscriptions ↔
      Along (chainStep serde toLowercase app chain) FoundClosed .init as := by
  have hs := run_inv (I := ChainConnections.Counted) (fun _ _ _ hs h => chainCounted_step hs h)
    ChainConnections.counted_init hrun
  rw [hs.eq_iff hquiet, holds_iff_along (I := fun _ => True) (P := ChainConnections.NoneKept)
    (fun _ _ _ _ _ => trivial) (fun _ _ _ _ h => noneKept_step h) trivial hrun]
  exact and_iff_right fun c hc => absurd hc List.not_mem_nil

/-- A client subscribes, and its answer cannot be written. -/
def lostClient : List (ChainAction Value) :=
  [.connect, .step 0 (.message newHeadsRequest), .step 0 .route, .step 0 (.register "0x1f"),
    .step 0 .count, .step 0 .reply, .step 0 .writeFails, .step 0 .disconnect,
    .step 0 (.lock [⟨"0x1f", .newHeads, none⟩]), .step 0 .check, .step 0 .release,
    .step 0 .subtract, .step 0 .abort]

theorem lostClient_discounted :
    ∃ s, run (chainStep .tree id localApp ()) .init lostClient = some s ∧
      s.wsSubscriptions = 0 := by
  obtain ⟨s, hrun, hphases⟩ : ∃ s, run (chainStep .tree id localApp ()) .init lostClient = some s ∧
      s.conns.map Connection.phase = [.closed] := ⟨_, rfl, rfl⟩
  have hclosed : ∀ c ∈ s.conns, c.phase = .closed := fun c hc =>
    List.mem_singleton.mp (hphases ▸ List.mem_map_of_mem hc)
  refine ⟨s, hrun, ?_⟩
  rw [(wsSubscriptions_iff hrun fun c hc => .inr (hclosed c hc)).mpr (by decide),
    ChainConnections.openSubscriptions_of_closed hclosed]
  rfl

/-- A client subscribes, reads the answer and leaves. -/
def politeClient : List (ChainAction Value) :=
  [.connect, .step 0 (.message newHeadsRequest), .step 0 .route, .step 0 (.register "0x1f"),
    .step 0 .count, .step 0 .reply, .step 0 .forward, .step 0 .disconnect,
    .step 0 (.lock [⟨"0x1f", .newHeads, none⟩]), .step 0 .check, .step 0 .release,
    .step 0 .subtract, .step 0 .abort, .step 0 .dropReceiver]

/-- All connections have closed, and the count is 1. The client did nothing but subscribe and leave.
-/
theorem politeClient_stays_counted :
    ∃ s, run (chainStep .tree id localApp ()) .init politeClient = some s ∧
      s.conns.map Connection.phase = [.closed] ∧ s.Quiescent ∧ s.openSubscriptions = 0 ∧
      s.wsSubscriptions = 1 := by
  refine ⟨_, rfl, rfl, fun c hc => ?_, rfl, rfl⟩
  exact List.mem_singleton.mp hc ▸ .inr rfl

end Poolbeg
