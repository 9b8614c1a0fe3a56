import Poolbeg.Ws.ResponseFirst

/-!
# Nothing follows the response to an unsubscribe

Removing a subscription and replying are two steps, with the count of subscriptions between them
and, in a batch, all requests that follow. The dispatcher is free to run in the meantime. What it
sends is decided under the lock: a dispatch that took its subscriptions from the map before the
removal has sent all of it before the removal gets the lock, and one that takes them afterwards does
not find the subscription. So an id that is on its way to the client as removed is nowhere among
those that may be sent to, and as ids are given once it never comes back.

## The invariant

Two sets of ids are followed. The live ones may still be sent to: they are in the map, or in what a
dispatch under way has left to send. The retired ones have been removed: their replies are on the
channel, or held by the read loop, or about to be made. The two have no id in common, and no step
makes a retired id live, because an entry into the map gives an id that was never given. A
notification is for a live id, so no reply with that id as removed is in front of it.

A removal that finds nothing retires nothing, and its response says so.

## Main definitions

* `Connection.retired` — the ids removed, from the removal on
* `Connection.Retiring` — the invariant
* `Connection.SilentAfterUnsubscribe` — what the client sees

## Main results

* `notMem_live_remove` — what the lock is for
* `retired_step` — what is removed may not be sent to
* `silentAfterUnsubscribe` — in every run
-/

namespace Poolbeg

open Lts

/-! ### What was removed -/

/-- The id a reply says was removed. A reply that nothing was found says none. -/
def Reply.retired : Reply → List String
  | .unsubscribed subscriptionId true _ => [subscriptionId]
  | _ => []

def Outgoing.retired : Outgoing → List String
  | .notification _ _ => []
  | .reply r => r.retired
  | .replies rs => rs.flatMap Reply.retired

def Stage.retired : Stage → List String
  | .removed subscriptionId _ => [subscriptionId]
  | _ => []

/-- The ids removed whose replies the read loop still holds, with the one it is going to reply. -/
def ReadPhase.retired : ReadPhase → List String
  | .handling h stage => h.replies.flatMap Reply.retired ++ stage.retired
  | _ => []

/-- The ids removed, on the channel or held by the read loop. -/
def Connection.retired (c : Connection) : List String :=
  c.out.flatMap Outgoing.retired ++ c.phase.retired

/-- **No notification has in front of it a response that its subscription was removed**, alone or in
a batch. -/
def Connection.SilentAfterUnsubscribe (c : Connection) : Prop :=
  Backed (fun pre m => ∀ subscriptionId ∈ m.notified,
    subscriptionId ∉ pre.flatMap Outgoing.retired) c.out

/-- Ids that may be sent to were given, and so were the ones removed, which may not be sent to. This
is the invariant, and `silent` the part that is wanted of it. -/
structure Connection.Retiring (c : Connection) : Prop where
  live_issued : ∀ subscriptionId ∈ c.live, subscriptionId ∈ c.issued
  retired_issued : ∀ subscriptionId ∈ c.retired, subscriptionId ∈ c.issued
  retired_not_live : ∀ subscriptionId ∈ c.retired, subscriptionId ∉ c.live
  silent : c.SilentAfterUnsubscribe

theorem Connection.retiring_opened : Connection.opened.Retiring where
  live_issued _ h := absurd h List.not_mem_nil
  retired_issued _ h := absurd h List.not_mem_nil
  retired_not_live _ h := absurd h List.not_mem_nil
  silent := backed_nil

theorem Handling.retired_outgoing (h : Handling) :
    h.outgoing.retired = h.replies.flatMap Reply.retired := by
  rw [Handling.outgoing]
  split
  · rename_i r hreplies
    rw [hreplies, List.flatMap_singleton]
    rfl
  · rfl

/-- A message that is rejected removes nothing. -/
theorem retired_of_rejected {maxBatchSize : ℕ} {parsed : Option Value} {r : Reply}
    (h : readMessage maxBatchSize parsed = .rejected r) : r.retired = [] := by
  obtain ⟨code, message, id, rfl⟩ := readMessage_rejected h
  rfl

/-- A request that is answered at once removes nothing. -/
theorem retired_of_respond {toLowercase : String → String} {blockedMethods : List String}
    {parsed : Value} {r : Reply}
    (h : routeRequest toLowercase blockedMethods parsed = .respond r) : r.retired = [] := by
  obtain ⟨code, message, id, rfl⟩ := routeRequest_respond h
  rfl

variable {Text ι : Type} {serde : SerdeJson Text} {toLowercase : String → String}
  {app : AppConfig ι} {chain : ι} {c d : Connection} {a : ConnectionAction Text}

/-! ### One step -/

/-- The current request is answered with the id that was removed, if any. -/
theorem Connection.retired_answered {h : Handling} {stage : Stage}
    (hphase : c.phase = .handling h stage) {r : Reply} (hr : r.retired = stage.retired) :
    (c.moveTo (.handling (h.push r) .next)).retired = c.retired := by
  rw [Connection.retired, Connection.retired, hphase, Connection.moveTo, ReadPhase.retired,
    ReadPhase.retired, Handling.flatMap_push, hr]
  exact congrArg _ (List.append_nil _)

/-- Between two phases that hold no removal. -/
theorem Connection.retired_moveTo {phase : ReadPhase} (hphase : phase.retired = c.phase.retired) :
    (c.moveTo phase).retired = c.retired := by
  rw [Connection.retired, Connection.retired, ← hphase]
  rfl

theorem Handling.retired_start (message : Inbound)
    (h : ∀ r, message = .rejected r → r.retired = []) :
    (ReadPhase.handling (.start message) .next).retired = [] := by
  cases message with
  | rejected r => simp [ReadPhase.retired, Handling.start, Stage.retired, h r rfl]
  | single => rfl
  | batch => rfl

theorem Handling.retired_begin (h : Handling) (routed : Routed)
    (hr : ∀ r, routed = .respond r → r.retired = []) :
    (h.begin routed).retired = h.replies.flatMap Reply.retired := by
  cases routed with
  | respond r => simp [Handling.begin, ReadPhase.retired, Handling.flatMap_push, Stage.retired,
      hr r rfl]
  | subscribe => exact List.append_nil _
  | unsubscribe => exact List.append_nil _
  | call => exact List.append_nil _

/-- The replies move to the channel, or are lost. -/
theorem Connection.retired_reply {h : Handling} (hphase : c.phase = .handling h .next) :
    ((c.send h.outgoing).moveTo .reading).retired ⊆ c.retired := by
  have hheld : c.retired = c.out.flatMap Outgoing.retired ++ h.outgoing.retired := by
    rw [Connection.retired, hphase, h.retired_outgoing]
    exact congrArg _ (List.append_nil _)
  rw [hheld]
  rcases hclosed : c.channelClosed with _ | _
  · rw [c.send_of_open _ hclosed, Connection.retired, Connection.moveTo, List.flatMap_append,
      List.flatMap_singleton]
    exact List.append_subset.mpr ⟨List.Subset.refl _, List.nil_subset _⟩
  · rw [c.send_of_closed _ hclosed]
    exact List.append_subset.mpr ⟨List.subset_append_left _ _, List.nil_subset _⟩

theorem Connection.issued_mono (h : connectionStep serde toLowercase app chain c a = some d) :
    c.issued ⊆ d.issued := by
  cases connectionMove h with
  | register => exact List.subset_cons_self _ _
  | reply => rw [Connection.moveTo, Connection.issued_send]; exact List.Subset.refl _
  | _ => exact List.Subset.refl _

/-- An entry into the map gives its id. -/
theorem Connection.issued_register {subscriptionId : String}
    (h : connectionStep serde toLowercase app chain c (.register subscriptionId) = some d) :
    subscriptionId ∈ d.issued := by
  cases connectionMove h with
  | register => exact List.mem_cons_self

/-- A dispatch cannot be under way while the map is being changed, so a subscription that was taken
out of it is not among those that are sent to. The lock for writing waits for the walk to end. -/
theorem notMem_live_remove {h : Handling} {subscriptionId : String} {id : Value}
    (hsending : c.sending = none) :
    subscriptionId ∉ Connection.live { c with
      phase := .handling h (.removed subscriptionId id)
      subs := (removeSubscription c.subs subscriptionId).1 } := by
  intro hmem
  rw [Connection.live, hsending] at hmem
  simp only [ReadPhase.looking, List.append_nil, Option.getD_none, List.map_nil] at hmem
  obtain ⟨sub, hsub, hid⟩ := List.mem_map.mp hmem
  have hne := (List.mem_filter.mp hsub).2
  rw [bne_iff_ne] at hne
  exact hne hid

/-- **What a step removes may be sent to before it and not after it.** Ids are never given twice, so
it does not come back. -/
theorem retired_step (h : connectionStep serde toLowercase app chain c a = some d) :
    ∀ subscriptionId ∈ d.retired,
      subscriptionId ∈ c.retired ∨ subscriptionId ∈ c.live ∧ subscriptionId ∉ d.live := by
  suffices hsubset : a ≠ .remove → d.retired ⊆ c.retired by
    intro subscriptionId hmem
    cases connectionMove h with
    | @remove handling removed id hphase hsending hfound =>
      have hold : c.retired = c.out.flatMap Outgoing.retired ++
          handling.replies.flatMap Reply.retired := by
        rw [Connection.retired, hphase]
        exact congrArg _ (List.append_nil _)
      rw [Connection.retired, ReadPhase.retired, Stage.retired, ← List.append_assoc,
        List.mem_append, ← hold, List.mem_singleton] at hmem
      rcases hmem with hmem | rfl
      · exact .inl hmem
      · refine .inr ⟨?_, notMem_live_remove hsending⟩
        obtain ⟨sub, hsub, hid⟩ := List.any_eq_true.mp hfound
        rw [← beq_iff_eq.mp hid]
        exact List.mem_append_left _ (List.mem_map_of_mem (List.mem_append_left _ hsub))
    | @removeNone handling removed id hphase =>
      rw [Connection.retired_answered hphase rfl] at hmem
      exact .inl hmem
    | _ => exact .inl (hsubset (fun ha => by cases ha) hmem)
  intro ha
  cases connectionMove h with
  | remove | removeNone => exact absurd rfl ha
  | message hphase =>
    rw [Connection.retired_moveTo]
    · exact List.Subset.refl _
    · rw [hphase, Handling.retired_start _ fun r => retired_of_rejected]
      rfl
  | begin hphase hremaining =>
    rw [Connection.retired_moveTo]
    · exact List.Subset.refl _
    · rw [hphase, Handling.retired_begin _ _ fun r => retired_of_respond]
      exact (List.append_nil _).symm
  | count hphase | uncount hphase | answer hphase =>
    rw [Connection.retired_answered hphase rfl]
    exact List.Subset.refl _
  | reply hphase hremaining => exact Connection.retired_reply hphase
  | register hphase | release hphase =>
    rw [Connection.retired, Connection.retired, hphase]
    exact List.Subset.refl _
  | disconnect hphase | lock hphase | check hphase | subtract hphase | abort hphase =>
    rw [Connection.retired_moveTo (by rw [hphase]; rfl)]
    exact List.Subset.refl _
  | notify hsending hopen =>
    rw [Connection.retired, List.flatMap_append]
    exact List.append_subset.mpr
      ⟨List.append_subset.mpr ⟨List.subset_append_left _ _, List.nil_subset _⟩,
        List.subset_append_right _ _⟩
  | dispatch | ignore | skip | unlock | forward | writeFails | dropReceiver =>
    exact List.Subset.refl _

/-- Whoever a step sends a notification to was live: in the map, or among those that a dispatch
under way still sends to. -/
theorem live_of_emits {m : Outgoing} {subscriptionId : String} (hm : c.emits a = some m)
    (hnotified : subscriptionId ∈ m.notified) : subscriptionId ∈ c.live :=
  (Connection.live_of_recipient (recipient_of_emits hm hnotified).2).2

theorem Connection.Retiring.step (hc : c.Retiring)
    (h : connectionStep serde toLowercase app chain c a = some d) : d.Retiring := by
  have hissued := Connection.issued_mono h
  refine ⟨fun subscriptionId hmem => ?_, fun subscriptionId hmem => ?_,
    fun subscriptionId hmem hlive => ?_, ?_⟩
  · rcases live_step h subscriptionId hmem with hmem | ⟨rfl, -⟩
    · exact hissued (hc.live_issued _ hmem)
    · exact Connection.issued_register h
  · rcases retired_step h subscriptionId hmem with hmem | ⟨hmem, -⟩
    · exact hissued (hc.retired_issued _ hmem)
    · exact hissued (hc.live_issued _ hmem)
  · rcases retired_step h subscriptionId hmem with hretired | ⟨-, hnotlive⟩
    · rcases live_step h subscriptionId hlive with hlive | ⟨-, hfresh⟩
      · exact hc.retired_not_live _ hretired hlive
      · exact hfresh (hc.retired_issued _ hretired)
    · exact hnotlive hlive
  · rw [Connection.SilentAfterUnsubscribe, out_step h]
    cases hm : c.emits a with
    | none =>
      rw [Option.toList_none, List.append_nil]
      exact hc.silent
    | some m =>
      refine backed_append_singleton.mpr ⟨hc.silent, fun subscriptionId hnotified hretired => ?_⟩
      exact hc.retired_not_live _ (List.mem_append_left _ hretired) (live_of_emits hm hnotified)

variable (serde toLowercase app chain) in
/-- **Nothing follows the response to an unsubscribe.** In every run of a connection, whatever the
dispatcher does between the removal and the reply, no notification for a subscription is put on the
channel after a response, alone or in a batch, that says the subscription was removed. -/
theorem silentAfterUnsubscribe (as : List (ConnectionAction Text)) :
    Always (connectionStep serde toLowercase app chain) Connection.SilentAfterUnsubscribe .opened
      as :=
  fun _ _ _ hrun =>
    (run_inv (fun _ _ _ hc h => Connection.Retiring.step hc h) Connection.retiring_opened
      hrun).silent

end Poolbeg
