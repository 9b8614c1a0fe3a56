import Poolbeg.Sources
import Poolbeg.Ws.Connection

/-!
# The response to a subscription comes first

A client can make sense of a notification only once it knows the id of the subscription. The
subscription is in the map, and can be sent to, before the reply with its id is on the channel: the
read loop still has to count it, and in a batch to work on all requests that follow, upstream calls
included.

## Who comes first

A notification overtakes the response exactly when the dispatcher sends it while the read loop still
holds the reply (`responseFirst_iff`). That is a matter of when events are handled: a dispatch that
has once begun sends all it has, and one that begins while the reply is held, with something for
that subscription, cannot be caught up with by the read loop alone.

So the response comes first in every run in which events wait for the replies
(`responseFirst_of_eventWaits`). And the condition cannot be done without: after any step that did
not wait the dispatcher need only go on for a notification to be first (`exists_notify_first`).

## Following the ids

An id is given with the entry into the map. From then on it is in one of three places: held by the
read loop, on the channel, or lost because the channel was closed. `Known` says that whoever may be
sent to has an id in one of these, and `AllTold` that whoever a dispatch has something for has an id
the client knows. The first is kept by every step, and the second by every step that waits.

## Main definitions

* `Connection.told`, `ReadPhase.untold` — the ids the client knows, and those it is about to be told
* `Connection.ResponseFirst`, `ReplySent` — the promise, and what it asks of a notification
* `EventWaits` — the condition on when events are handled
* `Connection.Known` — where the ids of the subscriptions are
* `Connection.AllTold` — whom a dispatch that has begun is for

## Main results

* `responseFirst_iff` — the promise by the moments of the notifications
* `responseFirst_of_eventWaits`, `exists_notify_first` — by the moments of the events
* `responseFirst_waits` — both directions together
-/

namespace Poolbeg

open Lts

/-! ### What the client is told -/

/-- The id a reply tells the client. -/
def Reply.told : Reply → List String
  | .subscribed subscriptionId _ => [subscriptionId]
  | _ => []

def Outgoing.told : Outgoing → List String
  | .notification _ _ => []
  | .reply r => r.told
  | .replies rs => rs.flatMap Reply.told

/-- The subscription a value on the channel is a notification for. -/
def Outgoing.notified : Outgoing → Option String
  | .notification subscriptionId _ => some subscriptionId
  | _ => none

/-- The ids on the channel. -/
def Connection.told (c : Connection) : List String := c.out.flatMap Outgoing.told

/-- **Every notification finds the response with its id in front of it.** -/
def Connection.ResponseFirst (c : Connection) : Prop :=
  Backed (fun pre m => ∀ subscriptionId ∈ m.notified, subscriptionId ∈ pre.flatMap Outgoing.told)
    c.out

def Stage.untold : Stage → List String
  | .registered subscriptionId _ => [subscriptionId]
  | _ => []

/-- The ids in the replies that the read loop still holds, with the one it is going to reply. -/
def ReadPhase.untold : ReadPhase → List String
  | .handling h stage => h.replies.flatMap Reply.told ++ stage.untold
  | _ => []

/-- The subscription the dispatcher is about to send a notification to, if the channel still takes
it. -/
def Connection.recipient (c : Connection) : Option String :=
  match c.sending with
  | some ((subscriptionId, _ :: _) :: _) => if c.channelClosed then none else some subscriptionId
  | _ => none

variable {Text ι : Type}

/-- No notification is sent while the read loop holds the reply with the id of its subscription. -/
def ReplySent (c : Connection) : ConnectionAction Text → Prop
  | .notify => ∀ subscriptionId ∈ c.recipient, subscriptionId ∉ c.phase.untold
  | _ => True

variable (toLowercase : String → String) (app : AppConfig ι) (chain : ι)

/-- No event is handled that has something to send to a subscription between the entry of the
subscription into the map and the send of the reply that carries its id. Nothing is asked once the
channel is closed, since nothing is put on it any more. -/
def EventWaits (c : Connection) : ConnectionAction Text → Prop
  | .dispatch event order => c.channelClosed = false →
      ∀ dispatch, handleEvent toLowercase (app.chains chain).chainId event = some dispatch →
        ∀ n ∈ dispatch order, n.2 ≠ [] → n.1 ∉ c.phase.untold
  | _ => True

/-! ### Where the ids are -/

/-- The subscriptions that `remove_client_subscriptions` is looking at. -/
def ReadPhase.looking : ReadPhase → List ClientSubscription
  | .retaining todo kept => todo ++ kept
  | _ => []

/-- The ids that are, or may again be, sent to: those in the map, those that a walk over it still
looks at, and those that a dispatch has something for. -/
def Connection.live (c : Connection) : List String :=
  subscriptionIds (c.subs ++ c.phase.looking) ++ (c.sending.getD []).map Prod.fst

/-- Every subscription that is sent to has an id the client knows or is about to be told. While the
channel is open nothing is lost. -/
structure Connection.Known (c : Connection) : Prop where
  told_issued : ∀ subscriptionId ∈ c.told, subscriptionId ∈ c.issued
  untold_issued : ∀ subscriptionId ∈ c.phase.untold, subscriptionId ∈ c.issued
  untold_not_told : ∀ subscriptionId ∈ c.phase.untold, subscriptionId ∉ c.told
  live : c.channelClosed = false → ∀ subscriptionId ∈ c.live,
    subscriptionId ∈ c.told ∨ subscriptionId ∈ c.phase.untold

theorem Connection.known_opened : Connection.opened.Known where
  told_issued _ h := absurd h List.not_mem_nil
  untold_issued _ h := absurd h List.not_mem_nil
  untold_not_told _ h := absurd h List.not_mem_nil
  live _ _ h := absurd h List.not_mem_nil

variable {c d : Connection}

/-- The client is told nothing new, and nobody new is sent to. -/
theorem Connection.Known.quiet (hc : c.Known) (htold : d.told = c.told)
    (huntold : d.phase.untold = c.phase.untold) (hissued : d.issued = c.issued)
    (hlive : d.live ⊆ c.live) (hopen : d.channelClosed = false → c.channelClosed = false) :
    d.Known where
  told_issued := by rw [htold, hissued]; exact hc.told_issued
  untold_issued := by rw [huntold, hissued]; exact hc.untold_issued
  untold_not_told := by rw [htold, huntold]; exact hc.untold_not_told
  live := by
    intro hd subscriptionId hmem
    rw [htold, huntold]
    exact hc.live (hopen hd) subscriptionId (hlive hmem)

/-- Nobody new is sent to when no subscription is added. -/
theorem Connection.live_withSubs {phase : ReadPhase} {subs : List ClientSubscription}
    (hsubs : subs ++ phase.looking ⊆ c.subs ++ c.phase.looking) :
    Connection.live { c with phase := phase, subs := subs } ⊆ c.live := by
  intro subscriptionId hmem
  rcases List.mem_append.mp hmem with hmem | hmem
  · exact List.mem_append_left _ (List.map_subset _ hsubs hmem)
  · exact List.mem_append_right _ hmem

theorem Connection.mem_live_sending {n : Notices} {notices : List Notices}
    (hsending : c.sending = some notices) (hn : n ∈ notices) : n.1 ∈ c.live := by
  refine List.mem_append_right _ (List.mem_map_of_mem ?_)
  rwa [hsending, Option.getD_some]

theorem Connection.live_withSending {sending : Option (List Notices)}
    (h : ∀ n ∈ sending.getD [], n.1 ∈ c.live) :
    Connection.live { c with sending := sending } ⊆ c.live := by
  intro subscriptionId hmem
  rcases List.mem_append.mp hmem with hmem | hmem
  · exact List.mem_append_left _ hmem
  · obtain ⟨n, hn, rfl⟩ := List.mem_map.mp hmem
    exact h n hn

theorem Handling.told_outgoing (h : Handling) :
    h.outgoing.told = h.replies.flatMap Reply.told := by
  rw [Handling.outgoing]
  split
  · rename_i r hreplies
    rw [hreplies, List.flatMap_singleton]
    rfl
  · rfl

theorem Handling.untold_start (message : Inbound)
    (h : ∀ r, message = .rejected r → r.told = []) :
    (ReadPhase.handling (.start message) .next).untold = [] := by
  cases message with
  | rejected r => simp [ReadPhase.untold, Handling.start, Stage.untold, h r rfl]
  | single => rfl
  | batch => rfl

theorem Handling.untold_begin (h : Handling) (routed : Routed)
    (hr : ∀ r, routed = .respond r → r.told = []) :
    (h.begin routed).untold = h.replies.flatMap Reply.told := by
  cases routed with
  | respond r => simp [Handling.begin, ReadPhase.untold, Stage.untold, hr r rfl]
  | subscribe => exact List.append_nil _
  | unsubscribe => exact List.append_nil _
  | call => exact List.append_nil _

theorem Handling.looking_begin (h : Handling) (routed : Routed) :
    (h.begin routed).looking = [] := by
  cases routed <;> rfl

/-- A message that is rejected starts no subscription. -/
theorem told_of_rejected {maxBatchSize : ℕ} {parsed : Option Value} {r : Reply}
    (h : readMessage maxBatchSize parsed = .rejected r) : r.told = [] := by
  obtain ⟨code, message, id, rfl⟩ := readMessage_rejected h
  rfl

/-- A request that is answered at once starts no subscription. -/
theorem told_of_respond {toLowercase : String → String} {blockedMethods : List String}
    {parsed : Value} {r : Reply}
    (h : routeRequest toLowercase blockedMethods parsed = .respond r) : r.told = [] := by
  obtain ⟨code, message, id, rfl⟩ := routeRequest_respond h
  rfl

variable {serde : SerdeJson Text} {toLowercase app chain} {a : ConnectionAction Text}

/-! ### What a step puts on the channel -/

/-- What a step puts on the channel. -/
def Connection.emits (c : Connection) : ConnectionAction Text → Option Outgoing
  | .reply =>
    match c.phase with
    | .handling h .next => if c.channelClosed then none else some h.outgoing
    | _ => none
  | .notify =>
    match c.sending with
    | some ((subscriptionId, result :: _) :: _) =>
      if c.channelClosed then none else some (.notification subscriptionId result)
    | _ => none
  | _ => none

theorem out_send (c : Connection) (m : Outgoing) :
    (c.send m).out =
      c.out ++ (if c.channelClosed then none else some m : Option Outgoing).toList := by
  rw [Connection.send]
  split
  · exact (List.append_nil _).symm
  · rfl

theorem out_step (h : connectionStep serde toLowercase app chain c a = some d) :
    d.out = c.out ++ (c.emits a).toList := by
  cases connectionMove h with
  | @reply handling hphase hremaining =>
    rw [Connection.emits, hphase]
    exact out_send c handling.outgoing
  | skip hsending hskip =>
    have hnone : c.emits (.notify : ConnectionAction Text) = none := by
      rw [Connection.emits, hsending]
      split
      · rename_i heq
        cases heq
        rcases hskip with hskip | hclosed
        · exact absurd hskip (List.cons_ne_nil _ _)
        · rw [if_pos hclosed]
      · rfl
    rw [hnone]
    exact (List.append_nil _).symm
  | notify hsending hopen =>
    rw [Connection.emits, hsending, hopen]
    rfl
  | message | begin | register | count | remove | removeNone | uncount | answer | disconnect | lock
  | check | release | subtract | abort | dispatch | ignore | unlock | forward | writeFails
  | dropReceiver => exact (List.append_nil _).symm

/-! ### Who may be sent to -/

theorem Connection.live_moveTo {phase : ReadPhase} (hlooking : phase.looking = c.phase.looking) :
    (c.moveTo phase).live ⊆ c.live :=
  live_withSubs (by rw [hlooking]; exact List.Subset.refl _)

theorem Connection.live_register {sub : ClientSubscription} {phase : ReadPhase}
    {issued : List String} (hlooking : phase.looking = []) :
    ∀ subscriptionId ∈ Connection.live { c with
      phase := phase
      subs := insertSubscription c.subs sub
      issued := issued }, subscriptionId ∈ c.live ∨ subscriptionId = sub.subscriptionId := by
  intro subscriptionId hmem
  rcases List.mem_append.mp hmem with hmem | hmem
  · obtain ⟨sub', hsub', rfl⟩ := List.mem_map.mp hmem
    rw [hlooking, List.append_nil, insertSubscription, List.mem_append,
      List.mem_singleton] at hsub'
    rcases hsub' with hsub' | rfl
    · have hsub' := (List.mem_filter.mp hsub').1
      exact .inl (List.mem_append_left _ (List.mem_map_of_mem (List.mem_append_left _ hsub')))
    · exact .inr rfl
  · exact .inl (List.mem_append_right _ hmem)

/-- **Only an entry into the map makes a new id one that may be sent to**, and the id was not given
before. Everything else leaves the live ids as they are, or fewer. -/
theorem live_step (h : connectionStep serde toLowercase app chain c a = some d) :
    ∀ subscriptionId ∈ d.live,
      subscriptionId ∈ c.live ∨ a = .register subscriptionId ∧ subscriptionId ∉ c.issued := by
  suffices hsubset : (∀ subscriptionId, a ≠ .register subscriptionId) → d.live ⊆ c.live by
    intro subscriptionId hmem
    cases connectionMove h with
    | register hphase hsending hfresh =>
      rcases Connection.live_register rfl _ hmem with hmem | rfl
      · exact .inl hmem
      · exact .inr ⟨rfl, hfresh⟩
    | _ => exact .inl (hsubset (fun _ ha => by cases ha) hmem)
  intro ha
  cases connectionMove h with
  | @register _ _ _ _ given => exact absurd rfl (ha given)
  | message hphase | count hphase | removeNone hphase | uncount hphase | answer hphase
  | disconnect hphase | subtract hphase | abort hphase =>
    exact Connection.live_moveTo (by rw [hphase]; rfl)
  | begin hphase hremaining =>
    exact Connection.live_moveTo (by rw [hphase, Handling.looking_begin]; rfl)
  | remove hphase hsending hfound =>
    refine Connection.live_withSubs (List.append_subset.mpr ⟨?_, List.nil_subset _⟩)
    exact List.Subset.trans (List.filter_subset_self c.subs) (List.subset_append_left _ _)
  | @reply handling hphase hremaining =>
    have hlive : ((c.send handling.outgoing).moveTo .reading).live = (c.moveTo .reading).live := by
      rcases hclosed : c.channelClosed with _ | _
      · rw [c.send_of_open _ hclosed]
        rfl
      · rw [c.send_of_closed _ hclosed]
    rw [hlive]
    exact Connection.live_moveTo (by rw [hphase]; rfl)
  | lock hphase hsending horder =>
    have hsubs := List.subset_append_left c.subs c.phase.looking
    refine Connection.live_withSubs (List.append_subset.mpr ⟨hsubs, ?_⟩)
    rw [ReadPhase.looking, List.append_nil]
    exact List.Subset.trans horder.subset hsubs
  | check hphase =>
    refine Connection.live_withSubs ?_
    rw [hphase, ReadPhase.looking, ReadPhase.looking]
    intro sub hsub
    split at hsub
    · simp only [List.mem_append, List.mem_cons] at hsub ⊢
      tauto
    · simp only [List.mem_append, List.mem_cons, List.not_mem_nil, or_false] at hsub ⊢
      tauto
  | release hphase =>
    refine Connection.live_withSubs (List.append_subset.mpr ⟨?_, List.nil_subset _⟩)
    rw [hphase]
    exact List.subset_append_right _ _
  | dispatch hsending hadmits horder hevent =>
    refine Connection.live_withSending fun n hn => List.mem_append_left _ ?_
    obtain ⟨sub, hsub, heq⟩ := List.mem_map.mp (handleEvent_mem toLowercase hevent hn)
    rw [← heq]
    exact List.mem_map_of_mem (List.mem_append_left _ (horder.subset hsub))
  | skip hsending hskip =>
    exact Connection.live_withSending fun n hn =>
      Connection.mem_live_sending hsending (List.mem_cons_of_mem _ hn)
  | @notify subscriptionId result results rest hsending hopen =>
    have hsent : Connection.live { c with sending := some ((subscriptionId, results) :: rest) } ⊆
        c.live := by
      refine Connection.live_withSending fun n hn => ?_
      rcases List.mem_cons.mp hn with rfl | hn
      · exact Connection.mem_live_sending (n := (subscriptionId, result :: results)) hsending
          List.mem_cons_self
      · exact Connection.mem_live_sending hsending (List.mem_cons_of_mem _ hn)
    exact hsent
  | unlock hsending => exact Connection.live_withSending fun n hn => absurd hn List.not_mem_nil
  | ignore | forward | writeFails | dropReceiver => exact List.Subset.refl _

/-! ### Every step keeps track of the ids -/

theorem known_register {h : Handling} (sub : ClientSubscription) {id : Value} (hc : c.Known)
    (huntold : c.phase.untold = h.replies.flatMap Reply.told)
    (hfresh : sub.subscriptionId ∉ c.issued) :
    Connection.Known { c with
      phase := .handling h (.registered sub.subscriptionId id)
      subs := insertSubscription c.subs sub
      issued := sub.subscriptionId :: c.issued } := by
  have hmem : ∀ subscriptionId, subscriptionId ∈ (ReadPhase.handling h
      (.registered sub.subscriptionId id)).untold ↔
        subscriptionId ∈ c.phase.untold ∨ subscriptionId = sub.subscriptionId := by
    intro subscriptionId
    rw [huntold, ReadPhase.untold, Stage.untold, List.mem_append, List.mem_singleton]
  refine ⟨fun subscriptionId htold => List.mem_cons_of_mem _ (hc.told_issued _ htold), ?_, ?_, ?_⟩
  · intro subscriptionId huntold
    rcases (hmem _).mp huntold with huntold | rfl
    · exact List.mem_cons_of_mem _ (hc.untold_issued _ huntold)
    · exact List.mem_cons_self
  · intro subscriptionId huntold htold
    rcases (hmem _).mp huntold with huntold | rfl
    · exact hc.untold_not_told _ huntold htold
    · exact hfresh (hc.told_issued _ htold)
  · intro hopen subscriptionId hlive
    rcases Connection.live_register rfl _ hlive with hold | rfl
    · exact (hc.live hopen _ hold).imp_right fun h => (hmem _).mpr (.inl h)
    · exact .inr ((hmem _).mpr (.inr rfl))

/-- The current request is answered with the id that was about to be told, if any. -/
theorem Connection.Known.answered (hc : c.Known) {h : Handling} {stage : Stage}
    (hphase : c.phase = .handling h stage) {r : Reply} (hr : r.told = stage.untold) :
    (c.moveTo (.handling (h.push r) .next)).Known := by
  refine hc.quiet rfl ?_ rfl (Connection.live_moveTo (by rw [hphase]; rfl)) id
  change (ReadPhase.handling (h.push r) .next).untold = _
  rw [hphase, ReadPhase.untold, Handling.flatMap_push, hr]
  exact List.append_nil _

theorem known_reply {h : Handling} (hc : c.Known)
    (huntold : c.phase.untold = h.replies.flatMap Reply.told) (hlooking : c.phase.looking = []) :
    ((c.send h.outgoing).moveTo .reading).Known := by
  rcases hclosed : c.channelClosed with _ | _
  · -- the ids move from the read loop to the channel
    have htold : ((c.send h.outgoing).moveTo .reading).told = c.told ++ c.phase.untold := by
      rw [c.send_of_open _ hclosed, huntold, ← h.told_outgoing, Connection.told, Connection.moveTo,
        List.flatMap_append, List.flatMap_singleton, Connection.told]
    refine ⟨?_, fun _ h => absurd h List.not_mem_nil, fun _ h => absurd h List.not_mem_nil, ?_⟩
    · intro subscriptionId hmem
      rw [htold, List.mem_append] at hmem
      rw [c.send_of_open _ hclosed]
      exact hmem.elim (hc.told_issued _) (hc.untold_issued _)
    · intro _ subscriptionId hmem
      rw [htold, List.mem_append]
      refine .inl (hc.live hclosed _ ?_)
      rw [c.send_of_open _ hclosed] at hmem
      rw [Connection.live, hlooking]
      exact hmem
  · -- the reply is lost, and so is everything that follows it
    rw [c.send_of_closed _ hclosed]
    refine ⟨hc.told_issued, fun _ h => absurd h List.not_mem_nil,
      fun _ h => absurd h List.not_mem_nil, fun hopen => ?_⟩
    exact absurd (hopen.symm.trans hclosed) Bool.false_ne_true

theorem known_step (hc : c.Known) (h : connectionStep serde toLowercase app chain c a = some d) :
    d.Known := by
  have hlive : (∀ subscriptionId, a ≠ .register subscriptionId) → d.live ⊆ c.live :=
    fun ha subscriptionId hmem => (live_step h subscriptionId hmem).resolve_right
      fun hregister => ha subscriptionId hregister.1
  cases connectionMove h with
  | message hphase =>
    refine hc.quiet rfl ?_ rfl (hlive fun _ ha => by cases ha) id
    rw [hphase]
    exact Handling.untold_start _ fun r => told_of_rejected
  | begin hphase hremaining =>
    refine hc.quiet rfl ?_ rfl (hlive fun _ ha => by cases ha) id
    rw [hphase]
    exact (Handling.untold_begin _ _ fun r => told_of_respond).trans (List.append_nil _).symm
  | register hphase hsending hfresh =>
    exact known_register ⟨_, _, _⟩ hc (by rw [hphase]; exact List.append_nil _) hfresh
  | count hphase | removeNone hphase | uncount hphase | answer hphase =>
    exact hc.answered hphase rfl
  | reply hphase hremaining =>
    exact known_reply hc (by rw [hphase]; exact List.append_nil _) (by rw [hphase]; rfl)
  | remove hphase | disconnect hphase | lock hphase | check hphase | release hphase
  | subtract hphase | abort hphase =>
    exact hc.quiet rfl (by rw [hphase]; rfl) rfl (hlive fun _ ha => by cases ha) id
  | notify hsending hopen =>
    refine hc.quiet ?_ rfl rfl (hlive fun _ ha => by cases ha) id
    rw [Connection.told, List.flatMap_append]
    exact List.append_nil _
  | dispatch | ignore | skip | unlock | forward =>
    exact hc.quiet rfl rfl rfl (hlive fun _ ha => by cases ha) id
  | writeFails | dropReceiver =>
    exact hc.quiet rfl rfl rfl (List.Subset.refl _) fun hopen => by cases hopen

/-! ### The order on the channel -/

theorem Handling.notified_outgoing (h : Handling) : h.outgoing.notified = none := by
  rw [Handling.outgoing]
  split <;> rfl

variable (Text) in
theorem Connection.notified_emits (c : Connection) :
    (c.emits (.notify : ConnectionAction Text)).bind Outgoing.notified = c.recipient := by
  rw [Connection.emits, Connection.recipient]
  split
  · split <;> rfl
  · rfl

/-- Whoever is about to be sent to is live, and the channel is open. -/
theorem Connection.live_of_recipient {subscriptionId : String}
    (h : subscriptionId ∈ c.recipient) : c.channelClosed = false ∧ subscriptionId ∈ c.live := by
  rw [Connection.recipient, Option.mem_def] at h
  split at h
  · rename_i sid result results rest hsending
    rw [Option.ite_none_left_eq_some, Bool.not_eq_true] at h
    obtain ⟨hopen, h⟩ := h
    rw [← Option.some.inj h]
    exact ⟨hopen, mem_live_sending (n := (sid, result :: results)) hsending List.mem_cons_self⟩
  · cases h

/-- Only the dispatcher notifies, and it notifies the one it is about to send to. -/
theorem recipient_of_emits {m : Outgoing} {subscriptionId : String} (hm : c.emits a = some m)
    (hnotified : subscriptionId ∈ m.notified) : a = .notify ∧ subscriptionId ∈ c.recipient := by
  cases a with
  | notify =>
    refine ⟨rfl, ?_⟩
    rw [← c.notified_emits Text, hm]
    exact hnotified
  | reply =>
    rw [Connection.emits] at hm
    split at hm
    · rw [Option.ite_none_left_eq_some] at hm
      obtain ⟨-, hm⟩ := hm
      rw [← Option.some.inj hm, Handling.notified_outgoing] at hnotified
      cases hnotified
    · cases hm
  | message | route | register | count | remove | uncount | answer | disconnect | lock | check
  | release | subtract | abort | dispatch | unlock | forward | writeFails | dropReceiver =>
    cases hm

/-- What a step puts on the channel is backed exactly when the reply has been sent. An id that is
not held is on the channel already. -/
theorem Connection.Known.replySent_iff (hc : c.Known) (a : ConnectionAction Text) :
    (∀ m, c.emits a = some m → ∀ subscriptionId ∈ m.notified, subscriptionId ∈ c.told) ↔
      ReplySent c a := by
  cases a with
  | notify =>
    constructor
    · intro h subscriptionId hrecipient huntold
      rw [← c.notified_emits Text, Option.mem_def, Option.bind_eq_some_iff] at hrecipient
      obtain ⟨m, hm, hnotified⟩ := hrecipient
      exact hc.untold_not_told _ huntold (h m hm subscriptionId hnotified)
    · intro h m hm subscriptionId hnotified
      have hrecipient := (recipient_of_emits hm hnotified).2
      obtain ⟨hopen, hlive⟩ := Connection.live_of_recipient hrecipient
      exact (hc.live hopen _ hlive).resolve_right (h subscriptionId hrecipient)
  | _ =>
    refine ⟨fun _ => trivial, fun _ m hm subscriptionId hnotified => ?_⟩
    cases (recipient_of_emits hm hnotified).1

variable (toLowercase app chain serde) in
/-- **The response comes first, in every state of a run, exactly when no notification is sent while
the read loop still holds the reply.** -/
theorem responseFirst_iff (as : List (ConnectionAction Text)) :
    Always (connectionStep serde toLowercase app chain) Connection.ResponseFirst .opened as ↔
      Along (connectionStep serde toLowercase app chain) ReplySent .opened as := by
  refine (always_backed_iff (I := Connection.Known) (fun _ _ _ hc h => known_step hc h)
    (fun _ _ _ _ h => out_step h) Connection.known_opened backed_nil).trans ?_
  exact along_congr (I := Connection.Known) (fun c a _ hc _ => hc.replySent_iff a)
    (fun _ _ _ hc _ h => known_step hc h) Connection.known_opened

/-! ### Events that wait -/

/-- Everyone that a dispatch has still something for knows the id. -/
def Connection.AllTold (c : Connection) : Prop :=
  c.channelClosed = false → ∀ n ∈ c.sending.getD [], n.2 ≠ [] → n.1 ∈ c.told

theorem Connection.AllTold.mono (hc : c.AllTold) (htold : c.told ⊆ d.told)
    (hopen : d.channelClosed = false → c.channelClosed = false)
    (hsending : ∀ n ∈ d.sending.getD [], n ∈ c.sending.getD []) : d.AllTold :=
  fun hd n hn hresults => htold (hc (hopen hd) n (hsending n hn) hresults)

theorem told_step (h : connectionStep serde toLowercase app chain c a = some d) :
    c.told ⊆ d.told := by
  rw [Connection.told, Connection.told, out_step h, List.flatMap_append]
  exact List.subset_append_left _ _

/-- A step that waits begins no dispatch for somebody who does not know the id. The other steps
begin none. -/
theorem allTold_step (hknown : c.Known) (hc : c.AllTold)
    (hwaits : EventWaits toLowercase app chain c a)
    (h : connectionStep serde toLowercase app chain c a = some d) : d.AllTold := by
  have htold := told_step h
  cases connectionMove h with
  | @dispatch event order dispatch hsending hadmits horder hevent =>
    intro hopen n hn hresults
    have hlive : n.1 ∈ c.live := by
      obtain ⟨sub, hsub, heq⟩ := List.mem_map.mp (handleEvent_mem toLowercase hevent hn)
      rw [← heq]
      exact List.mem_append_left _
        (List.mem_map_of_mem (List.mem_append_left _ (horder.subset hsub)))
    exact (hknown.live hopen _ hlive).resolve_right (hwaits hopen dispatch hevent n hn hresults)
  | skip hsending hskip =>
    refine hc.mono htold id fun n hn => ?_
    rw [hsending]
    exact List.mem_cons_of_mem _ hn
  | @notify subscriptionId result results rest hsending hopen =>
    rw [Connection.AllTold, hsending] at hc
    intro _ n hn hresults
    rcases List.mem_cons.mp hn with rfl | hn
    · exact htold (hc hopen (subscriptionId, result :: results) List.mem_cons_self
        (List.cons_ne_nil _ _))
    · exact htold (hc hopen n (List.mem_cons_of_mem _ hn) hresults)
  | unlock hsending => exact fun _ n hn => absurd hn List.not_mem_nil
  | @reply handling hphase hremaining =>
    have hsent : (c.send handling.outgoing).sending = c.sending ∧
        (c.send handling.outgoing).channelClosed = c.channelClosed := by
      rw [Connection.send]
      split <;> exact ⟨rfl, rfl⟩
    exact hc.mono htold (fun hopen => hsent.2.symm.trans hopen) fun n hn => hsent.1 ▸ hn
  | writeFails | dropReceiver => exact fun hopen => absurd hopen.symm Bool.false_ne_true
  | message | begin | register | count | remove | removeNone | uncount | answer | disconnect | lock
  | check | release | subtract | abort | ignore | forward => exact hc.mono htold id fun _ hn => hn

/-- Whoever is about to be sent to is told already when events wait. -/
theorem Connection.AllTold.replySent (hknown : c.Known) (hc : c.AllTold)
    (a : ConnectionAction Text) : ReplySent c a := by
  cases a with
  | notify =>
    intro subscriptionId hrecipient huntold
    refine hknown.untold_not_told _ huntold ?_
    have hopen := (Connection.live_of_recipient hrecipient).1
    rw [Connection.recipient, Option.mem_def] at hrecipient
    split at hrecipient
    · rename_i sid result results rest hsending
      rw [Option.ite_none_left_eq_some] at hrecipient
      obtain rfl := Option.some.inj hrecipient.2
      rw [Connection.AllTold, hsending] at hc
      exact hc hopen _ List.mem_cons_self (List.cons_ne_nil _ _)
    · cases hrecipient
  | _ => trivial

/-- **The response comes first in every state of a run in which events wait for the replies.** -/
theorem responseFirst_of_eventWaits {as : List (ConnectionAction Text)}
    (h : Along (connectionStep serde toLowercase app chain) (EventWaits toLowercase app chain)
      .opened as) :
    Always (connectionStep serde toLowercase app chain) Connection.ResponseFirst .opened as := by
  refine (responseFirst_iff toLowercase app chain serde as).mpr ?_
  refine h.imp (I := fun c => c.Known ∧ c.AllTold) ?_ ?_ ⟨Connection.known_opened, ?_⟩
  · exact fun c a d hc hwaits h => ⟨known_step hc.1 h, allTold_step hc.1 hc.2 hwaits h⟩
  · exact fun c a d hc _ _ => hc.2.replySent hc.1 a
  · exact fun _ n hn => absurd hn List.not_mem_nil

/-! ### The dispatcher goes on -/

variable (toLowercase app chain serde) in
/-- The dispatcher is done with what it has for one subscription. -/
theorem run_notify_one {subscriptionId : String} {rest : List Notices} (results : List Value)
    (hsending : c.sending = some ((subscriptionId, results) :: rest))
    (hopen : c.channelClosed = false) :
    ∃ k d, run (connectionStep serde toLowercase app chain) c (List.replicate k .notify) = some d ∧
      d.sending = some rest ∧ d.channelClosed = false ∧ d.phase = c.phase := by
  induction results generalizing c with
  | nil =>
    refine ⟨1, { c with sending := some rest }, ?_, rfl, hopen, rfl⟩
    refine (run_cons_of_step ?_ []).trans rfl
    rw [connectionStep, Connection.notify, hsending]
  | cons result results ih =>
    obtain ⟨k, d, hrun, hd⟩ := ih (c := { c with
      out := c.out ++ [.notification subscriptionId result]
      sending := some ((subscriptionId, results) :: rest) }) rfl hopen
    refine ⟨k + 1, d, ?_, hd⟩
    rw [List.replicate_succ, ← hrun]
    refine run_cons_of_step ?_ _
    simp only [connectionStep, Connection.notify, hsending, hopen, Bool.false_eq_true, if_false,
      c.send_of_open _ hopen]

variable (toLowercase app chain serde) in
/-- The dispatcher comes to everyone it has something for, with steps of its own only. -/
theorem run_notify_until {n : Notices} (notices : List Notices)
    (hsending : c.sending = some notices) (hopen : c.channelClosed = false) (hn : n ∈ notices)
    (hresults : n.2 ≠ []) :
    ∃ k d, run (connectionStep serde toLowercase app chain) c (List.replicate k .notify) = some d ∧
      d.recipient = some n.1 ∧ d.phase = c.phase := by
  induction notices generalizing c with
  | nil => cases hn
  | cons m rest ih =>
    obtain ⟨subscriptionId, results⟩ := m
    rcases List.mem_cons.mp hn with rfl | hn
    · obtain ⟨result, results, rfl⟩ := List.exists_cons_of_ne_nil hresults
      refine ⟨0, c, rfl, ?_, rfl⟩
      simp only [Connection.recipient, hsending, hopen, Bool.false_eq_true, if_false]
    · obtain ⟨k, d, hrun, hd, hdopen, hphase⟩ := run_notify_one toLowercase app
        chain serde results hsending hopen
      obtain ⟨l, e, hrun', he, hphase'⟩ := ih hd hdopen hn
      refine ⟨k + l, e, ?_, he, hphase'.trans hphase⟩
      rw [← List.replicate_append_replicate, run_append, hrun]
      exact hrun'

/-- **Where an event did not wait, a notification is first as soon as the dispatcher goes on.** The
read loop takes no step in the meantime, which it need not. -/
theorem exists_notify_first {as : List (ConnectionAction Text)}
    (h : ¬ Along (connectionStep serde toLowercase app chain) (EventWaits toLowercase app chain)
      .opened as) :
    ∃ pre k, pre <+: as ∧
      ¬ Always (connectionStep serde toLowercase app chain) Connection.ResponseFirst .opened
        (pre ++ List.replicate k .notify) := by
  obtain ⟨pre, a, post, c, d, rfl, hpre, hstep, hmiss⟩ := exists_of_not_along h
  cases a with
  | dispatch event order =>
    rw [EventWaits] at hmiss
    push Not at hmiss
    obtain ⟨hopen, dispatch, hevent, n, hn, hresults, huntold⟩ := hmiss
    have hd : d = { c with sending := some (dispatch order) } := by
      simp only [connectionStep] at hstep
      split at hstep
      · rw [Option.ite_none_right_eq_some, hevent] at hstep
        exact (Option.some.inj hstep.2).symm
      · cases hstep
    obtain ⟨k, e, hrun, hrecipient, hphase⟩ := run_notify_until (c := d) toLowercase app
      chain serde (dispatch order) (by rw [hd]) (by rw [hd]; exact hopen) hn hresults
    have hreached : run (connectionStep serde toLowercase app chain) .opened
        ((pre ++ [.dispatch event order]) ++ List.replicate k .notify) = some e := by
      rw [run_append, run_concat_eq_some.mpr ⟨c, hpre, hstep⟩]
      exact hrun
    refine ⟨pre ++ [.dispatch event order], k + 1, ⟨post, by simp⟩, fun hfirst => ?_⟩
    rw [responseFirst_iff, List.replicate_succ', ← List.append_assoc] at hfirst
    -- the next notification is for a subscription whose reply the read loop still holds
    obtain ⟨f, hf⟩ : ∃ f, connectionStep serde toLowercase app chain e .notify = some f := by
      rw [Connection.recipient] at hrecipient
      split at hrecipient
      · rename_i sid result results rest hsending
        rw [Option.ite_none_left_eq_some, Bool.not_eq_true] at hrecipient
        simp only [connectionStep, Connection.notify, hsending, hrecipient.1, Bool.false_eq_true,
          if_false]
        exact ⟨_, rfl⟩
      · cases hrecipient
    refine hfirst.at_step hreached hf n.1 hrecipient ?_
    rw [hphase, hd]
    exact huntold
  | _ => exact absurd trivial hmiss

variable (toLowercase app chain serde) in
/-- **The response comes first when events wait for the replies, and only then.** In a run in which
no event is handled for a subscription between its entry in the map and the send of the reply that
carries its id, no notification is ever in front of the response; and a run in which one is handled
has a beginning after which the dispatcher need only send what it has for a notification to be in
front of the response. -/
theorem responseFirst_waits (as : List (ConnectionAction Text)) :
    (Along (connectionStep serde toLowercase app chain) (EventWaits toLowercase app chain)
        .opened as →
      Always (connectionStep serde toLowercase app chain) Connection.ResponseFirst .opened as) ∧
    (¬ Along (connectionStep serde toLowercase app chain) (EventWaits toLowercase app chain)
        .opened as →
      ∃ pre k, pre <+: as ∧
        ¬ Always (connectionStep serde toLowercase app chain) Connection.ResponseFirst .opened
          (pre ++ List.replicate k .notify)) :=
  ⟨responseFirst_of_eventWaits, exists_notify_first⟩

/-! ### A notification in front of the response -/

/-- A batch subscribes and asks for the gas price; a block arrives while that call is waiting. -/
def slowBatch : List (ConnectionAction Value) :=
  [.message (.array [newHeadsRequest, gasPriceRequest]), .route, .register "0x1f", .count, .route,
    .dispatch (.newBlock 1 16 "0xab" (.string "header")) [⟨"0x1f", .newHeads, none⟩], .notify]

/-- The notification is on the channel, and the response is not. -/
theorem slowBatch_notifies_first :
    ∃ c, run (connectionStep .tree id localApp ()) .opened slowBatch = some c ∧
      c.out = [.notification "0x1f" (.string "header")] ∧ ¬ c.ResponseFirst := by
  refine ⟨_, rfl, rfl, fun h => ?_⟩
  exact absurd (h [] _ [] rfl "0x1f" rfl) List.not_mem_nil

end Poolbeg
