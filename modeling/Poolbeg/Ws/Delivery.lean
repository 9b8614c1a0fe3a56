import Poolbeg.Ws.ResponseFirst

/-!
# What a subscription is sent

A `SubscriptionManager` on its own: subscriptions are entered and removed, and events are handled,
in any order. The client's channel is open throughout, so every send succeeds. An event is handled
under the lock on the map, which makes it one step; how the steps of a dispatch interleave with the
tasks of a connection is in `Poolbeg.Ws.Connection`.

## What is owed

The map has no order of its own: every dispatch walks over it in an order that the environment
chooses. What a single subscription is sent does not depend on it. `ClientSubscription.deliveries`
says what the subscription is owed for an event, looking at nothing but the subscription and the
event, and `delivery_exact` that this is what it gets, from its entry to its removal.

## One id, one subscription

Ids are drawn at random in the source, and here an entry may not use one that was given before. So
an id stands for one subscription over a whole run, and the part of the run in which the
subscription is in the map is the part between its entry and its removal, or the end. Before and
after it, nothing is sent under that id.

## Main definitions

* `SubscriptionManager`, `ManagerAction`, `managerStep` — the manager
* `ClientSubscription.deliveries` — what a subscription is owed for an event
* `RegisteredDuring` — the part of a run in which a subscription is in the map

## Main results

* `dispatched_eq` — a dispatch is what its subscriptions are owed
* `notificationsFor_run` — what is sent while a subscription is in the map
* `delivery_exact` — what is sent over a whole run
-/

namespace Poolbeg

open Lts

/-! ### The manager -/

/-- The map of subscriptions, the ids given so far, and what was put on the client's channel. The
channel takes everything: whether it is read is not looked at here. -/
structure SubscriptionManager where
  subscriptions : List ClientSubscription
  issued : List String
  sent : List Outgoing

/-- `SubscriptionManager::new`. -/
def SubscriptionManager.new : SubscriptionManager where
  subscriptions := []
  issued := []
  sent := []

/-- What is done with a manager. A subscription comes with the id it is given, and an event with the
order in which the map is walked over. -/
inductive ManagerAction
  | subscribe (sub : ClientSubscription)
  | unsubscribe (subscriptionId : String)
  | handleEvent (event : BlockEvent) (order : List ClientSubscription)

/-- The event that is handled, if one is. -/
def ManagerAction.event : ManagerAction → Option BlockEvent
  | .handleEvent event _ => some event
  | _ => none

/-- The notifications of a dispatch to one subscription. -/
def Notices.outgoing (n : Notices) : List Outgoing := n.2.map (.notification n.1)

variable (toLowercase : String → String) (chainId : ℕ)

/-- All that `handle_event` sends, walking over the subscriptions in the order given. -/
def dispatched (event : BlockEvent) (order : List ClientSubscription) : List Outgoing :=
  match handleEvent toLowercase chainId event with
  | some dispatch => (dispatch order).flatMap Notices.outgoing
  | none => []

def managerStep (m : SubscriptionManager) : ManagerAction → Option SubscriptionManager
  | .subscribe sub =>
    if sub.subscriptionId ∈ m.issued then none
    else
      some { m with
        subscriptions := insertSubscription m.subscriptions sub
        issued := sub.subscriptionId :: m.issued }
  | .unsubscribe subscriptionId =>
    some { m with subscriptions := (removeSubscription m.subscriptions subscriptionId).1 }
  | .handleEvent event order =>
    if order.Perm m.subscriptions then
      some { m with sent := m.sent ++ dispatched toLowercase chainId event order }
    else none

/-! ### What a subscription is owed -/

/-- What a subscription is to be sent for an event: the header of a block of its chain if it is for
new heads, and the logs of its chain that it wants, in the order of the array, if it is for logs. -/
def ClientSubscription.deliveries (sub : ClientSubscription) : BlockEvent → List Value
  | .newBlock chainId' _ _ header =>
    if chainId' = chainId ∧ sub.subType = .newHeads then [header] else []
  | .newLogs chainId' _ logs =>
    if chainId' = chainId ∧ sub.subType = .logs then
      (logs.asArray.getD []).filter (sub.wants toLowercase)
    else []
  | .reorg _ _ _ => []

/-- The same, as it is put on the channel. -/
def ClientSubscription.notifications (sub : ClientSubscription) (event : BlockEvent) :
    List Outgoing :=
  (sub.deliveries toLowercase chainId event).map (.notification sub.subscriptionId)

variable {toLowercase chainId} {m m' : SubscriptionManager} {a : ManagerAction}
  {sub : ClientSubscription} {subscriptionId : String}

theorem flatMap_filter_map {p : ClientSubscription → Bool} {f : ClientSubscription → List Value}
    (order : List ClientSubscription) :
    ((order.filter p).map fun sub => (sub.subscriptionId, f sub)).flatMap Notices.outgoing =
      order.flatMap fun sub =>
        (if p sub then f sub else []).map (.notification sub.subscriptionId) := by
  induction order with
  | nil => rfl
  | cons sub order ih =>
    rw [List.filter_cons, List.flatMap_cons, ← ih]
    cases p sub <;> rfl

/-- An event that nobody is owed anything for. -/
theorem flatMap_notifications_eq_nil {event : BlockEvent} (order : List ClientSubscription)
    (h : ∀ sub : ClientSubscription, sub.deliveries toLowercase chainId event = []) :
    (order.flatMap fun sub => sub.notifications toLowercase chainId event) = [] := by
  rw [List.flatMap_eq_nil_iff]
  intro sub _
  rw [ClientSubscription.notifications, h sub, List.map_nil]

/-- **A dispatch is what its subscriptions are owed**, one subscription after the other. The two
differ in how they go about it: a dispatch looks at the event first, and what is owed at the
subscription. -/
theorem dispatched_eq (event : BlockEvent) (order : List ClientSubscription) :
    dispatched toLowercase chainId event order =
      order.flatMap fun sub => sub.notifications toLowercase chainId event := by
  cases event with
  | newBlock chainId' number hash header =>
    by_cases hchain : chainId' = chainId
    · simp only [dispatched, handleEvent, if_pos hchain, dispatchNewHeads]
      rw [flatMap_filter_map]
      simp [ClientSubscription.notifications, ClientSubscription.deliveries, hchain]
    · rw [flatMap_notifications_eq_nil order fun sub => by
        simp [ClientSubscription.deliveries, hchain]]
      simp only [dispatched, handleEvent, if_neg hchain]
  | newLogs chainId' blockNumber logs =>
    by_cases hchain : chainId' = chainId
    · rcases harr : logs.asArray with _ | arr
      · rw [flatMap_notifications_eq_nil order fun sub => by
          simp [ClientSubscription.deliveries, harr]]
        simp only [dispatched, handleEvent, if_pos hchain, harr, Option.map_none]
      · simp only [dispatched, handleEvent, if_pos hchain, harr, Option.map_some, dispatchLogs]
        rw [flatMap_filter_map]
        simp [ClientSubscription.notifications, ClientSubscription.deliveries, hchain, harr]
    · rw [flatMap_notifications_eq_nil order fun sub => by
        simp [ClientSubscription.deliveries, hchain]]
      simp only [dispatched, handleEvent, if_neg hchain]
  | reorg => exact (flatMap_notifications_eq_nil order fun _ => rfl).symm

/-! ### What a subscription is sent -/

/-- The notifications for a subscription, in the order in which they were sent. -/
def notificationsFor (subscriptionId : String) (sent : List Outgoing) : List Outgoing :=
  sent.filter (·.notified = some subscriptionId)

theorem notificationsFor_append (subscriptionId : String) (sent new : List Outgoing) :
    notificationsFor subscriptionId (sent ++ new) =
      notificationsFor subscriptionId sent ++ notificationsFor subscriptionId new :=
  List.filter_append _ _

/-- Whatever a subscription is owed carries its own id. -/
theorem notified_of_mem_notifications {event : BlockEvent} {n : Outgoing}
    (h : n ∈ sub.notifications toLowercase chainId event) :
    n.notified = some sub.subscriptionId := by
  obtain ⟨result, -, rfl⟩ := List.mem_map.mp h
  rfl

theorem notificationsFor_self (sub : ClientSubscription) (event : BlockEvent) :
    notificationsFor sub.subscriptionId (sub.notifications toLowercase chainId event) =
      sub.notifications toLowercase chainId event := by
  rw [notificationsFor, List.filter_eq_self]
  exact fun n hn => decide_eq_true (notified_of_mem_notifications hn)

theorem notificationsFor_other {event : BlockEvent} (h : sub.subscriptionId ≠ subscriptionId) :
    notificationsFor subscriptionId (sub.notifications toLowercase chainId event) = [] := by
  rw [notificationsFor, List.filter_eq_nil_iff]
  intro n hn
  rw [notified_of_mem_notifications hn]
  simpa using h

/-- A dispatch sends nothing to an id that is not in the map. -/
theorem notificationsFor_dispatched_of_notMem {event : BlockEvent}
    {order : List ClientSubscription} (h : subscriptionId ∉ subscriptionIds order) :
    notificationsFor subscriptionId (dispatched toLowercase chainId event order) = [] := by
  rw [dispatched_eq]
  induction order with
  | nil => rfl
  | cons sub order ih =>
    rw [subscriptionIds, List.map_cons, List.mem_cons, not_or] at h
    rw [List.flatMap_cons, notificationsFor_append, notificationsFor_other (Ne.symm h.1), ih h.2,
      List.append_nil]

/-- A dispatch sends a subscription in the map what it is owed, once, wherever the walk meets it.
The walk meets every subscription once. -/
theorem notificationsFor_dispatched {event : BlockEvent} {order : List ClientSubscription}
    (hnodup : (subscriptionIds order).Nodup) (hsub : sub ∈ order) :
    notificationsFor sub.subscriptionId (dispatched toLowercase chainId event order) =
      sub.notifications toLowercase chainId event := by
  have hsplit : ∀ (first : ClientSubscription) (rest : List ClientSubscription),
      dispatched toLowercase chainId event (first :: rest) =
        first.notifications toLowercase chainId event ++
          dispatched toLowercase chainId event rest := by
    intro first rest
    rw [dispatched_eq, dispatched_eq, List.flatMap_cons]
  induction order with
  | nil => cases hsub
  | cons first rest ih =>
    obtain ⟨hfirst, hrest⟩ := List.nodup_cons.mp hnodup
    rw [hsplit, notificationsFor_append]
    rcases List.mem_cons.mp hsub with rfl | hsub
    · rw [notificationsFor_self, notificationsFor_dispatched_of_notMem hfirst, List.append_nil]
    · have hne : first.subscriptionId ≠ sub.subscriptionId := by
        intro heq
        exact hfirst (heq ▸ List.mem_map_of_mem hsub)
      rw [notificationsFor_other hne, List.nil_append, ih hrest hsub]

/-- Ids are in the map once, were given before, and an id that was not given was not sent to. This
is the invariant of a run. -/
structure SubscriptionManager.Tidy (m : SubscriptionManager) : Prop where
  nodup : (subscriptionIds m.subscriptions).Nodup
  issued : ∀ subscriptionId ∈ subscriptionIds m.subscriptions, subscriptionId ∈ m.issued
  unsent : ∀ subscriptionId, subscriptionId ∉ m.issued →
    notificationsFor subscriptionId m.sent = []

theorem SubscriptionManager.tidy_new : SubscriptionManager.new.Tidy where
  nodup := List.nodup_nil
  issued _ h := absurd h List.not_mem_nil
  unsent _ _ := rfl

/-- An id that was not given is not in the map. -/
theorem SubscriptionManager.Tidy.notMem (hm : m.Tidy) (h : subscriptionId ∉ m.issued) :
    subscriptionId ∉ subscriptionIds m.subscriptions :=
  fun hmem => h (hm.issued _ hmem)

theorem subscriptionIds_insert (hm : m.Tidy) (hfresh : sub.subscriptionId ∉ m.issued) :
    subscriptionIds (insertSubscription m.subscriptions sub) =
      subscriptionIds m.subscriptions ++ [sub.subscriptionId] := by
  rw [insertSubscription_of_fresh (hm.notMem hfresh), subscriptionIds, List.map_append]
  rfl

theorem SubscriptionManager.Tidy.step (hm : m.Tidy)
    (h : managerStep toLowercase chainId m a = some m') : m'.Tidy := by
  cases a with
  | subscribe sub =>
    rw [managerStep, Option.ite_none_left_eq_some] at h
    obtain ⟨hfresh, h⟩ := h
    cases h
    have hids := subscriptionIds_insert hm hfresh
    refine ⟨?_, fun subscriptionId hmem => ?_, fun subscriptionId hmem => ?_⟩
    · rw [hids]
      refine List.nodup_append.mpr ⟨hm.nodup, List.pairwise_singleton _ _, ?_⟩
      intro subscriptionId hmem other hother
      rw [List.mem_singleton.mp hother]
      rintro rfl
      exact hm.notMem hfresh hmem
    · rw [hids, List.mem_append, List.mem_singleton] at hmem
      rcases hmem with hmem | rfl
      · exact List.mem_cons_of_mem _ (hm.issued _ hmem)
      · exact List.mem_cons_self
    · exact hm.unsent _ fun hold => hmem (List.mem_cons_of_mem _ hold)
  | unsubscribe removed =>
    cases h
    have hsubset := subscriptionIds_remove_subset m.subscriptions removed
    refine ⟨?_, fun subscriptionId hmem => hm.issued _ (hsubset hmem), hm.unsent⟩
    exact hm.nodup.sublist (List.filter_sublist.map _)
  | handleEvent event order =>
    rw [managerStep, Option.ite_none_right_eq_some] at h
    obtain ⟨horder, h⟩ := h
    cases h
    refine ⟨hm.nodup, hm.issued, fun subscriptionId hmem => ?_⟩
    have hnotin : subscriptionId ∉ subscriptionIds order :=
      fun hin => hm.notMem hmem ((horder.map _).subset hin)
    rw [notificationsFor_append, hm.unsent _ hmem,
      notificationsFor_dispatched_of_notMem hnotin, List.append_nil]

/-- No id is ever taken back. -/
theorem SubscriptionManager.issued_mono (h : managerStep toLowercase chainId m a = some m') :
    m.issued ⊆ m'.issued := by
  cases a with
  | subscribe sub =>
    rw [managerStep, Option.ite_none_left_eq_some] at h
    obtain ⟨-, h⟩ := h
    cases h
    exact List.subset_cons_self _ _
  | unsubscribe removed =>
    cases h
    exact List.Subset.refl _
  | handleEvent event order =>
    rw [managerStep, Option.ite_none_right_eq_some] at h
    obtain ⟨-, h⟩ := h
    cases h
    exact List.Subset.refl _

theorem SubscriptionManager.Tidy.run (hm : m.Tidy) {as : List ManagerAction}
    (h : Lts.run (managerStep toLowercase chainId) m as = some m') : m'.Tidy :=
  run_inv (fun _ _ _ hm h => hm.step h) hm h

/-- What was removed is no longer in the map. -/
theorem notMem_removeSubscription (subs : List ClientSubscription) (subscriptionId : String) :
    subscriptionId ∉ subscriptionIds (removeSubscription subs subscriptionId).1 := by
  intro hmem
  obtain ⟨sub, hsub, hid⟩ := List.mem_map.mp hmem
  have hne := (List.mem_filter.mp hsub).2
  rw [bne_iff_ne] at hne
  exact hne hid

/-! ### Over a run -/

/-- A step that neither enters the subscription nor removes it sends it what it is owed. -/
theorem notificationsFor_step (hm : m.Tidy) (hsub : sub ∈ m.subscriptions)
    (ha : a ≠ .unsubscribe sub.subscriptionId)
    (h : managerStep toLowercase chainId m a = some m') :
    sub ∈ m'.subscriptions ∧
      notificationsFor sub.subscriptionId m'.sent =
        notificationsFor sub.subscriptionId m.sent ++
          a.event.toList.flatMap (sub.notifications toLowercase chainId) := by
  cases a with
  | subscribe new =>
    rw [managerStep, Option.ite_none_left_eq_some] at h
    obtain ⟨hfresh, h⟩ := h
    cases h
    refine ⟨?_, (List.append_nil _).symm⟩
    rw [insertSubscription_of_fresh (hm.notMem hfresh)]
    exact List.mem_append_left _ hsub
  | unsubscribe removed =>
    cases h
    refine ⟨List.mem_filter.mpr ⟨hsub, ?_⟩, (List.append_nil _).symm⟩
    rw [bne_iff_ne]
    rintro rfl
    exact ha rfl
  | handleEvent event order =>
    rw [managerStep, Option.ite_none_right_eq_some] at h
    obtain ⟨horder, h⟩ := h
    cases h
    refine ⟨hsub, ?_⟩
    have hnodup : (subscriptionIds order).Nodup := (horder.map _).nodup_iff.mpr hm.nodup
    rw [notificationsFor_append, notificationsFor_dispatched hnodup (horder.mem_iff.mpr hsub)]
    exact congrArg _ (List.flatMap_singleton _ _).symm

/-- While a subscription is in the map it is sent what it is owed, event after event. The induction
is on the actions, and each sends what one step does. -/
theorem notificationsFor_run (hm : m.Tidy) (hsub : sub ∈ m.subscriptions)
    {mid : List ManagerAction} (hmid : .unsubscribe sub.subscriptionId ∉ mid)
    (h : run (managerStep toLowercase chainId) m mid = some m') :
    notificationsFor sub.subscriptionId m'.sent =
      notificationsFor sub.subscriptionId m.sent ++
        (mid.filterMap ManagerAction.event).flatMap (sub.notifications toLowercase chainId) := by
  induction mid generalizing m with
  | nil =>
    cases h
    exact (List.append_nil _).symm
  | cons a mid ih =>
    rw [List.mem_cons, not_or] at hmid
    obtain ⟨u, hu, hrest⟩ := run_cons_eq_some.mp h
    obtain ⟨hsub', hu'⟩ := notificationsFor_step hm hsub (Ne.symm hmid.1) hu
    rw [ih (hm.step hu) hsub' hmid.2 hrest, hu', List.append_assoc, ← List.flatMap_append]
    cases a <;> rfl

/-- An id that was given and is no longer in the map is not sent to again, since it is not given
again. -/
theorem notificationsFor_run_of_removed (hm : m.Tidy) (hissued : subscriptionId ∈ m.issued)
    (hremoved : subscriptionId ∉ subscriptionIds m.subscriptions) {as : List ManagerAction}
    (h : run (managerStep toLowercase chainId) m as = some m') :
    notificationsFor subscriptionId m'.sent = notificationsFor subscriptionId m.sent := by
  refine (run_inv (I := fun t : SubscriptionManager => t.Tidy ∧ subscriptionId ∈ t.issued ∧
    subscriptionId ∉ subscriptionIds t.subscriptions ∧
      notificationsFor subscriptionId t.sent = notificationsFor subscriptionId m.sent)
    ?_ ⟨hm, hissued, hremoved, rfl⟩ h).2.2.2
  rintro t a u ⟨ht, hissued, hremoved, hsent⟩ hu
  refine ⟨ht.step hu, ?_⟩
  cases a with
  | subscribe new =>
    rw [managerStep, Option.ite_none_left_eq_some] at hu
    obtain ⟨hfresh, hu⟩ := hu
    cases hu
    refine ⟨List.mem_cons_of_mem _ hissued, ?_, hsent⟩
    rw [subscriptionIds_insert ht hfresh, List.mem_append, List.mem_singleton]
    rintro (hmem | rfl)
    · exact hremoved hmem
    · exact hfresh hissued
  | unsubscribe removed =>
    cases hu
    exact ⟨hissued, fun hmem => hremoved (subscriptionIds_remove_subset _ _ hmem), hsent⟩
  | handleEvent event order =>
    rw [managerStep, Option.ite_none_right_eq_some] at hu
    obtain ⟨horder, hu⟩ := hu
    cases hu
    refine ⟨hissued, hremoved, ?_⟩
    have hnotin : subscriptionId ∉ subscriptionIds order :=
      fun hin => hremoved ((horder.map _).subset hin)
    rw [notificationsFor_append, notificationsFor_dispatched_of_notMem hnotin, List.append_nil,
      hsent]

/-- An id is given by entering a subscription under it. -/
theorem subscribe_mem_of_issued {as : List ManagerAction}
    (h : run (managerStep toLowercase chainId) .new as = some m) :
    ∀ subscriptionId ∈ m.issued,
      ∃ sub, .subscribe sub ∈ as ∧ sub.subscriptionId = subscriptionId := by
  refine run_history (H := fun as t => ∀ subscriptionId ∈ t.issued,
    ∃ sub, .subscribe sub ∈ as ∧ sub.subscriptionId = subscriptionId)
    (fun _ hmem => absurd hmem List.not_mem_nil) ?_ h
  intro as t a u _ ih hu subscriptionId hmem
  have hold : subscriptionId ∈ t.issued →
      ∃ sub, .subscribe sub ∈ as ++ [a] ∧ sub.subscriptionId = subscriptionId := by
    intro hmem
    obtain ⟨sub, hsub, hid⟩ := ih _ hmem
    exact ⟨sub, List.mem_append_left _ hsub, hid⟩
  cases a with
  | subscribe new =>
    rw [managerStep, Option.ite_none_left_eq_some] at hu
    obtain ⟨-, hu⟩ := hu
    cases hu
    rcases List.mem_cons.mp hmem with rfl | hmem
    · exact ⟨new, List.mem_append_right _ (List.mem_singleton_self _), rfl⟩
    · exact hold hmem
  | unsubscribe removed =>
    cases hu
    exact hold hmem
  | handleEvent event order =>
    rw [managerStep, Option.ite_none_right_eq_some] at hu
    obtain ⟨-, hu⟩ := hu
    cases hu
    exact hold hmem

/-- The subscription is entered, `mid` follows, and then it is removed or the run ends. In `mid` it
is not removed. -/
def RegisteredDuring (sub : ClientSubscription) (as mid : List ManagerAction) : Prop :=
  ∃ pre post, as = pre ++ .subscribe sub :: (mid ++ post) ∧
    .unsubscribe sub.subscriptionId ∉ mid ∧
    (post = [] ∨ ∃ rest, post = .unsubscribe sub.subscriptionId :: rest)

/-- Whatever is entered is in the map during some part of the run, which ends with its removal or
with the run. -/
theorem exists_registeredDuring {as : List ManagerAction} (h : .subscribe sub ∈ as) :
    ∃ mid, RegisteredDuring sub as mid := by
  obtain ⟨pre, tail, rfl⟩ := List.append_of_mem h
  by_cases hmem : .unsubscribe sub.subscriptionId ∈ tail
  · obtain ⟨mid, rest, rfl, hmid⟩ := List.eq_append_cons_of_mem hmem
    exact ⟨mid, pre, _, rfl, hmid, .inr ⟨rest, rfl⟩⟩
  · exact ⟨tail, pre, [], by rw [List.append_nil], hmem, .inl rfl⟩

/-- **Delivery is exact.** Under the id of a subscription the client is sent what the subscription
is owed for the events handled while it is in the map, each once and in their order, and nothing
else; under an id that no subscription was entered with it is sent nothing. -/
theorem delivery_exact (toLowercase : String → String) (chainId : ℕ) {as : List ManagerAction}
    (h : run (managerStep toLowercase chainId) .new as = some m) :
    (∀ sub mid, RegisteredDuring sub as mid →
      notificationsFor sub.subscriptionId m.sent =
        (mid.filterMap ManagerAction.event).flatMap (sub.notifications toLowercase chainId)) ∧
    ∀ subscriptionId, (∀ sub, .subscribe sub ∈ as → sub.subscriptionId ≠ subscriptionId) →
      notificationsFor subscriptionId m.sent = [] := by
  have hm := SubscriptionManager.tidy_new.run h
  constructor
  · rintro sub mid ⟨pre, post, rfl, hmid, hpost⟩
    rw [run_append, Option.bind_eq_some_iff] at h
    obtain ⟨t, ht, h⟩ := h
    rw [run_cons_eq_some] at h
    obtain ⟨u, hu, h⟩ := h
    rw [run_append, Option.bind_eq_some_iff] at h
    obtain ⟨v, hv, h⟩ := h
    have htidy := SubscriptionManager.tidy_new.run ht
    have hutidy := htidy.step hu
    rw [managerStep, Option.ite_none_left_eq_some] at hu
    obtain ⟨hfresh, hu⟩ := hu
    cases hu
    -- nothing was sent under the id before it was given
    have hmidsent := notificationsFor_run hutidy (List.mem_append_right _ List.mem_cons_self)
      hmid hv
    rw [htidy.unsent _ hfresh, List.nil_append] at hmidsent
    rw [← hmidsent]
    rcases hpost with rfl | ⟨rest, rfl⟩
    · cases h
      rfl
    · -- and nothing is sent under it after the removal
      rw [run_cons_eq_some] at h
      obtain ⟨w, hw, h⟩ := h
      have hwtidy := (hutidy.run hv).step hw
      cases hw
      have hissued : sub.subscriptionId ∈ v.issued :=
        run_inv (I := fun t : SubscriptionManager => sub.subscriptionId ∈ t.issued)
          (fun _ _ _ hmem h => SubscriptionManager.issued_mono h hmem) List.mem_cons_self hv
      have hsent := notificationsFor_run_of_removed hwtidy hissued
        (notMem_removeSubscription v.subscriptions sub.subscriptionId) h
      exact hsent
  · intro subscriptionId hnever
    refine hm.unsent _ fun hissued => ?_
    obtain ⟨sub, hsub, hid⟩ := subscribe_mem_of_issued h _ hissued
    exact hnever sub hsub hid

/-! ### Two subscriptions and four events -/

def headsSubscription : ClientSubscription := ⟨"0x1f", .newHeads, none⟩

def logsSubscription : ClientSubscription :=
  ⟨"0x2e", .logs, some { address := some ["0xaa"], topics := none }⟩

/-- A log of the contract with the address. -/
def logOf (address : String) : Value := .object [("address", .string address)]

def threeLogs : Value := .array [logOf "0xaa", .object [], logOf "0xaa"]

/-- The blocks of chain 1 and of chain 5, and the logs of a block; the map is walked over in both
orders. -/
def twoSubscriptions : List ManagerAction :=
  [.subscribe headsSubscription, .handleEvent (.newBlock 1 16 "0xab" (.string "first"))
      [headsSubscription],
    .subscribe logsSubscription,
    .handleEvent (.newLogs 1 16 threeLogs) [logsSubscription, headsSubscription],
    .handleEvent (.newBlock 5 7 "0xcd" (.string "elsewhere")) [headsSubscription, logsSubscription],
    .unsubscribe "0x1f", .handleEvent (.newBlock 1 17 "0xef" (.string "second"))
      [logsSubscription]]

/-- Each of the two is sent what it is owed: one header before it is removed, and two logs. -/
theorem delivery_exact_twoSubscriptions :
    ∃ m, run (managerStep id 1) .new twoSubscriptions = some m ∧
      (notificationsFor "0x1f" m.sent = [.notification "0x1f" (.string "first")]) ∧
      notificationsFor "0x2e" m.sent =
        [.notification "0x2e" (logOf "0xaa"), .notification "0x2e" (logOf "0xaa")] := by
  obtain ⟨m, hm⟩ : ∃ m, run (managerStep id 1) .new twoSubscriptions = some m := ⟨_, rfl⟩
  have hexact := (delivery_exact id 1 hm).1
  refine ⟨m, hm, ?_, ?_⟩
  · exact hexact headsSubscription ((twoSubscriptions.drop 1).take 4)
      ⟨[], twoSubscriptions.drop 5, rfl, by simp [twoSubscriptions], .inr ⟨_, rfl⟩⟩
  · refine (hexact logsSubscription (twoSubscriptions.drop 3) ⟨twoSubscriptions.take 2, [], rfl,
      by simp [twoSubscriptions, logsSubscription], .inl rfl⟩).trans ?_
    have hwants : logsSubscription.wants id (logOf "0xaa") = true ∧
        logsSubscription.wants id (.object []) = false :=
      ⟨by decide +kernel, by decide⟩
    have hevents : (twoSubscriptions.drop 3).filterMap ManagerAction.event =
        [.newLogs 1 16 threeLogs, .newBlock 5 7 "0xcd" (.string "elsewhere"),
          .newBlock 1 17 "0xef" (.string "second")] := rfl
    have htype : logsSubscription.subType = .logs := rfl
    have harr : threeLogs.asArray = some [logOf "0xaa", .object [], logOf "0xaa"] := rfl
    simp only [hevents, List.flatMap_cons, List.flatMap_nil, ClientSubscription.notifications,
      ClientSubscription.deliveries, htype, harr, Option.getD_some, List.filter_cons, hwants]
    rfl

end Poolbeg
