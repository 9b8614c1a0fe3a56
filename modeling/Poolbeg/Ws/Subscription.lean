import Poolbeg.Upstream.Tracker

/-!
# Subscriptions of a WebSocket client

The embedding of `ws/subscription.rs`: log filters, the map of subscriptions, and what an event of
the chain sends to whom. Taking the lock on the map and putting a notification on the client's
channel are steps of the connection, in `Poolbeg.Ws.Connection`; here a dispatch is the list of what
it is going to send.

## The map

All subscriptions of a manager belong to one client and hold clones of one sender, so a subscription
does not carry it. The map is a list without repeated ids. It iterates in no particular order:
whoever walks over it says in which, and nothing may depend on it. A dispatch takes the lock for the
whole walk, so the subscriptions it sends to are those that were registered at one moment.

## Events

An event of another chain is dropped before the lock is taken, and so is a reorg. A new block goes
to the subscriptions of type `newHeads`, its header unchanged; the logs of a block go one by one to
those of type `logs` whose filter matches, in their order. The other two types are registered and
never sent anything.

## Implementation notes

`to_lowercase` lowers every letter of Unicode and is a parameter; `eq_ignore_ascii_case` is what
`String.toLower` decides.

## Main definitions

* `LogFilter.fromValue`, `LogFilter.isMatch` — filters
* `ClientSubscription`, `insertSubscription`, `removeSubscription` — the map
* `dispatchNewHeads`, `dispatchLogs`, `handleEvent` — events

## Main results

* `length_removeSubscription` — a removal takes one subscription away
* `handleEvent_mem` — only registered subscriptions are sent to
-/

namespace Poolbeg

/-- What a client may subscribe to. Events are dispatched for the first two only. -/
inductive SubscriptionType
  | newHeads
  | logs
  | newPendingTransactions
  | syncing
  deriving DecidableEq

/-- Which logs a subscription wants: by their address, and by their topics at each position. -/
structure LogFilter where
  address : Option (List String)
  topics : Option (List (Option (List String)))
  deriving DecidableEq

/-- A registered subscription of the client. Only one of type `logs` is ever given a filter. -/
structure ClientSubscription where
  subscriptionId : String
  subType : SubscriptionType
  logFilter : Option LogFilter
  deriving DecidableEq

/-! ### Log filters -/

section Filter

variable (toLowercase : String → String)

/-- The strings of an array, lowered; items of any other kind are skipped. -/
def lowercaseStrings (arr : List Value) : List String :=
  arr.filterMap fun x => x.asStr.map toLowercase

/-- A string, or an array of strings. -/
def stringOrStrings (v : Value) : Option (List String) :=
  match v.asStr with
  | some s => some [toLowercase s]
  | none => v.asArray.map (lowercaseStrings toLowercase)

/-- `LogFilter::from_value`. Whatever is not a string or an array is left out, and an empty array is
kept. -/
def LogFilter.fromValue (v : Value) : LogFilter where
  address := (v.get "address").bind (stringOrStrings toLowercase)
  topics := (v.get "topics").bind fun t => t.asArray.map fun arr => arr.map fun topic =>
    if topic.isNull then none else stringOrStrings toLowercase topic

/-- `str::eq_ignore_ascii_case`. -/
def eqIgnoreAsciiCase (a b : String) : Bool := a.toLower == b.toLower

/-- The address of a log is one of those that are asked for, if any are. -/
def LogFilter.addressMatches (filter : LogFilter) (log : Value) : Bool :=
  match filter.address with
  | none => true
  | some addrs =>
    match (log.get "address").bind Value.asStr with
    | some logAddr => addrs.any fun a => eqIgnoreAsciiCase a logAddr
    | none => false

/-- The topics of a log, lowered; items that are no strings are dropped before anything is compared,
so the positions of those after them shift. -/
def logTopics (log : Value) : List String :=
  (((log.get "topics").bind Value.asArray).map (lowercaseStrings toLowercase)).getD []

/-- At every position for which topics are asked for, the log has one of them. -/
def LogFilter.topicsMatch (filter : LogFilter) (log : Value) : Bool :=
  match filter.topics with
  | none => true
  | some topics => topics.zipIdx.all fun (topicFilter, i) =>
    match topicFilter with
    | none => true
    | some filterValues =>
      match (logTopics toLowercase log)[i]? with
      | some logTopic => filterValues.any fun f => eqIgnoreAsciiCase f logTopic
      | none => false

/-- `LogFilter::matches`. -/
def LogFilter.isMatch (filter : LogFilter) (log : Value) : Bool :=
  filter.addressMatches log && filter.topicsMatch toLowercase log

/-- Whether a logs subscription wants a log: without a filter it wants them all. -/
def ClientSubscription.wants (sub : ClientSubscription) (log : Value) : Bool :=
  match sub.logFilter with
  | some filter => filter.isMatch toLowercase log
  | none => true

end Filter

/-! ### The map -/

/-- `HashMap::insert` under the subscription's id. What was there under this id is replaced. -/
def insertSubscription (subs : List ClientSubscription) (sub : ClientSubscription) :
    List ClientSubscription :=
  subs.filter (·.subscriptionId != sub.subscriptionId) ++ [sub]

/-- `HashMap::remove`: what is left, and whether there was something to remove. -/
def removeSubscription (subs : List ClientSubscription) (subscriptionId : String) :
    List ClientSubscription × Bool :=
  (subs.filter (·.subscriptionId != subscriptionId),
    subs.any (·.subscriptionId == subscriptionId))

/-- The ids under which something is registered. -/
def subscriptionIds (subs : List ClientSubscription) : List String :=
  subs.map ClientSubscription.subscriptionId

theorem filter_eq_self_of_notMem {subs : List ClientSubscription} {subscriptionId : String}
    (h : subscriptionId ∉ subscriptionIds subs) :
    subs.filter (·.subscriptionId != subscriptionId) = subs := by
  rw [List.filter_eq_self]
  intro sub hsub
  rw [bne_iff_ne]
  rintro rfl
  exact h (List.mem_map_of_mem hsub)

theorem insertSubscription_of_fresh {subs : List ClientSubscription} {sub : ClientSubscription}
    (h : sub.subscriptionId ∉ subscriptionIds subs) :
    insertSubscription subs sub = subs ++ [sub] := by
  rw [insertSubscription, filter_eq_self_of_notMem h]

theorem subscriptionIds_remove_subset (subs : List ClientSubscription) (subscriptionId : String) :
    subscriptionIds (removeSubscription subs subscriptionId).1 ⊆ subscriptionIds subs :=
  List.map_subset _ (List.filter_subset_self subs)

/-- Ids are registered once, so a removal that finds one takes one subscription away. -/
theorem length_removeSubscription {subs : List ClientSubscription} {subscriptionId : String}
    (hnodup : (subscriptionIds subs).Nodup)
    (h : (removeSubscription subs subscriptionId).2 = true) :
    (removeSubscription subs subscriptionId).1.length + 1 = subs.length := by
  induction subs with
  | nil => exact absurd h (by simp [removeSubscription])
  | cons sub subs ih =>
    obtain ⟨hsub, hnodup⟩ := List.nodup_cons.mp hnodup
    by_cases heq : sub.subscriptionId = subscriptionId
    · subst heq
      simp [removeSubscription, filter_eq_self_of_notMem hsub]
    · have htail : (removeSubscription subs subscriptionId).2 = true := by
        simpa [removeSubscription, heq] using h
      have hlength := ih hnodup htail
      simp only [removeSubscription] at hlength ⊢
      rw [List.filter_cons_of_pos (by simpa using heq), List.length_cons, List.length_cons, hlength]

/-- A removal that finds nothing changes nothing. -/
theorem removeSubscription_of_not_found {subs : List ClientSubscription} {subscriptionId : String}
    (h : (removeSubscription subs subscriptionId).2 = false) :
    (removeSubscription subs subscriptionId).1 = subs := by
  rw [removeSubscription, List.filter_eq_self]
  intro sub hsub
  have hne := List.any_eq_false.mp h sub hsub
  simpa using hne

/-! ### Dispatching an event -/

/-- What a subscription is going to be sent: its id and the results, in order. -/
abbrev Notices : Type := String × List Value

/-- `dispatch_new_heads`, walking over the subscriptions in the order given. -/
def dispatchNewHeads (header : Value) (subs : List ClientSubscription) : List Notices :=
  (subs.filter (·.subType = .newHeads)).map fun sub => (sub.subscriptionId, [header])

variable (toLowercase : String → String)

/-- `dispatch_logs` once the lock is taken. A subscription gets the logs it wants in their order,
and all of them before the next subscription gets any. -/
def dispatchLogs (logs : List Value) (subs : List ClientSubscription) : List Notices :=
  (subs.filter (·.subType = .logs)).map fun sub =>
    (sub.subscriptionId, logs.filter (sub.wants toLowercase))

/-- `handle_event` as a function of the map; `none` when it returns without taking the lock. The
chain id is that of the manager, and an event of another chain is none of its business. -/
def handleEvent (chainId : ℕ) : BlockEvent → Option (List ClientSubscription → List Notices)
  | .newBlock chainId' _ _ header =>
    if chainId' = chainId then some (dispatchNewHeads header) else none
  | .newLogs chainId' _ logs =>
    if chainId' = chainId then logs.asArray.map (dispatchLogs toLowercase) else none
  | .reorg _ _ _ => none

/-- **Only registered subscriptions are sent to**, whatever the event is. -/
theorem handleEvent_mem {chainId : ℕ} {event : BlockEvent} {subs : List ClientSubscription}
    {dispatch : List ClientSubscription → List Notices} {subscriptionId : String}
    {results : List Value} (h : handleEvent toLowercase chainId event = some dispatch)
    (hmem : (subscriptionId, results) ∈ dispatch subs) :
    subscriptionId ∈ subscriptionIds subs := by
  cases event with
  | newBlock chainId' number hash header =>
    rw [handleEvent, Option.ite_none_right_eq_some] at h
    obtain ⟨-, h⟩ := h
    cases h
    obtain ⟨sub, hsub, heq⟩ := List.mem_map.mp hmem
    cases heq
    exact List.mem_map_of_mem (List.mem_filter.mp hsub).1
  | newLogs chainId' blockNumber logs =>
    rw [handleEvent, Option.ite_none_right_eq_some] at h
    obtain ⟨-, h⟩ := h
    obtain ⟨arr, -, rfl⟩ := Option.map_eq_some_iff.mp h
    obtain ⟨sub, hsub, heq⟩ := List.mem_map.mp hmem
    cases heq
    exact List.mem_map_of_mem (List.mem_filter.mp hsub).1
  | reorg => cases h

end Poolbeg
