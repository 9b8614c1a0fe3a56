import Poolbeg.Lts
import Poolbeg.Ws.Request

/-!
# A WebSocket connection

The tasks of `handle_ws_connection` and what they share. The read loop takes one message after the
other and works on its requests in order; the dispatcher turns the events of the chain into
notifications; the forwarder writes to the socket whatever is put on the client's channel. The map
of subscriptions is behind a lock: a dispatch holds it for reading as long as it sends, and whoever
changes the map needs it alone.

The channel is the list of all that was put on it, with the number of values the forwarder has
taken. A value that is sent after the forwarder has ended is lost.

## What one step is

A step is what a task does between two points at which another one can get in between. Entering a
subscription into the map and counting it are two steps, and so are taking one out and discounting
it; the reply follows in a step of its own, when all requests of the message have been worked on. A
dispatch takes the lock in one step and sends each notification in another. While it has something
to send, no step that changes the map is enabled.

The two ends of a connection are spelled out in the same way. The read loop leaves, walks over the
map in `remove_client_subscriptions`, subtracts the number it removed, and aborts the other tasks.

## The environment

The environment chooses the messages and when the client leaves, what calls are answered with and
when, which events arrive, how the map iterates, and when a write to the socket fails. An id given
to a subscription has not been given before.

## Main definitions

* `Stage`, `Handling` — a message at work
* `ReadPhase` — where the read loop stands, its end included
* `Connection` — the state
* `ConnectionAction`, `connectionStep` — the steps
* `ConnectionMove` — the steps by what enables them

## Main results

* `connectionMove` — a step of the connection is one of `ConnectionMove`, which is what the modules
  on connections split on
-/

namespace Poolbeg

/-! ### The state -/

/-- Where the work on one request stands: not begun, about to enter a subscription into the map,
about to count it, about to take one out of the map, about to discount it, or waiting for a call. -/
inductive Stage
  | next
  | subscribing (subType : SubscriptionType) (logFilter : Option LogFilter) (id : Value)
  | registered (subscriptionId : String) (id : Value)
  | unsubscribing (subscriptionId : String) (id : Value)
  | removed (subscriptionId : String) (id : Value)
  | calling (req : JsonRpcRequest)

/-- A message being handled: the requests still to come and the replies so far. `batch` says whether
the replies are sent as a list. -/
structure Handling where
  batch : Bool
  remaining : List Value
  replies : List Reply

/-- The work on a message begins. A message that is refused as a whole has its reply already, and no
request is left. -/
def Handling.start : Inbound → Handling
  | .rejected r => { batch := false, remaining := [], replies := [r] }
  | .single request => { batch := false, remaining := [request], replies := [] }
  | .batch requests => { batch := true, remaining := requests, replies := [] }

/-- The current request is answered. -/
def Handling.push (h : Handling) (r : Reply) : Handling := { h with replies := h.replies ++ [r] }

/-- What is gathered from the replies grows at the end. -/
@[simp] theorem Handling.flatMap_push {β : Type*} (f : Reply → List β) (h : Handling) (r : Reply) :
    (h.push r).replies.flatMap f = h.replies.flatMap f ++ f r := by
  rw [Handling.push, List.flatMap_append, List.flatMap_singleton]

/-- What `handle_ws_message` returns in the end. A single request has one reply, and a batch a list,
in the order of its requests. -/
def Handling.outgoing (h : Handling) : Outgoing :=
  match h.batch, h.replies with
  | false, [r] => .reply r
  | _, rs => .replies rs

/-- Where the read loop stands. After the loop: about to lock the map, walking over it in
`remove_client_subscriptions` with what has been looked at and kept, about to subtract the number
removed, about to abort the other tasks, and gone. -/
inductive ReadPhase
  | reading
  | handling (h : Handling) (stage : Stage)
  | leaving
  | retaining (todo kept : List ClientSubscription)
  | subtracting (removed : ℕ)
  | aborting
  | closed

/-- The work on the next request begins. A request that is answered at once has its reply pushed;
all others go through a stage. -/
def Handling.begin (h : Handling) : Routed → ReadPhase
  | .respond r => .handling (h.push r) .next
  | .subscribe subType logFilter id => .handling h (.subscribing subType logFilter id)
  | .unsubscribe subscriptionId id => .handling h (.unsubscribing subscriptionId id)
  | .call req => .handling h (.calling req)

/-- A connection. `sending` is what a dispatch has still to send, while it holds the lock; `out` is
all that was put on the channel, of which the forwarder has written `forwarded`; `issued` are the
ids given so far. -/
structure Connection where
  phase : ReadPhase
  subs : List ClientSubscription
  sending : Option (List Notices)
  out : List Outgoing
  forwarded : ℕ
  channelClosed : Bool
  issued : List String

/-- The socket has been accepted, and nothing has happened on it. -/
def Connection.opened : Connection where
  phase := .reading
  subs := []
  sending := none
  out := []
  forwarded := 0
  channelClosed := false
  issued := []

/-! ### The steps -/

/-- What happens on a connection. The steps of the read loop come first, with its end, then the
dispatcher's and the forwarder's, as in `connectionStep`. -/
inductive ConnectionAction (Text : Type)
  | message (text : Text)
  | route
  | register (subscriptionId : String)
  | count
  | remove
  | uncount
  | answer (resp : JsonRpcResponse)
  | reply
  | disconnect
  | lock (order : List ClientSubscription)
  | check
  | release
  | subtract
  | abort
  | dispatch (event : BlockEvent) (order : List ClientSubscription)
  | notify
  | unlock
  | forward
  | writeFails
  | dropReceiver

/-- `UnboundedSender::send`. It never waits, and fails once the receiver is gone. -/
def Connection.send (c : Connection) (m : Outgoing) : Connection :=
  if c.channelClosed then c else { c with out := c.out ++ [m] }

theorem Connection.send_of_open (c : Connection) (m : Outgoing) (h : c.channelClosed = false) :
    c.send m = { c with out := c.out ++ [m] } := by
  rw [Connection.send, h]
  rfl

/-- What is sent on a closed channel is lost, and nobody is told. -/
theorem Connection.send_of_closed (c : Connection) (m : Outgoing) (h : c.channelClosed = true) :
    c.send m = c := by
  rw [Connection.send, if_pos h]

@[simp] theorem Connection.phase_send (c : Connection) (m : Outgoing) :
    (c.send m).phase = c.phase := by
  rw [Connection.send]
  split <;> rfl

@[simp] theorem Connection.subs_send (c : Connection) (m : Outgoing) :
    (c.send m).subs = c.subs := by
  rw [Connection.send]
  split <;> rfl

@[simp] theorem Connection.issued_send (c : Connection) (m : Outgoing) :
    (c.send m).issued = c.issued := by
  rw [Connection.send]
  split <;> rfl

/-- The read loop goes on. -/
def Connection.moveTo (c : Connection) (phase : ReadPhase) : Connection := { c with phase := phase }

/-- The dispatcher may begin: it has not been aborted, and nobody is changing the map. -/
def ReadPhase.admitsDispatch : ReadPhase → Bool
  | .retaining _ _ | .closed => false
  | _ => true

variable {Text ι : Type} (serde : SerdeJson Text) (toLowercase : String → String)
  (app : AppConfig ι) (chain : ι)

/-- A dispatch sends one notification, or is done with a subscription: it has no more results, or
the channel is closed. -/
def Connection.notify (c : Connection) : Option Connection :=
  match c.sending with
  | some ((_, []) :: rest) => some { c with sending := some rest }
  | some ((subscriptionId, result :: results) :: rest) =>
    if c.channelClosed then some { c with sending := some rest }
    else
      some { c.send (.notification subscriptionId result) with
        sending := some ((subscriptionId, results) :: rest) }
  | _ => none

/-- One step of a connection; `none` where the state does not allow it. The branches follow the read
loop from message to reply, its end, the forwarder and the dispatcher. -/
def connectionStep (c : Connection) : ConnectionAction Text → Option Connection
  | .message text =>
    match c.phase with
    | .reading =>
      some (c.moveTo
        (.handling (.start (readMessage app.maxBatchSize (serde.fromStr text))) .next))
    | _ => none
  | .route =>
    match c.phase with
    | .handling h .next =>
      match h.remaining with
      | request :: remaining =>
        some (c.moveTo (({ h with remaining := remaining } : Handling).begin
          (routeRequest toLowercase app.blockedMethods request)))
      | [] => none
    | _ => none
  | .register subscriptionId =>
    match c.phase, c.sending with
    | .handling h (.subscribing subType logFilter id), none =>
      if subscriptionId ∈ c.issued then none
      else
        some { c with
          phase := .handling h (.registered subscriptionId id)
          subs := insertSubscription c.subs
            { subscriptionId := subscriptionId, subType := subType, logFilter := logFilter }
          issued := subscriptionId :: c.issued }
    | _, _ => none
  | .count =>
    match c.phase with
    | .handling h (.registered subscriptionId id) =>
      some (c.moveTo (.handling (h.push (.subscribed subscriptionId id)) .next))
    | _ => none
  | .remove =>
    match c.phase, c.sending with
    | .handling h (.unsubscribing subscriptionId id), none =>
      let (subs, success) := removeSubscription c.subs subscriptionId
      if success then
        some { c with phase := .handling h (.removed subscriptionId id), subs := subs }
      else
        some { c with
          phase := .handling (h.push (.unsubscribed subscriptionId false id)) .next
          subs := subs }
    | _, _ => none
  | .uncount =>
    match c.phase with
    | .handling h (.removed subscriptionId id) =>
      some (c.moveTo (.handling (h.push (.unsubscribed subscriptionId true id)) .next))
    | _ => none
  | .answer resp =>
    match c.phase with
    | .handling h (.calling _) => some (c.moveTo (.handling (h.push (.called resp)) .next))
    | _ => none
  | .reply =>
    match c.phase with
    | .handling h .next =>
      match h.remaining with
      | [] => some ((c.send h.outgoing).moveTo .reading)
      | _ :: _ => none
    | _ => none
  | .disconnect =>
    match c.phase with
    | .reading => some (c.moveTo .leaving)
    | _ => none
  | .lock order =>
    match c.phase, c.sending with
    | .leaving, none => if order.Perm c.subs then some (c.moveTo (.retaining order [])) else none
    | _, _ => none
  | .check =>
    match c.phase with
    | .retaining (sub :: todo) kept =>
      some (c.moveTo (.retaining todo (if c.channelClosed then kept else kept ++ [sub])))
    | _ => none
  | .release =>
    match c.phase with
    | .retaining [] kept =>
      some { c with phase := .subtracting (c.subs.length - kept.length), subs := kept }
    | _ => none
  | .subtract =>
    match c.phase with
    | .subtracting _ => some (c.moveTo .aborting)
    | _ => none
  | .abort =>
    match c.phase with
    | .aborting => some (c.moveTo .closed)
    | _ => none
  | .dispatch event order =>
    match c.sending with
    | none =>
      if c.phase.admitsDispatch ∧ order.Perm c.subs then
        match handleEvent toLowercase (app.chains chain).chainId event with
        | some dispatch => some { c with sending := some (dispatch order) }
        | none => some c
      else none
    | some _ => none
  | .notify => c.notify
  | .unlock =>
    match c.sending with
    | some [] => some { c with sending := none }
    | _ => none
  | .forward =>
    if !c.channelClosed ∧ c.forwarded < c.out.length then
      some { c with forwarded := c.forwarded + 1 }
    else none
  | .writeFails =>
    if !c.channelClosed ∧ c.forwarded < c.out.length then some { c with channelClosed := true }
    else none
  | .dropReceiver =>
    match c.phase with
    | .closed => some { c with channelClosed := true }
    | _ => none

/-! ### What enables a step -/

/-- What a step of a connection does: for each kind of step what it asks of the state, and the state
it leads to. -/
inductive ConnectionMove (c : Connection) : ConnectionAction Text → Connection → Prop
  | message {text : Text} (hphase : c.phase = .reading) :
      ConnectionMove c (.message text) (c.moveTo
        (.handling (.start (readMessage app.maxBatchSize (serde.fromStr text))) .next))
  | begin {h : Handling} {request : Value} {remaining : List Value}
      (hphase : c.phase = .handling h .next) (hremaining : h.remaining = request :: remaining) :
      ConnectionMove c .route (c.moveTo (({ h with remaining := remaining } : Handling).begin
        (routeRequest toLowercase app.blockedMethods request)))
  | register {h : Handling} {subType : SubscriptionType} {logFilter : Option LogFilter} {id : Value}
      {subscriptionId : String}
      (hphase : c.phase = .handling h (.subscribing subType logFilter id))
      (hsending : c.sending = none) (hfresh : subscriptionId ∉ c.issued) :
      ConnectionMove c (.register subscriptionId) { c with
        phase := .handling h (.registered subscriptionId id)
        subs := insertSubscription c.subs
          { subscriptionId := subscriptionId, subType := subType, logFilter := logFilter }
        issued := subscriptionId :: c.issued }
  | count {h : Handling} {subscriptionId : String} {id : Value}
      (hphase : c.phase = .handling h (.registered subscriptionId id)) :
      ConnectionMove c .count (c.moveTo (.handling (h.push (.subscribed subscriptionId id)) .next))
  | remove {h : Handling} {subscriptionId : String} {id : Value}
      (hphase : c.phase = .handling h (.unsubscribing subscriptionId id))
      (hsending : c.sending = none) (hfound : (removeSubscription c.subs subscriptionId).2 = true) :
      ConnectionMove c .remove { c with
        phase := .handling h (.removed subscriptionId id)
        subs := (removeSubscription c.subs subscriptionId).1 }
  | removeNone {h : Handling} {subscriptionId : String} {id : Value}
      (hphase : c.phase = .handling h (.unsubscribing subscriptionId id))
      (hsending : c.sending = none)
      (hfound : (removeSubscription c.subs subscriptionId).2 = false) :
      ConnectionMove c .remove
        (c.moveTo (.handling (h.push (.unsubscribed subscriptionId false id)) .next))
  | uncount {h : Handling} {subscriptionId : String} {id : Value}
      (hphase : c.phase = .handling h (.removed subscriptionId id)) :
      ConnectionMove c .uncount
        (c.moveTo (.handling (h.push (.unsubscribed subscriptionId true id)) .next))
  | answer {h : Handling} {req : JsonRpcRequest} {resp : JsonRpcResponse}
      (hphase : c.phase = .handling h (.calling req)) :
      ConnectionMove c (.answer resp) (c.moveTo (.handling (h.push (.called resp)) .next))
  | reply {h : Handling} (hphase : c.phase = .handling h .next) (hremaining : h.remaining = []) :
      ConnectionMove c .reply ((c.send h.outgoing).moveTo .reading)
  | disconnect (hphase : c.phase = .reading) : ConnectionMove c .disconnect (c.moveTo .leaving)
  | lock {order : List ClientSubscription} (hphase : c.phase = .leaving)
      (hsending : c.sending = none) (horder : order.Perm c.subs) :
      ConnectionMove c (.lock order) (c.moveTo (.retaining order []))
  | check {sub : ClientSubscription} {todo kept : List ClientSubscription}
      (hphase : c.phase = .retaining (sub :: todo) kept) :
      ConnectionMove c .check
        (c.moveTo (.retaining todo (if c.channelClosed then kept else kept ++ [sub])))
  | release {kept : List ClientSubscription} (hphase : c.phase = .retaining [] kept) :
      ConnectionMove c .release { c with
        phase := .subtracting (c.subs.length - kept.length)
        subs := kept }
  | subtract {removed : ℕ} (hphase : c.phase = .subtracting removed) :
      ConnectionMove c .subtract (c.moveTo .aborting)
  | abort (hphase : c.phase = .aborting) : ConnectionMove c .abort (c.moveTo .closed)
  | dispatch {event : BlockEvent} {order : List ClientSubscription}
      {dispatch : List ClientSubscription → List Notices} (hsending : c.sending = none)
      (hadmits : c.phase.admitsDispatch = true) (horder : order.Perm c.subs)
      (hevent : handleEvent toLowercase (app.chains chain).chainId event = some dispatch) :
      ConnectionMove c (.dispatch event order) { c with sending := some (dispatch order) }
  | ignore {event : BlockEvent} {order : List ClientSubscription} :
      ConnectionMove c (.dispatch event order) c
  | skip {n : Notices} {rest : List Notices} (hsending : c.sending = some (n :: rest))
      (hskip : n.2 = [] ∨ c.channelClosed = true) :
      ConnectionMove c .notify { c with sending := some rest }
  | notify {subscriptionId : String} {result : Value} {results : List Value} {rest : List Notices}
      (hsending : c.sending = some ((subscriptionId, result :: results) :: rest))
      (hopen : c.channelClosed = false) :
      ConnectionMove c .notify { c with
        out := c.out ++ [.notification subscriptionId result]
        sending := some ((subscriptionId, results) :: rest) }
  | unlock (hsending : c.sending = some []) : ConnectionMove c .unlock { c with sending := none }
  | forward : ConnectionMove c .forward { c with forwarded := c.forwarded + 1 }
  | writeFails : ConnectionMove c .writeFails { c with channelClosed := true }
  | dropReceiver (hphase : c.phase = .closed) :
      ConnectionMove c .dropReceiver { c with channelClosed := true }

variable {serde toLowercase app chain} {c d : Connection} {a : ConnectionAction Text}

/-- The two things a dispatch can do next, by whether it has something left for the subscription it
is at. -/
theorem connectionMove_notify (h : c.notify = some d) :
    ConnectionMove serde toLowercase app chain c .notify d := by
  unfold Connection.notify at h
  split at h
  · rename_i hsending
    cases h
    exact .skip hsending (.inl rfl)
  · rename_i hsending
    split at h
    · rename_i hclosed
      cases h
      exact .skip hsending (.inr hclosed)
    · rename_i hopen
      rw [Bool.not_eq_true] at hopen
      cases h
      rw [c.send_of_open _ hopen]
      exact .notify hsending hopen
  · cases h

/-- **A step of the connection is one of `ConnectionMove`.** Proofs about steps split on this and
never unfold `connectionStep`. -/
theorem connectionMove (h : connectionStep serde toLowercase app chain c a = some d) :
    ConnectionMove serde toLowercase app chain c a d := by
  cases a with
  | message text =>
    simp only [connectionStep] at h
    split at h
    · rename_i hphase
      cases h
      exact .message hphase
    · cases h
  | route =>
    simp only [connectionStep] at h
    split at h
    · rename_i handling hphase
      split at h
      · rename_i hremaining
        cases h
        exact .begin hphase hremaining
      · cases h
    · cases h
  | register subscriptionId =>
    simp only [connectionStep] at h
    split at h
    · rename_i hphase hsending
      rw [Option.ite_none_left_eq_some] at h
      obtain ⟨hfresh, h⟩ := h
      cases h
      exact .register hphase hsending hfresh
    · cases h
  | count =>
    simp only [connectionStep] at h
    split at h
    · rename_i hphase
      cases h
      exact .count hphase
    · cases h
  | remove =>
    simp only [connectionStep] at h
    split at h
    · rename_i hphase hsending
      split at h
      · rename_i hfound
        cases h
        exact .remove hphase hsending hfound
      · rename_i hfound
        rw [Bool.not_eq_true] at hfound
        cases h
        rw [removeSubscription_of_not_found hfound]
        exact .removeNone hphase hsending hfound
    · cases h
  | uncount =>
    simp only [connectionStep] at h
    split at h
    · rename_i hphase
      cases h
      exact .uncount hphase
    · cases h
  | answer resp =>
    simp only [connectionStep] at h
    split at h
    · rename_i hphase
      cases h
      exact .answer hphase
    · cases h
  | reply =>
    simp only [connectionStep] at h
    split at h
    · rename_i hphase
      split at h
      · rename_i hremaining
        cases h
        exact .reply hphase hremaining
      · cases h
    · cases h
  | disconnect =>
    simp only [connectionStep] at h
    split at h
    · rename_i hphase
      cases h
      exact .disconnect hphase
    · cases h
  | lock order =>
    simp only [connectionStep] at h
    split at h
    · rename_i hphase hsending
      rw [Option.ite_none_right_eq_some] at h
      obtain ⟨horder, h⟩ := h
      cases h
      exact .lock hphase hsending horder
    · cases h
  | check =>
    simp only [connectionStep] at h
    split at h
    · rename_i hphase
      cases h
      exact .check hphase
    · cases h
  | release =>
    simp only [connectionStep] at h
    split at h
    · rename_i hphase
      cases h
      exact .release hphase
    · cases h
  | subtract =>
    simp only [connectionStep] at h
    split at h
    · rename_i hphase
      cases h
      exact .subtract hphase
    · cases h
  | abort =>
    simp only [connectionStep] at h
    split at h
    · rename_i hphase
      cases h
      exact .abort hphase
    · cases h
  | dispatch event order =>
    simp only [connectionStep] at h
    split at h
    · rename_i hsending
      rw [Option.ite_none_right_eq_some] at h
      obtain ⟨⟨hadmits, horder⟩, h⟩ := h
      split at h
      · rename_i hevent
        cases h
        exact .dispatch hsending hadmits horder hevent
      · cases h
        exact .ignore
    · cases h
  | notify => exact connectionMove_notify h
  | unlock =>
    simp only [connectionStep] at h
    split at h
    · rename_i hsending
      cases h
      exact .unlock hsending
    · cases h
  | forward =>
    simp only [connectionStep, Option.ite_none_right_eq_some] at h
    obtain ⟨-, h⟩ := h
    cases h
    exact .forward
  | writeFails =>
    simp only [connectionStep, Option.ite_none_right_eq_some] at h
    obtain ⟨-, h⟩ := h
    cases h
    exact .writeFails
  | dropReceiver =>
    simp only [connectionStep] at h
    split at h
    · rename_i hphase
      cases h
      exact .dropReceiver hphase
    · cases h

/-! ### A client -/

/-- One chain, with id 1, and nothing blocked. -/
def localApp : AppConfig Unit where
  chains := fun _ => { chainId := 1, finalityDepth := 64 }
  cache := ⟨[]⟩
  blockedMethods := []
  maxBatchSize := 100
  debugClient := .off

/-- A client asks for the new heads of the chain. -/
def newHeadsRequest : Value :=
  .object [("jsonrpc", .string "2.0"), ("id", .ofU64 1), ("method", .string "eth_subscribe"),
    ("params", .array [.string "newHeads"])]

/-- A client asks for something that only an upstream can answer. -/
def gasPriceRequest : Value :=
  .object [("jsonrpc", .string "2.0"), ("id", .ofU64 2), ("method", .string "eth_gasPrice"),
    ("params", .array [])]

end Poolbeg
