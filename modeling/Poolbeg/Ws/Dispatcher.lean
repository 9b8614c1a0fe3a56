import Poolbeg.Broadcast
import Poolbeg.Ws.Delivery

/-!
# The dispatcher of a connection

`SubscriptionManager::run`. The block tracker and the subscriber of a chain send their events on one
broadcast channel, which holds 1024; every connection has a receiver of its own, that begins with
what is sent after the connection was opened. The dispatcher takes one event after the other and
hands it to `handle_event`. If it is too slow the channel overwrites events, and the dispatcher
only logs how many it has missed.

The channel itself comes from outside of the program. It is a parameter, and what the dispatcher
makes of it rests on what its documentation promises (`Broadcast.Documented`).

A subscription is sent what it is owed for the events that the dispatcher is done with since its
entry. The first of them may have been taken before: the event that was being handled at that time.
All others are taken afterwards, in the order in which they were sent on the channel. Whether they
are all that was sent is a matter of the backlog alone, and a dispatcher that keeps up leaves out
nothing.

Two things are recorded that the program does not keep: which events were taken and how many were
missed.

## Main definitions

* `Dispatcher`, `DispatcherAction`, `dispatcherStep`
* `KeepsUp` — the receiver is never further behind than the channel holds

## Main results

* `exists_manager_run` — the manager in a run of the dispatcher
* `subscription_stream` — what a subscription is sent, with the events it is sent it for
* `subscription_complete` — the same for a dispatcher that keeps up
-/

namespace Poolbeg

open Lts Broadcast

/-- The capacity of the event channel of a chain. Positions are only ever compared with it. -/
@[irreducible] def eventCapacity : ℕ := 1024

/-- A dispatcher: what is shared of the event channel, its receiver, the event that is being
handled, and the manager it is for. -/
structure Dispatcher (channel : Broadcast.Channel BlockEvent) where
  events : channel.Shared
  eventRx : channel.Receiver
  handling : Option BlockEvent
  stopped : Bool
  manager : SubscriptionManager
  taken : List BlockEvent
  missed : ℕ

variable {channel : Broadcast.Channel BlockEvent}

/-- The connection is opened: `subscribe_events` and `SubscriptionManager::new`. -/
def Dispatcher.new (events : channel.Shared) : Dispatcher channel where
  events := events
  eventRx := channel.subscribe events
  handling := none
  stopped := false
  manager := .new
  taken := []
  missed := 0

/-- The chain sends an event, or is dropped; the loop receives and handles; the read loop enters and
removes subscriptions, and aborts the dispatcher in the end. -/
inductive DispatcherAction
  | emit (event : BlockEvent)
  | close
  | recv
  | handle (order : List ClientSubscription)
  | subscribe (sub : ClientSubscription)
  | unsubscribe (subscriptionId : String)
  | abort

variable (toLowercase : String → String) (chainId : ℕ)

/-- `event_rx.recv()` in the loop of `run`. -/
def Dispatcher.recv (d : Dispatcher channel) : Option (Dispatcher channel) :=
  match channel.recv d.events d.eventRx with
  | (.message event, eventRx) =>
    some { d with eventRx := eventRx, handling := some event, taken := d.taken ++ [event] }
  | (.lagged skipped, eventRx) => some { d with eventRx := eventRx, missed := d.missed + skipped }
  | (.closed, _) => some { d with stopped := true }
  | (.pending, _) => none

def dispatcherStep (d : Dispatcher channel) : DispatcherAction → Option (Dispatcher channel)
  | .emit event =>
    if channel.isOpen d.events then some { d with events := channel.send d.events event } else none
  | .close => some { d with events := channel.close d.events }
  | .recv => if d.stopped ∨ d.handling.isSome then none else d.recv
  | .handle order =>
    if d.stopped then none
    else
      d.handling.bind fun event =>
        (managerStep toLowercase chainId d.manager (.handleEvent event order)).map fun manager =>
          { d with handling := none, manager := manager }
  | .subscribe sub =>
    (managerStep toLowercase chainId d.manager (.subscribe sub)).map fun manager =>
      { d with manager := manager }
  | .unsubscribe subscriptionId =>
    (managerStep toLowercase chainId d.manager (.unsubscribe subscriptionId)).map fun manager =>
      { d with manager := manager }
  | .abort => some { d with stopped := true }

/-- The steps of a dispatcher with what enables them and what they lead to. A `recv` that finds
nothing is not a step. -/
inductive DispatcherMove (d : Dispatcher channel) : DispatcherAction → Dispatcher channel → Prop
  | emit {event : BlockEvent} (hopen : channel.isOpen d.events = true) :
      DispatcherMove d (.emit event) { d with events := channel.send d.events event }
  | close : DispatcherMove d .close { d with events := channel.close d.events }
  | take {event : BlockEvent} {eventRx : channel.Receiver} (hidle : d.handling = none)
      (hrecv : channel.recv d.events d.eventRx = (.message event, eventRx)) :
      DispatcherMove d .recv
        { d with eventRx := eventRx, handling := some event, taken := d.taken ++ [event] }
  | lag {skipped : ℕ} {eventRx : channel.Receiver} (hidle : d.handling = none)
      (hrecv : channel.recv d.events d.eventRx = (.lagged skipped, eventRx)) :
      DispatcherMove d .recv { d with eventRx := eventRx, missed := d.missed + skipped }
  | finish {eventRx : channel.Receiver} (hidle : d.handling = none)
      (hrecv : channel.recv d.events d.eventRx = (.closed, eventRx)) :
      DispatcherMove d .recv { d with stopped := true }
  | handle {event : BlockEvent} {order : List ClientSubscription} {manager : SubscriptionManager}
      (hhandling : d.handling = some event)
      (hmanager : managerStep toLowercase chainId d.manager (.handleEvent event order) =
        some manager) :
      DispatcherMove d (.handle order) { d with handling := none, manager := manager }
  | subscribe {sub : ClientSubscription} {manager : SubscriptionManager}
      (hmanager : managerStep toLowercase chainId d.manager (.subscribe sub) = some manager) :
      DispatcherMove d (.subscribe sub) { d with manager := manager }
  | unsubscribe {subscriptionId : String} {manager : SubscriptionManager}
      (hmanager : managerStep toLowercase chainId d.manager (.unsubscribe subscriptionId) =
        some manager) :
      DispatcherMove d (.unsubscribe subscriptionId) { d with manager := manager }
  | abort : DispatcherMove d .abort { d with stopped := true }

variable {toLowercase chainId} {d d' : Dispatcher channel} {a : DispatcherAction}

theorem recvMove (hidle : d.handling = none) (h : d.recv = some d') :
    DispatcherMove toLowercase chainId d .recv d' := by
  rw [Dispatcher.recv] at h
  generalize hrecv : channel.recv d.events d.eventRx = result at h
  obtain ⟨received, eventRx⟩ := result
  cases received with
  | message event =>
    obtain rfl := Option.some.inj h
    exact .take hidle hrecv
  | lagged skipped =>
    obtain rfl := Option.some.inj h
    exact .lag hidle hrecv
  | closed =>
    obtain rfl := Option.some.inj h
    exact .finish hidle hrecv
  | pending => cases h

theorem dispatcherMove (h : dispatcherStep toLowercase chainId d a = some d') :
    DispatcherMove toLowercase chainId d a d' := by
  cases a with
  | emit event =>
    rw [dispatcherStep, Option.ite_none_right_eq_some] at h
    obtain ⟨hopen, h⟩ := h
    cases h
    exact .emit hopen
  | close =>
    cases h
    exact .close
  | recv =>
    rw [dispatcherStep, Option.ite_none_left_eq_some, not_or, Option.not_isSome_iff_eq_none] at h
    obtain ⟨⟨-, hidle⟩, h⟩ := h
    exact recvMove hidle h
  | handle order =>
    rw [dispatcherStep, Option.ite_none_left_eq_some] at h
    obtain ⟨event, hhandling, h⟩ := Option.bind_eq_some_iff.mp h.2
    obtain ⟨manager, hmanager, rfl⟩ := Option.map_eq_some_iff.mp h
    exact .handle hhandling hmanager
  | subscribe sub =>
    rw [dispatcherStep] at h
    obtain ⟨manager, hmanager, rfl⟩ := Option.map_eq_some_iff.mp h
    exact .subscribe hmanager
  | unsubscribe subscriptionId =>
    rw [dispatcherStep] at h
    obtain ⟨manager, hmanager, rfl⟩ := Option.map_eq_some_iff.mp h
    exact .unsubscribe hmanager
  | abort =>
    cases h
    exact .abort

/-! ### The manager in a run -/

/-- What a step of the dispatcher does with the manager. -/
def managerActions (d : Dispatcher channel) : DispatcherAction → List ManagerAction
  | .handle order => d.handling.toList.map fun event => .handleEvent event order
  | .subscribe sub => [.subscribe sub]
  | .unsubscribe subscriptionId => [.unsubscribe subscriptionId]
  | _ => []

theorem managerActions_step (h : dispatcherStep toLowercase chainId d a = some d') :
    run (managerStep toLowercase chainId) d.manager (managerActions d a) = some d'.manager := by
  cases dispatcherMove h with
  | handle hhandling hmanager =>
    simp only [managerActions, hhandling, Option.toList_some, List.map_cons, List.map_nil]
    exact (run_cons_of_step hmanager []).trans rfl
  | subscribe hmanager | unsubscribe hmanager => exact (run_cons_of_step hmanager []).trans rfl
  | emit | close | take | lag | finish | abort => rfl

/-- **What a dispatcher does with its manager is a run of the manager.** -/
theorem exists_manager_run {as : List DispatcherAction}
    (h : run (dispatcherStep toLowercase chainId) d as = some d') :
    run (managerStep toLowercase chainId) d.manager
      (gather (dispatcherStep toLowercase chainId) managerActions d as) = some d'.manager :=
  run_gather (fun _ _ _ => managerActions_step) h

/-- What a step takes, and what it handles. -/
theorem taken_step (h : dispatcherStep toLowercase chainId d a = some d') :
    ∃ new, d'.taken = d.taken ++ new ∧ d.handling.toList ++ new =
      (managerActions d a).filterMap ManagerAction.event ++ d'.handling.toList := by
  cases dispatcherMove h with
  | @take event next hidle hrecv =>
    refine ⟨[event], rfl, ?_⟩
    rw [hidle]
    rfl
  | handle hhandling hmanager =>
    refine ⟨[], (List.append_nil _).symm, ?_⟩
    rw [managerActions, hhandling]
    rfl
  | emit | close | lag | finish | subscribe | unsubscribe | abort =>
    exact ⟨[], (List.append_nil _).symm, List.append_nil _⟩

/-- The events that are handled in a run are those that are taken, in the same order, but for the
one that is being handled. -/
theorem taken_run {as : List DispatcherAction}
    (h : run (dispatcherStep toLowercase chainId) d as = some d') :
    ∃ new, d'.taken = d.taken ++ new ∧ d.handling.toList ++ new =
      (gather (dispatcherStep toLowercase chainId) managerActions d as).filterMap
        ManagerAction.event ++ d'.handling.toList := by
  induction as generalizing d with
  | nil =>
    obtain rfl := Option.some.inj h
    exact ⟨[], (List.append_nil _).symm, List.append_nil _⟩
  | cons a as ih =>
    obtain ⟨u, hu, hrest⟩ := run_cons_eq_some.mp h
    obtain ⟨first, htaken, hfirst⟩ := taken_step hu
    obtain ⟨rest, htaken', hrest'⟩ := ih hrest
    refine ⟨first ++ rest, ?_, ?_⟩
    · rw [htaken', htaken, List.append_assoc]
    · rw [← List.append_assoc, hfirst, List.append_assoc, hrest', ← List.append_assoc,
        gather, hu, Option.map_some, Option.getD_some, List.filterMap_append]

/-! ### The receiver in a run -/

/-- What the dispatcher took and missed since it was in the state `u`, by its receiver. -/
def Dispatcher.Reading (law : Documented channel eventCapacity) (u d : Dispatcher channel) : Prop :=
  ∃ new missed, d.taken = u.taken ++ new ∧ d.missed = u.missed + missed ∧
    Reads eventCapacity (law.sent d.events) (law.position u.eventRx) (law.position d.eventRx) new
      missed

variable {law : Documented channel eventCapacity} {u : Dispatcher channel}

theorem reading_self (hle : law.position u.eventRx ≤ (law.sent u.events).length) :
    u.Reading law u :=
  ⟨[], 0, (List.append_nil _).symm, rfl, .start hle⟩

variable (law) in
theorem reading_new (events : channel.Shared) :
    (Dispatcher.new events).Reading law (.new events) :=
  reading_self (law.position_subscribe events).le

theorem reading_step (hd : u.Reading law d)
    (h : dispatcherStep toLowercase chainId d a = some d') : u.Reading law d' := by
  obtain ⟨new, missed, htaken, hmissed, hreads⟩ := hd
  cases dispatcherMove h with
  | @emit event hopen =>
    refine ⟨new, missed, htaken, hmissed, ?_⟩
    rw [law.sent_send]
    exact hreads.send event
  | close =>
    refine ⟨new, missed, htaken, hmissed, ?_⟩
    rw [law.sent_close]
    exact hreads
  | @take event eventRx hidle hrecv =>
    obtain ⟨hheld, hevent, hposition⟩ := law.recv_message hrecv
    refine ⟨new ++ [event], missed, ?_, hmissed, ?_⟩
    · rw [htaken, List.append_assoc]
    · rw [hposition]
      exact hreads.message hheld hevent
  | @lag skipped eventRx hidle hrecv =>
    obtain ⟨-, hposition, hskipped⟩ := law.recv_lagged hrecv
    refine ⟨new, missed + skipped, htaken, ?_, hreads.lagged hposition hskipped⟩
    rw [hmissed, Nat.add_assoc]
  | finish | handle | subscribe | unsubscribe | abort =>
    exact ⟨new, missed, htaken, hmissed, hreads⟩

theorem reading_run {as : List DispatcherAction} (hu : u.Reading law d)
    (h : run (dispatcherStep toLowercase chainId) d as = some d') : u.Reading law d' :=
  run_inv (fun _ _ _ hd h => reading_step hd h) hu h

variable (law) in
/-- From any state that a run reaches the receiver goes on as one that begins there. -/
theorem reading_between {events : channel.Shared} {pre post : List DispatcherAction}
    (hpre : run (dispatcherStep toLowercase chainId) (.new events) pre = some u)
    (hpost : run (dispatcherStep toLowercase chainId) u post = some d) : u.Reading law d := by
  obtain ⟨_, _, _, _, hreads⟩ := reading_run (reading_new law events) hpre
  exact reading_run (reading_self hreads.le_length) hpost

theorem tidy_run {events : channel.Shared} {as : List DispatcherAction}
    (h : run (dispatcherStep toLowercase chainId) (.new events) as = some d) : d.manager.Tidy :=
  SubscriptionManager.tidy_new.run (exists_manager_run h)

/-! ### What a subscription is sent -/

/-- A step that does not remove the subscription makes the manager do nothing that does. -/
theorem notMem_managerActions {subscriptionId : String} {as : List DispatcherAction}
    (h : .unsubscribe subscriptionId ∉ as) :
    .unsubscribe subscriptionId ∉
      gather (dispatcherStep toLowercase chainId) managerActions d as := by
  intro hmem
  obtain ⟨pre, b, post, u, rfl, -, hb⟩ := once_of_mem_gather hmem
  refine h (List.mem_append_right pre ?_)
  cases b with
  | unsubscribe other =>
    obtain rfl : subscriptionId = other := by simpa [managerActions] using hb
    exact List.mem_cons_self
  | handle order =>
    rw [managerActions, List.mem_map] at hb
    obtain ⟨event, -, heq⟩ := hb
    cases heq
  | subscribe sub => simp [managerActions] at hb
  | emit | close | recv | abort => cases hb

/-- What a subscription is sent, by the events that are handled after its entry. -/
theorem sent_since_entry {events : channel.Shared} {pre post : List DispatcherAction}
    {sub : ClientSubscription}
    (hentry : run (dispatcherStep toLowercase chainId) (.new events) pre = some u)
    (hrun : run (dispatcherStep toLowercase chainId) u (.subscribe sub :: post) = some d)
    (hkept : .unsubscribe sub.subscriptionId ∉ post) :
    notificationsFor sub.subscriptionId d.manager.sent =
      ((gather (dispatcherStep toLowercase chainId) managerActions u
        (.subscribe sub :: post)).filterMap ManagerAction.event).flatMap
          (sub.notifications toLowercase chainId) := by
  obtain ⟨v, hv, hpost⟩ := run_cons_eq_some.mp hrun
  have htidy := tidy_run hentry
  cases dispatcherMove hv with
  | @subscribe _ manager hmanager =>
    have hnew := hmanager
    rw [managerStep, Option.ite_none_left_eq_some] at hnew
    obtain ⟨hfresh, hnew⟩ := hnew
    have hentered : sub ∈ manager.subscriptions := by
      rw [← Option.some.inj hnew, insertSubscription_of_fresh (htidy.notMem hfresh)]
      exact List.mem_append_right _ (List.mem_singleton_self _)
    have hunsent : notificationsFor sub.subscriptionId manager.sent = [] := by
      rw [← Option.some.inj hnew]
      exact htidy.unsent _ hfresh
    have hsent := notificationsFor_run (htidy.step hmanager) hentered
      (notMem_managerActions hkept) (exists_manager_run hpost)
    rw [hsent, hunsent, List.nil_append, gather, hv, Option.map_some, Option.getD_some]
    rfl

/-- **What a subscription is sent.** Let the dispatcher be in the state `u` when the subscription is
entered, and in the state `d` some time later, without the subscription having been removed. With
`new` the events that were taken in between and `since` those that the dispatcher is done with,
which are the one it was handling in `u` and all new ones but for the one it is handling in `d`, the
subscription was sent what it is owed for the events in `since`, one after the other, and nothing
else.

The new events were taken in the order in which they were sent on the channel, none of them twice;
every event that was passed was taken or counted as missed; and the last 1024 events are never among
the missed ones. -/
theorem subscription_stream (law : Documented channel eventCapacity) {events : channel.Shared}
    {pre post : List DispatcherAction} {sub : ClientSubscription}
    (hentry : run (dispatcherStep toLowercase chainId) (.new events) pre = some u)
    (hrun : run (dispatcherStep toLowercase chainId) u (.subscribe sub :: post) = some d)
    (hkept : .unsubscribe sub.subscriptionId ∉ post) :
    ∃ new since, d.taken = u.taken ++ new ∧
      u.handling.toList ++ new = since ++ d.handling.toList ∧
      notificationsFor sub.subscriptionId d.manager.sent =
        since.flatMap (sub.notifications toLowercase chainId) ∧
      Reads eventCapacity (law.sent d.events) (law.position u.eventRx) (law.position d.eventRx) new
        (d.missed - u.missed) := by
  obtain ⟨new, missed, htaken, hmissed, hreads⟩ := reading_between law hentry hrun
  obtain ⟨new', htaken', hhandled⟩ := taken_run hrun
  obtain rfl : new = new' := List.append_cancel_left (htaken.symm.trans htaken')
  refine ⟨new, _, htaken, hhandled, sent_since_entry hentry hrun hkept, ?_⟩
  rwa [hmissed, Nat.add_sub_cancel_left]

/-- A subscription to new heads. -/
def headSubscription : ClientSubscription where
  subscriptionId := "0x1"
  subType := .newHeads
  logFilter := none

/-- A ring on which nothing was sent. -/
def emptyRing : (RingBuffer.channel BlockEvent eventCapacity).Shared := RingBuffer.mk [] true

/-- A block of the chain, one of another chain, and one more of the chain. -/
def headEvents : List BlockEvent :=
  [.newBlock 1 7 "0xab" (.string "seventh"), .newBlock 2 9 "0xcd" (.string "other"),
    .newBlock 1 8 "0xef" (.string "eighth")]

/-- Each is sent, taken and handled. -/
def twoHeads : List DispatcherAction :=
  headEvents.flatMap fun event => [.emit event, .recv, .handle [headSubscription]]

theorem twoHeads_run :
    ∃ d, run (dispatcherStep id 1) (.new emptyRing) (.subscribe headSubscription :: twoHeads) =
        some d ∧ d.taken = headEvents ∧ d.handling = none := by
  simp [twoHeads, headEvents, run_cons, dispatcherStep, Dispatcher.recv, Dispatcher.new, emptyRing,
    RingBuffer.channel, RingBuffer.recv, eventCapacity, managerStep, SubscriptionManager.new,
    insertSubscription]

/-- The two heads of the chain are sent, and nothing for the other chain. -/
theorem twoHeads_stream :
    ∃ d, run (dispatcherStep id 1) (.new emptyRing) (.subscribe headSubscription :: twoHeads) =
        some d ∧
      notificationsFor "0x1" d.manager.sent =
        [.notification "0x1" (.string "seventh"), .notification "0x1" (.string "eighth")] := by
  obtain ⟨d, hrun, htaken, hidle⟩ := twoHeads_run
  have hentry : run (dispatcherStep id 1) (.new emptyRing) [] = some (.new emptyRing) := rfl
  obtain ⟨new, since, hnew, hsince, hsent, -⟩ :=
    subscription_stream (RingBuffer.documented BlockEvent eventCapacity) hentry hrun
      (by simp [twoHeads, headEvents])
  refine ⟨d, hrun, ?_⟩
  obtain rfl : headEvents = new := htaken.symm.trans hnew
  rw [hidle, Option.toList_none, List.append_nil] at hsince
  obtain rfl : headEvents = since := hsince
  exact hsent.trans rfl

/-! ### Nothing is missed -/

/-- The receiver is not more than the capacity of the channel behind when the loop comes to it. -/
def KeepsUp (law : Documented channel eventCapacity) (d : Dispatcher channel) :
    DispatcherAction → Prop
  | .recv => (law.sent d.events).length ≤ law.position d.eventRx + eventCapacity
  | _ => True

/-- A dispatcher that keeps up is never told that it has missed anything. -/
theorem missed_run {as : List DispatcherAction}
    (hkeeps : Along (dispatcherStep toLowercase chainId) (KeepsUp law) u as)
    (h : run (dispatcherStep toLowercase chainId) u as = some d) : d.missed = u.missed := by
  refine run_inv_along (I := fun d => d.missed = u.missed) (fun s a t hs hC ht => ?_) rfl hkeeps h
  cases dispatcherMove ht with
  | lag hidle hrecv => exact absurd hC (not_le.mpr (law.recv_lagged hrecv).1)
  | emit | close | take | finish | handle | subscribe | unsubscribe | abort => exact hs

/-- **A dispatcher that keeps up leaves out nothing.** If at most 1024 events are waiting whenever
it comes to receive, a subscription has been sent what it is owed for the event that was being
handled at its entry, if one was, and for every event on the channel from there to where the
receiver is now, but for the one that is being handled now. Once the dispatcher is idle and nothing
is waiting for it, these are all events that were sent on the channel after the entry. -/
theorem subscription_complete (law : Documented channel eventCapacity) {events : channel.Shared}
    {pre post : List DispatcherAction} {sub : ClientSubscription}
    (hentry : run (dispatcherStep toLowercase chainId) (.new events) pre = some u)
    (hrun : run (dispatcherStep toLowercase chainId) u (.subscribe sub :: post) = some d)
    (hkept : .unsubscribe sub.subscriptionId ∉ post)
    (hkeeps : Along (dispatcherStep toLowercase chainId) (KeepsUp law) u (.subscribe sub :: post)) :
    ∃ since, since ++ d.handling.toList = u.handling.toList ++
        ((law.sent d.events).take (law.position d.eventRx)).drop (law.position u.eventRx) ∧
      notificationsFor sub.subscriptionId d.manager.sent =
        since.flatMap (sub.notifications toLowercase chainId) := by
  obtain ⟨new, missed, htaken, hmissed, hreads⟩ := reading_between law hentry hrun
  obtain ⟨new', htaken', hhandled⟩ := taken_run hrun
  obtain rfl : new = new' := List.append_cancel_left (htaken.symm.trans htaken')
  obtain rfl : missed = 0 := by
    have heq := missed_run hkeeps hrun
    omega
  refine ⟨_, ?_, sent_since_entry hentry hrun hkept⟩
  rw [← hhandled, ← hreads.got_of_unmissed]

/-- A block is taken before the subscription is entered. -/
def headTaken : List DispatcherAction :=
  [.emit (.newBlock 1 7 "0xab" (.string "seventh")), .recv]

/-- It is handled afterwards, and the next one comes. -/
def headHandled : List DispatcherAction :=
  [.handle [headSubscription], .emit (.newBlock 1 8 "0xef" (.string "eighth")), .recv,
    .handle [headSubscription]]

theorem headTaken_run :
    ∃ u d, run (dispatcherStep id 1) (.new emptyRing) headTaken = some u ∧
      run (dispatcherStep id 1) u (.subscribe headSubscription :: headHandled) = some d ∧
      Along (dispatcherStep id 1) (KeepsUp (RingBuffer.documented BlockEvent eventCapacity)) u
        (.subscribe headSubscription :: headHandled) ∧
      u.handling.toList ++ (((RingBuffer.documented BlockEvent eventCapacity).sent d.events).take
          ((RingBuffer.documented BlockEvent eventCapacity).position d.eventRx)).drop
          ((RingBuffer.documented BlockEvent eventCapacity).position u.eventRx) =
        [.newBlock 1 7 "0xab" (.string "seventh"), .newBlock 1 8 "0xef" (.string "eighth")] ∧
      d.handling = none := by
  simp [headTaken, headHandled, run_cons, dispatcherStep, Dispatcher.recv, Dispatcher.new,
    emptyRing, RingBuffer.channel, RingBuffer.documented, RingBuffer.recv, eventCapacity,
    managerStep, SubscriptionManager.new, insertSubscription, Along, KeepsUp]

/-- The subscription is sent both blocks. -/
theorem headTaken_complete :
    ∃ u d, run (dispatcherStep id 1) (.new emptyRing) headTaken = some u ∧
      run (dispatcherStep id 1) u (.subscribe headSubscription :: headHandled) = some d ∧
      notificationsFor "0x1" d.manager.sent =
        [.notification "0x1" (.string "seventh"), .notification "0x1" (.string "eighth")] := by
  obtain ⟨u, d, hentry, hrun, hkeeps, hevents, hidle⟩ := headTaken_run
  obtain ⟨since, hsince, hsent⟩ :=
    subscription_complete (RingBuffer.documented BlockEvent eventCapacity) hentry hrun
      (by simp [headHandled]) hkeeps
  refine ⟨u, d, hentry, hrun, ?_⟩
  rw [hidle, Option.toList_none, List.append_nil, hevents] at hsince
  obtain rfl := hsince
  exact hsent.trans rfl

end Poolbeg
