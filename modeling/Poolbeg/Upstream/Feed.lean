import Poolbeg.Sources
import Poolbeg.Upstream.TrackerTask
import Poolbeg.Upstream.WsSubscriber

/-!
# The two sources of heads

One chain has two tasks that follow its head, the block tracker and the WebSocket subscriber. They
share the event channel, the cell `latest_block_number` and the flag `ws_connected`, and nothing
else: each keeps the last number it has seen to itself, the subscriber even one for each session.

## What one step is

`feedStep` interleaves the steps of the two in any order. Each step is one of the tracker or of the
subscriber, and the accesses it makes happen at once, since the modules of the two tasks have split
them where anything shared is touched. A load of the flag sees what was stored last.

## What is remembered

The state remembers every access in `trace`, with the source it came from, so what a source has done
(`own`) and what has been announced and stored altogether are read off it. It also remembers the
heads that the sessions were notified of; the tracker keeps its polls itself. The program keeps none
of this. It is there so that a statement about a run can be one about the state at its end.

There is no order between the sources. The cell holds what was stored last, whichever of them stored
it, and this is where it may go back.

## Main definitions

* `Source`, `FeedState`, `FeedAction`, `feedStep`, `FeedMove` — the two tasks together
* `FeedState.announced`, `FeedState.stored` — the two logs
* `FeedState.announces`, `FeedState.stores` — what a step adds to them
* `FeedInv` — the invariants of the two, and what the cell holds

## Main results

* `feedInv_step` — every step keeps the invariant
* `announced_step`, `stored_step` — the logs grow by what the step adds
* `FeedInv.lt_of_announces`, `FeedInv.le_of_stores` — each source keeps its own order
-/

namespace Poolbeg

open BlockTracker WsSubscriber Lts

inductive Source
  | tracker
  | session (k : ℕ)
  deriving DecidableEq

/-- What the two tasks share, where each of them stands, all accesses so far, and the heads the
sessions were notified of, by the number of the session. -/
structure FeedState where
  wsConnected : Bool
  latestBlockNumber : ℕ
  tracker : TrackerTask
  subscriber : SubscriberTask
  trace : List (Source × Effect)
  notified : List (ℕ × Head)

/-- `ChainManager::new`, before the tasks start. -/
def FeedState.init : FeedState where
  wsConnected := false
  latestBlockNumber := 0
  tracker := .init
  subscriber := .init
  trace := []
  notified := []

inductive FeedAction
  | tracker (a : TrackerAction)
  | subscriber (a : SubscriberAction)

/-- The accesses of one step take place, in their order, and are entered into the trace. -/
def FeedState.perform (s : FeedState) (source : Source) (es : List Effect) : FeedState :=
  { s with
    wsConnected := (es.filterMap Effect.connected).getLastD s.wsConnected
    latestBlockNumber := (es.filterMap Effect.stored).getLastD s.latestBlockNumber
    trace := s.trace ++ es.map (source, ·) }

/-- What a step of the subscriber notifies the current session of. A head that is skipped is entered
as well. -/
def FeedState.notifies (s : FeedState) (a : SubscriberAction) : List (ℕ × Head) :=
  (s.subscriber.notifies a).toList.map (s.subscriber.session, ·)

/-- A step of the tracker, which may load the flag, or of the subscriber. -/
def feedStep (chainId : ℕ) (s : FeedState) : FeedAction → Option FeedState
  | .tracker a =>
    (trackerStep chainId s.wsConnected s.tracker a).map fun next =>
      { s.perform .tracker next.2 with tracker := next.1 }
  | .subscriber a =>
    (subscriberStep chainId s.subscriber a).map fun next =>
      { s.perform (.session next.1.session) next.2 with
        subscriber := next.1
        notified := s.notified ++ s.notifies a }

/-- What a step does: a step of one task, whose accesses take place. The other task stays where it
is. -/
inductive FeedMove (chainId : ℕ) (s : FeedState) : FeedAction → FeedState → Prop
  | tracker {a : TrackerAction} {t' : TrackerTask} {es : List Effect}
      (h : TrackerMove chainId s.wsConnected s.tracker a t' es) :
      FeedMove chainId s (.tracker a) { s.perform .tracker es with tracker := t' }
  | subscriber {a : SubscriberAction} {w' : SubscriberTask} {es : List Effect}
      (h : SubscriberMove chainId s.subscriber a w' es) :
      FeedMove chainId s (.subscriber a)
        { s.perform (.session w'.session) es with
          subscriber := w'
          notified := s.notified ++ s.notifies a }

variable {chainId : ℕ} {s t : FeedState} {a : FeedAction}

theorem feedMove (h : feedStep chainId s a = some t) : FeedMove chainId s a t := by
  cases a with
  | tracker a =>
    obtain ⟨⟨t', es⟩, hstep, rfl⟩ := Option.map_eq_some_iff.mp h
    exact .tracker (trackerMove hstep)
  | subscriber a =>
    obtain ⟨⟨w', es⟩, hstep, rfl⟩ := Option.map_eq_some_iff.mp h
    exact .subscriber (subscriberMove hstep)

/-! ### Reading the trace -/

section Trace

variable (s) (f : Effect → Option ℕ) (source : Source) (es : List Effect)

/-- What one source has done. -/
def FeedState.own : List Effect :=
  s.trace.filterMap fun x => if x.1 = source then some x.2 else none

/-- The numbers some kind of access carries, with their sources. -/
def FeedState.log : List (Source × ℕ) := s.trace.filterMap fun x => (f x.2).map (x.1, ·)

/-- The blocks announced on the event channel. -/
def FeedState.announced : List (Source × ℕ) := s.log Effect.announced

/-- The numbers stored to `latest_block_number`. -/
def FeedState.stored : List (Source × ℕ) := s.log Effect.stored

theorem FeedState.mem_log {n : ℕ} : (source, n) ∈ s.log f ↔ n ∈ (s.own source).filterMap f := by
  unfold FeedState.log FeedState.own
  induction s.trace with
  | nil => simp
  | cons x trace ih =>
    obtain ⟨source', e⟩ := x
    rw [List.filterMap_cons, List.filterMap_cons]
    by_cases hsource : source' = source
    · subst hsource
      cases hn : f e <;> simp [hn, ih]
    · have hne : source ≠ source' := Ne.symm hsource
      cases hn : f e <;> simp [hsource, hne, ih]

theorem FeedState.own_perform :
    (s.perform source es).own = Function.update s.own source (s.own source ++ es) := by
  funext source'
  rw [FeedState.own, FeedState.perform, List.filterMap_append, List.filterMap_map]
  by_cases h : source' = source
  · subst h
    rw [Function.update_self]
    simp [FeedState.own]
  · rw [Function.update_of_ne h]
    simp [FeedState.own, Ne.symm h]

theorem FeedState.log_perform :
    (s.perform source es).log f = s.log f ++ (es.filterMap f).map (source, ·) := by
  simp only [FeedState.log, FeedState.perform, List.filterMap_append, List.filterMap_map,
    List.map_filterMap]
  rfl

end Trace

/-! ### What a step announces and stores -/

/-- The block a step is about to announce, with its source. -/
def FeedState.announces (s : FeedState) : FeedAction → Option (Source × ℕ)
  | .tracker a => (s.tracker.announces a).map (.tracker, ·)
  | .subscriber a => (s.subscriber.announces a).map (.session s.subscriber.session, ·)

/-- The number a step is about to store, with its source. -/
def FeedState.stores (s : FeedState) : FeedAction → Option (Source × ℕ)
  | .tracker a => (s.tracker.stores a).map (.tracker, ·)
  | .subscriber a => (s.subscriber.stores a).map (.session s.subscriber.session, ·)

/-- A subscriber that does something is in its session already. -/
theorem session_of_mem {w w' : SubscriberTask} {a : SubscriberAction} {es : List Effect}
    {f : Effect → Option ℕ} (h : SubscriberMove chainId w a w' es) :
    (es.filterMap f).map (Source.session w'.session, ·) =
      (es.filterMap f).map (Source.session w.session, ·) := by
  cases h <;> rfl

theorem map_toList (source : Source) (o : Option ℕ) :
    o.toList.map (source, ·) = (o.map (source, ·)).toList := by
  cases o <;> rfl

/-- The log of announcements grows by what the step announces. -/
theorem announced_step (h : feedStep chainId s a = some t) :
    t.announced = s.announced ++ (s.announces a).toList := by
  rcases feedMove h with ⟨hmove⟩ | ⟨hmove⟩
  · rw [FeedState.announces, ← map_toList, ← hmove.announced]
    exact s.log_perform Effect.announced .tracker _
  · rw [FeedState.announces, ← map_toList, ← hmove.announced, ← session_of_mem hmove]
    exact s.log_perform Effect.announced _ _

/-- And the log of stores by what it stores. -/
theorem stored_step (h : feedStep chainId s a = some t) :
    t.stored = s.stored ++ (s.stores a).toList := by
  rcases feedMove h with ⟨hmove⟩ | ⟨hmove⟩
  · rw [FeedState.stores, ← map_toList, ← hmove.stored]
    exact s.log_perform Effect.stored .tracker _
  · rw [FeedState.stores, ← map_toList, ← hmove.stored, ← session_of_mem hmove]
    exact s.log_perform Effect.stored _ _

/-- The cell changes exactly when a step stores, and then it holds that number, whatever it held
before. -/
theorem latestBlockNumber_step (h : feedStep chainId s a = some t) :
    t.latestBlockNumber = (s.stores a).elim s.latestBlockNumber Prod.snd := by
  rcases feedMove h with ⟨hmove⟩ | ⟨hmove⟩
  · show (List.filterMap Effect.stored _).getLastD s.latestBlockNumber = _
    rw [hmove.stored, FeedState.stores]
    cases s.tracker.stores _ <;> rfl
  · show (List.filterMap Effect.stored _).getLastD s.latestBlockNumber = _
    rw [hmove.stored, FeedState.stores]
    cases s.subscriber.stores _ <;> rfl

/-! ### The invariant -/

/-- Each task keeps its own invariant, and the cell holds the last number stored. That is all that
ties the two together. -/
structure FeedInv (chainId : ℕ) (s : FeedState) : Prop where
  tracker : TrackerInv chainId s.tracker (s.own .tracker)
  subscriber : SubscriberInv s.subscriber fun k => s.own (.session k)
  latest : (s.stored = [] ∧ s.latestBlockNumber = 0) ∨
    ∃ pre source, s.stored = pre ++ [(source, s.latestBlockNumber)]

theorem feedInv_init : FeedInv chainId .init where
  tracker := trackerInv_init
  subscriber := ⟨fun _ _ => rfl, trivial⟩
  latest := .inl ⟨rfl, rfl⟩

theorem latest_step (hlatest : (s.stored = [] ∧ s.latestBlockNumber = 0) ∨
      ∃ pre source, s.stored = pre ++ [(source, s.latestBlockNumber)])
    (h : feedStep chainId s a = some t) : (t.stored = [] ∧ t.latestBlockNumber = 0) ∨
      ∃ pre source, t.stored = pre ++ [(source, t.latestBlockNumber)] := by
  rw [stored_step h, latestBlockNumber_step h]
  rcases s.stores a with _ | ⟨source, n⟩
  · rw [Option.toList_none, List.append_nil]
    exact hlatest
  · exact .inr ⟨s.stored, source, rfl⟩

theorem feedInv_step (hs : FeedInv chainId s) (h : feedStep chainId s a = some t) :
    FeedInv chainId t := by
  have hlatest := latest_step hs.latest h
  rcases feedMove h with @⟨a, t', es, hmove⟩ | @⟨a, w', es, hmove⟩
  · have hown := s.own_perform .tracker es
    refine ⟨?_, ?_, hlatest⟩
    · show TrackerInv chainId t' ((s.perform .tracker es).own .tracker)
      rw [hown, Function.update_self]
      exact hmove.inv hs.tracker
    · show SubscriberInv s.subscriber fun k => (s.perform .tracker es).own (.session k)
      rw [hown]
      exact hs.subscriber
  · have hown := s.own_perform (.session w'.session) es
    refine ⟨?_, ?_, hlatest⟩
    · show TrackerInv chainId s.tracker ((s.perform (.session w'.session) es).own .tracker)
      have htracker : Source.tracker ≠ .session w'.session := nofun
      rw [hown, Function.update_of_ne htracker]
      exact hs.tracker
    · show SubscriberInv w' ((s.perform (.session w'.session) es).own ∘ Source.session)
      rw [hown, Function.update_comp_eq_of_injective s.own fun _ _ => Source.session.inj]
      exact hmove.inv hs.subscriber

/-! ### The order within a source -/

/-- A source announces above everything it has announced itself. A session is one source, and the
next session is another. -/
theorem FeedInv.lt_of_announces (hs : FeedInv chainId s) {e : Source × ℕ}
    (he : s.announces a = some e) : ∀ x ∈ s.announced, x.1 = e.1 → x.2 < e.2 := by
  rintro ⟨source, m⟩ hx hsource
  replace hx := (s.mem_log Effect.announced source).mp hx
  cases a with
  | tracker a =>
    obtain ⟨n, hn, rfl⟩ := Option.map_eq_some_iff.mp he
    obtain rfl : source = .tracker := hsource
    exact hs.tracker.lt_announces hx hn
  | subscriber a =>
    obtain ⟨n, hn, rfl⟩ := Option.map_eq_some_iff.mp he
    obtain rfl : source = .session s.subscriber.session := hsource
    obtain ⟨e, he, hm⟩ := List.mem_filterMap.mp hx
    exact hs.subscriber.lt_announces he hm hn

/-- A source stores no less than anything it has stored itself. -/
theorem FeedInv.le_of_stores (hs : FeedInv chainId s) {e : Source × ℕ}
    (he : s.stores a = some e) : ∀ x ∈ s.stored, x.1 = e.1 → x.2 ≤ e.2 := by
  rintro ⟨source, m⟩ hx hsource
  replace hx := (s.mem_log Effect.stored source).mp hx
  cases a with
  | tracker a =>
    obtain ⟨n, hn, rfl⟩ := Option.map_eq_some_iff.mp he
    obtain rfl : source = .tracker := hsource
    exact (hs.tracker.lt_stores hx hn).le
  | subscriber a =>
    obtain ⟨n, hn, rfl⟩ := Option.map_eq_some_iff.mp he
    obtain rfl : source = .session s.subscriber.session := hsource
    obtain ⟨e, he, hm⟩ := List.mem_filterMap.mp hx
    exact (hs.subscriber.lt_stores he hm hn).le

end Poolbeg
