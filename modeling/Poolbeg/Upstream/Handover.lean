import Poolbeg.Upstream.Ordering

/-!
# The handover between the two sources

While `ws_connected` is set the tracker withholds its announcements and trusts the session to make
them. It looks at the flag once for each head and never comes back to it, so a head that the session
was not notified of, because the subscription began after it, or said nothing, or dropped, is not
announced by anyone.

## When the promise is looked at

The promise is about the states in which the flag is down and no poll is in progress: every head the
tracker accepted has been announced by then. While the flag is up, the session may still be about to
announce; while a poll is in progress, the tracker may. Such states are entered in two ways, by a
session that lowers the flag between polls, or by a poll that ends while the flag is down.

It is the withheld heads that the promise depends on (`always_handedOver_iff`): whenever such a
state is entered, a session must have announced them all. For the heads that were not withheld
nothing is asked; that the tracker announces them is proved. And in between nothing can be lost,
since a state of the promise is left only by raising the flag or by a new poll.

## Main definitions

* `FeedState.HandedOver` — the promise
* `HandsOver` — the steps that enter a state it is about
* `HandoverComplete` — what is asked of them

## Main results

* `FeedInv.handedOver_iff` — the promise in one state
* `handoverStep`, `stays_of_not_handsOver` — the steps that enter such states, and the others
* `always_handedOver_iff` — the promise along a run
-/

namespace Poolbeg

open BlockTracker WsSubscriber Lts

/-- With the flag down and no poll in progress, every head the tracker has accepted has been
announced. -/
def FeedState.HandedOver (s : FeedState) : Prop :=
  s.wsConnected = false → s.tracker.phase = .idle →
    ∀ n ∈ (s.own .tracker).filterMap Effect.accepted, ∃ source, (source, n) ∈ s.announced

/-- The step enters, or stays in, a state with the flag down and no poll in progress: the session
lowers the flag between polls, or a poll ends while the flag is down. A poll ends without its last
step when its head is ignored. -/
def HandsOver (s : FeedState) : FeedAction → Prop
  | .subscriber .clearConnected => s.tracker.phase = .idle
  | .tracker .store | .tracker .invalidated => s.wsConnected = false
  | .tracker (.answer block) => s.wsConnected = false ∧
      ∀ head, readHead block = some head → judge s.tracker.state head = .ignored
  | _ => False

/-- When the step hands over, the sessions have announced every head that the tracker withheld, any
session and at any time before. -/
def HandoverComplete (s : FeedState) (a : FeedAction) : Prop :=
  HandsOver s a → ∀ n, Withheld s.tracker.loaded n → ∃ k, (.session k, n) ∈ s.announced

variable {chainId : ℕ} {s t : FeedState} {a : FeedAction}

/-- Between polls it is the withheld heads that the promise is about. The tracker has announced the
others itself. -/
theorem FeedInv.handedOver_iff (hs : FeedInv chainId s) (hidle : s.tracker.phase = .idle) :
    (∀ n ∈ (s.own .tracker).filterMap Effect.accepted, ∃ source, (source, n) ∈ s.announced) ↔
      ∀ n, Withheld s.tracker.polls n → ∃ k, (.session k, n) ∈ s.announced := by
  have hown : s.own .tracker = (run chainId .init s.tracker.polls).2 := by
    rw [hs.tracker.made, hidle]
    exact List.append_nil _
  have htracker (n : ℕ) : (.tracker, n) ∈ s.announced ↔
      n ∈ (run chainId .init s.tracker.polls).2.filterMap Effect.announced := by
    rw [← hown]
    exact s.mem_log Effect.announced .tracker
  rw [hown]
  constructor
  · intro h n hn
    obtain ⟨source, hannounced⟩ := h n (mem_accepted.mpr (.inr hn))
    cases source with
    | tracker => exact absurd ((htracker n).mp hannounced) hn.not_announced
    | session k => exact ⟨k, hannounced⟩
  · intro h n hn
    rcases mem_accepted.mp hn with hannounced | hwithheld
    · exact ⟨.tracker, (htracker n).mpr hannounced⟩
    · obtain ⟨k, hk⟩ := h n hwithheld
      exact ⟨.session k, hk⟩

/-! ### The steps that hand over -/

/-- What a step that hands over leaves behind. -/
structure HandoverStep (s t : FeedState) : Prop where
  wsConnected : t.wsConnected = false
  idle : t.tracker.phase = .idle
  withheld : ∀ n, Withheld t.tracker.polls n ↔ Withheld s.tracker.loaded n
  announced : t.announced = s.announced

theorem announced_of_none (h : feedStep chainId s a = some t) (ha : s.announces a = none) :
    t.announced = s.announced := by
  rw [announced_step h, ha, Option.toList_none, List.append_nil]

theorem wsConnected_tracker {a : TrackerAction} (h : feedStep chainId s (.tracker a) = some t) :
    t.wsConnected = s.wsConnected := by
  obtain ⟨hmove⟩ := feedMove h
  show (List.filterMap Effect.connected _).getLastD s.wsConnected = s.wsConnected
  rw [hmove.connected]
  rfl

/-- A poll that ends without having loaded the flag. -/
theorem withheld_finish {u : TrackerTask} {st : TrackerState} {poll : Poll} {n : ℕ}
    (hpoll : poll.wsConnected = false) (hloaded : u.phase.loaded = none) :
    Withheld (u.finish st poll).polls n ↔ Withheld u.loaded n := by
  rw [TrackerTask.loaded, hloaded, Option.toList_none, List.append_nil]
  exact withheld_append hpoll

theorem handoverStep (hs : FeedInv chainId s) (h : feedStep chainId s a = some t)
    (hhands : HandsOver s a) : HandoverStep s t := by
  have hvalid := hs.tracker.valid
  rcases feedMove h with ⟨hmove⟩ | ⟨hmove⟩
  · have hconnected := wsConnected_tracker h
    cases hmove with
    | ignore hphase hverdict =>
      exact ⟨hconnected.trans hhands.1, rfl, fun n => withheld_finish rfl (by rw [hphase]; rfl),
        announced_of_none h rfl⟩
    | reorg hphase hhead hverdict =>
      exact absurd (hverdict.symm.trans (hhands.2 _ hhead)) nofun
    | accept hphase hhead hverdict =>
      exact absurd (hverdict.symm.trans (hhands.2 _ hhead)) nofun
    | invalidated hphase =>
      rw [hphase] at hvalid
      exact ⟨hconnected.trans hhands, rfl,
        fun n => withheld_finish hvalid.2.2 (by rw [hphase]; rfl), announced_of_none h rfl⟩
    | store hphase =>
      refine ⟨hconnected.trans hhands, rfl, fun n => ?_, announced_of_none h rfl⟩
      rw [TrackerTask.loaded, hphase]
      exact Iff.rfl
    | _ => exact hhands.elim
  · cases hmove with
    | clearConnected hphase =>
      have hidle : s.tracker.phase = .idle := hhands
      refine ⟨rfl, hhands, fun n => ?_, announced_of_none h rfl⟩
      rw [TrackerTask.loaded, hidle]
      exact iff_of_eq (congrArg (Withheld · n) (List.append_nil _).symm)
    | _ => exact hhands.elim

/-- The flag goes down only by a step that hands over or in the middle of a poll, so a step that
does neither leaves a state of the promise as it was. -/
theorem stays_of_not_handsOver (h : feedStep chainId s a = some t) (hhands : ¬ HandsOver s a)
    (hdown : t.wsConnected = false) (hidle : t.tracker.phase = .idle) :
    s.wsConnected = false ∧ s.tracker.phase = .idle ∧ t.tracker.polls = s.tracker.polls := by
  rcases feedMove h with ⟨hmove⟩ | ⟨hmove⟩
  · have hsdown : s.wsConnected = false := (wsConnected_tracker h).symm.trans hdown
    cases hmove with
    | ignore hphase hverdict => exact absurd ⟨hsdown, hverdict⟩ hhands
    | invalidated hphase => exact absurd hsdown hhands
    | store hphase => exact absurd hsdown hhands
    | _ => exact absurd hidle nofun
  · have hsidle : s.tracker.phase = .idle := hidle
    cases hmove with
    | setConnected hphase => exact absurd hdown nofun
    | clearConnected hphase => exact absurd hsidle hhands
    | _ => exact ⟨hdown, hsidle, rfl⟩

/-- **No head is lost in the handover exactly when, each time the flag is found down between polls,
the sessions have announced every head that the tracker withheld.** The interleaving of the two
tasks is arbitrary. -/
theorem always_handedOver_iff (chainId : ℕ) (as : List FeedAction) :
    Always (feedStep chainId) FeedState.HandedOver .init as ↔
      Along (feedStep chainId) HandoverComplete .init as := by
  refine always_iff_along (I := FeedInv chainId) (fun s a t hs h => feedInv_step hs h) ?_
    feedInv_init fun _ _ n hn => absurd hn List.not_mem_nil
  intro s a t hs hP h
  have ht := feedInv_step hs h
  by_cases hhands : HandsOver s a
  · have hstep := handoverStep hs h hhands
    rw [HandoverComplete, imp_iff_right hhands, FeedState.HandedOver,
      imp_iff_right hstep.wsConnected, imp_iff_right hstep.idle, ht.handedOver_iff hstep.idle,
      hstep.announced]
    exact forall_congr' fun n => imp_congr_left (hstep.withheld n)
  · refine ⟨fun _ hhands' => absurd hhands' hhands, fun _ hdown hidle => ?_⟩
    obtain ⟨hsdown, hsidle, hpolls⟩ := stays_of_not_handsOver h hhands hdown hidle
    have hbefore := (hs.handedOver_iff hsidle).mp (hP hsdown hsidle)
    rw [ht.handedOver_iff hidle, hpolls, announced_step h]
    intro n hn
    obtain ⟨k, hk⟩ := hbefore n hn
    exact ⟨k, List.mem_append_left _ hk⟩

/-- The subscription is confirmed, a poll finds block 10 and leaves it to the session, and the
upstream closes the connection without having notified anything. -/
def silentSession : List FeedAction :=
  [.subscriber (.connect true), .subscriber (.frame (confirmationMsg "0xs")),
   .subscriber .setConnected,
   .tracker .poll, .tracker (.answer (pollOf "0xa" "0xh10").block), .tracker .loadConnected,
   .tracker (.logs none), .tracker .store,
   .subscriber (.frame .close), .subscriber .clearConnected]

theorem silentSession_not_handedOver :
    ¬ Always (feedStep 1) FeedState.HandedOver .init silentSession := by
  intro h
  obtain ⟨source, hsource⟩ := h.last rfl rfl rfl 10 (by decide)
  exact absurd hsource List.not_mem_nil

end Poolbeg
