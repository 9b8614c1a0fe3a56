import Poolbeg.Upstream.Feed

/-!
# What the upstreams report

The two sources hear of heads from upstreams: the tracker when a poll is answered, a session when it
is notified. What they store and announce is only a part of that, since each drops whatever is not
above the last head it took. But nothing is lost as far as the greatest heads are concerned: a bound
on what a source has stored is a bound on what was reported to it, and the other way round.

## Why this is wanted

The promises about the order of stores and announcements are kept or broken by what the upstreams
report, and that is how their conditions are to be read. The logs of stores and announcements are
the program's own, and a condition in terms of them would say of the program what it does. With the
bounds of this module, a statement that nothing greater was stored by another source turns into one
that nothing greater was reported to it.

## What delays a head

A poll stores its number when it is over, so for `latest_block_number` the heads count that came
with the polls that are over. A session stores a head first and announces it in its next step, so
for the events the heads count that the session is done with. Of the tracker's heads only those
count there that it accepted with `ws_connected` down, for it announces no others.

## Main definitions

* `FeedState.Reported` — the heads reported to a source
* `FeedState.PassedOn` — those among them that the source has announced if they were new to it
* `ReportInv` — the sessions keep up with what they are notified of

## Main results

* `reportInv_step` — every step keeps the sessions up
* `stored_le_iff`, `announced_lt_iff` — bounds on what a source did and on what it heard
-/

namespace Poolbeg

open BlockTracker WsSubscriber Lts

namespace BlockTracker

/-- The polls accept the head `n` and find the flag down, so the tracker announces it itself. -/
def Offered (polls : List Poll) (n : ℕ) : Prop :=
  ∃ before poll after head, polls = before ++ poll :: after ∧ poll.Accepts before head ∧
    head.number = n ∧ poll.wsConnected = false

variable {chainId n : ℕ} {polls : List Poll} {t : TrackerTask} {own : List Effect}

/-- The tracker announces the heads that it offers. -/
theorem mem_announced : n ∈ (run chainId .init polls).2.filterMap Effect.announced ↔
    Offered polls n := by
  rw [mem_run_filterMap ofAccepted_of_announced]
  simp only [acceptHead_announced]
  constructor
  · rintro ⟨before, poll, after, head, heq, haccepts, hmem⟩
    split_ifs at hmem with hconnected
    · exact absurd hmem List.not_mem_nil
    · exact ⟨before, poll, after, head, heq, haccepts, (List.mem_singleton.mp hmem).symm,
        Bool.not_eq_true _ ▸ hconnected⟩
  · rintro ⟨before, poll, after, head, heq, haccepts, rfl, hconnected⟩
    exact ⟨before, poll, after, head, heq, haccepts, by simp [hconnected]⟩

/-- The last number was stored, unless no head was ever accepted. -/
theorem lastBlockNumber_stored (chainId : ℕ) (polls : List Poll) :
    (run chainId .init polls).1.lastBlockNumber = 0 ∨
      (run chainId .init polls).1.lastBlockNumber ∈
        (run chainId .init polls).2.filterMap Effect.stored := by
  induction polls using List.reverseRecOn with
  | nil => exact .inl rfl
  | append_singleton polls poll ih =>
    have hone (st : TrackerState) : run chainId st [poll] =
        fetchLatestBlock chainId st poll := by
      rw [run, run, List.append_nil]
    rw [run_append, hone, List.filterMap_append, List.mem_append]
    generalize (run chainId .init polls).1 = st at ih ⊢
    cases hhead : poll.head with
    | none =>
      rw [fetchLatestBlock_of_no_head hhead]
      exact ih.imp_right .inl
    | some head =>
      cases hverdict : judge st head with
      | ignored =>
        rw [fetchLatestBlock_of_ignored hhead hverdict]
        exact ih.imp_right .inl
      | reorg =>
        rw [fetchLatestBlock_of_reorg hhead hverdict]
        exact ih.imp_right .inl
      | accepted =>
        rw [fetchLatestBlock_of_accepted hhead hverdict]
        refine .inr (.inr (List.mem_filterMap.mpr ⟨.storeLatest head.number, ?_, rfl⟩))
        exact List.mem_cons_of_mem _ (List.mem_append_right _ List.mem_cons_self)

/-- What the tracker has stored is below a bound when all its polls are: the last number it stored
is their greatest. -/
theorem stored_le_iff_polls : (∀ m ∈ (run chainId .init polls).2.filterMap Effect.stored, m ≤ n) ↔
    ∀ poll ∈ polls, ∀ head, poll.head = some head → head.number ≤ n := by
  have hlast : (run chainId .init polls).1.lastBlockNumber ≤ n ↔
      ∀ poll ∈ polls, ∀ head, poll.head = some head → head.number ≤ n := by
    rw [← Nat.lt_succ_iff, run_lastBlockNumber_lt]
    simp only [Nat.lt_succ_iff, TrackerState.init, Nat.zero_le, true_and]
  rw [← hlast]
  constructor
  · intro h
    rcases lastBlockNumber_stored chainId polls with hzero | hmem
    · exact hzero ▸ Nat.zero_le n
    · exact h _ hmem
  · intro h m hm
    refine (le_lastBlockNumber ofAccepted_of_stored (fun poll head m hm => ?_) hm).trans h
    rw [acceptHead_stored] at hm
    exact List.mem_singleton.mp hm

/-- The poll in progress has stored nothing. -/
theorem TrackerInv.own_stored (ht : TrackerInv chainId t own) :
    own.filterMap Effect.stored = (run chainId .init t.polls).2.filterMap Effect.stored := by
  rw [ht.made, List.filterMap_append]
  have hmade : (t.phase.made chainId t.state).filterMap Effect.stored = [] := by
    cases t.phase with
    | fetchingLogs poll head | storing poll head =>
      simp only [TrackerPhase.made, List.filterMap_append, announceHead, logsRequest,
        fetchBlockLogs_filterMap (f := Effect.stored) (fun _ _ => rfl) (fun _ => rfl)
          (fun _ => rfl)]
      cases poll.wsConnected <;> rfl
    | _ => rfl
  rw [hmade, List.append_nil]

/-- The poll in progress has announced its head once it has loaded the flag and found it down. -/
theorem TrackerInv.own_announced (ht : TrackerInv chainId t own) :
    own.filterMap Effect.announced =
      (run chainId .init t.loaded).2.filterMap Effect.announced := by
  rw [ht.made, TrackerTask.loaded, List.filterMap_append]
  have hvalid := ht.valid
  have hloaded (poll : Poll) (head : Head) (hhead : poll.head = some head)
      (hverdict : judge t.state head = .accepted) :
      (run chainId .init (t.polls ++ [poll])).2.filterMap Effect.announced =
        (run chainId .init t.polls).2.filterMap Effect.announced ++
          if poll.wsConnected then [] else [head.number] := by
    rw [run_append, ht.state, run, run, fetchLatestBlock_of_accepted hhead hverdict,
      List.append_nil, List.filterMap_append, ← acceptHead_announced]
    rfl
  cases hphase : t.phase with
  | fetchingLogs poll head =>
    rw [hphase] at hvalid
    rw [TrackerPhase.loaded, Option.toList_some, hloaded poll head hvalid.1 hvalid.2]
    simp only [TrackerPhase.made, List.filterMap_append, announceHead]
    cases poll.wsConnected <;> rfl
  | storing poll head =>
    rw [hphase] at hvalid
    rw [TrackerPhase.loaded, Option.toList_some, hloaded poll head hvalid.1 hvalid.2]
    simp only [TrackerPhase.made, List.filterMap_append, announceHead,
      fetchBlockLogs_filterMap (f := Effect.announced) (fun _ _ => rfl) (fun _ => rfl)
        (fun _ => rfl)]
    cases poll.wsConnected <;> rfl
  | _ =>
    change _ ++ [] = (run chainId .init (t.polls ++ [])).2.filterMap Effect.announced
    rw [List.append_nil, List.append_nil]

end BlockTracker

/-! ### What the sources have heard -/

/-- The heads reported to a source: those of the polls that are over, or those that the session was
notified of. -/
def FeedState.Reported (s : FeedState) : Source → ℕ → Prop
  | .tracker, n => ∃ poll ∈ s.tracker.polls, ∃ head, poll.head = some head ∧ head.number = n
  | .session k, n => ∃ head, (k, head) ∈ s.notified ∧ head.number = n

/-- The heads that the sessions were notified of and are done with: all of them, but for the one
that the current session is about to announce. -/
def FeedState.done (s : FeedState) : List (ℕ × Head) :=
  match s.subscriber.phase with
  | .announcing _ _ => s.notified.dropLast
  | _ => s.notified

/-- The heads that a source has passed on, if they were above all it had passed on before: those
that the tracker accepted with the flag down, or those that the session is done with. -/
def FeedState.PassedOn (s : FeedState) : Source → ℕ → Prop
  | .tracker, n => Offered s.tracker.loaded n
  | .session k, n => ∃ head, (k, head) ∈ s.done ∧ head.number = n

/-- A log of numbers goes with a list of heads: it holds some of them, and for each of them one that
is not below it. So a bound on the one is a bound on the other. -/
structure FollowedBy (heads : List (ℕ × Head)) (log : List (Source × ℕ)) : Prop where
  heard : ∀ k n, (.session k, n) ∈ log → ∃ head, (k, head) ∈ heads ∧ head.number = n
  kept : ∀ k head, (k, head) ∈ heads → ∃ n, (.session k, n) ∈ log ∧ head.number ≤ n

/-- The last head of the session was stored and announced, and the one it is about to announce was
stored. -/
def FeedState.Current (s : FeedState) : Prop :=
  match s.subscriber.phase with
  | .forwarding _ last => last = 0 ∨
      (.session s.subscriber.session, last) ∈ s.stored ∧
        (.session s.subscriber.session, last) ∈ s.announced
  | .announcing _ head => (.session s.subscriber.session, head.number) ∈ s.stored ∧
      ∃ earlier, s.notified = earlier ++ [(s.subscriber.session, head)]
  | _ => True

/-- **The sessions keep up with what they are notified of.** What a session has stored goes with all
its notifications, and what it has announced with those it is done with. -/
structure ReportInv (s : FeedState) : Prop where
  stored : FollowedBy s.notified s.stored
  announced : FollowedBy s.done s.announced
  current : s.Current

theorem reportInv_init : ReportInv .init where
  stored := ⟨fun _ _ h => absurd h List.not_mem_nil, fun _ _ h => absurd h List.not_mem_nil⟩
  announced := ⟨fun _ _ h => absurd h List.not_mem_nil, fun _ _ h => absurd h List.not_mem_nil⟩
  current := trivial

section FollowedBy

variable {heads : List (ℕ × Head)} {log : List (Source × ℕ)}

/-- What the tracker does is not a session's. -/
theorem FollowedBy.tracker (h : FollowedBy heads log) (o : Option ℕ) :
    FollowedBy heads (log ++ (o.map (Source.tracker, ·)).toList) where
  heard k n hmem := by
    rcases List.mem_append.mp hmem with hmem | hmem
    · exact h.heard k n hmem
    · obtain ⟨m, -, heq⟩ := Option.map_eq_some_iff.mp (Option.mem_toList.mp hmem)
      exact absurd (congrArg Prod.fst heq) nofun
  kept k head hmem := by
    obtain ⟨n, hn, hle⟩ := h.kept k head hmem
    exact ⟨n, List.mem_append_left _ hn, hle⟩

/-- A head that is not above one in the log need not enter it. -/
theorem FollowedBy.skip (h : FollowedBy heads log) {k n : ℕ} {head : Head}
    (hn : (.session k, n) ∈ log) (hle : head.number ≤ n) :
    FollowedBy (heads ++ [(k, head)]) log where
  heard k' m hmem := by
    obtain ⟨head', hhead', heq⟩ := h.heard k' m hmem
    exact ⟨head', List.mem_append_left _ hhead', heq⟩
  kept k' head' hmem := by
    rcases List.mem_append.mp hmem with hmem | hmem
    · exact h.kept k' head' hmem
    · obtain ⟨rfl, rfl⟩ := Prod.mk.inj (List.mem_singleton.mp hmem)
      exact ⟨n, hn, hle⟩

/-- A head enters the log. -/
theorem FollowedBy.concat (h : FollowedBy heads log) (k : ℕ) (head : Head) :
    FollowedBy (heads ++ [(k, head)]) (log ++ [(.session k, head.number)]) where
  heard k' m hmem := by
    rcases List.mem_append.mp hmem with hmem | hmem
    · obtain ⟨head', hhead', heq⟩ := h.heard k' m hmem
      exact ⟨head', List.mem_append_left _ hhead', heq⟩
    · obtain ⟨hk, rfl⟩ := Prod.mk.inj (List.mem_singleton.mp hmem)
      cases hk
      exact ⟨head, List.mem_append_right _ (List.mem_singleton_self _), rfl⟩
  kept k' head' hmem := by
    rcases List.mem_append.mp hmem with hmem | hmem
    · obtain ⟨n, hn, hle⟩ := h.kept k' head' hmem
      exact ⟨n, List.mem_append_left _ hn, hle⟩
    · obtain ⟨rfl, rfl⟩ := Prod.mk.inj (List.mem_singleton.mp hmem)
      exact ⟨_, List.mem_append_right _ (List.mem_singleton_self _), le_rfl⟩

end FollowedBy

/-! ### Every step keeps up -/

variable {chainId n : ℕ} {s t : FeedState} {a : FeedAction}

theorem FeedState.done_eq (h : ∀ subId head, s.subscriber.phase ≠ .announcing subId head) :
    s.done = s.notified := by
  rw [FeedState.done]
  split
  · rename_i subId head hphase
    exact absurd hphase (h subId head)
  · rfl

/-- A step of a session that hears nothing, does nothing and is not in the middle of anything. -/
theorem ReportInv.quiet (hs : ReportInv s) (hnotified : t.notified = s.notified)
    (hstored : t.stored = s.stored) (hannounced : t.announced = s.announced)
    (hbefore : ∀ subId head, s.subscriber.phase ≠ .announcing subId head)
    (hafter : ∀ subId head, t.subscriber.phase ≠ .announcing subId head)
    (hcurrent : t.Current) : ReportInv t where
  stored := by
    rw [hnotified, hstored]
    exact hs.stored
  announced := by
    rw [FeedState.done_eq hafter, hnotified, hannounced, ← FeedState.done_eq hbefore]
    exact hs.announced
  current := hcurrent

/-- What is current stays so while the session rests and the logs grow. -/
theorem FeedState.Current.grow (h : s.Current) (hsubscriber : t.subscriber = s.subscriber)
    (hnotified : t.notified = s.notified) (hstored : ∀ entry ∈ s.stored, entry ∈ t.stored)
    (hannounced : ∀ entry ∈ s.announced, entry ∈ t.announced) : t.Current := by
  cases hphase : s.subscriber.phase with
  | forwarding subId last =>
    rw [FeedState.Current, hphase] at h
    rw [FeedState.Current, hsubscriber, hphase]
    exact h.imp_right fun hlast => ⟨hstored _ hlast.1, hannounced _ hlast.2⟩
  | announcing subId head =>
    rw [FeedState.Current, hphase] at h
    rw [FeedState.Current, hsubscriber, hphase, hnotified]
    exact ⟨hstored _ h.1, h.2⟩
  | _ =>
    rw [FeedState.Current, hsubscriber, hphase]
    exact trivial

/-- A frame that is no message of the session's subscription notifies of nothing. -/
theorem FeedState.notifies_eq_nil {f : Frame}
    (h : ∀ subId last parsed, s.subscriber.phase = .forwarding subId last →
      f = .text (some parsed) → readNotification subId parsed = none) :
    s.notifies (.frame f) = [] := by
  unfold FeedState.notifies SubscriberTask.notifies
  split
  · rename_i parsed heq
    split
    · rename_i subId last hphase
      rw [h subId last parsed hphase (SubscriberAction.frame.inj heq)]
      rfl
    · rfl
  · rfl

theorem FeedState.notifies_of_text {parsed : Value} {subId : String} {last : ℕ}
    (hphase : s.subscriber.phase = .forwarding subId last) :
    s.notifies (.frame (.text (some parsed))) =
      (readNotification subId parsed).toList.map (s.subscriber.session, ·) := by
  rw [FeedState.notifies, SubscriberTask.notifies, hphase]

section Session

variable {subId : String} {last : ℕ} {f : Frame} {head : Head}

/-- A session that skips a head has seen a greater one, or one with that number, and has stored and
announced it. -/
theorem ReportInv.skip (hs : ReportInv s) (hphase : s.subscriber.phase = .forwarding subId last)
    (hframe : forwardFrame subId last f = .skip) (hsubscriber : t.subscriber = s.subscriber)
    (hnotified : t.notified = s.notified ++ s.notifies (.frame f))
    (hstored : t.stored = s.stored) (hannounced : t.announced = s.announced) : ReportInv t := by
  have hcurrent := hs.current
  rw [FeedState.Current, hphase] at hcurrent
  have hdone : s.done = s.notified := FeedState.done_eq (by rw [hphase]; exact nofun)
  have hdone' : t.done = t.notified :=
    FeedState.done_eq (by rw [hsubscriber, hphase]; exact nofun)
  have hnow : t.Current := by
    rw [FeedState.Current, hsubscriber, hphase, hstored, hannounced]
    exact hcurrent
  by_cases hnothing : s.notifies (.frame f) = []
  · rw [hnothing, List.append_nil] at hnotified
    refine ⟨?_, ?_, hnow⟩
    · rw [hnotified, hstored]
      exact hs.stored
    · rw [hdone', hnotified, hannounced, ← hdone]
      exact hs.announced
  · obtain ⟨parsed, head, rfl, hhead⟩ : ∃ parsed head, f = .text (some parsed) ∧
        readNotification subId parsed = some head := by
      by_contra hnone
      refine hnothing (FeedState.notifies_eq_nil fun subId' last' parsed hphase' hf => ?_)
      cases hphase.symm.trans hphase'
      exact Option.eq_none_iff_forall_ne_some.mpr fun head hhead =>
        hnone ⟨parsed, head, hf, hhead⟩
    have hle := le_of_skip hframe hhead
    obtain ⟨hlast, hlast'⟩ := hcurrent.resolve_left fun hzero => by
      have hpos := head.number_pos
      omega
    rw [FeedState.notifies_of_text hphase, hhead] at hnotified
    refine ⟨?_, ?_, hnow⟩
    · rw [hnotified, hstored]
      exact hs.stored.skip hlast hle
    · rw [hdone', hnotified, hannounced, ← hdone]
      exact hs.announced.skip hlast' hle

/-- A session that forwards a head stores it, and has yet to announce it. -/
theorem ReportInv.forward (hs : ReportInv s) (hphase : s.subscriber.phase = .forwarding subId last)
    (hframe : forwardFrame subId last f = .forward head)
    (hsubscriber : t.subscriber = s.subscriber.moveTo (.announcing subId head))
    (hnotified : t.notified = s.notified ++ s.notifies (.frame f))
    (hstored : t.stored = s.stored ++ [(.session s.subscriber.session, head.number)])
    (hannounced : t.announced = s.announced) : ReportInv t := by
  have hnotifies : s.notifies (.frame f) = [(s.subscriber.session, head)] := by
    obtain ⟨parsed, rfl, hhead⟩ := readNotification_of_forward hframe
    rw [FeedState.notifies_of_text hphase, hhead]
    rfl
  rw [hnotifies] at hnotified
  refine ⟨?_, ?_, ?_⟩
  · rw [hnotified, hstored]
    exact hs.stored.concat _ head
  · have hdone : t.done = s.notified := by
      rw [FeedState.done, hsubscriber, hnotified]
      exact List.dropLast_concat
    rw [hdone, hannounced, ← FeedState.done_eq (s := s) (by rw [hphase]; exact nofun)]
    exact hs.announced
  · rw [FeedState.Current, hsubscriber, hstored, hnotified]
    exact ⟨List.mem_append_right _ (List.mem_singleton_self _), s.notified, rfl⟩

/-- A session that announces a head is done with it. -/
theorem ReportInv.announce (hs : ReportInv s)
    (hphase : s.subscriber.phase = .announcing subId head)
    (hsubscriber : t.subscriber = s.subscriber.moveTo (.forwarding subId head.number))
    (hnotified : t.notified = s.notified) (hstored : t.stored = s.stored)
    (hannounced : t.announced = s.announced ++ [(.session s.subscriber.session, head.number)]) :
    ReportInv t := by
  have hcurrent := hs.current
  rw [FeedState.Current, hphase] at hcurrent
  obtain ⟨hmem, earlier, hearlier⟩ := hcurrent
  have hbefore : s.done = earlier := by
    rw [FeedState.done, hphase, hearlier]
    exact List.dropLast_concat
  have hdone : t.done = s.done ++ [(s.subscriber.session, head)] := by
    rw [FeedState.done_eq (by rw [hsubscriber]; exact nofun), hnotified, hbefore, hearlier]
  refine ⟨?_, ?_, ?_⟩
  · rw [hnotified, hstored]
    exact hs.stored
  · rw [hdone, hannounced]
    exact hs.announced.concat _ head
  · rw [FeedState.Current, hsubscriber, hstored, hannounced]
    exact .inr ⟨hmem, List.mem_append_right _ (List.mem_singleton_self _)⟩

end Session

/-- Every step of the two tasks keeps the sessions up. The tracker's steps are none of the
sessions'. -/
theorem reportInv_step (hs : ReportInv s) (h : feedStep chainId s a = some t) : ReportInv t := by
  have hstored := stored_step h
  have hannounced := announced_step h
  rcases feedMove h with @⟨a, t', es, hmove⟩ | @⟨a, w', es, hmove⟩
  · refine ⟨?_, ?_, ?_⟩
    · rw [hstored]
      exact hs.stored.tracker _
    · rw [hannounced]
      exact hs.announced.tracker _
    · exact hs.current.grow rfl rfl (fun _ h => hstored ▸ List.mem_append_left _ h)
        (fun _ h => hannounced ▸ List.mem_append_left _ h)
  · cases hmove with
    | connect hphase hnext =>
      refine hs.quiet (List.append_nil _) (hstored.trans (List.append_nil _))
        (hannounced.trans (List.append_nil _)) (by rw [hphase]; rintro _ _ ⟨⟩) ?_ ?_
      · rcases hnext with rfl | rfl <;> rintro _ _ ⟨⟩
      · rcases hnext with rfl | rfl <;> exact trivial
    | timeout hphase =>
      exact hs.quiet (List.append_nil _) (hstored.trans (List.append_nil _))
        (hannounced.trans (List.append_nil _)) (by rw [hphase]; rintro _ _ ⟨⟩)
        (by rintro _ _ ⟨⟩) trivial
    | @subscribing f phase hphase hnext =>
      have hnothing : s.notifies (.frame f) = [] :=
        FeedState.notifies_eq_nil fun _ _ _ h => by
          cases hphase.symm.trans h
      have hnone : s.stores (.subscriber (.frame f)) = none := by
        simp [FeedState.stores, SubscriberTask.stores, hphase]
      rw [hnone] at hstored
      refine hs.quiet (by rw [hnothing]; exact List.append_nil _)
        (hstored.trans (List.append_nil _)) (hannounced.trans (List.append_nil _))
        (by rw [hphase]; rintro _ _ ⟨⟩) ?_ ?_
      · rcases hnext with rfl | ⟨subId, rfl⟩ | rfl <;> rintro _ _ ⟨⟩
      · rcases hnext with rfl | ⟨subId, rfl⟩ | rfl <;> exact trivial
    | setConnected hphase =>
      exact hs.quiet (List.append_nil _) (hstored.trans (List.append_nil _))
        (hannounced.trans (List.append_nil _)) (by rw [hphase]; rintro _ _ ⟨⟩)
        (by rintro _ _ ⟨⟩) (.inl rfl)
    | @skip subId last f hphase hframe =>
      have hnone : s.stores (.subscriber (.frame f)) = none := by
        simp [FeedState.stores, SubscriberTask.stores, hphase, hframe]
      rw [hnone] at hstored
      exact hs.skip hphase hframe rfl rfl (hstored.trans (List.append_nil _))
        (hannounced.trans (List.append_nil _))
    | @forward subId last f head hphase hframe =>
      have hsome : s.stores (.subscriber (.frame f)) =
          some (.session s.subscriber.session, head.number) := by
        simp [FeedState.stores, SubscriberTask.stores, hphase, hframe]
      rw [hsome] at hstored
      exact hs.forward hphase hframe rfl rfl hstored (hannounced.trans (List.append_nil _))
    | @stop subId last f hphase hframe =>
      have hnothing : s.notifies (.frame f) = [] := by
        refine FeedState.notifies_eq_nil fun subId' last' parsed hphase' hf => ?_
        cases hphase.symm.trans hphase'
        cases hf
        rw [forwardFrame] at hframe
        split at hframe
        · assumption
        · split_ifs at hframe
      have hnone : s.stores (.subscriber (.frame f)) = none := by
        simp [FeedState.stores, SubscriberTask.stores, hphase, hframe]
      rw [hnone] at hstored
      exact hs.quiet (by rw [hnothing]; exact List.append_nil _)
        (hstored.trans (List.append_nil _)) (hannounced.trans (List.append_nil _))
        (by rw [hphase]; rintro _ _ ⟨⟩) (by rintro _ _ ⟨⟩) trivial
    | @announce subId head hphase =>
      have hsome : s.announces (.subscriber .announce) =
          some (.session s.subscriber.session, head.number) := by
        simp [FeedState.announces, SubscriberTask.announces, hphase]
      rw [hsome] at hannounced
      exact hs.announce hphase rfl (List.append_nil _) (hstored.trans (List.append_nil _))
        hannounced
    | clearConnected hphase =>
      exact hs.quiet (List.append_nil _) (hstored.trans (List.append_nil _))
        (hannounced.trans (List.append_nil _)) (by rw [hphase]; rintro _ _ ⟨⟩)
        (by rintro _ _ ⟨⟩) trivial

/-! ### Bounds -/

/-- **A source has stored nothing above a bound when nothing above it was reported to it.** -/
theorem stored_le_iff (hinv : FeedInv chainId s) (hs : ReportInv s) (source : Source) :
    (∀ m, (source, m) ∈ s.stored → m ≤ n) ↔ ∀ m, s.Reported source m → m ≤ n := by
  cases source with
  | tracker =>
    have hown (m : ℕ) : (.tracker, m) ∈ s.stored ↔
        m ∈ (run chainId .init s.tracker.polls).2.filterMap Effect.stored := by
      rw [← hinv.tracker.own_stored]
      exact s.mem_log Effect.stored .tracker
    simp only [hown]
    rw [stored_le_iff_polls]
    constructor
    · rintro h m ⟨poll, hpoll, head, hhead, rfl⟩
      exact h poll hpoll head hhead
    · exact fun h poll hpoll head hhead => h _ ⟨poll, hpoll, head, hhead, rfl⟩
  | session k =>
    constructor
    · rintro h m ⟨head, hmem, rfl⟩
      obtain ⟨m, hm, hle⟩ := hs.stored.kept k head hmem
      exact hle.trans (h m hm)
    · exact fun h m hm => h m (hs.stored.heard k m hm)

/-- **A source has announced nothing from a bound on when nothing from it on was passed on.** -/
theorem announced_lt_iff (hinv : FeedInv chainId s) (hs : ReportInv s) (source : Source) :
    (∀ m, (source, m) ∈ s.announced → m < n) ↔ ∀ m, s.PassedOn source m → m < n := by
  cases source with
  | tracker =>
    have hown (m : ℕ) : (.tracker, m) ∈ s.announced ↔ s.PassedOn .tracker m := by
      rw [FeedState.PassedOn, ← @mem_announced chainId, ← hinv.tracker.own_announced]
      exact s.mem_log Effect.announced .tracker
    simp only [hown]
  | session k =>
    constructor
    · rintro h m ⟨head, hmem, rfl⟩
      obtain ⟨m, hm, hle⟩ := hs.announced.kept k head hmem
      exact hle.trans_lt (h m hm)
    · exact fun h m hm => h m (hs.announced.heard k m hm)

end Poolbeg
