import Poolbeg.Upstream.Tracker

/-!
# Reorgs

How the tracker follows a chain whose tip is replaced. There is one shape of a reorg it knows: the
polled head has the number of the last one and another hash. Several upstreams are polled in turn,
and they need not agree on anything below the tip, so nothing else is taken as a sign; `parentHash`
is never read.

## What the subscribers know

When it sees one, the tracker invalidates the head cache and follows the new hash. It does not
announce the new block: the subscribers are told of a `Reorg`, which the subscription manager drops,
and the next block they hear of is the next one that is higher. A comment of the source expects the
tracker to fetch the new head again, but the next poll finds it followed already and ignores it. So
what was announced last and what is followed part at the first reorg, and meet again only at a
higher head.

The polls are taken without an upstream WebSocket, where the tracker announces what it accepts.

## Main definitions

* `Tracking`, `pollStep` — the polls as a transition system
* `Tracking.TipKnown` — the last block announced is the one that is followed
* `NoReorg`, `Invalidates` — the two ways to look at a poll

## Main results

* `tipKnown_step` — what one poll does to the tip
* `tipKnown_iff` — the subscribers know the tip as long as no poll brings a reorg
* `invalidates_iff` — which polls invalidate the head cache
-/

namespace Poolbeg

/-- The number and the hash of the block an access announces. -/
def Effect.announcedHead : Effect → Option (ℕ × String)
  | .send (.newBlock _ number hash _) => some (number, hash)
  | _ => none

namespace BlockTracker

open Lts

/-! ### The tip -/

/-- The head that is followed, once there is one. -/
def TrackerState.tip (st : TrackerState) : Option (ℕ × String) :=
  if st.lastBlockNumber = 0 then none else some (st.lastBlockNumber, st.lastBlockHash)

/-- The last block announced. -/
def lastAnnounced (log : List Effect) : Option (ℕ × String) :=
  (log.filterMap Effect.announcedHead).getLast?

theorem lastAnnounced_append_nil {log new : List Effect}
    (h : new.filterMap Effect.announcedHead = []) :
    lastAnnounced (log ++ new) = lastAnnounced log := by
  rw [lastAnnounced, List.filterMap_append, h, List.append_nil]
  rfl

theorem lastAnnounced_append_singleton {log new : List Effect} {head : ℕ × String}
    (h : new.filterMap Effect.announcedHead = [head]) :
    lastAnnounced (log ++ new) = some head := by
  rw [lastAnnounced, List.filterMap_append, h, List.getLast?_concat]

/-- The tracker, and all its accesses so far. -/
structure Tracking where
  state : TrackerState
  log : List Effect

def Tracking.init : Tracking where
  state := .init
  log := []

/-- A poll that finds no WebSocket connected. -/
def pollStep (chainId : ℕ) (s : Tracking) (poll : Poll) : Option Tracking :=
  if poll.wsConnected then none
  else
    let next := fetchLatestBlock chainId s.state poll
    some { state := next.1, log := s.log ++ next.2 }

/-- **The last block announced is the one the tracker follows**, and there is none before the first
is accepted. Both the number and the hash are compared. -/
def Tracking.TipKnown (s : Tracking) : Prop := lastAnnounced s.log = s.state.tip

/-- The poll does not bring a head with the tracked number and another hash. -/
def NoReorg (s : Tracking) (poll : Poll) : Prop :=
  ∀ head ∈ poll.head,
    ¬ (head.number = s.state.lastBlockNumber ∧ head.hash ≠ s.state.lastBlockHash)

instance (s : Tracking) (poll : Poll) : Decidable (NoReorg s poll) :=
  inferInstanceAs (Decidable (∀ head ∈ poll.head, ¬ (_ ∧ _)))

variable {chainId : ℕ} {s t : Tracking} {head : Head} {poll : Poll}

theorem pollStep_eq_some (h : pollStep chainId s poll = some t) :
    poll.wsConnected = false ∧ t.state = (fetchLatestBlock chainId s.state poll).1 ∧
      t.log = s.log ++ (fetchLatestBlock chainId s.state poll).2 := by
  rw [pollStep, Option.ite_none_left_eq_some, Bool.not_eq_true] at h
  obtain ⟨hflag, h⟩ := h
  cases h
  exact ⟨hflag, rfl, rfl⟩

/-- The polls of a run are those of the tracker's loop. -/
theorem run_pollStep {polls : List Poll} (h : Lts.run (pollStep chainId) s polls = some t) :
    t.state = (run chainId s.state polls).1 ∧ t.log = s.log ++ (run chainId s.state polls).2 := by
  induction polls generalizing s with
  | nil =>
    cases h
    exact ⟨rfl, (List.append_nil _).symm⟩
  | cons poll polls ih =>
    obtain ⟨u, hu, hrest⟩ := run_cons_eq_some.mp h
    obtain ⟨-, hstate, hlog⟩ := pollStep_eq_some hu
    obtain ⟨hstate', hlog'⟩ := ih hrest
    rw [hstate', hlog', hstate, hlog, List.append_assoc]
    exact ⟨rfl, rfl⟩

theorem acceptHead_announcedHead (h : poll.wsConnected = false) :
    (acceptHead chainId poll head).filterMap Effect.announcedHead =
      [(head.number, head.hash)] := by
  rw [acceptHead_filterMap (fun _ _ => rfl) (fun _ _ => rfl) (fun _ _ => rfl), announceHead, h]
  rfl

/-- **What one poll does to the tip.** A head that is accepted is announced and followed; a reorg is
followed and not announced; and everything else leaves both as they are. -/
theorem tipKnown_step (hs : s.TipKnown) (h : pollStep chainId s poll = some t) :
    t.TipKnown ↔ NoReorg s poll := by
  obtain ⟨hflag, hstate, hlog⟩ := pollStep_eq_some h
  rw [Tracking.TipKnown] at hs ⊢
  rw [hlog, hstate]
  rcases hhead : poll.head with _ | head
  · rw [fetchLatestBlock_of_no_head hhead, lastAnnounced_append_nil (by rfl)]
    exact iff_of_true hs fun head hmem => by rw [hhead] at hmem; cases hmem
  have hreorg : NoReorg s poll ↔ judge s.state head ≠ .reorg := by
    rw [NoReorg, hhead, ne_eq, judge_eq_reorg]
    exact ⟨fun h => h head rfl, fun h head' hmem => Option.some.inj hmem ▸ h⟩
  rw [hreorg]
  cases hverdict : judge s.state head with
  | ignored =>
    rw [fetchLatestBlock_of_ignored hhead hverdict, lastAnnounced_append_nil (by rfl)]
    exact iff_of_true hs (by decide)
  | accepted =>
    rw [fetchLatestBlock_of_accepted hhead hverdict,
      lastAnnounced_append_singleton
        ((List.filterMap_cons_none rfl).trans (acceptHead_announcedHead hflag))]
    refine iff_of_true ?_ (by decide)
    rw [TrackerState.tip, if_neg head.number_pos.ne']
  | reorg =>
    obtain ⟨hnumber, hhash⟩ := judge_eq_reorg.mp hverdict
    rw [fetchLatestBlock_of_reorg hhead hverdict, lastAnnounced_append_nil (by rfl), hs]
    refine iff_of_false ?_ (fun h => h rfl)
    have hpos : s.state.lastBlockNumber ≠ 0 := hnumber ▸ head.number_pos.ne'
    rw [TrackerState.tip, TrackerState.tip, if_neg hpos, if_neg hpos]
    intro heq
    exact hhash (Prod.mk.inj (Option.some.inj heq)).2.symm

/-- **After every poll of a run the subscribers know the tip, exactly when no poll brings a head
with the tracked number and another hash.** -/
theorem tipKnown_iff (chainId : ℕ) (polls : List Poll) :
    Always (pollStep chainId) Tracking.TipKnown .init polls ↔
      Along (pollStep chainId) NoReorg .init polls :=
  always_iff_along (I := fun _ => True) (fun _ _ _ _ _ => trivial)
    (fun _ _ _ _ hs h => tipKnown_step hs h) trivial rfl

/-- Block 10 is polled twice, with different hashes. -/
def replacedTip : List Poll := [pollOf "0xa" "0xh10", pollOf "0xa" "0xr10"]

/-- The tracker follows the second block, and the subscribers know the first. -/
theorem replacedTip_not_known :
    ∃ s, Lts.run (pollStep 1) .init replacedTip = some s ∧ s.state.tip = some (10, "0xr10") ∧
      lastAnnounced s.log = some (10, "0xh10") ∧ ¬ s.TipKnown := by
  refine ⟨_, rfl, by decide, by decide, ?_⟩
  rw [Tracking.TipKnown]
  decide

/-! ### What invalidates the head cache -/

/-- The poll invalidates the head cache of the chain, after the polls before it. -/
def Invalidates (chainId : ℕ) (before : List Poll) (poll : Poll) : Prop :=
  .cache .invalidateHeadCache ∈
    (fetchLatestBlock chainId (run chainId .init before).1 poll).2

theorem invalidateHeadCache_notMem_acceptHead :
    .cache .invalidateHeadCache ∉ acceptHead chainId poll head := by
  rw [acceptHead, announceHead, fetchBlockLogs, announceLogs, logsRequest]
  split_ifs <;> split <;> simp

/-- **A poll invalidates the head cache exactly when its head has the tracked number and another
hash**; a head that is accepted at a higher number never does, whatever the parent it names. The
polls before it are arbitrary. -/
theorem invalidates_iff (chainId : ℕ) (before : List Poll) (poll : Poll) :
    (Invalidates chainId before poll ↔ ∃ head, poll.head = some head ∧
      head.number = (run chainId .init before).1.lastBlockNumber ∧
      head.hash ≠ (run chainId .init before).1.lastBlockHash) ∧
    ∀ head, poll.head = some head →
      (run chainId .init before).1.lastBlockNumber < head.number →
      ¬ Invalidates chainId before poll := by
  rw [Invalidates]
  generalize (run chainId .init before).1 = st
  rcases hhead : poll.head with _ | head
  · rw [fetchLatestBlock_of_no_head hhead]
    simp [blockRequest]
  simp only [Option.some.injEq, exists_eq_left', forall_eq', ← judge_eq_reorg, ← judge_eq_accepted]
  cases hverdict : judge st head with
  | ignored =>
    rw [fetchLatestBlock_of_ignored hhead hverdict]
    simp [blockRequest]
  | reorg =>
    rw [fetchLatestBlock_of_reorg hhead hverdict]
    simp
  | accepted =>
    rw [fetchLatestBlock_of_accepted hhead hverdict]
    simp [blockRequest, invalidateHeadCache_notMem_acceptHead]

/-- A head with the parent it names. -/
def pollOfChild (number hash parentHash : String) : Poll where
  block := some (.success (.ofU64 1)
    (.object [("number", .string number), ("hash", .string hash),
      ("parentHash", .string parentHash)]))
  wsConnected := false
  logs := some (.success (.ofU64 1) (.array []))

/-- Block 11 is accepted after block 10 and names another block as its parent, and nothing is
invalidated. What was cached for the block 10 that is gone stays until it expires. -/
theorem orphanedTip_not_invalidated :
    ¬ ∀ (before : List Poll) (poll : Poll) (head : Head), poll.head = some head →
      head.number = (run 1 .init before).1.lastBlockNumber + 1 →
      (head.content.index "parentHash").asStr ≠ some (run 1 .init before).1.lastBlockHash →
      Invalidates 1 before poll := by
  intro h
  have hinvalidates := h [pollOf "0xa" "0xh10"] (pollOfChild "0xb" "0xh11" "0xr10") _ rfl
    (by decide) (by decide)
  have haccepted : ∃ st head, fetchLatestBlock 1 (run 1 .init [pollOf "0xa" "0xh10"]).1
      (pollOfChild "0xb" "0xh11" "0xr10") =
        (st, blockRequest :: acceptHead 1 (pollOfChild "0xb" "0xh11" "0xr10") head) :=
    ⟨_, _, fetchLatestBlock_of_accepted rfl (by decide)⟩
  obtain ⟨st, head, heq⟩ := haccepted
  rw [Invalidates, heq, List.mem_cons] at hinvalidates
  rcases hinvalidates with hrequest | haccept
  · cases hrequest
  · exact invalidateHeadCache_notMem_acceptHead haccept

end BlockTracker

end Poolbeg
