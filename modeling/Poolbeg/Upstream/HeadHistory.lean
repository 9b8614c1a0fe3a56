import Poolbeg.Records
import Poolbeg.Upstream.Tracker

/-!
# What the tracker has made of its polls

The tracker compares each head with the last one it accepted, in a fixed order of tests. All that is
left of a sequence of polls can be read off the heads they brought: the last number is their peak,
the last hash is that of the last head at the peak, and there was a reorg for every head that came
at the peak of those before it with a hash other than the one that was followed then. Polls that
bring no head, or one below the peak, leave no trace.

## A closed form

The variables of the loop do not occur in it. `stateOf` computes them from a list of heads, and the
step lemma says that a poll adds its head to the list. That a head below the peak leaves no trace is
then a fact about peaks: it changes neither the peak, nor the last head at the peak, nor which heads
replace one that is followed.

Counting reorgs and invalidations is counting accesses of one kind in what `run` returns. They come
in pairs, one of each for every replacement.

## Main definitions

* `polledHeads`, `latestHash`, `replacements` — read off the polls
* `stateOf` — the variables of the loop

## Main results

* `fetchLatestBlock_state`, `countP_fetchLatestBlock` — one poll
* `run_state`, `countP_run` — all polls
* `fetchLatestBlock_of_lower` — polls that leave no trace
* `run_closed_form` — the tracker in closed form
-/

namespace Poolbeg

namespace Effect

def isReorg : Effect → Bool
  | send (.reorg _ _ _) => true
  | _ => false

def isInvalidation : Effect → Bool
  | cache .invalidateHeadCache => true
  | _ => false

end Effect

namespace BlockTracker

open Records

/-! ### The heads -/

/-- The heads that the polls brought. -/
def polledHeads (polls : List Poll) : List Head := polls.filterMap Poll.head

/-- The hash of the last head with the greatest number; empty if there is none. After a replacement
it is that of the new head. -/
def latestHash (heads : List Head) : String := ((latest Head.number heads).map Head.hash).getD ""

/-- The heads that came with the greatest number so far and a hash other than the one followed. A
head may come back, and then it is one as well. -/
def replacements (heads : List Head) : List Head :=
  along (fun earlier head => head.number = peak Head.number earlier ∧
    head.hash ≠ latestHash earlier) heads

variable {chainId : ℕ} {poll : Poll} {polls : List Poll} {heads : List Head} {head : Head}

theorem polledHeads_concat (polls : List Poll) (poll : Poll) :
    polledHeads (polls ++ [poll]) = polledHeads polls ++ poll.head.toList := by
  rw [polledHeads, List.filterMap_append]
  cases hhead : poll.head <;> simp [polledHeads, hhead]

theorem latestHash_concat (heads : List Head) (head : Head) :
    latestHash (heads ++ [head]) =
      if peak Head.number heads ≤ head.number then head.hash else latestHash heads := by
  rw [latestHash, latest_concat]
  split_ifs <;> rfl

/-- The state that is left of some heads. -/
def stateOf (heads : List Head) : TrackerState where
  lastBlockNumber := peak Head.number heads
  lastBlockHash := latestHash heads

/-! ### One poll -/

/-- A poll that is ignored brings a head below the peak, or the one that is followed. -/
theorem judge_eq_ignored (h : judge (stateOf heads) head = .ignored) :
    head.number ≤ peak Head.number heads ∧
      (head.number = peak Head.number heads → head.hash = latestHash heads) := by
  have haccepted : ¬ judge (stateOf heads) head = .accepted := by simp [h]
  have hreorg : ¬ judge (stateOf heads) head = .reorg := by simp [h]
  rw [judge_eq_accepted] at haccepted
  rw [judge_eq_reorg] at hreorg
  refine ⟨Nat.not_lt.mp haccepted, fun hnumber => ?_⟩
  by_contra hhash
  exact hreorg ⟨hnumber, hhash⟩

/-- **A poll adds its head.** -/
theorem fetchLatestBlock_state :
    (fetchLatestBlock chainId (stateOf heads) poll).1 =
      stateOf (heads ++ poll.head.toList) := by
  cases hhead : poll.head with
  | none =>
    rw [fetchLatestBlock_of_no_head hhead]
    simp
  | some head =>
    rw [Option.toList_some, stateOf, stateOf, peak_concat, latestHash_concat]
    cases hverdict : judge (stateOf heads) head with
    | ignored =>
      obtain ⟨hle, hhash⟩ := judge_eq_ignored hverdict
      rw [← stateOf, fetchLatestBlock_of_ignored hhead hverdict, max_eq_left hle]
      split_ifs with hge
      · rw [hhash (Nat.le_antisymm hle hge)]
        rfl
      · rfl
    | reorg =>
      obtain ⟨hnumber, -⟩ := judge_eq_reorg.mp hverdict
      have hpeak : head.number = peak Head.number heads := hnumber
      rw [← stateOf, fetchLatestBlock_of_reorg hhead hverdict, hpeak, max_self, if_pos le_rfl]
      rfl
    | accepted =>
      have hlt : peak Head.number heads < head.number := judge_eq_accepted.mp hverdict
      rw [← stateOf, fetchLatestBlock_of_accepted hhead hverdict, max_eq_right hlt.le,
        if_pos hlt.le]

/-- Nothing that is done with an accepted head is a reorg or an invalidation. -/
theorem countP_acceptHead {p : Effect → Bool}
    (hp : p = Effect.isReorg ∨ p = Effect.isInvalidation) :
    (acceptHead chainId poll head).countP p = 0 := by
  rw [acceptHead, announceHead, fetchBlockLogs, announceLogs, logsRequest, List.countP_eq_zero]
  rcases hp with rfl | rfl <;> split_ifs <;> split <;>
    simp [Effect.isReorg, Effect.isInvalidation, newBlockEvent]

/-- **A poll reports a reorg, and invalidates the head cache, when its head replaces the one that is
followed**, once each. -/
theorem countP_fetchLatestBlock {p : Effect → Bool}
    (hp : p = Effect.isReorg ∨ p = Effect.isInvalidation) :
    (fetchLatestBlock chainId (stateOf heads) poll).2.countP p +
        (replacements heads).length =
      (replacements (heads ++ poll.head.toList)).length := by
  have hrequest : p blockRequest = false := by rcases hp with rfl | rfl <;> rfl
  cases hhead : poll.head with
  | none =>
    rw [fetchLatestBlock_of_no_head hhead]
    simp [hrequest]
  | some head =>
    have hreplaces : (head.number = peak Head.number heads ∧ head.hash ≠ latestHash heads) ↔
        judge (stateOf heads) head = .reorg := by
      rw [judge_eq_reorg]
      exact Iff.rfl
    rw [Option.toList_some, replacements, replacements, along_concat, List.length_append,
      Nat.add_comm]
    simp only [hreplaces]
    cases hverdict : judge (stateOf heads) head with
    | ignored =>
      rw [fetchLatestBlock_of_ignored hhead hverdict]
      simp [hrequest]
    | reorg =>
      have hcount : [blockRequest,
          .send (.reorg chainId (stateOf heads).lastBlockNumber head.number),
          .cache .invalidateHeadCache].countP p = 1 := by
        rcases hp with rfl | rfl <;> rfl
      rw [fetchLatestBlock_of_reorg hhead hverdict, hcount]
      simp
    | accepted =>
      rw [fetchLatestBlock_of_accepted hhead hverdict, List.countP_cons, countP_acceptHead hp]
      simp [hrequest]

/-! ### All polls -/

theorem run_concat (chainId : ℕ) (st : TrackerState) (polls : List Poll) (poll : Poll) :
    run chainId st (polls ++ [poll]) =
      ((fetchLatestBlock chainId (run chainId st polls).1 poll).1,
        (run chainId st polls).2 ++
          (fetchLatestBlock chainId (run chainId st polls).1 poll).2) := by
  rw [run_append]
  simp [run]

/-- **What the polls leave behind** is what their heads leave. -/
theorem run_state (chainId : ℕ) (polls : List Poll) :
    (run chainId .init polls).1 = stateOf (polledHeads polls) := by
  induction polls using List.reverseRecOn with
  | nil => rfl
  | append_singleton polls poll ih =>
    rw [run_concat, ih, fetchLatestBlock_state, polledHeads_concat]

theorem countP_run (chainId : ℕ) (polls : List Poll) {p : Effect → Bool}
    (hp : p = Effect.isReorg ∨ p = Effect.isInvalidation) :
    (run chainId .init polls).2.countP p = (replacements (polledHeads polls)).length := by
  induction polls using List.reverseRecOn with
  | nil => rfl
  | append_singleton polls poll ih =>
    rw [run_concat, List.countP_append, ih, run_state, Nat.add_comm, countP_fetchLatestBlock hp,
      polledHeads_concat]

/-- **A poll without a head, or with a head below the peak, changes nothing and does nothing but ask
for the block.** -/
theorem fetchLatestBlock_of_lower
    (h : ∀ head, poll.head = some head → head.number < peak Head.number heads) :
    fetchLatestBlock chainId (stateOf heads) poll = (stateOf heads, [blockRequest]) := by
  cases hhead : poll.head with
  | none => exact fetchLatestBlock_of_no_head hhead
  | some head =>
    have hlt := h head hhead
    refine fetchLatestBlock_of_ignored hhead ?_
    cases hverdict : judge (stateOf heads) head with
    | ignored => rfl
    | reorg => exact absurd (judge_eq_reorg.mp hverdict).1 hlt.ne
    | accepted => exact absurd (judge_eq_accepted.mp hverdict) hlt.not_gt

/-- **The tracker in closed form**, over all sequences of polls: its variables, the reorgs it
reports and the invalidations it makes. -/
theorem run_closed_form (chainId : ℕ) (polls : List Poll) :
    (run chainId .init polls).1.lastBlockNumber = peak Head.number (polledHeads polls) ∧
    (run chainId .init polls).1.lastBlockHash = latestHash (polledHeads polls) ∧
    (run chainId .init polls).2.countP Effect.isReorg =
      (replacements (polledHeads polls)).length ∧
    (run chainId .init polls).2.countP Effect.isInvalidation =
      (replacements (polledHeads polls)).length ∧
    ∀ before poll after, polls = before ++ poll :: after →
      (∀ head, poll.head = some head → head.number < peak Head.number (polledHeads before)) →
      fetchLatestBlock chainId (run chainId .init before).1 poll =
        ((run chainId .init before).1, [blockRequest]) := by
  refine ⟨by rw [run_state]; rfl, by rw [run_state]; rfl, countP_run chainId polls (.inl rfl),
    countP_run chainId polls (.inr rfl), ?_⟩
  rintro before poll after - h
  rw [run_state]
  exact fetchLatestBlock_of_lower h

/-- Block 9, polled after block 10, leaves no trace. -/
theorem laggingHead_ignored :
    fetchLatestBlock 1 (run 1 .init [pollOf "0xa" "0xh10"]).1 (pollOf "0x9" "0xh9") =
      ((run 1 .init [pollOf "0xa" "0xh10"]).1, [blockRequest]) := by
  refine (run_closed_form 1 [pollOf "0xa" "0xh10", pollOf "0x9" "0xh9"]).2.2.2.2
    [pollOf "0xa" "0xh10"] (pollOf "0x9" "0xh9") [] rfl fun head hhead => ?_
  have hnine : (pollOf "0x9" "0xh9").head.map Head.number = some 9 := by decide
  rw [hhead, Option.map_some, Option.some.injEq] at hnine
  rw [hnine]
  decide

end BlockTracker

end Poolbeg
