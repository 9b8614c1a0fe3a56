import Poolbeg.Upstream.Reports

/-!
# The order of the heads

`latest_block_number` is meant never to go back, and the `NewBlock` events of a chain are meant to
go up. Each source sees to that on its own: the tracker ignores a head that is not above the last
one, and a session one that is not above the last one it forwarded. Nothing compares the two. A
session starts from `0` whatever was announced before it, and both sources store to the shared cell
unconditionally, while `ChainManager::update_latest_block_number`, which nobody calls, stores only
what is higher.

So both promises hold exactly as long as no source falls behind another, which is a matter of what
the upstreams report to each of them, and when: `latest_monotone_iff` and `announced_increasing_iff`
say it step by step, for every interleaving. That a source is in order by itself is no part of these
conditions, it is proved; so is that a session which starts anew from `0` is covered by them.

## Main definitions

* `StoresInOrder`, `AnnouncesInOrder` — what a step must be for the promises to survive it

## Main results

* `latest_monotone_iff`, `announced_increasing_iff`
-/

namespace Poolbeg

open BlockTracker WsSubscriber Lts

/-- If the step stores a number, no greater head was reported to another source: to the tracker in a
poll that is over, or to another session in a notification. -/
def StoresInOrder (s : FeedState) (a : FeedAction) : Prop :=
  ∀ e, s.stores a = some e → ∀ source, source ≠ e.1 → ∀ n, s.Reported source n → n ≤ e.2

/-- If the step announces a block, only lower heads were reported to the other sources, among those
they have passed on: those that the tracker accepted with the flag down, and those notified to other
sessions that are done with them. -/
def AnnouncesInOrder (s : FeedState) (a : FeedAction) : Prop :=
  ∀ e, s.announces a = some e → ∀ source, source ≠ e.1 → ∀ n, s.PassedOn source n → n < e.2

/-- The step does not take `latest_block_number` back, if it can be taken. -/
def KeepsLatest (chainId : ℕ) (s : FeedState) (a : FeedAction) : Prop :=
  ∀ t, feedStep chainId s a = some t → s.latestBlockNumber ≤ t.latestBlockNumber

/-- The blocks announced go up, each above all before it, whichever source announced them. -/
def FeedState.Increasing (s : FeedState) : Prop := Ordered (· < ·) s.announced

/-- The condition on a log, source by source. -/
theorem after_iff {r : ℕ → ℕ → Prop} {log : List (Source × ℕ)} {e : Source × ℕ} :
    After r log e ↔ ∀ source, source ≠ e.1 → ∀ n, (source, n) ∈ log → r n e.2 :=
  ⟨fun h source hne n hmem => h (source, n) hmem hne,
    fun h x hmem hne => h x.1 hne x.2 hmem⟩

/-! ### The latest block number -/

theorem storesInOrder_iff {chainId : ℕ} {s : FeedState} (a : FeedAction)
    (hinv : FeedInv chainId s) (hs : ReportInv s) :
    (∀ e, s.stores a = some e → After (· ≤ ·) s.stored e) ↔ StoresInOrder s a := by
  refine forall_congr' fun e => imp_congr_right fun _ => after_iff.trans ?_
  exact forall_congr' fun source => imp_congr_right fun _ => stored_le_iff hinv hs source

/-- **In any interleaving, `latest_block_number` never decreases exactly when no source stores a
number while a greater head has been reported to another one.** -/
theorem latest_monotone_iff (chainId : ℕ) (as : List FeedAction) :
    Along (feedStep chainId) (KeepsLatest chainId) .init as ↔
      Along (feedStep chainId) StoresInOrder .init as := by
  have hI (s : FeedState) (a : FeedAction) (t : FeedState) (hs : FeedInv chainId s)
      (h : feedStep chainId s a = some t) : FeedInv chainId t := feedInv_step hs h
  have hlog (s : FeedState) (a : FeedAction) (t : FeedState) (_ : FeedInv chainId s)
      (h : feedStep chainId s a = some t) : t.stored = s.stored ++ (s.stores a).toList :=
    stored_step h
  have hlast (s : FeedState) (hs : FeedInv chainId s) :
      (s.stored = [] ∧ ∀ b, s.latestBlockNumber ≤ b) ∨
        ∃ pre source, s.stored = pre ++ [(source, s.latestBlockNumber)] :=
    hs.latest.imp_left fun ⟨hnil, hzero⟩ => ⟨hnil, fun b => hzero ▸ Nat.zero_le b⟩
  have hown (s : FeedState) (a : FeedAction) (t : FeedState) (e : Source × ℕ)
      (hs : FeedInv chainId s) (_ : feedStep chainId s a = some t) (he : s.stores a = some e) :
      ∀ x ∈ s.stored, x.1 = e.1 → x.2 ≤ e.2 := hs.le_of_stores he
  refine (along_mono_iff FeedState.latestBlockNumber hI hlog
    (fun _ _ _ _ => latestBlockNumber_step) hlast feedInv_init ordered_nil).trans
    ((always_ordered_iff hI hlog hown feedInv_init ordered_nil).trans ?_)
  exact along_congr (I := fun s => FeedInv chainId s ∧ ReportInv s)
    (fun s a t hs _ => storesInOrder_iff a hs.1 hs.2)
    (fun s a t hs _ h => ⟨feedInv_step hs.1 h, reportInv_step hs.2 h⟩)
    ⟨feedInv_init, reportInv_init⟩

/-- A session stores 12, and then a poll of an upstream that lags behind it stores 11. The tracker
has not heard of 12. -/
def laggingPoll : List FeedAction :=
  [.subscriber (.connect true), .subscriber (.frame (confirmationMsg "0xs")),
   .subscriber .setConnected, .subscriber (.frame (newHeadsMsg "0xs" "0xc" "0xh12")),
   .subscriber .announce,
   .tracker .poll, .tracker (.answer (pollOf "0xb" "0xh11").block), .tracker .loadConnected,
   .tracker (.logs none), .tracker .store]

theorem laggingPoll_decreases : ¬ Along (feedStep 1) (KeepsLatest 1) .init laggingPoll := by
  intro h
  have hpolled : Along (feedStep 1) (KeepsLatest 1) .init
      (laggingPoll.take 9 ++ [.tracker .store]) := h
  exact absurd (hpolled.at_step rfl rfl _ rfl) (by decide)

/-! ### The blocks announced -/

theorem announcesInOrder_iff {chainId : ℕ} {s : FeedState} (a : FeedAction)
    (hinv : FeedInv chainId s) (hs : ReportInv s) :
    (∀ e, s.announces a = some e → After (· < ·) s.announced e) ↔ AnnouncesInOrder s a := by
  refine forall_congr' fun e => imp_congr_right fun _ => after_iff.trans ?_
  exact forall_congr' fun source => imp_congr_right fun _ => announced_lt_iff hinv hs source

/-- **In any interleaving, the blocks announced go up exactly when no source announces a block that
another one has reached**, by the heads reported to each of them. -/
theorem announced_increasing_iff (chainId : ℕ) (as : List FeedAction) :
    Always (feedStep chainId) FeedState.Increasing .init as ↔
      Along (feedStep chainId) AnnouncesInOrder .init as := by
  have hI (s : FeedState) (a : FeedAction) (t : FeedState) (hs : FeedInv chainId s)
      (h : feedStep chainId s a = some t) : FeedInv chainId t := feedInv_step hs h
  have hown (s : FeedState) (a : FeedAction) (t : FeedState) (e : Source × ℕ)
      (hs : FeedInv chainId s) (_ : feedStep chainId s a = some t) (he : s.announces a = some e) :
      ∀ x ∈ s.announced, x.1 = e.1 → x.2 < e.2 := hs.lt_of_announces he
  refine (always_ordered_iff hI (fun _ _ _ _ => announced_step) hown feedInv_init
    ordered_nil).trans ?_
  exact along_congr (I := fun s => FeedInv chainId s ∧ ReportInv s)
    (fun s a t hs _ => announcesInOrder_iff a hs.1 hs.2)
    (fun s a t hs _ h => ⟨feedInv_step hs.1 h, reportInv_step hs.2 h⟩)
    ⟨feedInv_init, reportInv_init⟩

/-- The tracker announces 10, and then a session is notified of the same head. -/
def announcedTwice : List FeedAction :=
  [.tracker .poll, .tracker (.answer (pollOf "0xa" "0xh10").block), .tracker .loadConnected,
   .tracker .announce, .tracker (.logs none), .tracker .store,
   .subscriber (.connect true), .subscriber (.frame (confirmationMsg "0xs")),
   .subscriber .setConnected, .subscriber (.frame (newHeadsMsg "0xs" "0xa" "0xh10")),
   .subscriber .announce]

theorem announcedTwice_not_increasing :
    ¬ Always (feedStep 1) FeedState.Increasing .init announcedTwice := by
  intro h
  have hlast := h.last rfl
  have hannounced := List.pairwise_pair.mp hlast
  exact absurd hannounced (by decide)

end Poolbeg
