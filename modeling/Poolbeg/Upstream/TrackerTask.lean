import Poolbeg.Upstream.Tracker

/-!
# The block tracker, step by step

`fetchLatestBlock` takes everything a poll reads at once. In the program a poll is spread over time,
and the WebSocket subscriber runs in between. This module splits a poll where it accesses something
shared: it issues the block request, gets the answer and caches an accepted head, loads the flag,
announces the head, gets the logs, and stores the number.

## How the two views are joined

A task remembers the polls it has finished, and `TrackerInv` says that it has done what `run` does
on them, plus what `made` lists for the poll in progress. So whatever is proved of `run` holds of
the tracker inside any interleaving: the value of the flag that a finished poll has is the one it
found when it loaded it, whoever wrote it and whatever it was before and after.

The flag is the only thing the tracker reads from others. What it writes, the cell and the channel,
it never reads back. That is why a list of polls is enough to say what it has done.

## Main definitions

* `TrackerTask`, `TrackerAction`, `trackerStep`, `TrackerMove` — the steps
* `TrackerPhase.made` — what the poll in progress has done
* `TrackerInv` — the steps so far are `run` on the finished polls and a part of one more

## Main results

* `TrackerMove.inv` — a step keeps `TrackerInv`
* `TrackerInv.lt_announces`, `TrackerInv.lt_stores` — the tracker announces and stores upwards
* `TrackerMove.connected` — the tracker leaves the flag alone
-/

namespace Poolbeg

namespace BlockTracker

/-! ### Steps -/

/-- Where a poll stands: not begun, waiting for the block, invalidating the cache after a reorg,
about to load the flag, about to announce the head, waiting for the logs, or about to store the
number. -/
inductive TrackerPhase
  | idle
  | requesting
  | invalidating (poll : Poll) (head : Head)
  | accepted (poll : Poll) (head : Head)
  | announcing (poll : Poll) (head : Head)
  | fetchingLogs (poll : Poll) (head : Head)
  | storing (poll : Poll) (head : Head)

/-- The tracker: its variables, where it stands, and the polls it has finished. The program does not
keep the polls; they are there to be quantified over. -/
structure TrackerTask where
  state : TrackerState
  phase : TrackerPhase
  polls : List Poll

def TrackerTask.init : TrackerTask where
  state := .init
  phase := .idle
  polls := []

inductive TrackerAction
  | poll
  | answer (block : Option JsonRpcResponse)
  | invalidated
  | loadConnected
  | announce
  | logs (resp : Option JsonRpcResponse)
  | store

/-- A poll of which only the answer is known yet. -/
def Poll.answered (block : Option JsonRpcResponse) : Poll where
  block := block
  wsConnected := false
  logs := none

def TrackerTask.moveTo (t : TrackerTask) (phase : TrackerPhase) : TrackerTask :=
  { t with phase := phase }

/-- The poll is over and leaves this state. -/
def TrackerTask.finish (t : TrackerTask) (st : TrackerState) (poll : Poll) : TrackerTask where
  state := st
  phase := .idle
  polls := t.polls ++ [poll]

variable (chainId : ℕ)

/-- One step of the tracker and the accesses it makes; the flag is the one a load finds. -/
def trackerStep (wsConnected : Bool) (t : TrackerTask) :
    TrackerAction → Option (TrackerTask × List Effect)
  | .poll =>
    match t.phase with
    | .idle => some (t.moveTo .requesting, [blockRequest])
    | _ => none
  | .answer block =>
    match t.phase with
    | .requesting =>
      let poll := Poll.answered block
      match poll.head with
      | none => some (t.finish t.state poll, [])
      | some head =>
        match judge t.state head with
        | .ignored => some (t.finish t.state poll, [])
        | .reorg =>
          some (t.moveTo (.invalidating poll head),
            [.send (.reorg chainId t.state.lastBlockNumber head.number),
              .cache .invalidateHeadCache])
        | .accepted =>
          some (t.moveTo (.accepted poll head),
            [.cache (.cacheBlock head.number head.hash head.content)])
    | _ => none
  | .invalidated =>
    match t.phase with
    | .invalidating poll head =>
      some (t.finish { t.state with lastBlockHash := head.hash } poll, [])
    | _ => none
  | .loadConnected =>
    match t.phase with
    | .accepted poll head =>
      let poll := { poll with wsConnected := wsConnected }
      if wsConnected then some (t.moveTo (.fetchingLogs poll head), [logsRequest head.number])
      else some (t.moveTo (.announcing poll head), [])
    | _ => none
  | .announce =>
    match t.phase with
    | .announcing poll head =>
      some (t.moveTo (.fetchingLogs poll head),
        [.send (newBlockEvent chainId head), logsRequest head.number])
    | _ => none
  | .logs resp =>
    match t.phase with
    | .fetchingLogs poll head =>
      some (t.moveTo (.storing { poll with logs := resp } head),
        announceLogs chainId head.number resp)
    | _ => none
  | .store =>
    match t.phase with
    | .storing poll head =>
      some (t.finish { lastBlockNumber := head.number, lastBlockHash := head.hash } poll,
        [.storeLatest head.number])
    | _ => none

/-- What a step of the tracker does, branch by branch: what it needs, what it leaves and which
accesses it makes. -/
inductive TrackerMove (wsConnected : Bool) (t : TrackerTask) :
    TrackerAction → TrackerTask → List Effect → Prop
  | poll (hphase : t.phase = .idle) :
      TrackerMove wsConnected t .poll (t.moveTo .requesting) [blockRequest]
  | ignore {block : Option JsonRpcResponse} (hphase : t.phase = .requesting)
      (hverdict : ∀ head, (Poll.answered block).head = some head → judge t.state head = .ignored) :
      TrackerMove wsConnected t (.answer block) (t.finish t.state (.answered block)) []
  | reorg {block : Option JsonRpcResponse} {head : Head} (hphase : t.phase = .requesting)
      (hhead : (Poll.answered block).head = some head) (hverdict : judge t.state head = .reorg) :
      TrackerMove wsConnected t (.answer block) (t.moveTo (.invalidating (.answered block) head))
        [.send (.reorg chainId t.state.lastBlockNumber head.number), .cache .invalidateHeadCache]
  | accept {block : Option JsonRpcResponse} {head : Head} (hphase : t.phase = .requesting)
      (hhead : (Poll.answered block).head = some head)
      (hverdict : judge t.state head = .accepted) :
      TrackerMove wsConnected t (.answer block) (t.moveTo (.accepted (.answered block) head))
        [.cache (.cacheBlock head.number head.hash head.content)]
  | invalidated {poll : Poll} {head : Head} (hphase : t.phase = .invalidating poll head) :
      TrackerMove wsConnected t .invalidated
        (t.finish { t.state with lastBlockHash := head.hash } poll) []
  | withhold {poll : Poll} {head : Head} (hphase : t.phase = .accepted poll head)
      (hconnected : wsConnected = true) :
      TrackerMove wsConnected t .loadConnected
        (t.moveTo (.fetchingLogs { poll with wsConnected := true } head)) [logsRequest head.number]
  | proceed {poll : Poll} {head : Head} (hphase : t.phase = .accepted poll head)
      (hconnected : wsConnected = false) :
      TrackerMove wsConnected t .loadConnected
        (t.moveTo (.announcing { poll with wsConnected := false } head)) []
  | announce {poll : Poll} {head : Head} (hphase : t.phase = .announcing poll head) :
      TrackerMove wsConnected t .announce (t.moveTo (.fetchingLogs poll head))
        [.send (newBlockEvent chainId head), logsRequest head.number]
  | logs {poll : Poll} {head : Head} {resp : Option JsonRpcResponse}
      (hphase : t.phase = .fetchingLogs poll head) :
      TrackerMove wsConnected t (.logs resp) (t.moveTo (.storing { poll with logs := resp } head))
        (announceLogs chainId head.number resp)
  | store {poll : Poll} {head : Head} (hphase : t.phase = .storing poll head) :
      TrackerMove wsConnected t .store
        (t.finish { lastBlockNumber := head.number, lastBlockHash := head.hash } poll)
        [.storeLatest head.number]

variable {chainId} {wsConnected : Bool} {t t' : TrackerTask} {a : TrackerAction} {es : List Effect}

theorem trackerMove (h : trackerStep chainId wsConnected t a = some (t', es)) :
    TrackerMove chainId wsConnected t a t' es := by
  cases a with
  | poll =>
    simp only [trackerStep] at h
    split at h
    · rename_i hphase
      cases h
      exact .poll hphase
    · exact absurd h nofun
  | answer block =>
    simp only [trackerStep] at h
    split at h
    · rename_i hphase
      split at h
      · rename_i hhead
        cases h
        exact .ignore hphase fun head h => absurd (hhead.symm.trans h) nofun
      · rename_i head hhead
        split at h <;> rename_i hverdict <;> cases h
        · exact .ignore hphase fun head' h => Option.some.inj (hhead.symm.trans h) ▸ hverdict
        · exact .reorg hphase hhead hverdict
        · exact .accept hphase hhead hverdict
    · exact absurd h nofun
  | invalidated =>
    simp only [trackerStep] at h
    split at h
    · rename_i hphase
      cases h
      exact .invalidated hphase
    · exact absurd h nofun
  | loadConnected =>
    simp only [trackerStep] at h
    split at h
    · rename_i hphase
      cases wsConnected <;> cases h
      · exact .proceed hphase rfl
      · exact .withhold hphase rfl
    · exact absurd h nofun
  | announce =>
    simp only [trackerStep] at h
    split at h
    · rename_i hphase
      cases h
      exact .announce hphase
    · exact absurd h nofun
  | logs resp =>
    simp only [trackerStep] at h
    split at h
    · rename_i hphase
      cases h
      exact .logs hphase
    · exact absurd h nofun
  | store =>
    simp only [trackerStep] at h
    split at h
    · rename_i hphase
      cases h
      exact .store hphase
    · exact absurd h nofun

/-! ### The steps are the polls -/

variable (chainId) in
/-- What the poll in progress has done. -/
def TrackerPhase.made (st : TrackerState) : TrackerPhase → List Effect
  | .idle => []
  | .requesting => [blockRequest]
  | .invalidating _ head =>
    [blockRequest, .send (.reorg chainId st.lastBlockNumber head.number),
      .cache .invalidateHeadCache]
  | .accepted _ head | .announcing _ head =>
    [blockRequest, .cache (.cacheBlock head.number head.hash head.content)]
  | .fetchingLogs poll head =>
    [blockRequest, .cache (.cacheBlock head.number head.hash head.content)] ++
      announceHead chainId poll head ++ [logsRequest head.number]
  | .storing poll head =>
    [blockRequest, .cache (.cacheBlock head.number head.hash head.content)] ++
      announceHead chainId poll head ++ fetchBlockLogs chainId head.number poll.logs

/-- The head a poll works on is the one it was answered with, and was judged. In the later phases
the flag it has loaded is in its `Poll`. -/
def TrackerPhase.Valid (st : TrackerState) : TrackerPhase → Prop
  | .idle | .requesting => True
  | .invalidating poll head =>
    poll.head = some head ∧ judge st head = .reorg ∧ poll.wsConnected = false
  | .announcing poll head =>
    poll.head = some head ∧ judge st head = .accepted ∧ poll.wsConnected = false
  | .accepted poll head | .fetchingLogs poll head | .storing poll head =>
    poll.head = some head ∧ judge st head = .accepted

variable (chainId) in
/-- **The tracker has done what `run` does on the polls it has finished, and a part of one more.**
-/
structure TrackerInv (t : TrackerTask) (own : List Effect) : Prop where
  state : (run chainId .init t.polls).1 = t.state
  made : own = (run chainId .init t.polls).2 ++ t.phase.made chainId t.state
  valid : t.phase.Valid t.state

theorem trackerInv_init : TrackerInv chainId .init [] where
  state := rfl
  made := rfl
  valid := trivial

variable {own : List Effect}

/-- A step within a poll. The accesses are those by which `made` grows. -/
theorem TrackerInv.moveTo (ht : TrackerInv chainId t own) {phase : TrackerPhase}
    (hmade : phase.made chainId t.state = t.phase.made chainId t.state ++ es)
    (hvalid : phase.Valid t.state) : TrackerInv chainId (t.moveTo phase) (own ++ es) where
  state := ht.state
  made := by
    rw [ht.made, List.append_assoc, ← hmade]
    rfl
  valid := hvalid

/-- The last step of a poll. What `made` lists is then what `run` adds for it. -/
theorem TrackerInv.finish (ht : TrackerInv chainId t own) {st : TrackerState} {poll : Poll}
    (hpoll : fetchLatestBlock chainId t.state poll = (st, t.phase.made chainId t.state ++ es)) :
    TrackerInv chainId (t.finish st poll) (own ++ es) := by
  have hrun : run chainId .init (t.polls ++ [poll]) = (st, own ++ es) := by
    simp only [run_append, run, ht.state, hpoll, List.append_nil]
    rw [ht.made, List.append_assoc]
  refine ⟨congrArg Prod.fst hrun, ?_, trivial⟩
  show own ++ es = (run chainId .init (t.polls ++ [poll])).2 ++ []
  rw [hrun, List.append_nil]

theorem TrackerMove.inv (ht : TrackerInv chainId t own)
    (h : TrackerMove chainId wsConnected t a t' es) : TrackerInv chainId t' (own ++ es) := by
  have hvalid := ht.valid
  cases h with
  | poll hphase => exact ht.moveTo (by rw [hphase]; rfl) trivial
  | @ignore block hphase hverdict =>
    have hpoll : fetchLatestBlock chainId t.state (.answered block) =
        (t.state, [blockRequest]) := by
      rcases hhead : (Poll.answered block).head with _ | head
      · exact fetchLatestBlock_of_no_head hhead
      · exact fetchLatestBlock_of_ignored hhead (hverdict head hhead)
    exact ht.finish (by rw [hphase, hpoll]; rfl)
  | reorg hphase hhead hverdict => exact ht.moveTo (by rw [hphase]; rfl) ⟨hhead, hverdict, rfl⟩
  | accept hphase hhead hverdict => exact ht.moveTo (by rw [hphase]; rfl) ⟨hhead, hverdict⟩
  | invalidated hphase =>
    rw [hphase] at hvalid
    exact ht.finish (by rw [hphase, fetchLatestBlock_of_reorg hvalid.1 hvalid.2.1]; rfl)
  | withhold hphase hconnected =>
    rw [hphase] at hvalid
    exact ht.moveTo (by rw [hphase]; rfl) hvalid
  | proceed hphase hconnected =>
    rw [hphase] at hvalid
    exact ht.moveTo (by rw [hphase]; rfl) ⟨hvalid.1, hvalid.2, rfl⟩
  | @announce poll head hphase =>
    rw [hphase] at hvalid
    have hannounce : announceHead chainId poll head = [.send (newBlockEvent chainId head)] := by
      rw [announceHead, hvalid.2.2]
      rfl
    exact ht.moveTo (by simp [hphase, TrackerPhase.made, hannounce]) ⟨hvalid.1, hvalid.2.1⟩
  | logs hphase =>
    rw [hphase] at hvalid
    exact ht.moveTo (by simp [hphase, TrackerPhase.made, announceHead, fetchBlockLogs]) hvalid
  | store hphase =>
    rw [hphase] at hvalid
    refine ht.finish ?_
    rw [hphase, fetchLatestBlock_of_accepted hvalid.1 hvalid.2]
    simp [TrackerPhase.made, acceptHead]

/-! ### The order within the tracker -/

/-- The poll in progress, once it has loaded the flag. -/
def TrackerPhase.loaded : TrackerPhase → Option Poll
  | .fetchingLogs poll _ | .storing poll _ => some poll
  | _ => none

/-- The polls that have loaded the flag, if they ever do. For these it is settled whether the
tracker announces their head. -/
def TrackerTask.loaded (t : TrackerTask) : List Poll := t.polls ++ t.phase.loaded.toList

/-- The number a step of the tracker is about to announce. -/
def TrackerTask.announces (t : TrackerTask) : TrackerAction → Option ℕ
  | .announce =>
    match t.phase with
    | .announcing _ head => some head.number
    | _ => none
  | _ => none

/-- The number a step of the tracker is about to store. -/
def TrackerTask.stores (t : TrackerTask) : TrackerAction → Option ℕ
  | .store =>
    match t.phase with
    | .storing _ head => some head.number
    | _ => none
  | _ => none

theorem TrackerMove.announced (h : TrackerMove chainId wsConnected t a t' es) :
    es.filterMap Effect.announced = (t.announces a).toList := by
  cases h with
  | announce hphase =>
    simp [TrackerTask.announces, hphase, Effect.announced, newBlockEvent, logsRequest]
  | logs => exact announceLogs_filterMap (fun _ => rfl) fun _ => rfl
  | _ => rfl

theorem TrackerMove.stored (h : TrackerMove chainId wsConnected t a t' es) :
    es.filterMap Effect.stored = (t.stores a).toList := by
  cases h with
  | store hphase => simp [TrackerTask.stores, hphase, Effect.stored]
  | logs => exact announceLogs_filterMap (fun _ => rfl) fun _ => rfl
  | _ => rfl

/-- The tracker does not touch the flag. -/
theorem TrackerMove.connected (h : TrackerMove chainId wsConnected t a t' es) :
    es.filterMap Effect.connected = [] := by
  cases h with
  | logs => exact announceLogs_filterMap (f := Effect.connected) (fun _ => rfl) fun _ => rfl
  | _ => rfl

/-- A head that was accepted is above everything the finished polls have left a number of,
announced, stored or cached. -/
theorem TrackerInv.lt_number (ht : TrackerInv chainId t own) {f : Effect → Option ℕ} {head : Head}
    {m : ℕ} (hf : ∀ e m, f e = some m → OfAccepted e)
    (hhead : ∀ poll head, ∀ m ∈ (acceptHead chainId poll head).filterMap f, m = head.number)
    (hmade : (t.phase.made chainId t.state).filterMap f = [])
    (hverdict : judge t.state head = .accepted) (hm : m ∈ own.filterMap f) : m < head.number := by
  rw [ht.made, List.filterMap_append, hmade, List.append_nil] at hm
  have hle : m ≤ t.state.lastBlockNumber := ht.state ▸ le_lastBlockNumber hf hhead hm
  exact hle.trans_lt (judge_eq_accepted.mp hverdict)

theorem TrackerTask.announces_eq_some {n : ℕ} (h : t.announces a = some n) :
    ∃ poll head, t.phase = .announcing poll head ∧ head.number = n := by
  unfold TrackerTask.announces at h
  split at h
  · split at h
    · rename_i poll head hphase
      exact ⟨poll, head, hphase, Option.some.inj h⟩
    · exact absurd h nofun
  · exact absurd h nofun

theorem TrackerTask.stores_eq_some {n : ℕ} (h : t.stores a = some n) :
    ∃ poll head, t.phase = .storing poll head ∧ head.number = n := by
  unfold TrackerTask.stores at h
  split at h
  · split at h
    · rename_i poll head hphase
      exact ⟨poll, head, hphase, Option.some.inj h⟩
    · exact absurd h nofun
  · exact absurd h nofun

/-- The tracker announces above what it has announced, with anything in between. -/
theorem TrackerInv.lt_announces (ht : TrackerInv chainId t own) {m n : ℕ}
    (hm : m ∈ own.filterMap Effect.announced) (hn : t.announces a = some n) : m < n := by
  obtain ⟨poll, head, hphase, rfl⟩ := TrackerTask.announces_eq_some hn
  have hvalid := ht.valid
  rw [hphase] at hvalid
  refine ht.lt_number ofAccepted_of_announced (fun poll head m hm => ?_) (by rw [hphase]; rfl)
    hvalid.2.1 hm
  rw [acceptHead_announced] at hm
  split_ifs at hm
  · exact absurd hm List.not_mem_nil
  · exact List.mem_singleton.mp hm

/-- The tracker stores above what it has stored. -/
theorem TrackerInv.lt_stores (ht : TrackerInv chainId t own) {m n : ℕ}
    (hm : m ∈ own.filterMap Effect.stored) (hn : t.stores a = some n) : m < n := by
  obtain ⟨poll, head, hphase, rfl⟩ := TrackerTask.stores_eq_some hn
  have hvalid := ht.valid
  rw [hphase] at hvalid
  have hmade : (TrackerPhase.made chainId t.state (.storing poll head)).filterMap Effect.stored =
      [] := by
    simp only [TrackerPhase.made, List.filterMap_append, announceHead,
      fetchBlockLogs_filterMap (f := Effect.stored) (fun _ _ => rfl) (fun _ => rfl) (fun _ => rfl)]
    cases poll.wsConnected <;> rfl
  refine ht.lt_number ofAccepted_of_stored (fun poll head m hm => ?_) (hphase ▸ hmade) hvalid.2 hm
  rw [acceptHead_stored] at hm
  exact List.mem_singleton.mp hm

end BlockTracker

end Poolbeg
