import Poolbeg.Cache.HeadSet

/-!
# The block tracker

The embedding of `upstream/tracker.rs`. A poll asks an upstream for its latest block; the tracker
compares the head it gets with the last one it accepted and either ignores it, reports a reorg, or
accepts it: caches the block, announces it unless a WebSocket session does, fetches and announces
the logs, and stores the number where the request handlers read it.

## A poll as a function

`fetchLatestBlock` is one poll as a function of what the poll reads, and returns the accesses it
makes, in order. What it reads is a `Poll`: the answer to the block request, the value of the
`ws_connected` flag when the tracker looks at it, and the answer to the log request. A tick that
makes no poll, because no upstream is healthy or has a token, changes nothing. How the accesses of a
poll interleave with the rest of the program is the subject of `Poolbeg.Upstream.TrackerTask`, which
shows that they are these.

## The maximum of the heads

A head is accepted exactly when it is above the last one, so the tracker follows the maximum of the
heads it was shown. It does not go back: the numbers between two accepted heads, and a number whose
log fetch failed, never get a `NewLogs` event. It follows the tip and fills in nothing, and a
failure of the fetch is traced and left at that.

Almost everything is proved through `mem_run_accepted`: an access that only an accepted head causes
was made exactly when one of the polls brought a head above all heads polled before it.

## Main definitions

* `BlockEvent`, `Effect`, `Head` — what a tracker reads and does
* `judge`, `fetchBlockLogs`, `fetchLatestBlock`, `run` — the source
* `Poll.Accepts`, `Withheld` — what a list of polls says about a head

## Main results

* `judge_eq_accepted`, `judge_eq_reorg` — the three verdicts
* `run_lastBlockNumber_lt` — the last number is the maximum of the polled heads
* `mem_accepted`, `Withheld.not_announced` — an accepted head is announced or withheld, never both
* `newLogs_sent_iff` — which blocks get their logs announced
-/

namespace Poolbeg

/-- An event on the chain's channel. -/
inductive BlockEvent
  | newBlock (chainId number : ℕ) (hash : String) (header : Value)
  | newLogs (chainId blockNumber : ℕ) (logs : Value)
  | reorg (chainId fromBlock toBlock : ℕ)

/-- An access to something outside the task that makes it: a request to the upstream, an operation
on the cache, an event sent, or a store to `latest_block_number` or `ws_connected`. -/
inductive Effect
  | call (method : String) (params : Value)
  | cache (op : HeadOp)
  | send (event : BlockEvent)
  | storeLatest (number : ℕ)
  | storeConnected (connected : Bool)

namespace Effect

/-- The number of the block an access announces. -/
def announced : Effect → Option ℕ
  | send (.newBlock _ number _ _) => some number
  | _ => none

/-- The number an access stores as the latest. -/
def stored : Effect → Option ℕ
  | storeLatest number => some number
  | _ => none

/-- The number of the block an access caches: the tracker caches the heads it accepts. -/
def accepted : Effect → Option ℕ
  | cache (.cacheBlock number _ _) => some number
  | _ => none

/-- The value an access gives the flag. -/
def connected : Effect → Option Bool
  | storeConnected connected => some connected
  | _ => none

end Effect

/-- A head that names itself: its number and its hash are both there. A block with the number 0 is
none, since 0 also stands for a number that could not be read. -/
structure Head where
  number : ℕ
  hash : String
  content : Value
  number_pos : 0 < number
  hash_ne : hash ≠ ""

/-- The check both sources make on what they have read. -/
def Head.ofParts (number : ℕ) (hash : String) (content : Value) : Option Head :=
  if h : number = 0 ∨ hash = "" then none
  else some ⟨number, hash, content, Nat.pos_of_ne_zero fun h0 => h (.inl h0), fun h0 => h (.inr h0)⟩

namespace BlockTracker

/-! ### What the tracker reads -/

/-- The head in a block; an unreadable number counts as `0`, and a missing hash as empty. Neither is
a head. -/
def headOfBlock (block : Value) : Option Head :=
  let numberHex := (block.index "number").asStr.getD "0x0"
  let number := (parseQuantity numberHex).getD 0
  let hash := (block.index "hash").asStr.getD ""
  Head.ofParts number hash block

/-- The head in the outcome of the block request; `none` when the request failed. -/
def readHead (resp : Option JsonRpcResponse) : Option Head :=
  match resp.bind JsonRpcResponse.result with
  | some block => if block.isNull then none else headOfBlock block
  | none => none

/-- What one poll reads: the outcome of the block request, the flag, the outcome of the log request.
The last two are read only if the head is accepted. -/
structure Poll where
  block : Option JsonRpcResponse
  wsConnected : Bool
  logs : Option JsonRpcResponse

def Poll.head (poll : Poll) : Option Head := readHead poll.block

def Poll.fetchedLogs (poll : Poll) : Option Value := poll.logs.bind JsonRpcResponse.result

/-! ### One poll -/

/-- The last head accepted. It is the task's own, and nothing else writes it. -/
structure TrackerState where
  lastBlockNumber : ℕ
  lastBlockHash : String

/-- Before the first head. -/
def TrackerState.init : TrackerState where
  lastBlockNumber := 0
  lastBlockHash := ""

inductive Verdict
  | ignored
  | reorg
  | accepted
  deriving DecidableEq

/-- The comparisons `fetch_latest_block` makes, in order. A head that is lower is taken for one of a
lagging upstream, and not for a reorg. -/
def judge (st : TrackerState) (head : Head) : Verdict :=
  if head.number = st.lastBlockNumber ∧ head.hash = st.lastBlockHash then .ignored
  -- a lagging upstream, not a reorg
  else if head.number < st.lastBlockNumber ∧ 0 < st.lastBlockNumber then .ignored
  else if head.number = st.lastBlockNumber ∧ head.hash ≠ st.lastBlockHash ∧
      0 < st.lastBlockNumber then .reorg
  else .accepted

def nonHeaderFields : List String := ["transactions", "uncles", "size", "totalDifficulty"]

/-- Remove the fields of a full block that are not part of a header. -/
def stripNonHeaderFields : Value → Value
  | .object members =>
    .object (nonHeaderFields.foldl (fun ms field => ms.eraseP fun m => m.1 == field) members)
  | other => other

section Poll

variable (chainId : ℕ)

/-- The request for the latest block, without its transactions. -/
def blockRequest : Effect := .call "eth_getBlockByNumber" (.array [.string "latest", .bool false])

def logsRequest (blockNumber : ℕ) : Effect :=
  let blockHex := formatHex blockNumber
  .call "eth_getLogs"
    (.array [.object [("fromBlock", .string blockHex), ("toBlock", .string blockHex)]])

def newBlockEvent (head : Head) : BlockEvent :=
  .newBlock chainId head.number head.hash (stripNonHeaderFields head.content)

/-- What is done with the outcome of the log request. A failure is traced and nothing else, and the
fetch is not repeated. -/
def announceLogs (blockNumber : ℕ) (resp : Option JsonRpcResponse) : List Effect :=
  match resp.bind JsonRpcResponse.result with
  | some logs => [.cache (.cacheLogs blockNumber logs), .send (.newLogs chainId blockNumber logs)]
  | none => []

def fetchBlockLogs (blockNumber : ℕ) (resp : Option JsonRpcResponse) : List Effect :=
  logsRequest blockNumber :: announceLogs chainId blockNumber resp

/-- The tracker announces a head itself unless a WebSocket session does. -/
def announceHead (poll : Poll) (head : Head) : List Effect :=
  if poll.wsConnected then [] else [.send (newBlockEvent chainId head)]

/-- What is done with an accepted head, up to the store that lets the handlers see it. The store
comes last, after the logs. -/
def acceptHead (poll : Poll) (head : Head) : List Effect :=
  [.cache (.cacheBlock head.number head.hash head.content)] ++ announceHead chainId poll head ++
    fetchBlockLogs chainId head.number poll.logs ++ [.storeLatest head.number]

/-- One poll: the state it leaves and the accesses it makes. After a reorg the state is the new hash
at the same number. -/
def fetchLatestBlock (st : TrackerState) (poll : Poll) : TrackerState × List Effect :=
  match poll.head with
  | none => (st, [blockRequest])
  | some head =>
    match judge st head with
    | .ignored => (st, [blockRequest])
    | .reorg =>
      ({ st with lastBlockHash := head.hash },
        [blockRequest, .send (.reorg chainId st.lastBlockNumber head.number),
          .cache .invalidateHeadCache])
    | .accepted =>
      ({ lastBlockNumber := head.number, lastBlockHash := head.hash },
        blockRequest :: acceptHead chainId poll head)

/-- The loop of the tracker over the polls it makes. -/
def run : TrackerState → List Poll → TrackerState × List Effect
  | st, [] => (st, [])
  | st, poll :: polls =>
    let next := fetchLatestBlock chainId st poll
    let rest := run next.1 polls
    (rest.1, next.2 ++ rest.2)

end Poll

/-! ### The three verdicts -/

variable {chainId n : ℕ} {st : TrackerState} {head : Head} {poll : Poll} {polls : List Poll}
  {e : Effect}

theorem judge_eq_accepted : judge st head = .accepted ↔ st.lastBlockNumber < head.number := by
  have hpos := head.number_pos
  unfold judge
  split_ifs with h₁ h₂ h₃
  · exact ⟨nofun, fun h => absurd h₁.1 (by omega)⟩
  · exact ⟨nofun, fun h => absurd h₂.1 (by omega)⟩
  · exact ⟨nofun, fun h => absurd h₃.1 (by omega)⟩
  · refine ⟨fun _ => ?_, fun _ => rfl⟩
    by_contra hle
    have heq : head.number = st.lastBlockNumber := by
      by_contra hne
      exact h₂ ⟨by omega, by omega⟩
    exact h₃ ⟨heq, fun hhash => h₁ ⟨heq, hhash⟩, by omega⟩

theorem judge_eq_reorg :
    judge st head = .reorg ↔ head.number = st.lastBlockNumber ∧ head.hash ≠ st.lastBlockHash := by
  have hpos := head.number_pos
  unfold judge
  split_ifs with h₁ h₂ h₃
  · exact ⟨nofun, fun h => absurd h₁.2 h.2⟩
  · exact ⟨nofun, fun h => absurd h₂.1 (by omega)⟩
  · exact ⟨fun _ => ⟨h₃.1, h₃.2.1⟩, fun _ => rfl⟩
  · exact ⟨nofun, fun h => absurd ⟨h.1, h.2, by omega⟩ h₃⟩

/-! ### What a poll does -/

theorem fetchLatestBlock_of_no_head (h : poll.head = none) :
    fetchLatestBlock chainId st poll = (st, [blockRequest]) := by
  rw [fetchLatestBlock, h]

theorem fetchLatestBlock_of_ignored (hhead : poll.head = some head) (h : judge st head = .ignored) :
    fetchLatestBlock chainId st poll = (st, [blockRequest]) := by
  simp only [fetchLatestBlock, hhead, h]

theorem fetchLatestBlock_of_reorg (hhead : poll.head = some head) (h : judge st head = .reorg) :
    fetchLatestBlock chainId st poll =
      ({ st with lastBlockHash := head.hash },
        [blockRequest, .send (.reorg chainId st.lastBlockNumber head.number),
          .cache .invalidateHeadCache]) := by
  simp only [fetchLatestBlock, hhead, h]

theorem fetchLatestBlock_of_accepted (hhead : poll.head = some head)
    (h : judge st head = .accepted) :
    fetchLatestBlock chainId st poll =
      ({ lastBlockNumber := head.number, lastBlockHash := head.hash },
        blockRequest :: acceptHead chainId poll head) := by
  simp only [fetchLatestBlock, hhead, h]

/-- A poll stays below `n` exactly when the tracker was there already and the polled head is. -/
theorem fetchLatestBlock_lastBlockNumber_lt :
    (fetchLatestBlock chainId st poll).1.lastBlockNumber < n ↔
      st.lastBlockNumber < n ∧ ∀ head, poll.head = some head → head.number < n := by
  rcases hhead : poll.head with _ | head
  · rw [fetchLatestBlock_of_no_head hhead]
    exact ⟨fun h => ⟨h, nofun⟩, fun h => h.1⟩
  rw [show (∀ head', some head = some head' → head'.number < n) ↔ head.number < n from
    ⟨fun h => h head rfl, fun h head' he => Option.some.inj he ▸ h⟩]
  have hacc : judge st head = .accepted ↔ st.lastBlockNumber < head.number := judge_eq_accepted
  cases hv : judge st head with
  | ignored =>
    have hle : head.number ≤ st.lastBlockNumber := by
      rw [← Nat.not_lt, ← hacc, hv]
      decide
    rw [fetchLatestBlock_of_ignored hhead hv]
    exact ⟨fun h => ⟨h, hle.trans_lt h⟩, fun h => h.1⟩
  | reorg =>
    rw [fetchLatestBlock_of_reorg hhead hv]
    exact ⟨fun h => ⟨h, (judge_eq_reorg.mp hv).1 ▸ h⟩, fun h => h.1⟩
  | accepted =>
    rw [fetchLatestBlock_of_accepted hhead hv]
    exact ⟨fun h => ⟨(hacc.mp hv).trans h, h⟩, fun h => h.2⟩

/-- The accesses that only the poll of an accepted head makes. The others are the requests and the
invalidation after a reorg. -/
def OfAccepted : Effect → Prop
  | .cache (.cacheBlock _ _ _) | .send (.newBlock _ _ _ _) | .send (.newLogs _ _ _)
  | .storeLatest _ => True
  | _ => False

theorem mem_fetchLatestBlock (he : OfAccepted e) :
    e ∈ (fetchLatestBlock chainId st poll).2 ↔
      ∃ head, poll.head = some head ∧ st.lastBlockNumber < head.number ∧
        e ∈ acceptHead chainId poll head := by
  have hrequest : e ≠ blockRequest := by rintro rfl; exact he
  rcases hhead : poll.head with _ | head
  · rw [fetchLatestBlock_of_no_head hhead]
    simp [hrequest]
  simp only [Option.some.injEq, exists_eq_left', ← judge_eq_accepted]
  cases hv : judge st head with
  | ignored =>
    rw [fetchLatestBlock_of_ignored hhead hv]
    simp [hrequest]
  | reorg =>
    rw [fetchLatestBlock_of_reorg hhead hv]
    refine ⟨fun h => ?_, fun h => absurd h.1 nofun⟩
    rw [List.mem_cons, List.mem_pair] at h
    rcases h with rfl | rfl | rfl <;> exact he.elim
  | accepted =>
    rw [fetchLatestBlock_of_accepted hhead hv, List.mem_cons]
    exact ⟨fun h => ⟨rfl, h.resolve_left hrequest⟩, fun h => .inr h.2⟩

/-! ### What a sequence of polls does -/

theorem run_append (st : TrackerState) (polls polls' : List Poll) :
    run chainId st (polls ++ polls') =
      ((run chainId (run chainId st polls).1 polls').1,
        (run chainId st polls).2 ++ (run chainId (run chainId st polls).1 polls').2) := by
  induction polls generalizing st with
  | nil => rfl
  | cons poll polls ih => simp only [List.cons_append, run, ih, List.append_assoc]

/-- **The last number is the maximum of the heads polled so far.** It is below `n` exactly if all of
them are. -/
theorem run_lastBlockNumber_lt :
    (run chainId st polls).1.lastBlockNumber < n ↔
      st.lastBlockNumber < n ∧ ∀ poll ∈ polls, ∀ head, poll.head = some head → head.number < n := by
  induction polls generalizing st with
  | nil => exact ⟨fun h => ⟨h, fun _ hmem => absurd hmem List.not_mem_nil⟩, fun h => h.1⟩
  | cons poll polls ih =>
    rw [run, ih, fetchLatestBlock_lastBlockNumber_lt, List.forall_mem_cons, and_assoc]

/-- The poll brings a head above every head polled before it. It is said of the polls alone, without
the state of the tracker. -/
def Poll.Accepts (poll : Poll) (before : List Poll) (head : Head) : Prop :=
  poll.head = some head ∧ ∀ earlier ∈ before, ∀ h, earlier.head = some h → h.number < head.number

/-- Every access is made by one of the polls. -/
theorem mem_run : e ∈ (run chainId st polls).2 ↔ ∃ before poll after,
    polls = before ++ poll :: after ∧
      e ∈ (fetchLatestBlock chainId (run chainId st before).1 poll).2 := by
  constructor
  · intro h
    induction polls generalizing st with
    | nil => exact absurd h List.not_mem_nil
    | cons poll polls ih =>
      rcases List.mem_append.mp h with h | h
      · exact ⟨[], poll, polls, rfl, h⟩
      · obtain ⟨before, poll', after, rfl, hmem⟩ := ih h
        exact ⟨poll :: before, poll', after, rfl, hmem⟩
  · rintro ⟨before, poll, after, rfl, h⟩
    rw [run_append]
    exact List.mem_append_right _ (List.mem_append_left _ h)

/-- An access that only the poll of an accepted head makes was made by a poll that brought a head
above all before it. -/
theorem mem_run_accepted (he : OfAccepted e) : e ∈ (run chainId .init polls).2 ↔
    ∃ before poll after head, polls = before ++ poll :: after ∧ poll.Accepts before head ∧
      e ∈ acceptHead chainId poll head := by
  have haccepts (before : List Poll) (poll : Poll) (head : Head) :
      (poll.head = some head ∧ (run chainId .init before).1.lastBlockNumber < head.number) ↔
        poll.Accepts before head := by
    rw [run_lastBlockNumber_lt, Poll.Accepts]
    exact and_congr_right fun _ => and_iff_right head.number_pos
  rw [mem_run]
  constructor
  · rintro ⟨before, poll, after, heq, h⟩
    obtain ⟨head, hhead, hlt, hmem⟩ := (mem_fetchLatestBlock he).mp h
    exact ⟨before, poll, after, head, heq, (haccepts before poll head).mp ⟨hhead, hlt⟩, hmem⟩
  · rintro ⟨before, poll, after, head, heq, haccepted, hmem⟩
    obtain ⟨hhead, hlt⟩ := (haccepts before poll head).mpr haccepted
    exact ⟨before, poll, after, heq, (mem_fetchLatestBlock he).mpr ⟨head, hhead, hlt, hmem⟩⟩

/-! ### The heads accepted and the heads announced -/

theorem announceLogs_filterMap {β : Type} {f : Effect → Option β} {resp : Option JsonRpcResponse}
    (hcache : ∀ logs, f (.cache (.cacheLogs n logs)) = none)
    (hsend : ∀ logs, f (.send (.newLogs chainId n logs)) = none) :
    (announceLogs chainId n resp).filterMap f = [] := by
  unfold announceLogs
  split <;> simp [hcache, hsend]

/-- Fetching the logs shows in no reading of the accesses that ignores logs and requests. -/
theorem fetchBlockLogs_filterMap {β : Type} {f : Effect → Option β}
    {resp : Option JsonRpcResponse}
    (hcall : ∀ method params, f (.call method params) = none)
    (hcache : ∀ logs, f (.cache (.cacheLogs n logs)) = none)
    (hsend : ∀ logs, f (.send (.newLogs chainId n logs)) = none) :
    (fetchBlockLogs chainId n resp).filterMap f = [] := by
  rw [fetchBlockLogs, logsRequest, List.filterMap_cons_none (hcall _ _),
    announceLogs_filterMap hcache hsend]

theorem acceptHead_filterMap {β : Type} {f : Effect → Option β}
    (hcall : ∀ method params, f (.call method params) = none)
    (hcache : ∀ n logs, f (.cache (.cacheLogs n logs)) = none)
    (hsend : ∀ n logs, f (.send (.newLogs chainId n logs)) = none) :
    (acceptHead chainId poll head).filterMap f =
      ([.cache (.cacheBlock head.number head.hash head.content)] : List Effect).filterMap f ++
        (announceHead chainId poll head).filterMap f ++
        ([.storeLatest head.number] : List Effect).filterMap f := by
  simp only [acceptHead, List.filterMap_append, List.append_nil,
    fetchBlockLogs_filterMap hcall (hcache _) (hsend _)]

theorem acceptHead_accepted :
    (acceptHead chainId poll head).filterMap Effect.accepted = [head.number] := by
  rw [acceptHead_filterMap (fun _ _ => rfl) (fun _ _ => rfl) (fun _ _ => rfl), announceHead]
  cases poll.wsConnected <;> rfl

theorem acceptHead_announced : (acceptHead chainId poll head).filterMap Effect.announced =
    if poll.wsConnected then [] else [head.number] := by
  rw [acceptHead_filterMap (fun _ _ => rfl) (fun _ _ => rfl) (fun _ _ => rfl), announceHead]
  cases poll.wsConnected <;> rfl

theorem acceptHead_stored :
    (acceptHead chainId poll head).filterMap Effect.stored = [head.number] := by
  rw [acceptHead_filterMap (fun _ _ => rfl) (fun _ _ => rfl) (fun _ _ => rfl), announceHead]
  cases poll.wsConnected <;> rfl

theorem mem_run_filterMap {f : Effect → Option ℕ} (hf : ∀ e m, f e = some m → OfAccepted e) :
    n ∈ (run chainId .init polls).2.filterMap f ↔
      ∃ before poll after head, polls = before ++ poll :: after ∧ poll.Accepts before head ∧
        n ∈ (acceptHead chainId poll head).filterMap f := by
  constructor
  · intro h
    obtain ⟨e, he, hn⟩ := List.mem_filterMap.mp h
    obtain ⟨before, poll, after, head, heq, haccepts, hmem⟩ := (mem_run_accepted (hf e n hn)).mp he
    exact ⟨before, poll, after, head, heq, haccepts, List.mem_filterMap.mpr ⟨e, hmem, hn⟩⟩
  · rintro ⟨before, poll, after, head, heq, haccepts, h⟩
    obtain ⟨e, hmem, hn⟩ := List.mem_filterMap.mp h
    exact List.mem_filterMap.mpr
      ⟨e, (mem_run_accepted (hf e n hn)).mpr ⟨before, poll, after, head, heq, haccepts, hmem⟩, hn⟩

theorem ofAccepted_of_announced (e : Effect) (m : ℕ) (h : e.announced = some m) : OfAccepted e := by
  unfold Effect.announced at h
  split at h
  · trivial
  · exact absurd h nofun

theorem ofAccepted_of_stored (e : Effect) (m : ℕ) (h : e.stored = some m) : OfAccepted e := by
  unfold Effect.stored at h
  split at h
  · trivial
  · exact absurd h nofun

theorem ofAccepted_of_accepted (e : Effect) (m : ℕ) (h : e.accepted = some m) : OfAccepted e := by
  unfold Effect.accepted at h
  split at h
  · trivial
  · exact absurd h nofun

theorem Poll.Accepts.le_lastBlockNumber {before after : List Poll}
    (h : poll.Accepts before head) :
    head.number ≤ (run chainId .init (before ++ poll :: after)).1.lastBlockNumber := by
  have hmem : poll ∈ before ++ poll :: after :=
    List.mem_append_right _ (List.mem_cons_self (a := poll))
  refine Nat.not_lt.mp fun hlt => ?_
  exact absurd ((run_lastBlockNumber_lt.mp hlt).2 poll hmem head h.1) (Nat.lt_irrefl _)

/-- Nothing that only accepted heads cause has a number above the last one. -/
theorem le_lastBlockNumber {f : Effect → Option ℕ} (hf : ∀ e m, f e = some m → OfAccepted e)
    (hhead : ∀ poll head, ∀ m ∈ (acceptHead chainId poll head).filterMap f, m = head.number)
    (h : n ∈ (run chainId .init polls).2.filterMap f) :
    n ≤ (run chainId .init polls).1.lastBlockNumber := by
  obtain ⟨before, poll, after, head, rfl, haccepts, hmem⟩ := (mem_run_filterMap hf).mp h
  rw [hhead poll head n hmem]
  exact haccepts.le_lastBlockNumber

/-- The polls accept the head `n` while the flag is set, so the tracker leaves its announcement to
the WebSocket session. -/
def Withheld (polls : List Poll) (n : ℕ) : Prop :=
  ∃ before poll after head, polls = before ++ poll :: after ∧ poll.Accepts before head ∧
    head.number = n ∧ poll.wsConnected = true

/-- A poll that did not find the flag set withholds nothing. -/
theorem withheld_append (h : poll.wsConnected = false) :
    Withheld (polls ++ [poll]) n ↔ Withheld polls n := by
  constructor
  · rintro ⟨before, poll', after, head, heq, haccepts, hn, hconnected⟩
    rcases List.eq_nil_or_concat' after with rfl | ⟨after, last, rfl⟩
    · obtain ⟨-, hpoll⟩ := List.append_inj' heq rfl
      obtain rfl := List.singleton_inj.mp hpoll
      exact absurd (h.symm.trans hconnected) nofun
    · rw [← List.cons_append, ← List.append_assoc] at heq
      exact ⟨before, poll', after, head, (List.append_inj' heq rfl).1, haccepts, hn, hconnected⟩
  · rintro ⟨before, poll', after, head, rfl, haccepts, hn, hconnected⟩
    exact ⟨before, poll', after ++ [poll], head, by simp, haccepts, hn, hconnected⟩

/-- Two polls that accept the same number are one poll. The second would not be above the first. -/
theorem accepts_unique {before before' after after' : List Poll} {poll' : Poll} {head' : Head}
    (heq : before ++ poll :: after = before' ++ poll' :: after')
    (h : poll.Accepts before head) (h' : poll'.Accepts before' head')
    (hnumber : head.number = head'.number) : poll = poll' := by
  rcases List.append_eq_append_iff.mp heq with ⟨mid, rfl, hmid⟩ | ⟨mid, rfl, hmid⟩
  · cases mid with
    | nil => exact (List.cons_eq_cons.mp hmid).1
    | cons first mid =>
      obtain ⟨rfl, -⟩ := List.cons_eq_cons.mp hmid
      exact absurd hnumber (h'.2 poll (by simp) head h.1).ne
  · cases mid with
    | nil => exact (List.cons_eq_cons.mp hmid).1.symm
    | cons first mid =>
      obtain ⟨rfl, -⟩ := List.cons_eq_cons.mp hmid
      exact absurd hnumber (h.2 poll' (by simp) head' h'.1).ne'

/-- An accepted head is announced or withheld. -/
theorem mem_accepted : n ∈ (run chainId .init polls).2.filterMap Effect.accepted ↔
    n ∈ (run chainId .init polls).2.filterMap Effect.announced ∨ Withheld polls n := by
  rw [mem_run_filterMap ofAccepted_of_accepted, mem_run_filterMap ofAccepted_of_announced]
  simp only [acceptHead_accepted, acceptHead_announced, List.mem_singleton]
  constructor
  · rintro ⟨before, poll, after, head, heq, haccepts, rfl⟩
    cases hconnected : poll.wsConnected with
    | true => exact .inr ⟨before, poll, after, head, heq, haccepts, rfl, hconnected⟩
    | false => exact .inl ⟨before, poll, after, head, heq, haccepts, by simp [hconnected]⟩
  · rintro (⟨before, poll, after, head, heq, haccepts, hmem⟩ |
      ⟨before, poll, after, head, heq, haccepts, rfl, -⟩)
    · split_ifs at hmem
      · exact absurd hmem List.not_mem_nil
      · exact ⟨before, poll, after, head, heq, haccepts, List.mem_singleton.mp hmem⟩
    · exact ⟨before, poll, after, head, heq, haccepts, rfl⟩

/-- The tracker does not go back to a head it withheld. Another poll of the same number is ignored.
-/
theorem Withheld.not_announced (h : Withheld polls n) :
    n ∉ (run chainId .init polls).2.filterMap Effect.announced := by
  obtain ⟨before, poll, after, head, heq, haccepts, hn, hconnected⟩ := h
  rw [mem_run_filterMap ofAccepted_of_announced]
  rintro ⟨before', poll', after', head', heq', haccepts', hmem⟩
  rw [acceptHead_announced] at hmem
  split_ifs at hmem with hflag
  · exact absurd hmem List.not_mem_nil
  · have hnumber : head.number = head'.number := hn.trans (List.mem_singleton.mp hmem)
    have hpoll := accepts_unique (heq.symm.trans heq') haccepts haccepts' hnumber
    exact hflag (hpoll ▸ hconnected)

/-! ### The blocks whose logs are announced -/

theorem mem_acceptHead_newLogs {logs : Value} :
    .send (.newLogs chainId n logs) ∈ acceptHead chainId poll head ↔
      head.number = n ∧ poll.fetchedLogs = some logs := by
  have hannounce : .send (.newLogs chainId n logs) ∉ announceHead chainId poll head := by
    unfold announceHead
    split_ifs <;> simp [newBlockEvent]
  unfold acceptHead fetchBlockLogs announceLogs logsRequest Poll.fetchedLogs
  simp only [List.mem_append, hannounce]
  cases poll.logs.bind JsonRpcResponse.result with
  | none => simp
  | some fetched => simp [eq_comm]

/-- **Whatever the polls return, the logs of a block are announced exactly when the block was polled
as a new head and the log fetch of that poll had a result; they are then the logs announced.** -/
theorem newLogs_sent_iff (chainId : ℕ) (polls : List Poll) (n : ℕ) (logs : Value) :
    .send (.newLogs chainId n logs) ∈ (run chainId .init polls).2 ↔
      ∃ before poll after head, polls = before ++ poll :: after ∧ poll.Accepts before head ∧
        head.number = n ∧ poll.fetchedLogs = some logs := by
  rw [mem_run_accepted (e := .send (.newLogs chainId n logs)) trivial]
  simp only [mem_acceptHead_newLogs]

/-- Every number from the first accepted head up to the last has had its logs announced. This is
what a subscriber might expect and what a tip follower does not promise. -/
def LogsComplete (chainId : ℕ) (polls : List Poll) : Prop :=
  ∀ first ∈ ((run chainId .init polls).2.filterMap Effect.accepted).head?, ∀ n, first ≤ n →
    n ≤ (run chainId .init polls).1.lastBlockNumber →
    ∃ logs, .send (.newLogs chainId n logs) ∈ (run chainId .init polls).2

/-- A poll that finds a block and, later, its logs. -/
def pollOf (number hash : String) : Poll where
  block := some (.success (.ofU64 1)
    (.object [("number", .string number), ("hash", .string hash)]))
  wsConnected := false
  logs := some (.success (.ofU64 1) (.array []))

/-- The head moves from 10 to 12 between two polls. -/
def skippedHead : List Poll := [pollOf "0xa" "0xh10", pollOf "0xc" "0xh12"]

/-- Block 11 is never looked at. -/
theorem skippedHead_not_logsComplete : ¬ LogsComplete 1 skippedHead := by
  intro h
  obtain ⟨logs, hsent⟩ := h 10 (by decide) 11 (by decide) (by decide)
  obtain ⟨before, poll, after, head, heq, haccepts, hmem⟩ :=
    (mem_run_accepted (e := .send (.newLogs 1 11 logs)) trivial).mp hsent
  have hpoll : poll ∈ skippedHead := heq ▸ by simp
  have hnumber : poll.head.map Head.number = some 11 := by
    rw [haccepts.1, Option.map_some, (mem_acceptHead_newLogs.mp hmem).1]
  rcases List.mem_pair.mp hpoll with rfl | rfl <;> exact absurd hnumber (by decide)

end BlockTracker

end Poolbeg
