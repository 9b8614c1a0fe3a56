import Poolbeg.Upstream.Tracker

/-!
# The WebSocket subscriber

The embedding of `upstream/ws_subscriber.rs`. A session connects to an upstream, asks for its new
heads, waits for the id of the subscription, raises `ws_connected`, and from then on forwards every
notification of its own subscription whose number is above the last one it forwarded, starting from
`0`. When the session ends, for whatever reason, the flag is lowered and the next session begins.

## Frames

`readSubscriptionId` and `forwardFrame` are the bodies of the two reading loops, one frame at a
time. A text frame is what `serde_json` reads from it. In the first loop a text that does not parse
ends the session, and in the second it is skipped; messages of other kinds are skipped in both. A
ping is answered in the source and is nothing else to the session.

## What one step is

`subscriberStep` is the main loop, split where it accesses what it shares with the tracker: raising
the flag, storing a number, announcing a head, and lowering the flag are steps of their own. A head
that is forwarded is first stored and then announced, so the two may be apart.

Each session has a number, and starts from `0` again. Within a session numbers only rise, and that
is all that is promised: what an earlier session has forwarded is forgotten.

## Main definitions

* `Frame`, `readSubscriptionId`, `forwardFrame` — reading
* `SubscriberTask`, `SubscriberAction`, `subscriberStep`, `SubscriberMove` — the sessions
* `SubscriberInv` — the accesses of the current session keep to what its phase allows

## Main results

* `readHeader_eq_headOfBlock` — both sources read a head the same way
* `SubscriberMove.inv` — a step keeps `SubscriberInv`
* `SubscriberInv.lt_announces`, `SubscriberInv.lt_stores` — a session announces and stores upwards
-/

namespace Poolbeg

/-- What `read.next()` yields; a text is what `serde_json` reads from it, if it reads at all.
`other` is a binary frame or a pong. -/
inductive Frame
  | text (json : Option Value)
  | ping
  | other
  | close
  | error
  | eof

namespace WsSubscriber

/-! ### Reading -/

/-- The outcome of a frame while the session waits for its subscription. -/
inductive Confirmation
  | waiting
  | confirmed (subId : String)
  | failed

/-- The body of the loop of `read_subscription_id`. The request was sent with id `1`, and whatever
has another id is passed over. -/
def readSubscriptionId : Frame → Confirmation
  | .text none => .failed
  | .text (some parsed) =>
    match parsed.get "id" with
    | some (.number (.posInt 1 _)) =>
      match parsed.get "result" with
      | some result =>
        let subId := result.asStr.getD ""
        if subId = "" then .failed else .confirmed subId
      | none => if (parsed.get "error").isSome then .failed else .waiting
    | _ => .waiting
  | .ping | .other => .waiting
  | .close | .error | .eof => .failed

/-- The head in a header; an unreadable number counts as `0`. -/
def readHeader (header : Value) : Option Head :=
  let number := (((header.get "number").bind Value.asStr).bind parseQuantity).getD 0
  let hash := ((header.get "hash").bind Value.asStr).getD ""
  Head.ofParts number hash header

/-- The head a message of the subscription notifies, if it is one and the head names itself.
Messages of other subscriptions are none. -/
def readNotification (subId : String) (parsed : Value) : Option Head :=
  if (parsed.get "method").bind Value.asStr ≠ some "eth_subscription" then none
  else
    match parsed.get "params" with
    | none => none
    | some params =>
      if ((params.get "subscription").bind Value.asStr).getD "" ≠ subId then none
      else
        match params.get "result" with
        | none => none
        | some header => readHeader header

/-- The outcome of a frame while the session forwards. -/
inductive Forward
  | skip
  | forward (head : Head)
  | stop

/-- The body of the loop of `forward_notifications`. The comparison is with the last number of this
session. -/
def forwardFrame (subId : String) (lastBlockNumber : ℕ) : Frame → Forward
  | .text none => .skip
  | .text (some parsed) =>
    match readNotification subId parsed with
    | none => .skip
    | some head => if head.number ≤ lastBlockNumber then .skip else .forward head
  | .ping | .other => .skip
  | .close | .error | .eof => .stop

/-- The tracker and the subscriber read a head the same way. -/
theorem readHeader_eq_headOfBlock (v : Value) : readHeader v = BlockTracker.headOfBlock v := by
  have hnumber : (((v.get "number").bind Value.asStr).bind parseQuantity).getD 0 =
      (parseQuantity ((v.index "number").asStr.getD "0x0")).getD 0 := by
    have hzero : (parseQuantity "0x0").getD 0 = 0 := by decide
    unfold Value.index
    rcases v.get "number" with _ | (_ | _ | _ | s | _ | _)
    case some.string => rfl
    all_goals exact hzero.symm
  have hhash : ((v.get "hash").bind Value.asStr).getD "" = (v.index "hash").asStr.getD "" := by
    unfold Value.index
    rcases v.get "hash" with _ | _ <;> rfl
  simp only [readHeader, BlockTracker.headOfBlock, hnumber, hhash]

theorem lt_of_forward {subId : String} {lastBlockNumber : ℕ} {frame : Frame} {head : Head}
    (h : forwardFrame subId lastBlockNumber frame = .forward head) :
    lastBlockNumber < head.number := by
  unfold forwardFrame at h
  split at h
  case h_2 parsed =>
    split at h
    · exact absurd h nofun
    · split_ifs at h with hle
      cases h
      exact Nat.lt_of_not_le hle
  all_goals exact absurd h nofun

/-- A head that is skipped is not above the last one. The other frames that are skipped notify of
none. -/
theorem le_of_skip {subId : String} {lastBlockNumber : ℕ} {parsed : Value} {head : Head}
    (h : forwardFrame subId lastBlockNumber (.text (some parsed)) = .skip)
    (hhead : readNotification subId parsed = some head) : head.number ≤ lastBlockNumber := by
  simp only [forwardFrame, hhead] at h
  split_ifs at h with hle
  exact hle

/-- A head that is forwarded is the one the frame notifies of. -/
theorem readNotification_of_forward {subId : String} {lastBlockNumber : ℕ} {frame : Frame}
    {head : Head} (h : forwardFrame subId lastBlockNumber frame = .forward head) :
    ∃ parsed, frame = .text (some parsed) ∧ readNotification subId parsed = some head := by
  unfold forwardFrame at h
  split at h
  case h_2 parsed =>
    split at h
    · exact absurd h nofun
    · rename_i hhead
      split_ifs at h
      cases h
      exact ⟨parsed, rfl, hhead⟩
  all_goals exact absurd h nofun

/-- The answer to `eth_subscribe`. -/
def confirmationMsg (subId : String) : Frame :=
  .text (some (.object [("jsonrpc", .string "2.0"), ("id", .ofU64 1), ("result", .string subId)]))

/-- A notification of a new head, as an upstream sends it. -/
def newHeadsMsg (subId number hash : String) : Frame :=
  .text (some (.object [("jsonrpc", .string "2.0"), ("method", .string "eth_subscription"),
    ("params", .object [("subscription", .string subId),
      ("result", .object [("number", .string number), ("hash", .string hash),
        ("parentHash", .string "0x0000")])])]))

/-! ### The sessions -/

/-- Where the subscriber stands: between sessions, waiting for the id of its subscription, about to
raise the flag, forwarding, about to announce a head it has stored, or about to lower the flag. -/
inductive SubscriberPhase
  | disconnected
  | subscribing
  | confirmed (subId : String)
  | forwarding (subId : String) (lastBlockNumber : ℕ)
  | announcing (subId : String) (head : Head)
  | ended

/-- The subscriber: the number of its sessions so far and where it stands. -/
structure SubscriberTask where
  session : ℕ
  phase : SubscriberPhase

/-- The sessions have not begun. -/
def SubscriberTask.init : SubscriberTask where
  session := 0
  phase := .disconnected

inductive SubscriberAction
  | connect (ok : Bool)
  | timeout
  | frame (f : Frame)
  | setConnected
  | announce
  | clearConnected

def SubscriberTask.moveTo (w : SubscriberTask) (phase : SubscriberPhase) : SubscriberTask :=
  { w with phase := phase }

variable (chainId : ℕ)

/-- One step of the subscriber and the accesses it makes. A round of the main loop that finds no
upstream with a `ws_url` changes nothing and is no step. -/
def subscriberStep (w : SubscriberTask) : SubscriberAction → Option (SubscriberTask × List Effect)
  | .connect ok =>
    match w.phase with
    | .disconnected =>
      -- connecting, or sending the request, may fail
      let phase : SubscriberPhase := if ok then .subscribing else .ended
      some ({ session := w.session + 1, phase := phase }, [])
    | _ => none
  | .timeout =>
    match w.phase with
    | .subscribing => some (w.moveTo .ended, [])
    | _ => none
  | .frame f =>
    match w.phase with
    | .subscribing =>
      match readSubscriptionId f with
      | .waiting => some (w, [])
      | .confirmed subId => some (w.moveTo (.confirmed subId), [])
      | .failed => some (w.moveTo .ended, [])
    | .forwarding subId lastBlockNumber =>
      match forwardFrame subId lastBlockNumber f with
      | .skip => some (w, [])
      | .forward head => some (w.moveTo (.announcing subId head), [.storeLatest head.number])
      | .stop => some (w.moveTo .ended, [])
    | _ => none
  | .setConnected =>
    match w.phase with
    | .confirmed subId => some (w.moveTo (.forwarding subId 0), [.storeConnected true])
    | _ => none
  | .announce =>
    match w.phase with
    | .announcing subId head =>
      some (w.moveTo (.forwarding subId head.number),
        [.send (.newBlock chainId head.number head.hash head.content)])
    | _ => none
  | .clearConnected =>
    match w.phase with
    | .ended => some (w.moveTo .disconnected, [.storeConnected false])
    | _ => none

/-- What a step of the subscriber does, branch by branch. -/
inductive SubscriberMove (w : SubscriberTask) :
    SubscriberAction → SubscriberTask → List Effect → Prop
  | connect {ok : Bool} {phase : SubscriberPhase} (hphase : w.phase = .disconnected)
      (hnext : phase = .subscribing ∨ phase = .ended) :
      SubscriberMove w (.connect ok) { session := w.session + 1, phase := phase } []
  | timeout (hphase : w.phase = .subscribing) :
      SubscriberMove w .timeout (w.moveTo .ended) []
  | subscribing {f : Frame} {phase : SubscriberPhase} (hphase : w.phase = .subscribing)
      (hnext : phase = .subscribing ∨ (∃ subId, phase = .confirmed subId) ∨ phase = .ended) :
      SubscriberMove w (.frame f) (w.moveTo phase) []
  | setConnected {subId : String} (hphase : w.phase = .confirmed subId) :
      SubscriberMove w .setConnected (w.moveTo (.forwarding subId 0)) [.storeConnected true]
  | skip {subId : String} {lastBlockNumber : ℕ} {f : Frame}
      (hphase : w.phase = .forwarding subId lastBlockNumber)
      (hframe : forwardFrame subId lastBlockNumber f = .skip) :
      SubscriberMove w (.frame f) w []
  | forward {subId : String} {lastBlockNumber : ℕ} {f : Frame} {head : Head}
      (hphase : w.phase = .forwarding subId lastBlockNumber)
      (hframe : forwardFrame subId lastBlockNumber f = .forward head) :
      SubscriberMove w (.frame f) (w.moveTo (.announcing subId head)) [.storeLatest head.number]
  | stop {subId : String} {lastBlockNumber : ℕ} {f : Frame}
      (hphase : w.phase = .forwarding subId lastBlockNumber)
      (hframe : forwardFrame subId lastBlockNumber f = .stop) :
      SubscriberMove w (.frame f) (w.moveTo .ended) []
  | announce {subId : String} {head : Head} (hphase : w.phase = .announcing subId head) :
      SubscriberMove w .announce (w.moveTo (.forwarding subId head.number))
        [.send (.newBlock chainId head.number head.hash head.content)]
  | clearConnected (hphase : w.phase = .ended) :
      SubscriberMove w .clearConnected (w.moveTo .disconnected) [.storeConnected false]

variable {chainId} {w w' : SubscriberTask} {a : SubscriberAction} {es : List Effect}

theorem subscriberMove (h : subscriberStep chainId w a = some (w', es)) :
    SubscriberMove chainId w a w' es := by
  cases a with
  | connect ok =>
    simp only [subscriberStep] at h
    split at h
    · rename_i hphase
      cases h
      exact .connect hphase (by cases ok <;> simp)
    · exact absurd h nofun
  | timeout =>
    simp only [subscriberStep] at h
    split at h
    · rename_i hphase
      cases h
      exact .timeout hphase
    · exact absurd h nofun
  | frame f =>
    simp only [subscriberStep] at h
    split at h
    · rename_i hphase
      split at h <;> cases h
      · have hself : w.moveTo .subscribing = w := by rw [SubscriberTask.moveTo, ← hphase]
        have hmove : SubscriberMove chainId w (.frame f) (w.moveTo .subscribing) [] :=
          .subscribing hphase (.inl rfl)
        rwa [hself] at hmove
      · exact .subscribing hphase (.inr (.inl ⟨_, rfl⟩))
      · exact .subscribing hphase (.inr (.inr rfl))
    · rename_i hphase
      split at h <;> rename_i hframe <;> cases h
      · exact .skip hphase hframe
      · exact .forward hphase hframe
      · exact .stop hphase hframe
    · exact absurd h nofun
  | setConnected =>
    simp only [subscriberStep] at h
    split at h
    · rename_i hphase
      cases h
      exact .setConnected hphase
    · exact absurd h nofun
  | announce =>
    simp only [subscriberStep] at h
    split at h
    · rename_i hphase
      cases h
      exact .announce hphase
    · exact absurd h nofun
  | clearConnected =>
    simp only [subscriberStep] at h
    split at h
    · rename_i hphase
      cases h
      exact .clearConnected hphase
    · exact absurd h nofun

/-! ### The order within a session -/

/-- The number a step of the subscriber is about to announce. -/
def SubscriberTask.announces (w : SubscriberTask) : SubscriberAction → Option ℕ
  | .announce =>
    match w.phase with
    | .announcing _ head => some head.number
    | _ => none
  | _ => none

/-- The number a step of the subscriber is about to store: that of a frame that is forwarded. -/
def SubscriberTask.stores (w : SubscriberTask) : SubscriberAction → Option ℕ
  | .frame f =>
    match w.phase with
    | .forwarding subId lastBlockNumber =>
      match forwardFrame subId lastBlockNumber f with
      | .forward head => some head.number
      | _ => none
    | _ => none
  | _ => none

/-- The head a step of the subscriber is notified of, by a message of the session's own
subscription. It is forwarded only if it is above the last one. -/
def SubscriberTask.notifies (w : SubscriberTask) : SubscriberAction → Option Head
  | .frame (.text (some parsed)) =>
    match w.phase with
    | .forwarding subId _ => readNotification subId parsed
    | _ => none
  | _ => none

theorem SubscriberMove.announced (h : SubscriberMove chainId w a w' es) :
    es.filterMap Effect.announced = (w.announces a).toList := by
  cases h with
  | announce hphase => simp [SubscriberTask.announces, hphase, Effect.announced]
  | _ => rfl

theorem SubscriberMove.stored (h : SubscriberMove chainId w a w' es) :
    es.filterMap Effect.stored = (w.stores a).toList := by
  cases h with
  | subscribing hphase => simp [SubscriberTask.stores, hphase]
  | skip hphase hframe => simp [SubscriberTask.stores, hphase, hframe]
  | forward hphase hframe => simp [SubscriberTask.stores, hphase, hframe, Effect.stored]
  | stop hphase hframe => simp [SubscriberTask.stores, hphase, hframe]
  | _ => rfl

/-- What the accesses of the current session have announced and stored so far. While a head is about
to be announced, it is stored already. -/
def SubscriberPhase.Bounds : SubscriberPhase → List Effect → Prop
  | .subscribing, own | .confirmed _, own => ∀ e ∈ own, e.announced = none ∧ e.stored = none
  | .forwarding _ lastBlockNumber, own => ∀ e ∈ own, ∀ n,
      (e.announced = some n → n ≤ lastBlockNumber) ∧ (e.stored = some n → n ≤ lastBlockNumber)
  | .announcing _ head, own => ∀ e ∈ own, ∀ n,
      (e.announced = some n → n < head.number) ∧ (e.stored = some n → n ≤ head.number)
  | _, _ => True

/-- The sessions to come have done nothing, and the current one keeps to its phase. Nothing is said
of the earlier ones. -/
structure SubscriberInv (w : SubscriberTask) (own : ℕ → List Effect) : Prop where
  future : ∀ k, w.session < k → own k = []
  current : w.phase.Bounds (own w.session)

variable {own : ℕ → List Effect}

/-- A step within a session, which does what the next phase allows. -/
theorem SubscriberInv.moveTo (hw : SubscriberInv w own) {phase : SubscriberPhase}
    (hbounds : phase.Bounds (own w.session ++ es)) :
    SubscriberInv (w.moveTo phase)
      (Function.update own w.session (own w.session ++ es)) where
  future k hk := by
    have hne : k ≠ w.session := Nat.ne_of_gt hk
    rw [Function.update_of_ne hne]
    exact hw.future k hk
  current := by
    show phase.Bounds (Function.update own w.session (own w.session ++ es) w.session)
    rw [Function.update_self]
    exact hbounds

theorem SubscriberMove.inv (hw : SubscriberInv w own) (h : SubscriberMove chainId w a w' es) :
    SubscriberInv w' (Function.update own w'.session (own w'.session ++ es)) := by
  have hcurrent := hw.current
  cases h with
  | @connect _ phase hphase hnext =>
    have hnew : own (w.session + 1) = [] := hw.future _ (Nat.lt_succ_self _)
    have hown : Function.update own (w.session + 1) (own (w.session + 1) ++ []) = own := by
      rw [List.append_nil, Function.update_eq_self]
    show SubscriberInv _ (Function.update own (w.session + 1) (own (w.session + 1) ++ []))
    rw [hown]
    refine ⟨fun k hk => hw.future k (Nat.lt_of_succ_lt hk), ?_⟩
    show phase.Bounds (own (w.session + 1))
    rw [hnew]
    rcases hnext with rfl | rfl
    · exact fun e he => absurd he List.not_mem_nil
    · trivial
  | timeout hphase => exact hw.moveTo trivial
  | subscribing hphase hnext =>
    rw [hphase] at hcurrent
    refine hw.moveTo ?_
    rw [List.append_nil]
    rcases hnext with rfl | ⟨subId, rfl⟩ | rfl
    · exact hcurrent
    · exact hcurrent
    · trivial
  | setConnected hphase =>
    rw [hphase] at hcurrent
    refine hw.moveTo (List.forall_mem_append.mpr ⟨fun e he n => ?_, ?_⟩)
    · obtain ⟨hannounced, hstored⟩ := hcurrent e he
      exact ⟨fun hn => absurd (hannounced.symm.trans hn) nofun,
        fun hn => absurd (hstored.symm.trans hn) nofun⟩
    · exact List.forall_mem_singleton.mpr fun n => ⟨nofun, nofun⟩
  | skip hphase hframe =>
    rw [List.append_nil, Function.update_eq_self]
    exact hw
  | forward hphase hframe =>
    have hlt := lt_of_forward hframe
    rw [hphase] at hcurrent
    refine hw.moveTo (List.forall_mem_append.mpr ⟨fun e he n => ?_, ?_⟩)
    · obtain ⟨hannounced, hstored⟩ := hcurrent e he n
      exact ⟨fun hn => (hannounced hn).trans_lt hlt, fun hn => ((hstored hn).trans_lt hlt).le⟩
    · exact List.forall_mem_singleton.mpr fun n => ⟨nofun, fun hn => (Option.some.inj hn).ge⟩
  | stop hphase hframe => exact hw.moveTo trivial
  | announce hphase =>
    rw [hphase] at hcurrent
    refine hw.moveTo (List.forall_mem_append.mpr ⟨fun e he n => ?_, ?_⟩)
    · obtain ⟨hannounced, hstored⟩ := hcurrent e he n
      exact ⟨fun hn => (hannounced hn).le, hstored⟩
    · exact List.forall_mem_singleton.mpr fun n => ⟨fun hn => (Option.some.inj hn).ge, nofun⟩
  | clearConnected hphase => exact hw.moveTo trivial

theorem SubscriberTask.announces_eq_some {n : ℕ} (h : w.announces a = some n) :
    ∃ subId head, w.phase = .announcing subId head ∧ head.number = n := by
  unfold SubscriberTask.announces at h
  split at h
  · split at h
    · rename_i subId head hphase
      exact ⟨subId, head, hphase, Option.some.inj h⟩
    · exact absurd h nofun
  · exact absurd h nofun

theorem SubscriberTask.stores_eq_some {n : ℕ} (h : w.stores a = some n) :
    ∃ subId lastBlockNumber, w.phase = .forwarding subId lastBlockNumber ∧
      lastBlockNumber < n := by
  unfold SubscriberTask.stores at h
  split at h
  · split at h
    · rename_i subId lastBlockNumber hphase
      split at h
      · rename_i head hframe
        exact ⟨subId, lastBlockNumber, hphase, Option.some.inj h ▸ lt_of_forward hframe⟩
      · exact absurd h nofun
    · exact absurd h nofun
  · exact absurd h nofun

/-- A session announces above what it has announced itself. -/
theorem SubscriberInv.lt_announces (hw : SubscriberInv w own) {m n : ℕ} {e : Effect}
    (he : e ∈ own w.session) (hm : e.announced = some m) (hn : w.announces a = some n) :
    m < n := by
  obtain ⟨subId, head, hphase, rfl⟩ := SubscriberTask.announces_eq_some hn
  have hcurrent := hw.current
  rw [hphase] at hcurrent
  exact (hcurrent e he m).1 hm

/-- A session stores above what it has stored. -/
theorem SubscriberInv.lt_stores (hw : SubscriberInv w own) {m n : ℕ} {e : Effect}
    (he : e ∈ own w.session) (hm : e.stored = some m) (hn : w.stores a = some n) : m < n := by
  obtain ⟨subId, lastBlockNumber, hphase, hlt⟩ := SubscriberTask.stores_eq_some hn
  have hcurrent := hw.current
  rw [hphase] at hcurrent
  exact ((hcurrent e he m).2 hm).trans_lt hlt

end WsSubscriber

end Poolbeg
