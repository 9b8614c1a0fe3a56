import Poolbeg.Records
import Poolbeg.Upstream.WsSubscriber

/-!
# What a session forwards

`forward_notifications` from the first frame to the last. Before it compares numbers it has a dozen
reasons to skip a frame; none of them touches the last number, and what is left is the list of the
heads that the session was notified of (`Notifies`). Of these it forwards the records: the heads
above all heads notified before. It returns on the first frame that closes or ends the session, and
what comes after that is not read.

## From the code to the list

The reasons to skip a frame are lookups that fail: no text, no JSON, another method, no parameters,
another subscription, no result, a number or a hash that is missing or not a string, or a number
that does not parse. `Notifies` states the opposite of all of them at once, in the terms of the
protocol, and `notification_eq_some_iff` is the equivalence. After that only heads and their numbers
are left, and the loop is the general fact about records of a list.

The function is the reading loop of `subscriberStep` run to its end (`runSubscriber_forwardSteps`),
so what is said about lists of frames is true of the sessions in any interleaving.

## Main definitions

* `Frame.stops`, `Frame.notification`, `Notifies` — what a frame is
* `forwardNotifications` — the loop

## Main results

* `notification_eq_some_iff` — which frames are not skipped
* `forwardNotifications_eq`, `forwardNotifications_spec` — what a session forwards
* `runSubscriber_forwardSteps` — the same of the task
-/

namespace Poolbeg

open Records

/-- `forward_notifications` returns on the frame. -/
def Frame.stops : Frame → Bool
  | .close | .error | .eof => true
  | _ => false

/-- An event an access sends. -/
def Effect.sent : Effect → Option BlockEvent
  | .send event => some event
  | _ => none

namespace WsSubscriber

/-! ### The loop -/

section Forward

variable (chainId : ℕ) (subId : String)

/-- What is done with a head that is forwarded. -/
def forwardHead (head : Head) : List Effect :=
  [.storeLatest head.number, .send (.newBlock chainId head.number head.hash head.content)]

/-- `forward_notifications` with the last number it has forwarded: the accesses it makes, and the
frames that are left when it has returned. `none` is a session that still goes on. -/
def forwardNotifications : ℕ → List Frame → List Effect × Option (List Frame)
  | _, [] => ([], none)
  | lastBlockNumber, frame :: frames =>
    match forwardFrame subId lastBlockNumber frame with
    | .skip => forwardNotifications lastBlockNumber frames
    | .forward head =>
      let rest := forwardNotifications head.number frames
      (forwardHead chainId head ++ rest.1, rest.2)
    | .stop => ([], some frames)

/-- The head that a frame notifies the subscription of. -/
def Frame.notification : Frame → Option Head
  | .text (some parsed) => readNotification subId parsed
  | _ => none

end Forward

variable {chainId : ℕ} {subId : String} {frame : Frame} {frames : List Frame} {head : Head}
  {header : Value} {n lastBlockNumber : ℕ}

/-! ### Notifications -/

/-- A frame that notifies the subscription of a head: the header names itself by a number and a
hash, both of them strings. What else is in the message does not matter. -/
structure Notifies (subId : String) (frame : Frame) (head : Head) : Prop where
  message : ∃ parsed params, frame = .text (some parsed) ∧
    parsed.get "method" = some (.string "eth_subscription") ∧ parsed.get "params" = some params ∧
    params.get "subscription" = some (.string subId) ∧ params.get "result" = some head.content
  number : ∃ s, head.content.get "number" = some (.string s) ∧ parseQuantity s = some head.number
  hash : head.content.get "hash" = some (.string head.hash)

theorem ofParts_eq_some_iff {hash : String} : Head.ofParts n hash header = some head ↔
    n = head.number ∧ hash = head.hash ∧ header = head.content := by
  obtain ⟨number, hash', content, hpos, hne⟩ := head
  rw [Head.ofParts]
  split_ifs with h
  · refine iff_of_false (by simp) ?_
    rintro ⟨rfl, rfl, -⟩
    exact h.elim hpos.ne' hne
  · simp

theorem getD_eq_iff {α : Type} {o : Option α} {a d : α} (h : a ≠ d) :
    o.getD d = a ↔ o = some a := by
  cases o with
  | none => simpa using h.symm
  | some b => simp

theorem readHeader_eq_some_iff : readHeader header = some head ↔
    header = head.content ∧
      (∃ s, header.get "number" = some (.string s) ∧ parseQuantity s = some head.number) ∧
      header.get "hash" = some (.string head.hash) := by
  rw [readHeader, ofParts_eq_some_iff, getD_eq_iff head.number_pos.ne', getD_eq_iff head.hash_ne]
  simp only [Option.bind_eq_some_iff, Value.asStr_eq_some, exists_eq_right]
  constructor
  · rintro ⟨⟨s, hs⟩, hhash, hcontent⟩
    exact ⟨hcontent, ⟨s, hs⟩, hhash⟩
  · rintro ⟨hcontent, ⟨s, hs⟩, hhash⟩
    exact ⟨⟨s, hs⟩, hhash, hcontent⟩

/-- **A frame that is not skipped notifies the session of a head**, and the other way round. A
session has a subscription id, so a message without one is not taken for its own. -/
theorem notification_eq_some_iff (hsub : subId ≠ "") :
    Frame.notification subId frame = some head ↔ Notifies subId frame head := by
  constructor
  · intro h
    unfold Frame.notification at h
    split at h
    · rename_i parsed
      unfold readNotification at h
      split at h
      · cases h
      rename_i hmethod
      split at h
      · cases h
      rename_i params hparams
      split at h
      · cases h
      rename_i hid
      split at h
      · cases h
      rename_i header hresult
      obtain ⟨rfl, hnumber, hhash⟩ := readHeader_eq_some_iff.mp h
      simp only [ne_eq, not_not, getD_eq_iff hsub, Option.bind_eq_some_iff, Value.asStr_eq_some,
        exists_eq_right] at hmethod hid
      exact ⟨⟨parsed, params, rfl, hmethod, hparams, hid, hresult⟩, hnumber, hhash⟩
    · cases h
  · rintro ⟨⟨parsed, params, rfl, hmethod, hparams, hid, hresult⟩, hnumber, hhash⟩
    rw [Frame.notification, readNotification, hmethod, hparams]
    simp only [Option.bind_some, Value.asStr_string, ne_eq, not_true_eq_false, if_false, hid,
      Option.getD_some, hresult]
    exact readHeader_eq_some_iff.mpr ⟨rfl, hnumber, hhash⟩

/-- A frame that does not stop the loop is forwarded when it notifies of a head above the last. -/
theorem forwardFrame_of_not_stops (h : frame.stops = false) :
    forwardFrame subId lastBlockNumber frame =
      match Frame.notification subId frame with
      | none => .skip
      | some head => if head.number ≤ lastBlockNumber then .skip else .forward head := by
  cases frame with
  | text json => cases json <;> rfl
  | ping => rfl
  | other => rfl
  | close => cases h
  | error => cases h
  | eof => cases h

theorem forwardFrame_of_stops (h : frame.stops = true) :
    forwardFrame subId lastBlockNumber frame = .stop := by
  cases frame <;> first | rfl | cases h

/-! ### The frames of a session -/

/-- The heads that a session is notified of before it stops, in their order. -/
def notified (subId : String) (frames : List Frame) : List Head :=
  (frames.takeWhile fun frame => !frame.stops).filterMap (Frame.notification subId)

/-- **The loop forwards the records of what it is notified of**, and leaves what comes after the
frame that stops it. -/
theorem forwardNotifications_eq (chainId : ℕ) (subId : String) (lastBlockNumber : ℕ)
    (frames : List Frame) :
    forwardNotifications chainId subId lastBlockNumber frames =
      ((recordsAbove Head.number lastBlockNumber (notified subId frames)).flatMap
          (forwardHead chainId),
        (frames.dropWhile fun frame => !frame.stops).tail?) := by
  induction frames generalizing lastBlockNumber with
  | nil => rfl
  | cons frame frames ih =>
    cases hstops : frame.stops with
    | true =>
      rw [forwardNotifications, forwardFrame_of_stops hstops]
      simp [notified, hstops, recordsAbove]
    | false =>
      rw [forwardNotifications, forwardFrame_of_not_stops hstops]
      cases hhead : Frame.notification subId frame with
      | none => simp [notified, hstops, hhead, ih]
      | some head =>
        by_cases hle : head.number ≤ lastBlockNumber
        · simp [notified, hstops, hhead, ih, hle, recordsAbove, Nat.not_lt.mpr hle]
        · simp [notified, hstops, hhead, ih, hle, recordsAbove, Nat.not_le.mp hle]

/-- What is read off the accesses that forward some heads. -/
theorem filterMap_forwardHead {β : Type} {f : Effect → Option β} {g : Head → β}
    (h : ∀ head, (forwardHead chainId head).filterMap f = [g head]) (heads : List Head) :
    (heads.flatMap (forwardHead chainId)).filterMap f = heads.map g := by
  rw [List.filterMap_flatMap, List.map_eq_flatMap]
  simp only [h]

/-- **What a session sends, stores last and leaves unread**, from its first frame on. The session
begins from the number 0, so its first head is always forwarded. -/
theorem forwardNotifications_spec (chainId : ℕ) (subId : String) (hsub : subId ≠ "")
    (frames : List Frame) :
    (∀ frame head, Frame.notification subId frame = some head ↔ Notifies subId frame head) ∧
    (forwardNotifications chainId subId 0 frames).1.filterMap Effect.sent =
      (records Head.number (notified subId frames)).map (fun head =>
        .newBlock chainId head.number head.hash head.content) ∧
    ((forwardNotifications chainId subId 0 frames).1.filterMap Effect.stored).getLast? =
      (records Head.number (notified subId frames)).getLast?.map Head.number ∧
    (forwardNotifications chainId subId 0 frames).2 =
      (frames.dropWhile fun frame => !frame.stops).tail? := by
  have hrecords : recordsAbove Head.number 0 (notified subId frames) =
      records Head.number (notified subId frames) :=
    recordsAbove_eq_records fun head _ => head.number_pos
  rw [forwardNotifications_eq, hrecords]
  refine ⟨fun frame head => notification_eq_some_iff hsub, ?_, ?_, rfl⟩
  · exact filterMap_forwardHead (fun head => rfl) _
  · rw [filterMap_forwardHead (f := Effect.stored) (g := Head.number) fun head => rfl,
      List.getLast?_map]

/-- Two heads, the first of them notified twice, and a head of another subscription. -/
def twoHeads : List Frame :=
  [newHeadsMsg "0xs" "0xa" "0xh10", .ping, newHeadsMsg "0xs" "0xa" "0xr10",
    newHeadsMsg "0xt" "0xc" "0xh12", newHeadsMsg "0xs" "0xb" "0xh11", .close, .other]

theorem twoHeads_stored :
    ((forwardNotifications 1 "0xs" 0 twoHeads).1.filterMap Effect.stored).getLast? = some 11 := by
  rw [(forwardNotifications_spec 1 "0xs" (by decide) twoHeads).2.2.1]
  decide

/-! ### The session as a task -/

section Task

/-- Steps of the subscriber one after another, with all accesses they make. -/
def runSubscriber (chainId : ℕ) :
    SubscriberTask → List SubscriberAction → Option (SubscriberTask × List Effect)
  | w, [] => some (w, [])
  | w, a :: as =>
    (subscriberStep chainId w a).bind fun (w', es) =>
      (runSubscriber chainId w' as).map fun (w'', es') => (w'', es ++ es')

/-- The steps that read some frames: every head is announced before the next frame is read. This is
what the loop does, and the only order of its accesses. -/
def forwardSteps (subId : String) : ℕ → List Frame → List SubscriberAction
  | _, [] => []
  | lastBlockNumber, frame :: frames =>
    match forwardFrame subId lastBlockNumber frame with
    | .skip => .frame frame :: forwardSteps subId lastBlockNumber frames
    | .forward head => .frame frame :: .announce :: forwardSteps subId head.number frames
    | .stop => [.frame frame]

/-- **The task makes the accesses of the loop.** -/
theorem runSubscriber_forwardSteps {w : SubscriberTask}
    (hphase : w.phase = .forwarding subId lastBlockNumber) :
    (runSubscriber chainId w (forwardSteps subId lastBlockNumber frames)).map Prod.snd =
      some (forwardNotifications chainId subId lastBlockNumber frames).1 := by
  induction frames generalizing w lastBlockNumber with
  | nil => rfl
  | cons frame frames ih =>
    rw [forwardSteps, forwardNotifications]
    cases hframe : forwardFrame subId lastBlockNumber frame with
    | skip =>
      have hstep : subscriberStep chainId w (.frame frame) = some (w, []) := by
        simp only [subscriberStep, hphase, hframe]
      obtain ⟨⟨w', es⟩, hrun, hes⟩ := Option.map_eq_some_iff.mp (ih hphase)
      simp only [runSubscriber, hstep, Option.bind_some, hrun, Option.map_some]
      exact congrArg some hes
    | forward head =>
      have hstep : subscriberStep chainId w (.frame frame) =
          some (w.moveTo (.announcing subId head), [.storeLatest head.number]) := by
        simp only [subscriberStep, hphase, hframe]
      have hannounce : subscriberStep chainId (w.moveTo (.announcing subId head)) .announce =
          some (w.moveTo (.forwarding subId head.number),
            [.send (.newBlock chainId head.number head.hash head.content)]) := rfl
      have hrest := ih (w := w.moveTo (.forwarding subId head.number)) rfl
      obtain ⟨⟨w', es⟩, hrun, hes⟩ := Option.map_eq_some_iff.mp hrest
      simp only [runSubscriber, hstep, hannounce, Option.bind_some, hrun, Option.map_some]
      rw [← hes]
      rfl
    | stop =>
      have hstep : subscriberStep chainId w (.frame frame) = some (w.moveTo .ended, []) := by
        simp only [subscriberStep, hphase, hframe]
      simp only [runSubscriber, hstep, Option.bind_some]
      rfl

end Task

end WsSubscriber

end Poolbeg
