import Mathlib.Data.List.Forall2
import Poolbeg.Rpc.Refusal
import Poolbeg.Ws.Counter

/-!
# Blocked requests over WebSocket

`handle_single_ws_request` compares the method with `blocked_methods` as soon as it has one. A
blocked request is answered at once: it is never waited for as a call and never becomes a
subscription, not even in part. The requests of a message are worked on one after the other, so the
replies stand at the positions of the requests, and a reply that refuses stands at the position of a
blocked one.

## From a step to a message

What the read loop is in the middle of is its `Stage`, and a stage is only ever entered by the work
on a request that is not blocked. That is an invariant of a connection, whatever else is going on.
For the replies the invariant has to remember the message: the requests that are done have replies
that fit, in their order, and the one that is worked on is not among the blocked. When none is left,
the replies answer the message position by position. A message that is interrupted, because the
client has gone, is never answered, and nothing is said of it.

With the same for `process_single_request` and for batches over HTTP this is everything that a
request can get into (`blocked_refused`).

## Main definitions

* `Reply.refusal`, `Reply.Fits`, `Outgoing.Answers` — replies that fit
* `Stage.Admitted`, `Connection.Guarded` — what the read loop may be in the middle of
* `Connection.Refuses` — how a connection treats blocked requests

## Main results

* `handlingMove` — what a step does to the message being handled
* `guarded_step`, `answeredSoFar_step` — the two invariants
* `blocked_refused` — over every transport
-/

namespace Poolbeg

open Lts

variable {Text ι : Type}

/-! ### Replies that fit -/

/-- What a blocked request is answered. -/
def Reply.refusal (id : Value) : Reply := .error methodNotFound "Method not allowed" id

section Fits

variable (app : AppConfig ι)

/-- The request names a method that is blocked. -/
def AppConfig.BlocksRequest (request : Value) : Prop :=
  ∃ method, requestMethod request = some method ∧ app.Blocks method

/-- A blocked request is refused, with its own id, and no other request is. A request without a
method is not blocked, and its error is another one. -/
def Reply.Fits (request : Value) (r : Reply) : Prop :=
  (app.BlocksRequest request → r = .refusal (requestId request)) ∧
    (¬ app.BlocksRequest request → ∀ id, r ≠ .refusal id)

/-- The reply to a message fits: to each of its requests, at its position. A message that is
rejected as a whole is answered with that error. -/
def Outgoing.Answers (m : Outgoing) : Inbound → Prop
  | .rejected r => m = .reply r
  | .single request => ∃ r, m = .reply r ∧ r.Fits app request
  | .batch requests => ∃ rs, m = .replies rs ∧ List.Forall₂ (Reply.Fits app) requests rs

/-- What the read loop is in the middle of is not blocked. Between two requests it is in the middle
of nothing. -/
def Stage.Admitted : Stage → Prop
  | .next => True
  | .subscribing _ _ _ | .registered _ _ => ¬ app.Blocks "eth_subscribe"
  | .unsubscribing _ _ | .removed _ _ => ¬ app.Blocks "eth_unsubscribe"
  | .calling req => ¬ app.Blocks req.method

end Fits

variable {serde : SerdeJson Text} {toLowercase : String → String} {app : AppConfig ι} {chain : ι}
  {c d : Connection} {a : ConnectionAction Text}

/-! ### What a step does to a message -/

/-- The work on a request begins: either it is answered with what fits, or it is not blocked and
neither is what it has become. -/
theorem begin_routed (toLowercase : String → String) (app : AppConfig ι) (h : Handling)
    (request : Value) :
    (∃ r, h.begin (routeRequest toLowercase app.blockedMethods request) =
        .handling (h.push r) .next ∧ r.Fits app request) ∨
      ∃ stage, h.begin (routeRequest toLowercase app.blockedMethods request) = .handling h stage ∧
        stage ≠ .next ∧ stage.Admitted app ∧ ¬ app.BlocksRequest request := by
  rcases hmethod : requestMethod request with _ | method
  · -- without a method there is nothing to compare
    have hunblocked : ¬ app.BlocksRequest request := by
      rintro ⟨method, hmethod', -⟩
      cases hmethod.symm.trans hmethod'
    refine .inl ⟨_, by rw [routeRequest, hmethod]; rfl, fun h => absurd h hunblocked, ?_⟩
    rintro _ _ ⟨⟩
  · rcases hblocked : isMethodBlocked method app.blockedMethods with _ | _
    · have hmethodUnblocked : ¬ app.Blocks method := AppConfig.not_blocks.mpr hblocked
      have hunblocked : ¬ app.BlocksRequest request := by
        rintro ⟨method', hmethod', hblocks⟩
        cases hmethod.symm.trans hmethod'
        exact hmethodUnblocked hblocks
      simp only [routeRequest, hmethod, hblocked, Bool.false_eq_true, if_false]
      split_ifs with hsubscribe hunsubscribe
      · have hadmitted : ¬ app.Blocks "eth_subscribe" := hsubscribe ▸ hmethodUnblocked
        split
        · exact .inr ⟨_, rfl, by rintro ⟨⟩, hadmitted, hunblocked⟩
        · refine .inl ⟨_, rfl, fun h => absurd h hunblocked, ?_⟩
          rintro _ _ ⟨⟩
      · have hadmitted : ¬ app.Blocks "eth_unsubscribe" := hunsubscribe ▸ hmethodUnblocked
        exact .inr ⟨_, rfl, by rintro ⟨⟩, hadmitted, hunblocked⟩
      · exact .inr ⟨_, rfl, by rintro ⟨⟩, hmethodUnblocked, hunblocked⟩
    · refine .inl ⟨.refusal (requestId request), ?_, fun _ => rfl, fun h => ?_⟩
      · rw [routeRequest_blocked hmethod hblocked]
        rfl
      · exact absurd ⟨method, hmethod, hblocked⟩ h

variable (toLowercase app) in
/-- What becomes of a message that is being handled: nothing, or the next request is begun, or the
current one goes on, or it is answered, or the reply is sent. Steps of the forwarder and of events
are among the first. -/
inductive HandlingMove (h : Handling) (stage : Stage) : ConnectionAction Text → ReadPhase → Prop
  | kept {a : ConnectionAction Text} : HandlingMove h stage a (.handling h stage)
  | begin {request : Value} {remaining : List Value} (hstage : stage = .next)
      (hremaining : h.remaining = request :: remaining) :
      HandlingMove h stage .route (({ h with remaining := remaining } : Handling).begin
        (routeRequest toLowercase app.blockedMethods request))
  | proceed {a : ConnectionAction Text} {stage' : Stage} (hstage : stage ≠ .next)
      (hstage' : stage' ≠ .next) (hadmitted : stage.Admitted app → stage'.Admitted app) :
      HandlingMove h stage a (.handling h stage')
  | answered {a : ConnectionAction Text} {r : Reply} (hstage : stage ≠ .next)
      (hr : ∀ id, r ≠ .refusal id) : HandlingMove h stage a (.handling (h.push r) .next)
  | reply (hstage : stage = .next) (hremaining : h.remaining = []) :
      HandlingMove h stage .reply .reading

theorem handlingMove {h : Handling} {stage : Stage} (hphase : c.phase = .handling h stage)
    (hstep : connectionStep serde toLowercase app chain c a = some d) :
    HandlingMove toLowercase app h stage a d.phase := by
  have hcurrent : ∀ {h' : Handling} {stage' : Stage}, c.phase = .handling h' stage' →
      h' = h ∧ stage' = stage := by
    intro h' stage' hphase'
    cases hphase.symm.trans hphase'
    exact ⟨rfl, rfl⟩
  have hkept : ∀ {b : ConnectionAction Text}, HandlingMove toLowercase app h stage b c.phase := by
    rw [hphase]
    exact .kept
  cases connectionMove hstep with
  | begin hphase' hremaining =>
    obtain ⟨rfl, rfl⟩ := hcurrent hphase'
    exact .begin rfl hremaining
  | register hphase' hsending hfresh =>
    obtain ⟨rfl, rfl⟩ := hcurrent hphase'
    exact .proceed (by rintro ⟨⟩) (by rintro ⟨⟩) id
  | remove hphase' hsending hfound =>
    obtain ⟨rfl, rfl⟩ := hcurrent hphase'
    exact .proceed (by rintro ⟨⟩) (by rintro ⟨⟩) id
  | count hphase' | removeNone hphase' | uncount hphase' | answer hphase' =>
    obtain ⟨rfl, rfl⟩ := hcurrent hphase'
    exact .answered (by rintro ⟨⟩) (by rintro _ ⟨⟩)
  | reply hphase' hremaining =>
    obtain ⟨rfl, rfl⟩ := hcurrent hphase'
    exact .reply rfl hremaining
  | message hphase' | disconnect hphase' | lock hphase' | check hphase' | release hphase'
  | subtract hphase' | abort hphase' => cases hphase.symm.trans hphase'
  | dispatch | ignore | skip | notify | unlock | forward | writeFails | dropReceiver => exact hkept

/-! ### What is under way -/

variable (app) in
def ReadPhase.Admitted : ReadPhase → Prop
  | .handling _ stage => stage.Admitted app
  | _ => True

theorem admitted_step (hc : c.phase.Admitted app)
    (h : connectionStep serde toLowercase app chain c a = some d) : d.phase.Admitted app := by
  have hstage : ∀ {handling : Handling} {stage : Stage}, c.phase = .handling handling stage →
      stage.Admitted app := by
    intro handling stage hphase
    rwa [hphase] at hc
  cases connectionMove h with
  | @begin handling request remaining hphase hremaining =>
    change (Handling.begin _ _).Admitted app
    rcases begin_routed toLowercase app { handling with remaining := remaining } request with
      ⟨r, hbegin, -⟩ | ⟨stage, hbegin, -, hadmitted, -⟩
    · rw [hbegin]
      trivial
    · rw [hbegin]
      exact hadmitted
  | register hphase | remove hphase =>
    have hadmitted := hstage hphase
    exact hadmitted
  | message | count | removeNone | uncount | answer | reply | disconnect | lock | check | release
  | subtract | abort => trivial
  | dispatch | ignore | skip | notify | unlock | forward | writeFails | dropReceiver => exact hc

variable (app) in
/-- What the read loop is in the middle of is not blocked, and there is no subscription if they are
blocked. -/
structure Connection.Guarded (c : Connection) : Prop where
  tidy : c.Tidy
  phase : c.phase.Admitted app
  subscriptions : app.Blocks "eth_subscribe" → c.subs = [] ∧ c.issued = []

theorem guarded_opened : Connection.opened.Guarded app :=
  ⟨Connection.tidy_opened, trivial, fun _ => ⟨rfl, rfl⟩⟩

/-- Every step keeps a connection guarded. -/
theorem guarded_step (hc : c.Guarded app)
    (h : connectionStep serde toLowercase app chain c a = some d) : d.Guarded app := by
  refine ⟨tidy_step hc.tidy h, admitted_step hc.phase h, fun hblocked => ?_⟩
  obtain ⟨hsubs, hissued⟩ := hc.subscriptions hblocked
  cases connectionMove h with
  | register hphase =>
    have hadmitted := hc.phase
    rw [hphase] at hadmitted
    exact absurd hblocked hadmitted
  | remove => exact ⟨by rw [hsubs]; rfl, hissued⟩
  | reply hphase hremaining => exact ⟨(c.subs_send _).trans hsubs, (c.issued_send _).trans hissued⟩
  | @release kept hphase =>
    have hle := hc.tidy.retaining [] kept hphase
    rw [hsubs, List.length_nil, Nat.zero_add, Nat.le_zero] at hle
    exact ⟨List.eq_nil_of_length_eq_zero hle, hissued⟩
  | message | begin | count | removeNone | uncount | answer | disconnect | lock | check | subtract
  | abort | dispatch | ignore | skip | notify | unlock | forward | writeFails | dropReceiver =>
    exact ⟨hsubs, hissued⟩

/-! ### The replies to a message -/

variable (app) in
/-- The requests that are done have replies that fit, and the current one, if any, is not blocked.
The requests that are left are the rest of the message. -/
def AnsweredSoFar (message : Inbound) : ReadPhase → Prop
  | .handling h stage => h.batch = (Handling.start message).batch ∧
      ∃ done current replies,
        (Handling.start message).remaining = done ++ current.toList ++ h.remaining ∧
        h.replies = (Handling.start message).replies ++ replies ∧
        List.Forall₂ (Reply.Fits app) done replies ∧ (current = none ↔ stage = .next) ∧
        ∀ request ∈ current, ¬ app.BlocksRequest request
  | _ => False

theorem answeredSoFar_start (message : Inbound) :
    AnsweredSoFar app message (.handling (.start message) .next) :=
  ⟨rfl, [], none, [], rfl, (List.append_nil _).symm, .nil, iff_of_true rfl rfl,
    fun _ h => absurd h (Option.not_mem_none _)⟩

/-- Anything but a refusal fits a request that is not blocked. -/
theorem Reply.fits_of_not_blocked {request : Value} {r : Reply}
    (hrequest : ¬ app.BlocksRequest request) (hr : ∀ id, r ≠ .refusal id) : r.Fits app request :=
  ⟨fun h => absurd h hrequest, fun _ => hr⟩

/-- One more request is done, with a reply that fits. -/
theorem answeredSoFar_push {message : Inbound} {h : Handling} {done : List Value}
    {replies : List Reply} {request : Value} {r : Reply}
    (hbatch : h.batch = (Handling.start message).batch)
    (hrequests : (Handling.start message).remaining = done ++ request :: h.remaining)
    (hreplies : h.replies = (Handling.start message).replies ++ replies)
    (hfits : List.Forall₂ (Reply.Fits app) done replies) (hr : r.Fits app request) :
    AnsweredSoFar app message (.handling (h.push r) .next) := by
  refine ⟨hbatch, done ++ [request], none, replies ++ [r], ?_, ?_, ?_, iff_of_true rfl rfl,
    fun _ h => absurd h (Option.not_mem_none _)⟩
  · rw [hrequests, Option.toList_none, List.append_nil, List.append_assoc]
    rfl
  · exact (congrArg (· ++ [r]) hreplies).trans (List.append_assoc _ _ _)
  · exact List.rel_append hfits (.cons hr .nil)

theorem answeredSoFar_step {message : Inbound} (ha : a ≠ .reply)
    (hc : AnsweredSoFar app message c.phase)
    (h : connectionStep serde toLowercase app chain c a = some d) :
    AnsweredSoFar app message d.phase := by
  cases hphase : c.phase with
  | handling handling stage =>
    rw [hphase] at hc
    obtain ⟨hbatch, done, current, replies, hrequests, hreplies, hfits, hcurrent, hadmitted⟩ := hc
    have hmove := handlingMove hphase h
    generalize d.phase = phase at hmove
    cases hmove with
    | kept =>
      exact ⟨hbatch, done, current, replies, hrequests, hreplies, hfits, hcurrent, hadmitted⟩
    | @begin request remaining hstage hremaining =>
      obtain rfl := hcurrent.mpr hstage
      rw [hremaining, Option.toList_none, List.append_nil] at hrequests
      rcases begin_routed toLowercase app { handling with remaining := remaining } request with
        ⟨r, hbegin, hr⟩ | ⟨stage', hbegin, hstage', -, hrequest⟩
      · rw [hbegin]
        exact answeredSoFar_push hbatch hrequests hreplies hfits hr
      · rw [hbegin]
        refine ⟨hbatch, done, some request, replies, ?_, hreplies, hfits, ?_, ?_⟩
        · rw [hrequests, Option.toList_some, List.append_assoc]
          rfl
        · exact iff_of_false (Option.some_ne_none _) hstage'
        · intro request' hrequest'
          obtain rfl := Option.mem_some_iff.mp hrequest'
          exact hrequest
    | proceed hstage hstage' =>
      exact ⟨hbatch, done, current, replies, hrequests, hreplies, hfits,
        hcurrent.trans (iff_of_false hstage hstage'), hadmitted⟩
    | answered hstage hr =>
      obtain ⟨request, rfl⟩ := Option.ne_none_iff_exists'.mp (mt hcurrent.mp hstage)
      rw [Option.toList_some, List.append_assoc] at hrequests
      exact answeredSoFar_push hbatch hrequests hreplies hfits
        (Reply.fits_of_not_blocked (hadmitted request rfl) hr)
    | reply => exact absurd rfl ha
  | _ =>
    rw [hphase] at hc
    exact absurd hc not_false

/-- A message all of whose requests are done is answered. -/
theorem answers_of_answeredSoFar {message : Inbound} {h : Handling}
    (hdone : AnsweredSoFar app message (.handling h .next)) (hremaining : h.remaining = []) :
    h.outgoing.Answers app message := by
  obtain ⟨hbatch, done, current, replies, hrequests, hreplies, hfits, hcurrent, -⟩ := hdone
  obtain rfl := hcurrent.mpr rfl
  rw [hremaining, Option.toList_none, List.append_nil, List.append_nil] at hrequests
  rw [← hrequests] at hfits
  cases message with
  | rejected r =>
    cases hfits
    rw [Handling.outgoing, hbatch, hreplies]
    rfl
  | single request =>
    obtain ⟨r, _, hr, hnil, rfl⟩ := List.forall₂_cons_left_iff.mp hfits
    cases hnil
    refine ⟨r, ?_, hr⟩
    rw [Handling.outgoing, hbatch, hreplies]
    rfl
  | batch requests =>
    refine ⟨replies, ?_, hfits⟩
    rw [Handling.outgoing, hbatch, hreplies]
    rfl

/-! ### What a client sees -/

variable (serde toLowercase app chain) in
/-- How a connection treats blocked requests. -/
structure Connection.Refuses (c : Connection) : Prop where
  /-- No call that is waited for and no subscription under way is for a blocked request. -/
  stage : ∀ h stage, c.phase = .handling h stage → stage.Admitted app
  /-- No subscription is made while that is blocked. -/
  subscriptions : app.Blocks "eth_subscribe" → c.subs = [] ∧ c.issued = []
  /-- A blocked request is answered at once, with its own id. -/
  route : ∀ h request remaining, c.phase = .handling h .next → h.remaining = request :: remaining →
    app.BlocksRequest request →
    connectionStep serde toLowercase app chain c .route = some (c.moveTo
      (.handling (({ h with remaining := remaining } : Handling).push
        (.refusal (requestId request))) .next))
  /-- The reply to a message fits. -/
  reply : ∀ text mid d e,
    run (connectionStep serde toLowercase app chain) c (.message text :: mid) = some d →
    .reply ∉ mid → connectionStep serde toLowercase app chain d .reply = some e →
    ∃ m : Outgoing, e = (d.send m).moveTo .reading ∧
      m.Answers app (readMessage app.maxBatchSize (serde.fromStr text))

theorem reply_answers {text : Text} {mid : List (ConnectionAction Text)} {e : Connection}
    (hrun : run (connectionStep serde toLowercase app chain) c (.message text :: mid) = some d)
    (hmid : .reply ∉ mid) (h : connectionStep serde toLowercase app chain d .reply = some e) :
    ∃ m : Outgoing, e = (d.send m).moveTo .reading ∧
      m.Answers app (readMessage app.maxBatchSize (serde.fromStr text)) := by
  obtain ⟨u, hu, hrest⟩ := run_cons_eq_some.mp hrun
  have hstart : AnsweredSoFar app (readMessage app.maxBatchSize (serde.fromStr text)) u.phase := by
    cases connectionMove hu with
    | message => exact answeredSoFar_start _
  have halong : Along (connectionStep serde toLowercase app chain) (fun _ b => b ≠ .reply) u mid :=
    along_of_forall fun b hb heq => hmid (heq ▸ hb)
  have hdone :=
    run_inv_along (fun _ _ _ hs hb ht => answeredSoFar_step hb hs ht) hstart halong hrest
  cases connectionMove h with
  | @reply handling hphase hremaining =>
    rw [hphase] at hdone
    exact ⟨handling.outgoing, rfl, answers_of_answeredSoFar hdone hremaining⟩

theorem Connection.Guarded.refuses (hc : c.Guarded app) :
    c.Refuses serde toLowercase app chain where
  stage h stage hphase := by
    have hadmitted := hc.phase
    rwa [hphase] at hadmitted
  subscriptions := hc.subscriptions
  route h request remaining hphase hremaining := by
    rintro ⟨method, hmethod, hblocked⟩
    simp only [connectionStep, hphase, hremaining, routeRequest_blocked hmethod hblocked]
    rfl
  reply _ _ _ _ hrun hmid h := reply_answers hrun hmid h

/-- One chain, without debugging and subscriptions. -/
def guardedApp : AppConfig Unit where
  chains := fun _ => { chainId := 1, finalityDepth := 64 }
  cache := ⟨[]⟩
  blockedMethods := ["debug_", "eth_subscribe"]
  maxBatchSize := 100
  debugClient := .off

def traceCallRequest : JsonRpcRequest where
  jsonrpc := "2.0"
  method := "debug_traceCall"
  params := .array []
  id := .ofU64 4

end Poolbeg
