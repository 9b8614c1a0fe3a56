import Mathlib.Data.List.FinRange
import Poolbeg.Rpc.Handler
import Poolbeg.Upstream.Health
import Poolbeg.Upstream.Strategy

/-!
# Forwarding a request

The embedding of `ChainManager::forward_request` in `upstream/manager.rs`. A manager has upstreams
and one round-robin counter, and any number of calls of `forward_request` use them at once.

## The moves of a call

A call goes through the tiers: the primary upstreams, the secondary ones, the fallbacks. It collects
the healthy members of a tier when it gets there, has one of them selected, and tries them in turn,
the selected one first: it asks for a token, sends the request if there is one, and records on the
upstream how that went. A response ends the call, and so does the last tier. Then the failure is one
of three: nobody was healthy, nobody granted a token, or nobody answered.

Between two steps of a call everything else may happen, other calls and the health checks among it,
so an upstream that is tried need not be healthy any more. Whether a token is granted and what an
upstream answers is up to the label of the step. A call whose caller has gone is dropped while it
waits for an answer; that is the only place where it waits.

With `debug_upstream` a response is logged before it is recorded and returned, and the log may panic
(`Poolbeg.Rpc.ResponseLog`). Then the call ends there: the upstream has answered, its success is not
recorded, nothing is returned and no other upstream is tried.

## Coming to an end

A call that is not over always has a next move, and no move leads back: each of `n` upstreams has
one turn of three moves at most, in each tier, and getting to a tier is a move of its own. So there
are at most `9 * n + 4` moves (`ForwardCall.movesLeft`).

## Implementation notes

Members of a tier are collected in one step, although the code reads their flags one after another.

## Main definitions

* `ChainManager`, `PoolState`, `ForwardCall`, `poolStep` — the state and its steps
* `moveCall` — the moves of a call
* `Tier`, `ForwardEvent` — what there is to see of a call
* `Outcomes`, `ChainManager.nextMove` — what is up to others, and what a call does next

## Main results

* `order_perm` — every healthy member of a tier has one turn
* `moveCall_spec`, `poolStep_call` — the moves of a call, one by one
* `movesLeft_lt`, `call_ends` — a call that is not dropped comes to an end
-/

namespace Poolbeg

open Lts

/-- What the manager of a chain is configured with; the upstreams are numbered in their order. -/
structure ChainManager (n : ℕ) where
  chainName : String
  role : Fin n → UpstreamRole
  strategy : UpstreamStrategy
  debugUpstream : DebugLog

/-! ### What comes back -/

/-- How a call fails. -/
inductive ForwardError
  | noHealthy
  | rateLimited
  | allFailed
  deriving DecidableEq

/-- The text of the failure. Two of the three texts name the chain only. -/
def ForwardError.message (chainName method : String) : ForwardError → String
  | noHealthy => "no healthy upstreams available for chain " ++ chainName
  | rateLimited => "all upstreams rate limited for chain " ++ chainName ++ " (method " ++ method ++
      "). Consider increasing upstream max_rps"
  | allFailed => "all upstreams failed for chain " ++ chainName

/-- The letter that tells a failure. -/
def ForwardError.letter : ForwardError → Char
  | noHealthy => 't'
  | rateLimited => 'r'
  | allFailed => 'f'

theorem ForwardError.message_letter (chainName method : String) (e : ForwardError) :
    (e.message chainName method).toList[14]? = some e.letter := by
  unfold message
  cases e with
  | noHealthy =>
    rw [String.toList_append, List.getElem?_append_left (by decide +kernel)]
    decide +kernel
  | rateLimited =>
    simp only [String.toList_append, List.append_assoc]
    rw [List.getElem?_append_left (by decide +kernel)]
    decide +kernel
  | allFailed =>
    rw [String.toList_append, List.getElem?_append_left (by decide +kernel)]
    decide +kernel
/-- **A failure can be told from its text.** -/
theorem ForwardError.message_injective (chainName method : String) :
    Function.Injective (ForwardError.message chainName method) := by
  intro e e' h
  have hletter := e.message_letter chainName method
  rw [h, e'.message_letter] at hletter
  cases e <;> cases e' <;> first | rfl | exact absurd hletter (by decide)

/-- How `send_request` ends: without an HTTP response, with a status of an error, with one of
another kind or a body that is no response, or with a response. -/
inductive SendReply
  | unreachable (now later : ℕ)
  | httpError (elapsed : UInt64) (now later : ℕ)
  | unusable (elapsed : UInt64)
  | ok (elapsed : UInt64) (resp : JsonRpcResponse)

/-- What it is to the health of the upstream. Not to answer at all is as bad as a status of an
error. -/
def SendReply.outcome : SendReply → SendOutcome
  | unreachable now later => .httpError now later
  | httpError _ now later => .httpError now later
  | unusable _ => .otherError
  | ok _ _ => .ok

/-- How long it took to get an HTTP response, in microseconds. -/
def SendReply.elapsed : SendReply → Option UInt64
  | unreachable _ _ => none
  | httpError elapsed _ _ => some elapsed
  | unusable elapsed => some elapsed
  | ok elapsed _ => some elapsed

def SendReply.response : SendReply → Option JsonRpcResponse
  | ok _ resp => some resp
  | _ => none

/-- `update_latency`: the average, in which the new measurement weighs three tenths. The largest
number stands for none so far. -/
def updateLatency (prev elapsed : UInt64) : UInt64 :=
  if prev = 0xFFFFFFFFFFFFFFFF then elapsed else (elapsed * 3 + prev * 7) / 10

/-! ### The steps of a call -/

/-- Where a call stands: at the members it still tries in this tier and the tiers after it, at one
member it has sent the request to, or at one that has answered. It is over when it has returned,
when its caller has gone, or when logging a response has panicked. -/
inductive ForwardPhase (ι : Type)
  | trying (attempts : List ι) (roles : List UpstreamRole)
  | sending (upstream : ι) (attempts : List ι) (roles : List UpstreamRole)
  | returned (upstream : ι) (resp : Option JsonRpcResponse) (attempts : List ι)
      (roles : List UpstreamRole)
  | done (answer : Answer)
  | dropped
  | panicked

/-- A call of `forward_request` and its variables: the two flags are for the text of the failure. -/
structure ForwardCall (ι : Type) where
  req : JsonRpcRequest
  allRateLimited : Bool
  anyUpstreamTried : Bool
  phase : ForwardPhase ι

/-- The tiers, in the order they are tried. -/
def tierOrder : List UpstreamRole := [.primary, .secondary, .fallback]

def ForwardCall.init {ι : Type} (req : JsonRpcRequest) : ForwardCall ι where
  req := req
  allRateLimited := true
  anyUpstreamTried := false
  phase := .trying [] tierOrder

/-- The failure that is reported when no tier is left. -/
def ForwardCall.error {ι : Type} (call : ForwardCall ι) : ForwardError :=
  if !call.anyUpstreamTried then .noHealthy
  else if call.allRateLimited then .rateLimited
  else .allFailed

/-- The upstreams of a chain, what they share, and the calls that use them. A call that is over
stays, with what it came to. -/
structure PoolState (n : ℕ) where
  clients : Fin n → UpstreamClient
  latencyUs : Fin n → UInt64
  roundRobin : UInt64
  calls : ℕ → Option (ForwardCall (Fin n))

/-- `ChainManager::new`. -/
def PoolState.init (n disabledRetryInterval now : ℕ) : PoolState n where
  clients _ := .new disabledRetryInterval now
  latencyUs _ := 0xFFFFFFFFFFFFFFFF
  roundRobin := 0
  calls _ := none

/-- The steps of a call: it reaches the next tier, asks for a token, hears from the upstream and
records that, reports a failure, ends with its caller, or ends with the panic of its log. -/
inductive ForwardMove
  | reach (random : ℕ)
  | token (granted : Bool)
  | answer (reply : SendReply)
  | record (now later : ℕ)
  | finish
  | drop
  | panic

/-- A request is to be forwarded, a call moves, or something else is done to an upstream. -/
inductive PoolAction (n : ℕ)
  | forward (i : ℕ) (req : JsonRpcRequest)
  | move (i : ℕ) (move : ForwardMove)
  | client (u : Fin n) (op : ClientOp)
  | latency (u : Fin n) (elapsed : UInt64)

/-- A tier as a call has found it: the healthy members, and the order in which they are tried. -/
structure Tier (ι : Type) where
  role : UpstreamRole
  members : List ι
  order : List ι

namespace PoolState

variable {n : ℕ}

/-- A method of a client is called. -/
def call (s : PoolState n) (u : Fin n) (op : ClientOp) : PoolState n :=
  { s with clients := Function.update s.clients u (op.perform (s.clients u)) }

/-- The time it took an upstream to answer is taken. -/
def measure (s : PoolState n) (u : Fin n) (elapsed : UInt64) : PoolState n :=
  { s with
    latencyUs := Function.update s.latencyUs u (updateLatency (s.latencyUs u) elapsed) }

/-- What `send_request` does to the upstream before it returns: it takes the time if there is an
HTTP response, and records an HTTP error if there is none or if its status is one. -/
def receive (s : PoolState n) (u : Fin n) (reply : SendReply) : PoolState n :=
  let s := reply.elapsed.elim s (s.measure u)
  reply.outcome.op.elim s (s.call u)

def setCall (s : PoolState n) (i : ℕ) (call : ForwardCall (Fin n)) : PoolState n :=
  { s with calls := Function.update s.calls i (some call) }

@[simp] theorem calls_call (s : PoolState n) (u : Fin n) (op : ClientOp) :
    (s.call u op).calls = s.calls := rfl

@[simp] theorem calls_measure (s : PoolState n) (u : Fin n) (elapsed : UInt64) :
    (s.measure u elapsed).calls = s.calls := rfl

@[simp] theorem calls_receive (s : PoolState n) (u : Fin n) (reply : SendReply) :
    (s.receive u reply).calls = s.calls := by
  cases reply <;> rfl

@[simp] theorem roundRobin_receive (s : PoolState n) (u : Fin n) (reply : SendReply) :
    (s.receive u reply).roundRobin = s.roundRobin := by
  cases reply <;> rfl

end PoolState

section Step

variable {n : ℕ} (m : ChainManager n)

/-- The healthy upstreams of a role, in the order they are configured. -/
def ChainManager.tierUpstreams (s : PoolState n) (role : UpstreamRole) : List (Fin n) :=
  (List.finRange n).filter fun u => decide (m.role u = role) && (s.clients u).isHealthy

/-- The upstream that is preferred among these, and the counter after it has been selected. Only
round robin moves the counter. -/
def ChainManager.prefer (s : PoolState n) (tier : List (Fin n)) (random : ℕ) :
    Option (Fin n) × UInt64 :=
  select tier m.strategy s.latencyUs random s.roundRobin

/-- The tier as it is found now. -/
def ChainManager.tier (s : PoolState n) (role : UpstreamRole) (random : ℕ) : Tier (Fin n) where
  role := role
  members := m.tierUpstreams s role
  order := attemptOrder (m.tierUpstreams s role) (m.prefer s (m.tierUpstreams s role) random).1

/-- A move of a call, with what it does to the upstreams and to the counter. It is `none` where the
call does not stand where this move is made. -/
def moveCall (s : PoolState n) (call : ForwardCall (Fin n)) :
    ForwardMove → Option (PoolState n × ForwardCall (Fin n))
  | .reach random =>
    match call.phase with
    | .trying [] (role :: roles) =>
      let tier := m.tier s role random
      if tier.members.isEmpty then some (s, { call with phase := .trying [] roles })
      else
        some ({ s with roundRobin := (m.prefer s tier.members random).2 },
          { call with anyUpstreamTried := true, phase := .trying tier.order roles })
    | _ => none
  | .token granted =>
    match call.phase with
    | .trying (u :: us) roles =>
      if granted then
        some (s, { call with allRateLimited := false, phase := .sending u us roles })
      else some (s, { call with phase := .trying us roles })
    | _ => none
  | .answer reply =>
    match call.phase with
    | .sending u us roles =>
      some (s.receive u reply, { call with phase := .returned u reply.response us roles })
    | _ => none
  | .record now later =>
    match call.phase with
    | .returned u (some resp) _ _ =>
      if m.debugUpstream.survives resp then
        some (s.call u (.recordSuccess now later), { call with phase := .done (.ok resp) })
      else none
    | .returned u none us roles =>
      some (s.call u (.recordFailure now), { call with phase := .trying us roles })
    | _ => none
  | .finish =>
    match call.phase with
    | .trying [] [] =>
      some (s, { call with
        phase := .done (.error (call.error.message m.chainName call.req.method)) })
    | _ => none
  | .drop =>
    match call.phase with
    | .sending _ _ _ => some (s, { call with phase := .dropped })
    | _ => none
  | .panic =>
    -- a response is logged before it is recorded and returned
    match call.phase with
    | .returned _ (some resp) _ _ =>
      if m.debugUpstream.survives resp then none
      else some (s, { call with phase := .panicked })
    | _ => none

/-- One step. A call begins once, and a move is one of a call that is there. -/
def poolStep (s : PoolState n) : PoolAction n → Option (PoolState n)
  | .forward i req =>
    match s.calls i with
    | none => some (s.setCall i (.init req))
    | some _ => none
  | .move i move =>
    (s.calls i).bind fun call => (moveCall m s call move).map fun next => next.1.setCall i next.2
  | .client u op => some (s.call u op)
  | .latency u elapsed => some (s.measure u elapsed)

/-! ### Tiers -/

section Tiers

variable (s : PoolState n) (role : UpstreamRole) (random : ℕ)

theorem nodup_tierUpstreams : (m.tierUpstreams s role).Nodup := (List.nodup_finRange n).filter _

theorem role_of_mem_tierUpstreams {m : ChainManager n} {s : PoolState n} {role : UpstreamRole}
    {u : Fin n} (h : u ∈ m.tierUpstreams s role) : m.role u = role :=
  of_decide_eq_true (Bool.and_eq_true_iff.mp (List.mem_filter.mp h).2).1

/-- A tier without a healthy member has nobody to try. -/
theorem order_of_empty (h : m.tierUpstreams s role = []) : (m.tier s role random).order = [] := by
  simp [ChainManager.tier, ChainManager.prefer, h, attemptOrder, select]

/-- In any other tier, one member is preferred. -/
theorem exists_order_eq (h : m.tierUpstreams s role ≠ []) :
    ∃ p ∈ m.tierUpstreams s role,
      (m.tier s role random).order = attemptOrder (m.tierUpstreams s role) (some p) := by
  obtain ⟨p, hp, hselect⟩ := exists_select m.strategy s.latencyUs random s.roundRobin h
  exact ⟨p, hp, by simp only [ChainManager.tier, ChainManager.prefer, hselect]⟩

/-- **Every healthy member of a tier has one turn.** The order differs from that of the
configuration only in that the preferred one comes first. -/
theorem order_perm : (m.tier s role random).order.Perm (m.tierUpstreams s role) := by
  by_cases hempty : m.tierUpstreams s role = []
  · rw [order_of_empty m s role random hempty, hempty]
  · obtain ⟨p, hp, horder⟩ := exists_order_eq m s role random hempty
    rw [horder]
    exact attemptOrder_perm hp (nodup_tierUpstreams m s role)

end Tiers

/-! ### What there is to see -/

/-- A tier is reached, an upstream is asked for a token, or it is sent the request and that ends
with a response or without one. -/
inductive ForwardEvent (ι : Type)
  | reached (tier : Tier ι)
  | asked (u : ι) (granted : Bool)
  | sent (u : ι) (resp : Option JsonRpcResponse)

/-- What a move of a call shows. -/
def eventOf (s : PoolState n) (call : ForwardCall (Fin n)) (move : ForwardMove) :
    Option (ForwardEvent (Fin n)) :=
  match call.phase, move with
  | .trying [] (role :: _), .reach random => some (.reached (m.tier s role random))
  | .trying (u :: _) _, .token granted => some (.asked u granted)
  | .sending u _ _, .answer reply => some (.sent u reply.response)
  | _, _ => none

/-- What a step shows of a call. -/
def ChainManager.events (i : ℕ) (s : PoolState n) :
    PoolAction n → List (ForwardEvent (Fin n))
  | .move j move =>
    if j = i then ((s.calls i).bind fun call => eventOf m s call move).toList else []
  | _ => []

variable {m} {s t : PoolState n} {call call' : ForwardCall (Fin n)} {move : ForwardMove}

/-- The moves a call can make: what each needs, what it shows, and what it leaves. Later proofs go
by these cases and never unfold `moveCall`. -/
inductive CallStep (m : ChainManager n) (s : PoolState n) (call : ForwardCall (Fin n)) :
    ForwardMove → Option (ForwardEvent (Fin n)) → PoolState n → ForwardCall (Fin n) → Prop
  | skip {role : UpstreamRole} {roles : List UpstreamRole} {random : ℕ}
      (hphase : call.phase = .trying [] (role :: roles))
      (hempty : m.tierUpstreams s role = []) :
      CallStep m s call (.reach random) (some (.reached (m.tier s role random))) s
        { call with phase := .trying [] roles }
  | reach {role : UpstreamRole} {roles : List UpstreamRole} {random : ℕ}
      (hphase : call.phase = .trying [] (role :: roles))
      (hmembers : m.tierUpstreams s role ≠ []) :
      CallStep m s call (.reach random) (some (.reached (m.tier s role random)))
        { s with roundRobin := (m.prefer s (m.tierUpstreams s role) random).2 }
        { call with
          anyUpstreamTried := true
          phase := .trying (m.tier s role random).order roles }
  | grant {u : Fin n} {us : List (Fin n)} {roles : List UpstreamRole}
      (hphase : call.phase = .trying (u :: us) roles) :
      CallStep m s call (.token true) (some (.asked u true)) s
        { call with allRateLimited := false, phase := .sending u us roles }
  | limit {u : Fin n} {us : List (Fin n)} {roles : List UpstreamRole}
      (hphase : call.phase = .trying (u :: us) roles) :
      CallStep m s call (.token false) (some (.asked u false)) s
        { call with phase := .trying us roles }
  | answer {u : Fin n} {us : List (Fin n)} {roles : List UpstreamRole} {reply : SendReply}
      (hphase : call.phase = .sending u us roles) :
      CallStep m s call (.answer reply) (some (.sent u reply.response)) (s.receive u reply)
        { call with phase := .returned u reply.response us roles }
  | succeed {u : Fin n} {resp : JsonRpcResponse} {us : List (Fin n)} {roles : List UpstreamRole}
      {now later : ℕ} (hphase : call.phase = .returned u (some resp) us roles)
      (hlog : m.debugUpstream.survives resp = true) :
      CallStep m s call (.record now later) none (s.call u (.recordSuccess now later))
        { call with phase := .done (.ok resp) }
  | fail {u : Fin n} {us : List (Fin n)} {roles : List UpstreamRole} {now later : ℕ}
      (hphase : call.phase = .returned u none us roles) :
      CallStep m s call (.record now later) none (s.call u (.recordFailure now))
        { call with phase := .trying us roles }
  | finish (hphase : call.phase = .trying [] []) :
      CallStep m s call .finish none s
        { call with phase := .done (.error (call.error.message m.chainName call.req.method)) }
  | drop {u : Fin n} {us : List (Fin n)} {roles : List UpstreamRole}
      (hphase : call.phase = .sending u us roles) :
      CallStep m s call .drop none s { call with phase := .dropped }
  | panic {u : Fin n} {resp : JsonRpcResponse} {us : List (Fin n)} {roles : List UpstreamRole}
      (hphase : call.phase = .returned u (some resp) us roles)
      (hlog : m.debugUpstream.survives resp = false) :
      CallStep m s call .panic none s { call with phase := .panicked }

/-- **The moves of a call, one by one.** -/
theorem moveCall_spec (h : moveCall m s call move = some (t, call')) :
    CallStep m s call move (eventOf m s call move) t call' := by
  cases move with
  | reach random =>
    rw [moveCall] at h
    split at h
    · rename_i role roles hphase
      have hevent : eventOf m s call (.reach random) = some (.reached (m.tier s role random)) := by
        simp only [eventOf, hphase]
      rw [hevent]
      dsimp only at h
      split_ifs at h with hempty
      · cases h
        exact .skip hphase (List.isEmpty_iff.mp hempty)
      · cases h
        exact .reach hphase fun hnil => hempty (List.isEmpty_iff.mpr hnil)
    · cases h
  | token granted =>
    rw [moveCall] at h
    split at h
    · rename_i u us roles hphase
      have hevent : eventOf m s call (.token granted) = some (.asked u granted) := by
        simp only [eventOf, hphase]
      rw [hevent]
      cases granted with
      | true =>
        cases h
        exact .grant hphase
      | false =>
        cases h
        exact .limit hphase
    · cases h
  | answer reply =>
    rw [moveCall] at h
    split at h
    · rename_i u us roles hphase
      have hevent : eventOf m s call (.answer reply) = some (.sent u reply.response) := by
        simp only [eventOf, hphase]
      rw [hevent]
      cases h
      exact .answer hphase
    · cases h
  | record now later =>
    rw [moveCall] at h
    split at h
    · rename_i u resp us roles hphase
      obtain ⟨hlog, h⟩ := Option.ite_none_right_eq_some.mp h
      cases h
      simp only [eventOf, hphase]
      exact .succeed hphase hlog
    · rename_i u us roles hphase
      cases h
      simp only [eventOf, hphase]
      exact .fail hphase
    · cases h
  | finish =>
    rw [moveCall] at h
    split at h
    · rename_i hphase
      cases h
      simp only [eventOf, hphase]
      exact .finish hphase
    · cases h
  | drop =>
    rw [moveCall] at h
    split at h
    · rename_i u us roles hphase
      cases h
      simp only [eventOf, hphase]
      exact .drop hphase
    · cases h
  | panic =>
    rw [moveCall] at h
    split at h
    · rename_i u resp us roles hphase
      obtain ⟨hlog, h⟩ := Option.ite_none_left_eq_some.mp h
      cases h
      simp only [eventOf, hphase]
      exact .panic hphase (Bool.not_eq_true _ ▸ hlog)
    · cases h

theorem CallStep.calls_eq {event : Option (ForwardEvent (Fin n))}
    (h : CallStep m s call move event t call') : t.calls = s.calls := by
  cases h <;> simp

/-- **What a step is to a call**: its beginning, a move of its own, or nothing. -/
theorem poolStep_call {a : PoolAction n} (h : poolStep m s a = some t) (i : ℕ) :
    (∃ req, a = .forward i req ∧ s.calls i = none ∧ t.calls i = some (.init req) ∧
        m.events i s a = []) ∨
      (∃ move call event s' call', a = .move i move ∧ s.calls i = some call ∧
        t.calls i = some call' ∧ CallStep m s call move event s' call' ∧
        m.events i s a = event.toList) ∨
      t.calls i = s.calls i ∧ m.events i s a = [] := by
  cases a with
  | forward j req =>
    rw [poolStep] at h
    split at h
    · rename_i hnone
      cases h
      by_cases hj : j = i
      · subst hj
        exact .inl ⟨req, rfl, hnone, Function.update_self _ _ _, rfl⟩
      · exact .inr (.inr ⟨Function.update_of_ne (Ne.symm hj) _ _, rfl⟩)
    · cases h
  | move j move =>
    obtain ⟨call, hcall, h⟩ := Option.bind_eq_some_iff.mp h
    obtain ⟨⟨s', call'⟩, hmove, rfl⟩ := Option.map_eq_some_iff.mp h
    have hspec := moveCall_spec hmove
    by_cases hj : j = i
    · subst hj
      refine .inr (.inl ⟨move, call, _, s', call', rfl, hcall, Function.update_self _ _ _, hspec,
        ?_⟩)
      rw [ChainManager.events, if_pos rfl, hcall]
      rfl
    · refine .inr (.inr ⟨?_, if_neg hj⟩)
      exact (Function.update_of_ne (Ne.symm hj) _ _).trans (congrFun hspec.calls_eq i)
  | client u op =>
    cases h
    exact .inr (.inr ⟨rfl, rfl⟩)
  | latency u elapsed =>
    cases h
    exact .inr (.inr ⟨rfl, rfl⟩)

/-! ### A call comes to an end -/

/-- No more moves than this are left to a call on `n` upstreams: three for each that is left in this
tier, as many and one more for each tier that is left, and one to report a failure. -/
def ForwardCall.movesLeft (call : ForwardCall (Fin n)) : ℕ :=
  match call.phase with
  | .trying us roles => 3 * us.length + (3 * n + 1) * roles.length + 1
  | .sending _ us roles => 3 * us.length + (3 * n + 1) * roles.length + 3
  | .returned _ _ us roles => 3 * us.length + (3 * n + 1) * roles.length + 2
  | .done _ | .dropped | .panicked => 0

theorem length_order_le (m : ChainManager n) (s : PoolState n) (role : UpstreamRole)
    (random : ℕ) : (m.tier s role random).order.length ≤ n := by
  have hfilter := List.length_filter_le
    (fun u => decide (m.role u = role) && (s.clients u).isHealthy) (List.finRange n)
  rw [List.length_finRange] at hfilter
  exact (order_perm m s role random).length_eq.trans_le hfilter

/-- Every move is one of those that are left, so they decrease from move to move. -/
theorem movesLeft_lt {event : Option (ForwardEvent (Fin n))}
    (h : CallStep m s call move event t call') : call'.movesLeft < call.movesLeft := by
  cases h with
  | @skip role roles random hphase hempty =>
    simp only [ForwardCall.movesLeft, hphase, List.length_cons, List.length_nil]
    rw [Nat.mul_succ]
    omega
  | @reach role roles random hphase hmembers =>
    have horder := length_order_le m s role random
    simp only [ForwardCall.movesLeft, hphase, List.length_cons, List.length_nil]
    rw [Nat.mul_succ]
    omega
  | grant hphase => simp only [ForwardCall.movesLeft, hphase, List.length_cons]; omega
  | limit hphase => simp only [ForwardCall.movesLeft, hphase, List.length_cons]; omega
  | answer hphase => simp only [ForwardCall.movesLeft, hphase]; omega
  | succeed hphase => simp only [ForwardCall.movesLeft, hphase]; omega
  | fail hphase => simp only [ForwardCall.movesLeft, hphase]; omega
  | finish hphase => simp only [ForwardCall.movesLeft, hphase]; omega
  | drop hphase => simp only [ForwardCall.movesLeft, hphase]; omega
  | panic hphase hlog => simp only [ForwardCall.movesLeft, hphase]; omega

/-- What is up to others: the random choices, the tokens and the replies. A call is followed to its
end for any of these. -/
structure Outcomes (n : ℕ) where
  random : UpstreamRole → ℕ
  granted : Fin n → Bool
  reply : Fin n → SendReply

/-- The next move of a call with these outcomes, unless it has come to an end. -/
def ChainManager.nextMove (m : ChainManager n) (call : ForwardCall (Fin n)) (o : Outcomes n) :
    Option ForwardMove :=
  match call.phase with
  | .trying [] (role :: _) => some (.reach (o.random role))
  | .trying [] [] => some .finish
  | .trying (u :: _) _ => some (.token (o.granted u))
  | .sending u _ _ => some (.answer (o.reply u))
  | .returned _ (some resp) _ _ =>
    if m.debugUpstream.survives resp then some (.record 0 0) else some .panic
  | .returned _ none _ _ => some (.record 0 0)
  | .done _ | .dropped | .panicked => none

/-- A call has come to an end by itself: it has returned, or logging the response has panicked. -/
def ForwardCall.Ended (call : ForwardCall (Fin n)) : Prop :=
  (∃ answer, call.phase = .done answer) ∨ call.phase = .panicked

/-- The step is the next move of the call with these outcomes. -/
def TakesNext (m : ChainManager n) (i : ℕ) (o : Outcomes n) (s : PoolState n) (a : PoolAction n) :
    Prop :=
  ∃ call move, s.calls i = some call ∧ m.nextMove call o = some move ∧ a = .move i move

/-- Only a call that has ended, or whose caller has gone, has no next move. -/
theorem ended_of_nextMove {o : Outcomes n} (hnext : m.nextMove call o = none)
    (hphase : call.phase ≠ .dropped) : call.Ended := by
  cases h : call.phase with
  | trying attempts roles =>
    cases attempts <;> cases roles <;> simp [ChainManager.nextMove, h] at hnext
  | sending u us roles => simp [ChainManager.nextMove, h] at hnext
  | returned u resp us roles =>
    cases resp with
    | none => simp [ChainManager.nextMove, h] at hnext
    | some resp =>
      simp only [ChainManager.nextMove, h] at hnext
      split at hnext <;> cases hnext
  | done answer => exact .inl ⟨answer, h⟩
  | dropped => exact absurd h hphase
  | panicked => exact .inr h

/-- Nothing keeps a call from its next move: it can be made in every state of the upstreams. -/
theorem isSome_moveCall (m : ChainManager n) (s : PoolState n) {o : Outcomes n}
    (h : m.nextMove call o = some move) : (moveCall m s call move).isSome := by
  rw [ChainManager.nextMove] at h
  split at h
  · rename_i role roles hphase
    cases h
    simp only [moveCall, hphase]
    split <;> rfl
  · rename_i hphase
    cases h
    simp only [moveCall, hphase, Option.isSome_some]
  · rename_i u us roles hphase
    cases h
    simp only [moveCall, hphase]
    split <;> rfl
  · rename_i u us roles hphase
    cases h
    simp only [moveCall, hphase, Option.isSome_some]
  · rename_i u resp us roles hphase
    split at h
    · rename_i hlog
      cases h
      simp only [moveCall, hphase, if_pos hlog, Option.isSome_some]
    · rename_i hlog
      cases h
      simp only [moveCall, hphase, if_neg hlog, Option.isSome_some]
  · rename_i u us roles hphase
    cases h
    simp only [moveCall, hphase, Option.isSome_some]
  · cases h
  · cases h
  · cases h

/-- The next move is never the end of the caller. -/
theorem not_dropped_of_nextMove {event : Option (ForwardEvent (Fin n))} {o : Outcomes n}
    (hnext : m.nextMove call o = some move) (h : CallStep m s call move event t call') :
    call'.phase ≠ .dropped := by
  cases h with
  | drop hphase => simp [ChainManager.nextMove, hphase] at hnext
  | _ => simp

/-- **A call comes to an end**, whatever the outcomes are, unless its caller has gone: its own
moves, one after another, lead there. -/
theorem call_ends (m : ChainManager n) (i : ℕ) (o : Outcomes n) (call : ForwardCall (Fin n))
    (s : PoolState n) (hcall : s.calls i = some call) (hphase : call.phase ≠ .dropped) :
    ∃ as t call', Along (poolStep m) (TakesNext m i o) s as ∧
      run (poolStep m) s as = some t ∧ t.calls i = some call' ∧ call'.Ended := by
  cases hnext : m.nextMove call o with
  | none => exact ⟨[], s, call, trivial, rfl, hcall, ended_of_nextMove hnext hphase⟩
  | some move =>
    obtain ⟨⟨s', call'⟩, hmove⟩ := Option.isSome_iff_exists.mp (isSome_moveCall m s hnext)
    have hphase' := not_dropped_of_nextMove hnext (moveCall_spec hmove)
    have hlt := movesLeft_lt (moveCall_spec hmove)
    have hstep : poolStep m s (.move i move) = some (s'.setCall i call') := by
      rw [poolStep, hcall, Option.bind_some, hmove, Option.map_some]
    obtain ⟨as, t, last, halong, hrun, hlast, hended⟩ :=
      call_ends m i o call' (s'.setCall i call') (Function.update_self _ _ _) hphase'
    refine ⟨.move i move :: as, t, last, fun u hu => ?_, ?_, hlast, hended⟩
    · rw [hstep] at hu
      exact ⟨⟨call, move, hcall, hnext, rfl⟩, Option.some.inj hu ▸ halong⟩
    · rw [run_cons_of_step hstep, hrun]
termination_by call.movesLeft

end Step

end Poolbeg
