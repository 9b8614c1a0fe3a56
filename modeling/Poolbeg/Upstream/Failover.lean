import Poolbeg.Upstream.Manager

/-!
# Failover

What a call of `forward_request` has done when it returns. It reaches the tiers in order; it asks
the members of a tier for a token one after another, the preferred one first and the others as they
are configured; it sends the request to exactly those that grant one; it returns the first response;
and when there is none, it has asked every member of every tier and reports the failure that fits.

## The log of a call

The log of a call is what its steps show. `Progress` says how far the log has got: the tiers and the
members of a tier that are left, and what the two flags know about the log. Every move shows one
event at most, and moves one thing from what is left into the log, which is the induction on the run
(`logged_move`, `logged_run`). Where a call has returned, nothing is left that it should have done,
and what the log then says is `FailsOver`.

## When it does not return

A call whose caller has gone is dropped. Any other call comes to an end, whatever the upstreams do,
but with `debug_upstream` the end may be a panic: the first response that comes back is logged, and
a result with a character of several bytes across the 512th byte of its text cannot be. Then there
is a response and nobody gets it. This is the only exception (`forwardRequest_failover_iff`).

## Main definitions

* `tiersOf`, `asksOf`, `sendsOf`, `firstAnswer` — what the log says of tiers, tokens and responses
* `Progress`, `ForwardCall.Logged` — how far a log has got, and that a call stands where it says
* `FailsOver` — what a call has done that has returned
* `FirstSurvives` — the first response can be logged
* `CompletesFailover` — it has returned, and done so

## Main results

* `logged_run` — what the log of a call says about where it stands
* `failsOver_of_logged` — a finished call has failed over
* `forwardRequest_failover_iff` — failover is complete exactly when the first response can be logged
-/

namespace Poolbeg

open Lts

/-! ### The log of a call -/

section Log

variable {ι : Type}

/-- The tier, if this is the event that one is reached. -/
def ForwardEvent.tier : ForwardEvent ι → Option (Tier ι)
  | .reached tier => some tier
  | _ => none

/-- The upstream that is asked for a token, and whether it grants one. -/
def ForwardEvent.ask : ForwardEvent ι → Option (ι × Bool)
  | .asked u granted => some (u, granted)
  | _ => none

/-- The upstream that was sent the request, and the response if there was one. -/
def ForwardEvent.send : ForwardEvent ι → Option (ι × Option JsonRpcResponse)
  | .sent u resp => some (u, resp)
  | _ => none

/-- The tiers that have been reached. -/
def tiersOf (log : List (ForwardEvent ι)) : List (Tier ι) := log.filterMap ForwardEvent.tier

/-- Who has been asked for a token, and whether there was one. -/
def asksOf (log : List (ForwardEvent ι)) : List (ι × Bool) := log.filterMap ForwardEvent.ask

/-- Who has been sent the request, and what came back. -/
def sendsOf (log : List (ForwardEvent ι)) : List (ι × Option JsonRpcResponse) :=
  log.filterMap ForwardEvent.send

section Append

variable (log log' : List (ForwardEvent ι)) (tier : Tier ι) (u : ι) (granted : Bool)
  (resp : Option JsonRpcResponse)

@[simp] theorem tiersOf_append : tiersOf (log ++ log') = tiersOf log ++ tiersOf log' :=
  List.filterMap_append

@[simp] theorem asksOf_append : asksOf (log ++ log') = asksOf log ++ asksOf log' :=
  List.filterMap_append

@[simp] theorem sendsOf_append : sendsOf (log ++ log') = sendsOf log ++ sendsOf log' :=
  List.filterMap_append

@[simp] theorem tiersOf_reached : tiersOf [.reached tier] = [tier] := rfl

@[simp] theorem tiersOf_asked : tiersOf [.asked u granted] = [] := rfl

@[simp] theorem tiersOf_sent : tiersOf [.sent u resp] = [] := rfl

@[simp] theorem asksOf_reached : asksOf [.reached tier] = [] := rfl

@[simp] theorem asksOf_asked : asksOf [.asked u granted] = [(u, granted)] := rfl

@[simp] theorem asksOf_sent : asksOf [.sent u resp] = [] := rfl

@[simp] theorem sendsOf_reached : sendsOf [.reached tier] = [] := rfl

@[simp] theorem sendsOf_asked : sendsOf [.asked u granted] = [] := rfl

@[simp] theorem sendsOf_sent : sendsOf [.sent u resp] = [(u, resp)] := rfl

end Append

/-- The first response that came back. -/
def firstAnswer (log : List (ForwardEvent ι)) : Option JsonRpcResponse :=
  (sendsOf log).findSome? Prod.snd

/-- How far a log has got: which tiers are left, which members of the tier that was reached last,
which of them has been granted a token and not been heard of, and which responses there are. -/
structure Progress (log : List (ForwardEvent ι)) (roles : List UpstreamRole) (left pending : List ι)
    (answers : List JsonRpcResponse) (tried limited : Bool) : Prop where
  roles : (tiersOf log).map Tier.role ++ roles = tierOrder
  left : (asksOf log).map Prod.fst ++ left = (tiersOf log).flatMap Tier.order
  earlier : (tiersOf log).dropLast.flatMap Tier.order <+: (asksOf log).map Prod.fst
  pending : ((asksOf log).filter Prod.snd).map Prod.fst = (sendsOf log).map Prod.fst ++ pending
  answers : (sendsOf log).filterMap Prod.snd = answers
  tried : tried = (tiersOf log).any fun tier => !tier.members.isEmpty
  limited : limited = !(asksOf log).any Prod.snd

variable {log : List (ForwardEvent ι)} {roles : List UpstreamRole} {us : List ι} {u : ι}
  {answers : List JsonRpcResponse} {tried limited : Bool}

theorem progress_nil : Progress (ι := ι) [] tierOrder [] [] [] false true :=
  ⟨rfl, rfl, List.prefix_rfl, rfl, rfl, rfl, rfl⟩

/-- A tier is reached when nobody is left in the one before it. -/
theorem Progress.reached (tier : Tier ι)
    (h : Progress log (tier.role :: roles) [] [] [] tried limited) :
    Progress (log ++ [.reached tier]) roles tier.order [] [] (tried || !tier.members.isEmpty)
      limited where
  roles := by simpa using h.roles
  left := by
    have hleft := h.left
    rw [List.append_nil] at hleft
    simp [hleft]
  earlier := by
    have hleft := h.left
    rw [List.append_nil] at hleft
    simp [hleft]
  pending := by simpa using h.pending
  answers := by simpa using h.answers
  tried := by simp [h.tried]
  limited := by simp [h.limited]

/-- The next member is asked for a token, and is to be heard of if it grants one. -/
theorem Progress.asked (h : Progress log roles (u :: us) [] answers tried limited)
    (granted : Bool) :
    Progress (log ++ [.asked u granted]) roles us (if granted then [u] else []) answers tried
      (limited && !granted) where
  roles := by simpa using h.roles
  left := by simpa using h.left
  earlier := by
    rw [tiersOf_append, tiersOf_asked, List.append_nil, asksOf_append, List.map_append]
    exact h.earlier.trans (List.prefix_append _ _)
  pending := by
    have hpending := h.pending
    cases granted <;> simpa using hpending
  answers := by simpa using h.answers
  tried := by simp [h.tried]
  limited := by simp [h.limited]

/-- An upstream is heard of, with a response or without one. -/
theorem Progress.sent (h : Progress log roles us [u] [] tried limited)
    (resp : Option JsonRpcResponse) :
    Progress (log ++ [.sent u resp]) roles us [] resp.toList tried limited where
  roles := by simpa using h.roles
  left := by simpa using h.left
  earlier := by simpa using h.earlier
  pending := by simpa using h.pending
  answers := by
    have hanswers := h.answers
    cases resp <;> simpa using hanswers
  tried := by simp [h.tried]
  limited := by simp [h.limited]

end Log

section Call

variable {n : ℕ} {m : ChainManager n} {s t : PoolState n} {call call' : ForwardCall (Fin n)}
  {move : ForwardMove} {event : Option (ForwardEvent (Fin n))} {log : List (ForwardEvent (Fin n))}

/-- What the log of a call says about where it stands: what the phase still has before it is what
the log has left. -/
def ForwardCall.Logged (m : ChainManager n) (log : List (ForwardEvent (Fin n)))
    (call : ForwardCall (Fin n)) : Prop :=
  match call.phase with
  | .trying us roles =>
    Progress log roles us [] [] call.anyUpstreamTried call.allRateLimited
  | .sending u us roles =>
    Progress log roles us [u] [] call.anyUpstreamTried call.allRateLimited ∧
      (asksOf log).getLast? = some (u, true)
  | .returned u resp us roles =>
    Progress log roles us [] resp.toList call.anyUpstreamTried call.allRateLimited ∧
      (asksOf log).getLast? = some (u, true) ∧ (sendsOf log).getLast? = some (u, resp)
  | .done (.ok resp) =>
    (∃ us roles, Progress log roles us [] [resp] call.anyUpstreamTried call.allRateLimited) ∧
      m.debugUpstream.survives resp = true ∧
      ∃ u, (asksOf log).getLast? = some (u, true) ∧ (sendsOf log).getLast? = some (u, some resp)
  | .done (.error text) =>
    Progress log [] [] [] [] call.anyUpstreamTried call.allRateLimited ∧
      text = call.error.message m.chainName call.req.method
  | .dropped => True
  | .panicked =>
    ∃ us roles resp, Progress log roles us [] [resp] call.anyUpstreamTried call.allRateLimited ∧
      m.debugUpstream.survives resp = false

theorem logged_init (req : JsonRpcRequest) :
    (ForwardCall.init req : ForwardCall (Fin n)).Logged m [] := progress_nil

/-- **A move puts into the log what it takes from the rest.** There is a case for each move, and
each of them is a lemma on `Progress`. -/
theorem logged_move (hlog : call.Logged m log)
    (h : CallStep m s call move event t call') : call'.Logged m (log ++ event.toList) := by
  cases h with
  | @skip role roles random hphase hempty =>
    simp only [ForwardCall.Logged, hphase] at hlog ⊢
    have hreached := Progress.reached (m.tier s role random) hlog
    have hnil : (m.tier s role random).members.isEmpty = true := List.isEmpty_iff.mpr hempty
    simpa [hnil, order_of_empty m s role random hempty] using hreached
  | @reach role roles random hphase hmembers =>
    simp only [ForwardCall.Logged, hphase] at hlog ⊢
    have hreached := Progress.reached (m.tier s role random) hlog
    have hne : (m.tier s role random).members.isEmpty = false :=
      Bool.eq_false_iff.mpr fun hnil => hmembers (List.isEmpty_iff.mp hnil)
    simpa [hne] using hreached
  | @grant u us roles hphase =>
    simp only [ForwardCall.Logged, hphase] at hlog ⊢
    exact ⟨by simpa using hlog.asked true, by simp⟩
  | @limit u us roles hphase =>
    simp only [ForwardCall.Logged, hphase] at hlog ⊢
    simpa using hlog.asked false
  | @answer u us roles reply hphase =>
    simp only [ForwardCall.Logged, hphase] at hlog ⊢
    exact ⟨by simpa using hlog.1.sent reply.response, by simpa using hlog.2, by simp⟩
  | @succeed u resp us roles now later hphase hsurvives =>
    simp only [ForwardCall.Logged, hphase] at hlog ⊢
    simp only [Option.toList_none, List.append_nil]
    exact ⟨⟨us, roles, hlog.1⟩, hsurvives, u, hlog.2⟩
  | @fail u us roles now later hphase =>
    simp only [ForwardCall.Logged, hphase] at hlog ⊢
    simpa using hlog.1
  | finish hphase =>
    simp only [ForwardCall.Logged, hphase] at hlog ⊢
    exact ⟨by simpa using hlog, rfl⟩
  | drop hphase => trivial
  | @panic u resp us roles hphase hpanics =>
    simp only [ForwardCall.Logged, hphase] at hlog ⊢
    simp only [Option.toList_none, List.append_nil]
    exact ⟨us, roles, resp, hlog.1, hpanics⟩

/-- The log of a call says where it stands, in every state of a run. -/
theorem logged_run {i : ℕ} {as : List (PoolAction n)} (hnone : s.calls i = none)
    (hrun : run (poolStep m) s as = some t) :
    match t.calls i with
    | none => gather (poolStep m) (m.events i) s as = []
    | some call => call.Logged m (gather (poolStep m) (m.events i) s as) := by
  refine run_history (H := fun as t =>
    match t.calls i with
    | none => gather (poolStep m) (m.events i) s as = []
    | some call => call.Logged m (gather (poolStep m) (m.events i) s as)) ?_ ?_ hrun
  · simp only [hnone]
    rfl
  · intro as t a u hrun ht hu
    rw [gather_concat hrun]
    obtain ⟨req, -, hcall, hcall', hevents⟩ |
      ⟨move, call, event, s', call', -, hcall, hcall', hmove, hevents⟩ | ⟨hcall, hevents⟩ :=
      poolStep_call hu i
    · simp only [hcall] at ht
      simp only [hcall', hevents, ht, List.append_nil]
      exact logged_init req
    · simp only [hcall] at ht
      simp only [hcall', hevents]
      exact logged_move ht hmove
    · simpa only [hcall, hevents, List.append_nil] using ht

/-- A tier that is reached is found as it is now. -/
theorem tier_of_eventOf {shown : ForwardEvent (Fin n)} {tier : Tier (Fin n)}
    (h : eventOf m s call move = some shown) (htier : shown.tier = some tier) :
    ∃ random, move = .reach random ∧ tier = m.tier s tier.role random := by
  unfold eventOf at h
  split at h
  · rename_i role roles random hphase
    cases h
    cases htier
    exact ⟨random, rfl, rfl⟩
  · cases h
    cases htier
  · cases h
    cases htier
  · cases h

/-- The call reaches this tier in a step of the run, and finds it as it is then: its members are the
upstreams of the role that are healthy in that state. -/
def ReachedIn (m : ChainManager n) (s : PoolState n) (as : List (PoolAction n)) (i : ℕ)
    (tier : Tier (Fin n)) : Prop :=
  ∃ pre mid random, pre ++ [.move i (.reach random)] <+: as ∧
    run (poolStep m) s pre = some mid ∧ tier = m.tier mid tier.role random

/-- A tier in the log has been reached as it was found. -/
theorem reachedIn_of_mem {i : ℕ} {as : List (PoolAction n)} {tier : Tier (Fin n)}
    (h : tier ∈ tiersOf (gather (poolStep m) (m.events i) s as)) : ReachedIn m s as i tier := by
  obtain ⟨shown, hmem, htier⟩ := List.mem_filterMap.mp h
  obtain ⟨pre, a, post, mid, rfl, hrun, hshown⟩ := once_of_mem_gather hmem
  cases a with
  | move j move =>
    rw [ChainManager.events] at hshown
    split_ifs at hshown with hj
    · obtain ⟨call, -, hevent⟩ := Option.bind_eq_some_iff.mp (Option.mem_toList.mp hshown)
      obtain ⟨random, rfl, hfound⟩ := tier_of_eventOf hevent htier
      refine ⟨pre, mid, random, ⟨post, ?_⟩, hrun, hfound⟩
      rw [hj, List.append_assoc, List.singleton_append]
    · cases hshown
  | _ => cases hshown

/-- A tier tries its preferred member first and then the others as they are configured. -/
def Tier.InOrder (tier : Tier (Fin n)) : Prop :=
  tier.members = [] ∧ tier.order = [] ∨
    ∃ p ∈ tier.members, tier.order = p :: tier.members.filter fun u => decide (u ≠ p)

theorem tier_inOrder (m : ChainManager n) (s : PoolState n) (role : UpstreamRole) (random : ℕ) :
    (m.tier s role random).InOrder := by
  by_cases hempty : m.tierUpstreams s role = []
  · exact .inl ⟨hempty, order_of_empty m s role random hempty⟩
  · obtain ⟨p, hp, horder⟩ := exists_order_eq m s role random hempty
    exact .inr ⟨p, hp, horder.trans (attemptOrder_some _ _)⟩

/-- Tiers of different roles have no member in common, so nobody has two turns in a log. -/
theorem nodup_orders {tiers : List (Tier (Fin n))} (hroles : (tiers.map Tier.role).Nodup)
    (hfound : ∀ tier ∈ tiers, ∃ mid random, tier = m.tier mid tier.role random) :
    (tiers.flatMap Tier.order).Nodup := by
  have horder : ∀ tier ∈ tiers, tier.order.Nodup ∧ ∀ u ∈ tier.order, m.role u = tier.role := by
    intro tier htier
    obtain ⟨mid, random, hmid⟩ := hfound tier htier
    have hperm := order_perm m mid tier.role random
    rw [hmid]
    exact ⟨hperm.nodup_iff.mpr (nodup_tierUpstreams m mid tier.role),
      fun u hu => role_of_mem_tierUpstreams (hperm.mem_iff.mp hu)⟩
  refine List.nodup_flatMap.mpr ⟨fun tier htier => (horder tier htier).1, ?_⟩
  refine (List.pairwise_map.mp hroles).imp_of_mem fun {a b} ha hb hne u hua hub => hne ?_
  exact ((horder a ha).2 u hua).symm.trans ((horder b hb).2 u hub)

/-- What a call has done that returns `answer`, by its log. -/
structure FailsOver (m : ChainManager n) (method : String) (log : List (ForwardEvent (Fin n)))
    (answer : Answer) : Prop where
  /-- The tiers are reached in order. -/
  tiers : (tiersOf log).map Tier.role <+: tierOrder
  /-- Each of them has its preferred member first. -/
  inOrder : ∀ tier ∈ tiersOf log, tier.InOrder
  /-- Members are asked for a token in this order. -/
  asks : (asksOf log).map Prod.fst <+: (tiersOf log).flatMap Tier.order
  /-- A tier is reached when everybody in the tiers before it has been asked. -/
  earlier : (tiersOf log).dropLast.flatMap Tier.order <+: (asksOf log).map Prod.fst
  /-- Nobody is asked twice. -/
  once : ((asksOf log).map Prod.fst).Nodup
  /-- The request is sent to those who grant one. -/
  sends : (sendsOf log).map Prod.fst = ((asksOf log).filter Prod.snd).map Prod.fst
  /-- A response is returned exactly when somebody healthy has granted a token and responded. -/
  ok_iff : (∃ resp, answer = .ok resp) ↔ ∃ tier ∈ tiersOf log, ∃ u ∈ tier.members,
    (u, true) ∈ asksOf log ∧ ∃ resp, (u, some resp) ∈ sendsOf log
  /-- It is the first one. -/
  first : ∀ resp, answer = .ok resp ↔ firstAnswer log = some resp
  /-- Nobody is asked after it. -/
  stops : ∀ resp, answer = .ok resp →
    ∃ u, (asksOf log).getLast? = some (u, true) ∧ (sendsOf log).getLast? = some (u, some resp)
  /-- Without one, every tier is reached and everybody is asked. -/
  complete : ∀ text, answer = .error text → (tiersOf log).map Tier.role = tierOrder ∧
    (asksOf log).map Prod.fst = (tiersOf log).flatMap Tier.order
  noHealthy_iff : ∀ text, answer = .error text →
    (text = ForwardError.noHealthy.message m.chainName method ↔
      ∀ tier ∈ tiersOf log, tier.members = [])
  rateLimited_iff : ∀ text, answer = .error text →
    (text = ForwardError.rateLimited.message m.chainName method ↔
      (∃ tier ∈ tiersOf log, tier.members ≠ []) ∧ ∀ ask ∈ asksOf log, ask.2 = false)

theorem mem_members_of_mem_order {tier : Tier (Fin n)} {u : Fin n} (htier : tier.InOrder)
    (hu : u ∈ tier.order) : u ∈ tier.members := by
  obtain ⟨-, horder⟩ | ⟨p, hp, horder⟩ := htier
  · rw [horder] at hu
    cases hu
  · rw [horder] at hu
    obtain rfl | hu := List.mem_cons.mp hu
    · exact hp
    · exact (List.mem_filter.mp hu).1

/-- The first flag knows whether any tier had a member. -/
theorem error_eq_noHealthy {roles : List UpstreamRole} {left pending : List (Fin n)}
    {answers : List JsonRpcResponse}
    (h : Progress log roles left pending answers call.anyUpstreamTried call.allRateLimited) :
    call.error = .noHealthy ↔ ∀ tier ∈ tiersOf log, tier.members = [] := by
  have htried := h.tried
  cases hany : call.anyUpstreamTried with
  | false =>
    rw [hany, eq_comm, List.any_eq_false] at htried
    simp only [ForwardCall.error, hany, Bool.not_false, if_true, true_iff]
    intro tier htier
    simpa using htried tier htier
  | true =>
    rw [hany, eq_comm, List.any_eq_true] at htried
    obtain ⟨tier, htier, hmembers⟩ := htried
    have hne : call.error ≠ .noHealthy := by
      rw [ForwardCall.error, hany]
      cases call.allRateLimited <;> decide
    refine iff_of_false hne fun hall => ?_
    simp [hall tier htier] at hmembers

/-- The second flag knows whether anybody granted a token. -/
theorem error_eq_rateLimited {roles : List UpstreamRole} {left pending : List (Fin n)}
    {answers : List JsonRpcResponse}
    (h : Progress log roles left pending answers call.anyUpstreamTried call.allRateLimited) :
    call.error = .rateLimited ↔
      (∃ tier ∈ tiersOf log, tier.members ≠ []) ∧ ∀ ask ∈ asksOf log, ask.2 = false := by
  have htried : call.anyUpstreamTried = true ↔ ∃ tier ∈ tiersOf log, tier.members ≠ [] := by
    rw [h.tried, List.any_eq_true]
    simp
  have hlimited : call.allRateLimited = true ↔ ∀ ask ∈ asksOf log, ask.2 = false := by
    rw [h.limited, Bool.not_eq_true', List.any_eq_false]
    simp
  rw [← htried, ← hlimited, ForwardCall.error]
  cases call.anyUpstreamTried <;> cases call.allRateLimited <;> decide

/-- The first answer is the first of the responses that the log has. -/
theorem Progress.firstAnswer_eq {roles : List UpstreamRole} {left pending : List (Fin n)}
    {answers : List JsonRpcResponse} {tried limited : Bool}
    (h : Progress log roles left pending answers tried limited) :
    firstAnswer log = answers.head? := by
  rw [firstAnswer, ← h.answers, List.head?_filterMap]

/-- A response is somebody's who was healthy when the tier was reached and granted a token. -/
theorem Progress.exists_responder {roles : List UpstreamRole} {left : List (Fin n)}
    {answers : List JsonRpcResponse} {tried limited : Bool}
    (h : Progress log roles left [] answers tried limited)
    (hinOrder : ∀ tier ∈ tiersOf log, tier.InOrder) :
    (∃ resp, resp ∈ answers) ↔ ∃ tier ∈ tiersOf log, ∃ u ∈ tier.members,
      (u, true) ∈ asksOf log ∧ ∃ resp, (u, some resp) ∈ sendsOf log := by
  constructor
  · rintro ⟨resp, hresp⟩
    rw [← h.answers] at hresp
    obtain ⟨⟨u, _⟩, hsent, rfl⟩ := List.mem_filterMap.mp hresp
    have hgranted : u ∈ ((asksOf log).filter Prod.snd).map Prod.fst := by
      rw [h.pending, List.append_nil]
      exact List.mem_map_of_mem hsent
    obtain ⟨⟨v, granted⟩, hask, rfl⟩ := List.mem_map.mp hgranted
    obtain ⟨hask, rfl : granted = true⟩ := List.mem_filter.mp hask
    have hturn : v ∈ (tiersOf log).flatMap Tier.order := by
      rw [← h.left]
      exact List.mem_append_left _ (List.mem_map_of_mem hask)
    obtain ⟨tier, htier, hmem⟩ := List.mem_flatMap.mp hturn
    exact ⟨tier, htier, v, mem_members_of_mem_order (hinOrder tier htier) hmem, hask, resp, hsent⟩
  · rintro ⟨-, -, u, -, -, resp, hsent⟩
    rw [← h.answers]
    exact ⟨resp, List.mem_filterMap.mpr ⟨_, hsent, rfl⟩⟩

/-- Every tier in the log is one that the manager has found at some time. -/
def Found (m : ChainManager n) (log : List (ForwardEvent (Fin n))) : Prop :=
  ∀ tier ∈ tiersOf log, ∃ mid random, tier = m.tier mid tier.role random

theorem Found.inOrder (hfound : Found m log) : ∀ tier ∈ tiersOf log, tier.InOrder := by
  intro tier htier
  obtain ⟨mid, random, hmid⟩ := hfound tier htier
  exact hmid ▸ tier_inOrder m mid tier.role random

section Finished

variable {roles : List UpstreamRole} {left : List (Fin n)} {answers : List JsonRpcResponse}
  {tried limited : Bool}

theorem Progress.once (h : Progress log roles left [] answers tried limited)
    (hfound : Found m log) : ((asksOf log).map Prod.fst).Nodup := by
  have htiers : (tiersOf log).map Tier.role <+: tierOrder := ⟨roles, h.roles⟩
  have hasks : (asksOf log).map Prod.fst <+: (tiersOf log).flatMap Tier.order := ⟨left, h.left⟩
  exact hasks.sublist.nodup (nodup_orders (htiers.sublist.nodup (by decide)) hfound)

theorem Progress.failsOver_ok {resp : JsonRpcResponse}
    (h : Progress log roles left [] [resp] tried limited) (hfound : Found m log)
    (hlast : ∃ u, (asksOf log).getLast? = some (u, true) ∧
      (sendsOf log).getLast? = some (u, some resp)) (method : String) :
    FailsOver m method log (.ok resp) where
  tiers := ⟨roles, h.roles⟩
  inOrder := hfound.inOrder
  asks := ⟨left, h.left⟩
  earlier := h.earlier
  once := h.once hfound
  sends := by rw [h.pending, List.append_nil]
  ok_iff := (iff_of_true ⟨resp, rfl⟩ ⟨resp, List.mem_cons_self⟩).trans
    (h.exists_responder hfound.inOrder)
  first resp' := by rw [h.firstAnswer_eq]; simp
  stops resp' heq := by
    cases heq
    exact hlast
  complete text htext := by cases htext
  noHealthy_iff text htext := by cases htext
  rateLimited_iff text htext := by cases htext

theorem Progress.failsOver_error
    (h : Progress log [] [] [] [] call.anyUpstreamTried call.allRateLimited)
    (hfound : Found m log) (method : String) :
    FailsOver m method log (.error (call.error.message m.chainName method)) where
  tiers := ⟨[], h.roles⟩
  inOrder := hfound.inOrder
  asks := ⟨[], h.left⟩
  earlier := h.earlier
  once := h.once hfound
  sends := by rw [h.pending, List.append_nil]
  ok_iff := (iff_of_false (by simp) (by simp)).trans (h.exists_responder hfound.inOrder)
  first resp := by rw [h.firstAnswer_eq]; simp
  stops resp heq := by cases heq
  complete _ _ := ⟨by simpa using h.roles, by simpa using h.left⟩
  noHealthy_iff text htext := by
    cases htext
    exact (ForwardError.message_injective m.chainName method).eq_iff.trans (error_eq_noHealthy h)
  rateLimited_iff text htext := by
    cases htext
    exact (ForwardError.message_injective m.chainName method).eq_iff.trans
      (error_eq_rateLimited h)

end Finished

/-- **A finished call has failed over** as it should. With a response, the log stops there; without
one, nothing is left in it. -/
theorem failsOver_of_logged {answer : Answer} (hlog : call.Logged m log)
    (hdone : call.phase = .done answer) (hfound : Found m log) :
    FailsOver m call.req.method log answer := by
  cases answer with
  | ok resp =>
    simp only [ForwardCall.Logged, hdone] at hlog
    obtain ⟨⟨left, roles, hprogress⟩, -, hlast⟩ := hlog
    exact hprogress.failsOver_ok hfound hlast _
  | error text =>
    simp only [ForwardCall.Logged, hdone] at hlog
    obtain ⟨hprogress, rfl⟩ := hlog
    exact hprogress.failsOver_error hfound _

/-- A call is about the request it was made for as long as there is a run. -/
theorem call_run {i : ℕ} {req : JsonRpcRequest} {as : List (PoolAction n)}
    (hcall : ∃ call, s.calls i = some call ∧ call.req = req)
    (hrun : run (poolStep m) s as = some t) :
    ∃ call, t.calls i = some call ∧ call.req = req := by
  refine run_inv (I := fun s : PoolState n => ∃ call, s.calls i = some call ∧ call.req = req)
    (fun s a t hs ht => ?_) hcall hrun
  obtain ⟨call, hcall, hreq⟩ := hs
  obtain ⟨req', -, hnone, -, -⟩ | ⟨move, call', event, s', call'', -, hcall', hnext, hmove, -⟩ |
    ⟨hsame, -⟩ := poolStep_call ht i
  · rw [hcall] at hnone
    cases hnone
  · rw [hcall] at hcall'
    cases hcall'
    exact ⟨call'', hnext, by cases hmove <;> exact hreq⟩
  · exact ⟨call, hsame.trans hcall, hreq⟩

/-- The first response that came back, if any, survives its logging. With `debug_upstream` off every
response does. -/
def FirstSurvives (m : ChainManager n) (log : List (ForwardEvent (Fin n))) : Prop :=
  ∀ resp, firstAnswer log = some resp → m.debugUpstream.survives resp = true

/-- A call that has ended has returned exactly if the first response survived. The others that come
back are failures, and no response is logged for those. -/
theorem returned_iff_of_logged (hlog : call.Logged m log) (hended : call.Ended) :
    (∃ answer, call.phase = .done answer) ↔ FirstSurvives m log := by
  obtain ⟨answer, hdone⟩ | hpanicked := hended
  · refine iff_of_true ⟨answer, hdone⟩ fun resp hfirst => ?_
    cases answer with
    | ok resp' =>
      simp only [ForwardCall.Logged, hdone] at hlog
      obtain ⟨⟨left, roles, hprogress⟩, hsurvives, -⟩ := hlog
      rw [hprogress.firstAnswer_eq, List.head?_cons, Option.some.injEq] at hfirst
      exact hfirst ▸ hsurvives
    | error text =>
      simp only [ForwardCall.Logged, hdone] at hlog
      rw [hlog.1.firstAnswer_eq, List.head?_nil] at hfirst
      cases hfirst
  · simp only [ForwardCall.Logged, hpanicked] at hlog
    obtain ⟨left, roles, resp, hprogress, hpanics⟩ := hlog
    refine iff_of_false ?_ fun hsurvives => ?_
    · rintro ⟨answer, hdone⟩
      cases hdone.symm.trans hpanicked
    · have hfirst := hsurvives resp (by rw [hprogress.firstAnswer_eq, List.head?_cons])
      exact Bool.false_ne_true (hpanics.symm.trans hfirst)

/-- **What a call of `forward_request` is to do**: it returns, having reached the tiers, asked for
tokens, sent the request and picked its answer as `FailsOver` says, where the members of a tier are
those that were healthy when the call reached it. -/
def CompletesFailover (m : ChainManager n) (s : PoolState n) (as : List (PoolAction n)) (i : ℕ)
    (call : ForwardCall (Fin n)) : Prop :=
  ∃ answer, call.phase = .done answer ∧
    FailsOver m call.req.method (gather (poolStep m) (m.events i) s as) answer ∧
    ∀ tier ∈ tiersOf (gather (poolStep m) (m.events i) s as), ReachedIn m s as i tier

/-- **Failover is complete and ordered exactly when the first response can be logged.** A call of
`forward_request`, whatever else is going on, comes to an end with any outcomes unless its caller is
gone. Once it has, it has done what it is to do if `debug_upstream` is off, or if no response came
back, or if the first one does not straddle the limit of the log; and otherwise not, since it has
panicked. -/
theorem forwardRequest_failover_iff (m : ChainManager n) {i : ℕ} {req : JsonRpcRequest}
    {as : List (PoolAction n)}
    (hrun : run (poolStep m) s (.forward i req :: as) = some t) :
    ∃ call, t.calls i = some call ∧ call.req = req ∧
      (call.phase ≠ .dropped → ∀ o : Outcomes n, ∃ bs u call',
        Along (poolStep m) (TakesNext m i o) t bs ∧ run (poolStep m) t bs = some u ∧
          u.calls i = some call' ∧ call'.Ended) ∧
      (call.Ended → (CompletesFailover m s (.forward i req :: as) i call ↔
        (m.debugUpstream.enabled = true → ∀ resp,
          firstAnswer (gather (poolStep m) (m.events i) s (.forward i req :: as)) = some resp →
            ¬ resp.Straddles m.debugUpstream.floats))) := by
  obtain ⟨s', hs', hrest⟩ := run_cons_eq_some.mp hrun
  have hbegin : s.calls i = none ∧ s'.calls i = some (.init req) := by
    rw [poolStep] at hs'
    split at hs'
    · rename_i hnone
      cases hs'
      exact ⟨hnone, Function.update_self _ _ _⟩
    · cases hs'
  obtain ⟨call, hcall, rfl⟩ := call_run ⟨_, hbegin.2, (rfl : _ = req)⟩ hrest
  refine ⟨call, hcall, rfl, fun hphase o => call_ends m i o call t hcall hphase, fun hended => ?_⟩
  have hlog := logged_run hbegin.1 hrun
  simp only [hcall] at hlog
  have hfound : ∀ tier ∈ tiersOf
      (gather (poolStep m) (m.events i) s (.forward i call.req :: as)),
      ReachedIn m s (.forward i call.req :: as) i tier := fun _ => reachedIn_of_mem
  have hsurvives : FirstSurvives m
      (gather (poolStep m) (m.events i) s (.forward i call.req :: as)) ↔
        (m.debugUpstream.enabled = true → ∀ resp,
          firstAnswer (gather (poolStep m) (m.events i) s (.forward i call.req :: as)) =
            some resp → ¬ resp.Straddles m.debugUpstream.floats) := by
    simp only [FirstSurvives, DebugLog.survives_iff]
    exact ⟨fun h hon resp hresp => h resp hresp hon, fun h resp hresp hon => h hon resp hresp⟩
  rw [← hsurvives, ← returned_iff_of_logged hlog hended]
  constructor
  · rintro ⟨answer, hdone, -⟩
    exact ⟨answer, hdone⟩
  · rintro ⟨answer, hdone⟩
    refine ⟨answer, hdone, failsOver_of_logged hlog hdone fun tier htier => ?_, hfound⟩
    obtain ⟨-, mid, random, -, -, hmid⟩ := hfound tier htier
    exact ⟨mid, random, hmid⟩

end Call

/-- A primary and a secondary upstream. -/
def primaryAndSecondary : ChainManager 2 where
  chainName := "mainnet"
  role u := if u = 0 then .primary else .secondary
  strategy := .roundRobin
  debugUpstream := .off

/-- A request without parameters. -/
def plainRequest : JsonRpcRequest where
  jsonrpc := "2.0"
  method := "eth_gasPrice"
  params := .array []
  id := .ofU64 1

/-- The primary does not answer and the secondary does. -/
def primaryDown : List (PoolAction 2) :=
  [.move 0 (.reach 0), .move 0 (.token true), .move 0 (.answer (.unreachable 1 1)),
    .move 0 (.record 2 2), .move 0 (.reach 0), .move 0 (.token true),
    .move 0 (.answer (.ok 900 (.success (.ofU64 1) (.string "0x1")))), .move 0 (.record 3 3)]

theorem forwardRequest_failover_primaryDown :
    ∃ t call, run (poolStep primaryAndSecondary) (.init 2 (86400 * second) 0)
        (.forward 0 plainRequest :: primaryDown) = some t ∧
      t.calls 0 = some call ∧
      call.phase = .done (.ok (.success (.ofU64 1) (.string "0x1"))) ∧
      CompletesFailover primaryAndSecondary (.init 2 (86400 * second) 0)
        (.forward 0 plainRequest :: primaryDown) 0 call := by
  obtain ⟨t, call, hrun, hcall, hdone⟩ :
      ∃ t call, run (poolStep primaryAndSecondary) (.init 2 (86400 * second) 0)
          (.forward 0 plainRequest :: primaryDown) = some t ∧
        t.calls 0 = some call ∧
        call.phase = .done (.ok (.success (.ofU64 1) (.string "0x1"))) :=
    ⟨_, _, rfl, rfl, rfl⟩
  obtain ⟨call', hcall', -, -, hiff⟩ := forwardRequest_failover_iff primaryAndSecondary hrun
  obtain rfl : call = call' := Option.some.inj (hcall.symm.trans hcall')
  exact ⟨t, call, hrun, hcall, hdone,
    (hiff (.inl ⟨_, hdone⟩)).mpr fun hon => absurd hon Bool.false_ne_true⟩

/-- The same upstreams with `debug_upstream`. -/
def loggedUpstreams : ChainManager 2 := { primaryAndSecondary with
  debugUpstream := ⟨true, pointedBits⟩ }

/-- The primary answers with a text that cannot be logged. -/
def accentedAnswer : List (PoolAction 2) :=
  [.move 0 (.reach 0), .move 0 (.token true), .move 0 (.answer (.ok 900 accentedResponse)),
    .move 0 .panic]

/-- An upstream was healthy, granted a token and answered, and nothing is returned. -/
theorem accentedAnswer_panics :
    ∃ t call, run (poolStep loggedUpstreams) (.init 2 (86400 * second) 0)
        (.forward 0 plainRequest :: accentedAnswer) = some t ∧
      t.calls 0 = some call ∧ call.phase = .panicked ∧
      firstAnswer (gather (poolStep loggedUpstreams) (loggedUpstreams.events 0)
        (.init 2 (86400 * second) 0) (.forward 0 plainRequest :: accentedAnswer)) =
          some accentedResponse ∧
      ¬ CompletesFailover loggedUpstreams (.init 2 (86400 * second) 0)
        (.forward 0 plainRequest :: accentedAnswer) 0 call := by
  obtain ⟨u, call, hrun, hcall, hphase, hfirst⟩ :
      ∃ u call, run (poolStep loggedUpstreams) (.init 2 (86400 * second) 0)
          (.forward 0 plainRequest :: accentedAnswer.dropLast) = some u ∧
        u.calls 0 = some call ∧
        call.phase = .returned 0 (some accentedResponse) [] [.secondary, .fallback] ∧
        firstAnswer (gather (poolStep loggedUpstreams) (loggedUpstreams.events 0)
          (.init 2 (86400 * second) 0) (.forward 0 plainRequest :: accentedAnswer.dropLast)) =
            some accentedResponse := ⟨_, _, rfl, rfl, rfl, rfl⟩
  have hpanics : loggedUpstreams.debugUpstream.survives accentedResponse = false :=
    survives_accentedResponse pointedBits
  have hstep : poolStep loggedUpstreams u (.move 0 .panic) =
      some (u.setCall 0 { call with phase := .panicked }) := by
    rw [poolStep, hcall, Option.bind_some, moveCall]
    simp only [hphase, hpanics, Bool.false_eq_true, if_false, Option.map_some]
  have hsplit : PoolAction.forward 0 plainRequest :: accentedAnswer =
      (.forward 0 plainRequest :: accentedAnswer.dropLast) ++ [.move 0 .panic] := rfl
  refine ⟨u.setCall 0 { call with phase := .panicked }, { call with phase := .panicked }, ?_,
    rfl, rfl, ?_, ?_⟩
  · rw [hsplit]
    exact run_concat_eq_some.mpr ⟨u, hrun, hstep⟩
  · rw [hsplit, gather_concat hrun]
    exact (congrArg firstAnswer (List.append_nil _)).trans hfirst
  · rintro ⟨answer, hdone, -⟩
    cases hdone

end Poolbeg
