import Poolbeg.Rpc.RateLimitResponse
import Poolbeg.Server.Auth
import Poolbeg.Upstream.Limiter

/-!
# In front of the handlers

The embedding of the layers that `setup` in `server.rs` puts around the routes. A request passes,
from the outside in, the limit on the size of its body, the client rate limit, the check of its API
key, which is there only if keys are configured, and CORS, which answers every `OPTIONS`. The health
check passes all of them.

The rate limit comes before the check of the key: a request without a valid key uses up a token as
any other does.

The gateway keeps a bucket of tokens. What it is for says nothing of tokens: a request is turned
away exactly when letting it through would put more requests into some interval than the rate
allows (`Outcome`).

## The size of a body

The outermost layer compares the length a request declares with `max_body_size`, and turns it away
before anything else looks at it. A body that comes in chunks declares none. It is cut off at the
limit when it is read, which only `handle_rpc` does: its extractor fails then, as it does on more
than the two megabytes that it takes by default, and the request is answered as too large after all,
when it has used up its token and presented its key. The reply to a request that is turned away for
the rate looks for ids in the body, and finds none where the body is cut off.

## Implementation notes

Times and tokens are rational numbers and the arithmetic is exact. The program uses `f64`, where a
bucket that is refilled in steps may come to a little less than a whole token at the moment at which
it should hold one.

Routes are literal paths here.

## Main definitions

* `Gateway`, `Gateway.serve`, `Gateway.serveAll` — as in the code
* `Outcome` — what should become of a request

## Main results

* `serve_spec` — one request
* `gateway_outcome` — requests in any order
-/

namespace Poolbeg

open TokenBucket

/-- The keys that are configured, and whether they are asked for. -/
structure AuthConfig where
  enabled : Bool
  apiKeys : List (List Char)

/-- What `setup` reads for the layers and the routes; `route` is the chain of a path. -/
structure Gateway (ι : Type) where
  auth : AuthConfig
  maxRps : UInt32
  maxBodySize : ℕ
  route : String → Option ι

/-- What becomes of a request: an answer of a layer, of an extractor or of a route, or the handler
of a chain. -/
inductive Disposition (ι : Type)
  | payloadTooLarge
  | answered (status : ℕ) (body : Value)
  | preflight
  | healthy
  | handleRpc (chain : ι)
  | handleWs (chain : ι)
  | methodNotAllowed
  | notFound

/-- The answer to a request without a valid key. -/
def unauthorized : ℕ × Value := (401, .object
  [("jsonrpc", .string "2.0"),
    ("error", .object
      [("code", .number (.negInt (-32001) (by decide))),
        ("message", .string "Unauthorized: invalid or missing API key")]),
    ("id", .null)])

/-- A request that was served, and when. The log of these is what `Outcome` looks back on. -/
structure Served (ι : Type) where
  time : ℚ
  req : HttpRequest
  disposition : Disposition ι

variable {ι : Type}

namespace Gateway

variable (g : Gateway ι) (json : JsonSyntax)

/-- CORS and the routes. -/
def dispatch (req : HttpRequest) : Disposition ι :=
  if req.method = .options then .preflight
  else if req.path = "/health" then
    match req.method with
    | .get | .head => .healthy
    | _ => .methodNotAllowed
  else
    match g.route req.path with
    | none => .notFound
    | some chain =>
      match req.method with
      | .post => .handleRpc chain
      | .get | .head => .handleWs chain
      | _ => .methodNotAllowed

/-- The extractor of a body has a limit of its own, 2 MB unless another one is configured. -/
@[irreducible] def extractorLimit : ℕ := 2097152

/-- The body can be read as a whole: it is neither cut off nor too long for the extractor, which
counts what arrives and not what was declared. -/
def extractable (req : HttpRequest) : Bool :=
  req.body.length ≤ g.maxBodySize && req.body.length ≤ extractorLimit

/-- `handle_rpc` is called with the whole body or not at all. The other handlers do not read it. -/
def handle (req : HttpRequest) : Disposition ι :=
  match g.dispatch req with
  | .handleRpc chain => if g.extractable req then .handleRpc chain else .payloadTooLarge
  | disposition => disposition

/-- Authentication takes a configured key. If it is enabled and there is none, the layer is not
there, and everybody is let through. -/
def authOn : Bool := g.auth.enabled && !g.auth.apiKeys.isEmpty

/-- `auth_middleware`, where it is in place, and what it goes on to. -/
def authMiddleware (req : HttpRequest) : Disposition ι :=
  if g.authOn then
    if req.path = "/health" then g.handle req
    else if authorized g.auth.apiKeys req then g.handle req
    else .answered unauthorized.1 unauthorized.2
  else g.handle req

/-- The body as `rate_limit_response` sees it: reading more than the limit fails, and what cannot be
read counts as empty. -/
def limitedBody (req : HttpRequest) : List UInt8 :=
  if req.body.length ≤ g.maxBodySize then req.body else []

/-- `client_rate_limit`, and what it goes on to. The health check takes no token; every other
request does, whatever becomes of it further in. -/
def clientRateLimit (limiter : RateLimiter) (now : ℚ) (req : HttpRequest) :
    RateLimiter × Disposition ι :=
  if req.path = "/health" then (limiter, g.authMiddleware req)
  else
    match limiter.tryAcquire now with
    | (limiter, true) => (limiter, g.authMiddleware req)
    | (limiter, false) =>
      let response := rateLimitResponse json (g.limitedBody req)
      (limiter, .answered response.1 response.2)

/-- `RequestBodyLimitLayer` looks at the length that is declared, if any. A body that comes in
chunks passes here, however long it is. -/
def tooLarge (req : HttpRequest) : Bool := req.contentLength.any (g.maxBodySize < ·)

/-- One request through all layers, with the limiter as it is afterwards. The arithmetic of the
limiter is exact. -/
def serve (limiter : RateLimiter) (now : ℚ) (req : HttpRequest) : RateLimiter × Disposition ι :=
  if g.tooLarge req then (limiter, .payloadTooLarge) else g.clientRateLimit json limiter now req

/-- The next request, with the requests that were served so far. -/
def serveNext (s : RateLimiter × List (Served ι)) (arrival : ℚ × HttpRequest) :
    RateLimiter × List (Served ι) :=
  let (limiter, disposition) := g.serve json s.1 arrival.1 arrival.2
  (limiter, s.2 ++ [⟨arrival.1, arrival.2, disposition⟩])

/-- Requests in the order in which they come in. -/
def serveAll (start : ℚ) (arrivals : List (ℚ × HttpRequest)) : RateLimiter × List (Served ι) :=
  arrivals.foldl (g.serveNext json) (.new g.maxRps start, [])

/-! ### What it is for -/

/-- A request that took a token: no health check, not declared too large, and not turned away for
the rate. -/
def admitted (x : Served ι) : Bool :=
  !g.tooLarge x.req && x.req.path ≠ "/health" &&
    match x.disposition with
    | .answered status _ => status ≠ 429
    | _ => true

def admittedTimes (log : List (Served ι)) : List ℚ := (log.filter g.admitted).map Served.time

/-- A request at this time puts no interval over the rate, the earlier ones being these. An interval
may have as many as the rate allows for its length, and a full bucket more. -/
def HasRoom (log : List (Served ι)) (now : ℚ) : Prop :=
  Conforms (g.maxRps.toNat : ℚ) g.maxRps.toNat (g.admittedTimes log ++ [now])

end Gateway

/-- What becomes of a request, by what came before it: it declares a body that is too large; or it
would put some interval over the rate; or it presents no valid key where one is asked for; or it is
let through, to what its path and method say, unless that is to read a body that is too large. -/
inductive Outcome (g : Gateway ι) (json : JsonSyntax) (log : List (Served ι)) (now : ℚ)
    (req : HttpRequest) : Disposition ι → Prop
  | tooLarge (hsize : g.tooLarge req = true) : Outcome g json log now req .payloadTooLarge
  | limited {reply : ℕ × Value} (hsize : g.tooLarge req = false) (hpath : req.path ≠ "/health")
      (hroom : ¬ g.HasRoom log now) (hreply : reply = rateLimitResponse json (g.limitedBody req)) :
      Outcome g json log now req (.answered reply.1 reply.2)
  | unauthorized (hsize : g.tooLarge req = false) (hpath : req.path ≠ "/health")
      (hroom : g.HasRoom log now) (hauth : g.authOn = true)
      (hkey : ∀ key ∈ g.auth.apiKeys, ¬ req.Presents key) :
      Outcome g json log now req (.answered unauthorized.1 unauthorized.2)
  | cutOff {chain : ι} (hsize : g.tooLarge req = false)
      (hlet : req.path ≠ "/health" → g.HasRoom log now ∧
        (g.authOn = true → ∃ key ∈ g.auth.apiKeys, req.Presents key))
      (hroute : g.dispatch req = .handleRpc chain) (hbody : g.extractable req = false) :
      Outcome g json log now req .payloadTooLarge
  | passed (hsize : g.tooLarge req = false)
      (hlet : req.path ≠ "/health" → g.HasRoom log now ∧
        (g.authOn = true → ∃ key ∈ g.auth.apiKeys, req.Presents key))
      (hbody : ∀ chain, g.dispatch req = .handleRpc chain → g.extractable req = true) :
      Outcome g json log now req (g.dispatch req)

/-- The handler of a chain gets the request. -/
def Disposition.handled : Disposition ι → Bool
  | .handleRpc _ | .handleWs _ => true
  | _ => false

/-! ### One request -/

variable {g : Gateway ι} {json : JsonSyntax} {start clock now : ℚ} {limiter : RateLimiter}
  {log : List (Served ι)} {req : HttpRequest}

/-- There is room exactly when the limiter grants a token. The bucket, refilled from one request to
the next, knows what there is to know of the requests before. -/
theorem hasRoom_iff (hs : Paced g.maxRps start clock (limiter, g.admittedTimes log))
    (hnow : clock ≤ now) : g.HasRoom log now ↔ (limiter.tryAcquire now).2 = true := by
  have hpast := hs.past hnow
  have hsorted : (g.admittedTimes log ++ [now]).Pairwise (· ≤ ·) :=
    List.pairwise_append.mpr ⟨hs.sorted, List.pairwise_singleton _ _, fun t ht t' ht' =>
      List.mem_singleton.mp ht' ▸ (hpast t ht).2⟩
  have hlog : ∀ t ∈ g.admittedTimes log ++ [now], start ≤ t :=
    List.forall_mem_append.mpr ⟨fun t ht => (hpast t ht).1,
      List.forall_mem_singleton.mpr (hs.start_le.trans hnow)⟩
  rw [Gateway.HasRoom, conforms_concat (Nat.cast_nonneg _) hsorted hlog, hs.granted_iff hnow,
    and_iff_right hs.conforms]

theorem admittedTimes_concat (x : Served ι) : g.admittedTimes (log ++ [x]) =
    g.admittedTimes log ++ if g.admitted x then [x.time] else [] := by
  rw [Gateway.admittedTimes, List.filter_append, List.map_append]
  cases h : g.admitted x <;> simp [Gateway.admittedTimes, h]

/-- What `handle` goes on to is a way through: a body is read as a whole, or the request is answered
as too large. -/
theorem outcome_handle (hsize : g.tooLarge req = false)
    (hlet : req.path ≠ "/health" → g.HasRoom log now ∧
      (g.authOn = true → ∃ key ∈ g.auth.apiKeys, req.Presents key)) :
    Outcome g json log now req (g.handle req) := by
  rw [Gateway.handle]
  split
  · rename_i chain hroute
    split_ifs with hbody
    · rw [← hroute]
      exact .passed hsize hlet fun _ _ => hbody
    · exact .cutOff hsize hlet hroute (Bool.not_eq_true _ ▸ hbody)
  · rename_i hother
    exact .passed hsize hlet fun chain hroute => absurd hroute (hother chain)

/-- What the check of the key goes on to is a way through, or the request is refused for want of a
key. -/
theorem outcome_authMiddleware (hsize : g.tooLarge req = false)
    (hroom : req.path ≠ "/health" → g.HasRoom log now) :
    Outcome g json log now req (g.authMiddleware req) := by
  rw [Gateway.authMiddleware]
  by_cases hpath : req.path = "/health"
  · have hpassed : Outcome g json log now req (g.handle req) :=
      outcome_handle hsize (absurd hpath)
    split_ifs <;> exact hpassed
  · cases hauth : g.authOn with
    | false =>
      exact outcome_handle hsize fun _ => ⟨hroom hpath, fun h => absurd h (by simp [hauth])⟩
    | true =>
      rw [if_pos rfl, if_neg hpath]
      split_ifs with hkey
      · exact outcome_handle hsize fun _ => ⟨hroom hpath, fun _ => authorized_iff.mp hkey⟩
      · refine .unauthorized hsize hpath (hroom hpath) hauth fun key hmem hpresents => hkey ?_
        exact authorized_iff.mpr ⟨key, hmem, hpresents⟩

/-- No route answers by itself, so an answer of 401 or 429 is always that of a layer. -/
theorem Gateway.handle_ne_answered (g : Gateway ι) (req : HttpRequest) (status : ℕ) (body : Value) :
    g.handle req ≠ .answered status body := by
  have hdispatch : g.dispatch req ≠ .answered status body := by
    rw [Gateway.dispatch]
    split_ifs
    · exact nofun
    · cases req.method <;> exact nofun
    · cases g.route req.path with
      | none => exact nofun
      | some chain => cases req.method <;> exact nofun
  rw [Gateway.handle]
  split
  · split_ifs <;> exact nofun
  · exact hdispatch

/-- A request that gets to the check of its key took a token. -/
theorem admitted_authMiddleware (hsize : g.tooLarge req = false) (hpath : req.path ≠ "/health") :
    g.admitted ⟨now, req, g.authMiddleware req⟩ = true := by
  have hhandle : g.admitted ⟨now, req, g.handle req⟩ = true := by
    rw [Gateway.admitted]
    cases hto : g.handle req with
    | answered status body => exact absurd hto (g.handle_ne_answered req status body)
    | _ => simp [hsize, hpath]
  rw [Gateway.authMiddleware]
  split_ifs
  · exact hhandle
  · simp [Gateway.admitted, hsize, hpath, unauthorized]
  · exact hhandle

/-- **One request**: what becomes of it is what should, and the limiter stays the bucket of the
requests that took a token. -/
theorem serve_spec (json : JsonSyntax) (req : HttpRequest)
    (hs : Paced g.maxRps start clock (limiter, g.admittedTimes log)) (hnow : clock ≤ now) :
    Outcome g json log now req (g.serve json limiter now req).2 ∧
      ∃ clock' ≤ now, Paced g.maxRps start clock' ((g.serve json limiter now req).1,
        g.admittedTimes (log ++ [⟨now, req, (g.serve json limiter now req).2⟩])) := by
  cases hsize : g.tooLarge req with
  | true =>
    rw [Gateway.serve, if_pos hsize]
    refine ⟨.tooLarge hsize, clock, hnow, ?_⟩
    rw [admittedTimes_concat, if_neg (by simp [Gateway.admitted, hsize]), List.append_nil]
    exact hs
  | false =>
    rw [Gateway.serve, if_neg (by simp [hsize]), Gateway.clientRateLimit]
    by_cases hpath : req.path = "/health"
    · rw [if_pos hpath]
      refine ⟨outcome_authMiddleware hsize (absurd hpath), clock, hnow, ?_⟩
      rw [admittedTimes_concat, if_neg (by simp [Gateway.admitted, hpath]), List.append_nil]
      exact hs
    · rw [if_neg hpath]
      have hroom := hasRoom_iff hs hnow
      cases hgrant : (limiter.tryAcquire now).2 with
      | true =>
        have hacquired : limiter.tryAcquire now = ((limiter.tryAcquire now).1, true) :=
          Prod.ext rfl hgrant
        rw [hacquired]
        refine ⟨outcome_authMiddleware hsize fun _ => hroom.mpr hgrant, now, le_rfl, ?_⟩
        rw [admittedTimes_concat, if_pos (admitted_authMiddleware hsize hpath)]
        exact hs.grant hnow hgrant
      | false =>
        have hrefused : limiter.tryAcquire now = ((limiter.tryAcquire now).1, false) :=
          Prod.ext rfl hgrant
        rw [hrefused]
        refine ⟨.limited hsize hpath (fun h => ?_) rfl, now, le_rfl, ?_⟩
        · exact Bool.false_ne_true (hgrant.symm.trans (hroom.mp h))
        · rw [admittedTimes_concat, if_neg, List.append_nil]
          · exact hs.refuse hnow hgrant
          · simp [Gateway.admitted, rateLimitResponse]

/-! ### All requests -/

variable (g json) in
/-- What was served so far was served as it should, and the bucket is the one of the requests that
took a token. This is the invariant of the loop. -/
structure Gateway.Guarded (start clock : ℚ) (s : RateLimiter × List (Served ι)) : Prop where
  paced : Paced g.maxRps start clock (s.1, g.admittedTimes s.2)
  outcome : ∀ k x, s.2[k]? = some x → Outcome g json (s.2.take k) x.time x.req x.disposition

variable {s : RateLimiter × List (Served ι)} {arrivals : List (ℚ × HttpRequest)}

theorem guarded_serveNext {arrival : ℚ × HttpRequest} (hs : g.Guarded json start clock s)
    (hnow : clock ≤ arrival.1) :
    ∃ clock' ≤ arrival.1, g.Guarded json start clock' (g.serveNext json s arrival) := by
  obtain ⟨houtcome, clock', hle, hpaced⟩ := serve_spec json arrival.2 hs.paced hnow
  refine ⟨clock', hle, hpaced, fun k x hx => ?_⟩
  rw [Gateway.serveNext] at hx ⊢
  rcases Nat.lt_or_ge k s.2.length with hk | hk
  · rw [List.take_append_of_le_length hk.le]
    exact hs.outcome k x ((List.getElem?_append_left hk).symm.trans hx)
  · rw [List.getElem?_append_right hk, List.getElem?_singleton, Option.ite_none_right_eq_some] at hx
    obtain ⟨hlast, hx⟩ := hx
    cases hx
    obtain rfl : k = s.2.length := by omega
    rw [List.take_left]
    exact houtcome

theorem guarded_serveAll (hs : g.Guarded json start clock s)
    (hordered : (clock :: arrivals.map Prod.fst).Pairwise (· ≤ ·)) :
    ∃ clock', g.Guarded json start clock' (arrivals.foldl (g.serveNext json) s) := by
  induction arrivals generalizing s clock with
  | nil => exact ⟨clock, hs⟩
  | cons arrival arrivals ih =>
    obtain ⟨hclock, hrest⟩ := List.pairwise_cons.mp hordered
    obtain ⟨clock', hle, hs'⟩ := guarded_serveNext hs (hclock _ List.mem_cons_self)
    obtain ⟨harrival, hrest⟩ := List.pairwise_cons.mp hrest
    exact ih hs' (List.pairwise_cons.mpr ⟨fun t ht => hle.trans (harrival t ht), hrest⟩)

theorem map_serveAll (s : RateLimiter × List (Served ι)) (arrivals : List (ℚ × HttpRequest)) :
    (arrivals.foldl (g.serveNext json) s).2.map (fun x => (x.time, x.req)) =
      s.2.map (fun x => (x.time, x.req)) ++ arrivals := by
  induction arrivals generalizing s with
  | nil => exact (List.append_nil _).symm
  | cons arrival arrivals ih =>
    rw [List.foldl_cons, ih, Gateway.serveNext, List.map_append, List.append_assoc]
    rfl

/-- A request that a handler gets took a token. So the handlers are bound by the rate as the tokens
are. -/
theorem Outcome.admitted_of_handled {disposition : Disposition ι}
    (h : Outcome g json log now req disposition) (hdispatch : disposition.handled = true) :
    g.admitted ⟨now, req, disposition⟩ = true := by
  cases h with
  | tooLarge | limited | unauthorized | cutOff => cases hdispatch
  | passed hsize hlet hbody =>
    have hpath : req.path ≠ "/health" := by
      intro hpath
      rw [Gateway.dispatch] at hdispatch
      split_ifs at hdispatch
      · cases hdispatch
      · cases hmethod : req.method <;> simp [hmethod, Disposition.handled] at hdispatch
    rw [Gateway.admitted]
    cases hto : g.dispatch req with
    | answered status body => cases (congrArg Disposition.handled hto).symm.trans hdispatch
    | _ => simp [hsize, hpath]

/-- **What becomes of requests that come in in any order of kinds.** They are served in that order.
Each is turned away, refused or let through as its size, the ones before it and its key demand
(`Outcome`), and the handlers of the chains get no more requests in any interval than a full bucket
and what is refilled meanwhile, all in exact arithmetic. -/
theorem gateway_outcome (g : Gateway ι) (json : JsonSyntax) (start : ℚ)
    (arrivals : List (ℚ × HttpRequest))
    (hordered : (start :: arrivals.map Prod.fst).Pairwise (· ≤ ·)) :
    (g.serveAll json start arrivals).2.map (fun x => (x.time, x.req)) = arrivals ∧
    (∀ k x, (g.serveAll json start arrivals).2[k]? = some x →
      Outcome g json ((g.serveAll json start arrivals).2.take k) x.time x.req x.disposition) ∧
    ∀ since upto, since ≤ upto →
      (((g.serveAll json start arrivals).2.filter fun x =>
        x.disposition.handled ∧ since ≤ x.time ∧ x.time ≤ upto).length : ℚ) ≤
          g.maxRps.toNat * (1 + (upto - since)) := by
  have hnew : g.Guarded json start start (.new g.maxRps start, []) :=
    ⟨paced_new g.maxRps start, fun _ _ hx => by cases hx⟩
  obtain ⟨clock, hpaced, houtcome⟩ := guarded_serveAll hnew hordered
  refine ⟨map_serveAll _ arrivals, houtcome, fun since upto hle => ?_⟩
  have hhandled : ∀ x ∈ (g.serveAll json start arrivals).2, x.disposition.handled = true →
      g.admitted x = true := by
    intro x hx
    obtain ⟨k, hk⟩ := List.mem_iff_getElem?.mp hx
    exact (houtcome k x hk).admitted_of_handled
  have hwindow := hpaced.conforms since upto hle
  rw [Gateway.admittedTimes, List.filter_map, List.length_map, List.filter_filter] at hwindow
  rw [mul_add, mul_one]
  refine le_trans (Nat.cast_le.mpr ?_) hwindow
  rw [← List.countP_eq_length_filter, ← List.countP_eq_length_filter]
  refine List.countP_mono_left fun x hx h => ?_
  obtain ⟨hdisposition, htime⟩ := of_decide_eq_true h
  exact Bool.and_eq_true_iff.mpr ⟨decide_eq_true htime, hhandled x hx hdisposition⟩

/-- One request a second with a key. -/
def keyedGateway : Gateway Unit where
  auth := ⟨true, ["secret".toList]⟩
  maxRps := 1
  maxBodySize := 1048576
  route path := if path = "/eth" then some () else none

def keyedPost : HttpRequest where
  method := .post
  path := "/eth"
  query := some "key=secret".toList
  xApiKey := none
  contentLength := some 0
  body := []

/-- Two requests half a second apart. -/
theorem twoPosts_outcome :
    ∃ x y, (keyedGateway.serveAll blockNumberSyntax 0 [(0, keyedPost), (1 / 2, keyedPost)]).2 =
        [x, y] ∧
      Outcome keyedGateway blockNumberSyntax [] 0 keyedPost x.disposition ∧
      Outcome keyedGateway blockNumberSyntax [x] (1 / 2) keyedPost y.disposition := by
  have hordered : ((0 : ℚ) :: [((0 : ℚ), keyedPost), (1 / 2, keyedPost)].map Prod.fst).Pairwise
      (· ≤ ·) := by
    norm_num
  obtain ⟨hserved, houtcome, -⟩ := gateway_outcome keyedGateway blockNumberSyntax 0 _ hordered
  obtain ⟨x, rest, hlog, hx, hrest⟩ := List.map_eq_cons_iff.mp hserved
  obtain ⟨y, rest, rfl, hy, hnil⟩ := List.map_eq_cons_iff.mp hrest
  obtain rfl := List.map_eq_nil_iff.mp hnil
  rw [hlog] at houtcome
  obtain ⟨htime, hreq⟩ := Prod.mk.inj hx
  obtain ⟨htime', hreq'⟩ := Prod.mk.inj hy
  exact ⟨x, y, hlog, htime ▸ hreq ▸ houtcome 0 x rfl, htime' ▸ hreq' ▸ houtcome 1 y rfl⟩

end Poolbeg
