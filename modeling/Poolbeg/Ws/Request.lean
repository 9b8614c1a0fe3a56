import Poolbeg.Rpc.Handler
import Poolbeg.Ws.Subscription

/-!
# Requests over WebSocket

What `handle_ws_message` and `handle_single_ws_request` decide before they do anything: whether a
message is answered as a whole, and which of its requests is answered at once, subscribes,
unsubscribes, or is a call. The members of a request are picked out of the JSON value by hand, each
with its own default.

## How it differs from HTTP

A message is read as a `Value` first, and the derived reader of requests is not used. A request
needs a method that is a string and nothing else: an `id` that is missing is `null`, parameters that
are missing are an empty array, and `jsonrpc` is not looked at. An array is a batch, also when it is
empty or has whitespace in front, and a batch over the limit is one error. Within a batch each item
is handled by itself, so an item that is no request gets an error of its own, and the others are
answered.

Subscriptions are what only this transport has. `eth_subscribe` and `eth_unsubscribe` never become
calls; the types of subscriptions are four, and everything else is an error about the parameters.

## Main definitions

* `Reply`, `Outgoing` — what is put on the client's channel
* `Inbound`, `readMessage` — messages
* `Routed`, `routeRequest` — requests
* `readSubscription` — what a subscription asks for

## Main results

* `readMessage_rejected`, `routeRequest_respond` — what is answered at once is an error
* `routeRequest_blocked` — a blocked request is answered before anything else is looked at
* `routeRequest_call` — the call a request becomes
-/

namespace Poolbeg

/-! ### Replies -/

/-- The answer to one request. What was asked to be unsubscribed is recorded and not written. A call
is answered with the response that `process_single_request` returned. -/
inductive Reply
  | error (code : I64) (message : String) (id : Value)
  | subscribed (subscriptionId : String) (id : Value)
  | unsubscribed (subscriptionId : String) (success : Bool) (id : Value)
  | called (resp : JsonRpcResponse)

/-- The JSON-RPC objects that are written by hand. -/
def Reply.toValue : Reply → Value
  | .error code message id =>
    .object [("jsonrpc", .string "2.0"),
      ("error", .object [("code", code.serialize), ("message", .string message)]), ("id", id)]
  | .subscribed subscriptionId id =>
    .object [("jsonrpc", .string "2.0"), ("result", .string subscriptionId), ("id", id)]
  | .unsubscribed _ success id =>
    .object [("jsonrpc", .string "2.0"), ("result", .bool success), ("id", id)]
  | .called resp => resp.serialize

/-- A value on the client's channel: a notification of a subscription, or the reply to a message. -/
inductive Outgoing
  | notification (subscriptionId : String) (result : Value)
  | reply (r : Reply)
  | replies (rs : List Reply)

def Outgoing.toValue : Outgoing → Value
  | .notification subscriptionId result =>
    .object [("jsonrpc", .string "2.0"), ("method", .string "eth_subscription"),
      ("params", .object [("subscription", .string subscriptionId), ("result", result)])]
  | .reply r => r.toValue
  | .replies rs => .array (rs.map Reply.toValue)

/-- The JSON-RPC code of a text that is no JSON. -/
def parseError : I64 := ⟨-32700, by norm_num⟩

/-- The JSON-RPC code of a JSON value that is no request. -/
def invalidRequest : I64 := ⟨-32600, by norm_num⟩

/-- The JSON-RPC code of wrong parameters. -/
def invalidParams : I64 := ⟨-32602, by norm_num⟩

/-! ### Messages -/

/-- The text of the error for a batch over the limit. -/
def batchTooLarge (length maxBatchSize : ℕ) : String :=
  "Batch too large: " ++ toString length ++ " requests exceeds limit of " ++ toString maxBatchSize

/-- A message, once read: answered as a whole, one request, or a batch. The requests are values that
have not been looked at. -/
inductive Inbound
  | rejected (r : Reply)
  | single (request : Value)
  | batch (requests : List Value)

/-- The first part of `handle_ws_message`, given the value the text reads as, if it does. -/
def readMessage (maxBatchSize : ℕ) : Option Value → Inbound
  | none => .rejected (.error parseError "Parse error" .null)
  | some parsed =>
    match parsed.asArray with
    | some arr =>
      if maxBatchSize < arr.length then
        .rejected (.error invalidRequest (batchTooLarge arr.length maxBatchSize) .null)
      else .batch arr
    | none => .single parsed

/-! ### Requests -/

/-- The call a request is turned into. -/
def callRequest (method : String) (params id : Value) : JsonRpcRequest where
  jsonrpc := "2.0"
  method := method
  params := params
  id := id

/-- What is to be done about a request. A call goes through `process_single_request`, as one over
HTTP does. -/
inductive Routed
  | respond (r : Reply)
  | subscribe (subType : SubscriptionType) (logFilter : Option LogFilter) (id : Value)
  | unsubscribe (subscriptionId : String) (id : Value)
  | call (req : JsonRpcRequest)

/-- The first parameter, if it is a string. -/
def firstParam (params : Value) : String :=
  ((params.asArray.bind List.head?).bind Value.asStr).getD ""

variable (toLowercase : String → String)

/-- The type and the filter a subscription asks for; fails with the type that is not supported. The
filter is the second parameter. -/
def readSubscription (params : Value) : Except String (SubscriptionType × Option LogFilter) :=
  let subType := firstParam params
  if subType = "newHeads" then .ok (.newHeads, none)
  else if subType = "logs" then
    .ok (.logs, (params.asArray.bind (·[1]?)).map (LogFilter.fromValue toLowercase))
  else if subType = "newPendingTransactions" then .ok (.newPendingTransactions, none)
  else if subType = "syncing" then .ok (.syncing, none)
  else .error subType

/-- `parsed.get("id")`, `null` by default. -/
def requestId (parsed : Value) : Value := (parsed.get "id").getD .null

/-- `parsed.get("params")`, an empty array by default. -/
def requestParams (parsed : Value) : Value := (parsed.get "params").getD (.array [])

/-- `parsed.get("method")`, if it is a string. -/
def requestMethod (parsed : Value) : Option String := (parsed.get "method").bind Value.asStr

/-- The decisions of `handle_single_ws_request`, in their order: the method, whether it is blocked,
and what it is. -/
def routeRequest (blockedMethods : List String) (parsed : Value) : Routed :=
  match requestMethod parsed with
  | none =>
    .respond (.error invalidRequest "Invalid Request: missing method" (requestId parsed))
  | some method =>
    if isMethodBlocked method blockedMethods then
      .respond (.error methodNotFound "Method not allowed" (requestId parsed))
    else if method = "eth_subscribe" then
      match readSubscription toLowercase (requestParams parsed) with
      | .ok (subType, logFilter) => .subscribe subType logFilter (requestId parsed)
      | .error subType =>
        .respond (.error invalidParams ("unsupported subscription type: " ++ subType)
          (requestId parsed))
    else if method = "eth_unsubscribe" then
      .unsubscribe (firstParam (requestParams parsed)) (requestId parsed)
    else
      .call (callRequest method (requestParams parsed) (requestId parsed))

variable {toLowercase} {blockedMethods : List String} {parsed : Value}

/-- A message is rejected with an error. -/
theorem readMessage_rejected {maxBatchSize : ℕ} {text : Option Value} {r : Reply}
    (h : readMessage maxBatchSize text = .rejected r) :
    ∃ code message id, r = .error code message id := by
  rcases text with _ | parsed
  · cases h
    exact ⟨_, _, _, rfl⟩
  · simp only [readMessage] at h
    split at h
    · split at h
      · cases h
        exact ⟨_, _, _, rfl⟩
      · cases h
    · cases h

/-- A request that is answered at once is answered with an error. -/
theorem routeRequest_respond {r : Reply}
    (h : routeRequest toLowercase blockedMethods parsed = .respond r) :
    ∃ code message id, r = .error code message id := by
  rw [routeRequest] at h
  split at h
  · cases h
    exact ⟨_, _, _, rfl⟩
  · split_ifs at h
    · cases h
      exact ⟨_, _, _, rfl⟩
    · split at h
      · cases h
      · cases h
        exact ⟨_, _, _, rfl⟩

/-- **A blocked request is answered before anything else is looked at**, with its own id. This
includes a subscription whose parameters are wrong. -/
theorem routeRequest_blocked {method : String} (hmethod : requestMethod parsed = some method)
    (hblocked : isMethodBlocked method blockedMethods = true) :
    routeRequest toLowercase blockedMethods parsed =
      .respond (.error methodNotFound "Method not allowed" (requestId parsed)) := by
  rw [routeRequest, hmethod]
  exact if_pos hblocked

/-- **The call a request becomes.** Its version is always that of the protocol, whatever the client
wrote. -/
theorem routeRequest_call {method : String} (hmethod : requestMethod parsed = some method)
    (hblocked : isMethodBlocked method blockedMethods = false)
    (hsubscribe : method ≠ "eth_subscribe") (hunsubscribe : method ≠ "eth_unsubscribe") :
    routeRequest toLowercase blockedMethods parsed =
      .call (callRequest method (requestParams parsed) (requestId parsed)) := by
  simp only [routeRequest, hmethod, hblocked, hsubscribe, hunsubscribe, Bool.false_eq_true,
    if_false]

end Poolbeg
