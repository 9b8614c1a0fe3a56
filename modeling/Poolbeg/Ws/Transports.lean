import Poolbeg.Rpc.BatchDedup
import Poolbeg.Rpc.Parse
import Poolbeg.Ws.Connection

/-!
# HTTP and WebSocket read the same requests

Both transports take a JSON text for one request or a batch. HTTP reads it with the derived reader,
WebSocket reads a `Value` and picks the members out of it. The two agree but for four things.

* A missing `params` is `null` over HTTP and an empty array over WebSocket.
* HTTP does not read the members it does not know, so it accepts a text in which one of them is not
  readable.
* A request object that begins with the name of raw values is one with a member too many to HTTP.
  WebSocket takes it for a raw value, and fails.
* HTTP tells a batch by the first byte, so it takes an array with whitespace in front for one
  request.

Otherwise the requests are the same (`transports_agree_iff`), and so are the responses, whatever
`process_single_request` makes of a request, as long as it does the same over both. Over HTTP a
batch is deduplicated; that this changes nothing is `processBatch_eq`.

Both handlers log the responses under `debug_client`, and with it on both panic on the same ones
(`DebugLog.survives`). Then neither answers anything, and that is the same over both, too.

## Main definitions

* `handleRpc`, `handleWsMessage` — the two handlers, given what single requests are answered
* `JsonText.httpRequests`, `JsonText.wsRequests`
* `JsonText.HoldsRequests`, `JsonText.Alike`

## Main results

* `run_wsMessage` — a connection does what `handleWsMessage` says
* `transports_agree_iff`
-/

namespace Poolbeg

open Lts

/-! ### The handlers -/

/-- Outgoing response of `handle_rpc`. -/
inductive RpcResponse
  | single (resp : JsonRpcResponse)
  | batch (resps : List JsonRpcResponse)

/-- The encoding, which is untagged. -/
def RpcResponse.toValue : RpcResponse → Value
  | .single resp => resp.serialize
  | .batch resps => .array (resps.map JsonRpcResponse.serialize)

section Handlers

variable {Text ι : Type} (reader : ValueReader) (serde : SerdeJson Text) (blake3 : Blake3 Text)
  (toLowercase : String → String) (app : AppConfig ι) (chain : ι)
  (single : JsonRpcRequest → JsonRpcResponse)

/-- `handle_rpc`; `none` is a panic. A text that does not parse is answered with an error, and a
batch over the limit with another one. -/
def handleRpc (text : JsonText) : Option RpcResponse :=
  match RpcRequest.parse reader text with
  | none => some (.single (.ofError .null parseError "Parse error"))
  | some (.single req) => (processItem app.debugClient single req).map .single
  | some (.batch reqs) =>
    if app.maxBatchSize < reqs.length then
      some (.single (.ofError .null invalidRequest (batchTooLarge reqs.length app.maxBatchSize)))
    else
      (processBatch serde blake3 (app.chains chain).chainId app.blockedMethods app.debugClient
        single reqs).map .batch

/-- The reply to a request that does not subscribe or unsubscribe; `none` is a panic. What
`process_single_request` returns is logged, what the handler says by itself is not. -/
def wsReply (request : Value) : Option Reply :=
  match routeRequest toLowercase app.blockedMethods request with
  | .respond r => some r
  | .call req => (processItem app.debugClient single req).map .called
  | .subscribe _ _ _ | .unsubscribe _ _ => none

/-- `handle_ws_message`, for a message in which nothing subscribes or unsubscribes; `none` is a
panic. -/
def handleWsMessage (parsed : Option Value) : Option Outgoing :=
  match readMessage app.maxBatchSize parsed with
  | .rejected r => some (.reply r)
  | .single request => (wsReply toLowercase app single request).map .reply
  | .batch requests => (requests.mapM (wsReply toLowercase app single)).map .replies

/-! ### What a connection does -/

section Runs

variable {serde toLowercase app single} {c : Connection} {request : Value} {r : Reply}

/-- The steps of the read loop on a request. -/
def requestSteps (single : JsonRpcRequest → JsonRpcResponse) : Routed → List (ConnectionAction Text)
  | .call req => [.route, .answer (single req)]
  | .respond _ | .subscribe _ _ _ | .unsubscribe _ _ => [.route]

variable (toLowercase app single) in
/-- The steps of the read loop on a message. -/
def messageSteps (message : Inbound) : List (ConnectionAction Text) :=
  (Handling.start message).remaining.flatMap fun request =>
    requestSteps single (routeRequest toLowercase app.blockedMethods request)

theorem run_request {h : Handling} {remaining : List Value}
    (hphase : c.phase = .handling h .next) (hremaining : h.remaining = request :: remaining)
    (hreply : wsReply toLowercase app single request = some r) :
    run (connectionStep serde toLowercase app chain) c
        (requestSteps single (routeRequest toLowercase app.blockedMethods request)) =
      some (c.moveTo (.handling { h with remaining := remaining, replies := h.replies ++ [r] }
        .next)) := by
  have hroute : connectionStep serde toLowercase app chain c .route =
      some (c.moveTo (({ h with remaining := remaining } : Handling).begin
        (routeRequest toLowercase app.blockedMethods request))) := by
    simp only [connectionStep, hphase, hremaining]
  rw [wsReply] at hreply
  split at hreply
  · rename_i r' hrouted
    obtain rfl := Option.some.inj hreply
    rw [hrouted, requestSteps, run_cons_of_step hroute, hrouted]
    rfl
  · rename_i req hrouted
    obtain ⟨resp, hresp, rfl⟩ := Option.map_eq_some_iff.mp hreply
    obtain ⟨-, ⟨rfl⟩⟩ := Option.ite_none_right_eq_some.mp hresp
    rw [hrouted, requestSteps, run_cons_of_step hroute, hrouted]
    rfl
  · cases hreply
  · cases hreply

theorem run_requests {requests : List Value} {rs : List Reply} {h : Handling}
    (hphase : c.phase = .handling h .next) (hremaining : h.remaining = requests)
    (hreplies : requests.mapM (wsReply toLowercase app single) = some rs) :
    run (connectionStep serde toLowercase app chain) c (requests.flatMap fun request =>
        requestSteps single (routeRequest toLowercase app.blockedMethods request)) =
      some (c.moveTo (.handling { h with remaining := [], replies := h.replies ++ rs } .next)) := by
  induction requests generalizing c h rs with
  | nil =>
    rw [List.mapM_nil, Option.pure_def, Option.some.injEq] at hreplies
    rw [← hreplies, List.flatMap_nil, run_nil, List.append_nil, ← hremaining, Connection.moveTo,
      ← hphase]
  | cons request requests ih =>
    obtain ⟨r, rs', hr, hrs, rfl⟩ := List.forall₂_cons_left_iff.mp (mapM_eq_some_iff.mp hreplies)
    rw [List.flatMap_cons, run_append, run_request chain hphase hremaining hr, Option.bind_some]
    have hrest := ih (c := c.moveTo (.handling { h with
      remaining := requests, replies := h.replies ++ [r] } .next)) rfl rfl
      (mapM_eq_some_iff.mpr hrs)
    rw [hrest, List.append_assoc]
    rfl

/-- **A connection does what `handleWsMessage` says**: its read loop puts just this on the
channel. -/
theorem run_wsMessage {text : Text} {m : Outgoing} (hphase : c.phase = .reading)
    (hm : handleWsMessage toLowercase app single (serde.fromStr text) = some m) :
    run (connectionStep serde toLowercase app chain) c (.message text ::
        (messageSteps toLowercase app single (readMessage app.maxBatchSize (serde.fromStr text)) ++
          [.reply])) =
      some (c.send m) := by
  have hmessage : connectionStep serde toLowercase app chain c (.message text) =
      some (c.moveTo
        (.handling (.start (readMessage app.maxBatchSize (serde.fromStr text))) .next)) := by
    simp only [connectionStep, hphase]
  have hreply : ∀ h : Handling, h.remaining = [] → connectionStep serde toLowercase app chain
      (c.moveTo (.handling h .next)) .reply = some (c.send h.outgoing) := by
    intro h hremaining
    have hback : ((c.moveTo (.handling h .next)).send h.outgoing).moveTo .reading =
        c.send h.outgoing := by
      rw [Connection.send, Connection.send, ← hphase]
      split
      · exact (if_pos ‹_›).symm
      · exact (if_neg ‹_›).symm
    rw [← hback]
    simp only [connectionStep, Connection.moveTo, hremaining]
  rw [run_cons_of_step hmessage, run_append]
  rw [handleWsMessage] at hm
  split at hm
  · rename_i r hread
    obtain rfl := Option.some.inj hm
    rw [hread]
    exact run_cons_of_step (hreply (.start (.rejected r)) rfl) []
  · rename_i request hread
    obtain ⟨r, hr, rfl⟩ := Option.map_eq_some_iff.mp hm
    have hreplies : [request].mapM (wsReply toLowercase app single) = some [r] :=
      mapM_eq_some_iff.mpr (.cons hr .nil)
    rw [hread, messageSteps, run_requests chain rfl rfl hreplies, Option.bind_some]
    exact run_cons_of_step (hreply _ rfl) []
  · rename_i requests hread
    obtain ⟨rs, hrs, rfl⟩ := Option.map_eq_some_iff.mp hm
    rw [hread, messageSteps, run_requests chain rfl rfl hrs, Option.bind_some]
    exact run_cons_of_step (hreply _ rfl) []

end Runs

end Handlers

/-! ### The texts the two are compared on -/

/-- What a request asks for, and under which id. -/
def JsonRpcRequest.meaning (req : JsonRpcRequest) : String × Value × Value :=
  (req.method, req.params, req.id)

def RpcRequest.requests : RpcRequest → List JsonRpcRequest
  | .single req => [req]
  | .batch reqs => reqs

/-- The requests HTTP reads in a text, if it accepts it. -/
def JsonText.httpRequests (reader : ValueReader) (text : JsonText) :
    Option (List JsonRpcRequest) :=
  (RpcRequest.parse reader text).map RpcRequest.requests

/-- The request WebSocket reads in a value. -/
def wsRequest (parsed : Value) : Option JsonRpcRequest :=
  (requestMethod parsed).map fun method =>
    callRequest method (requestParams parsed) (requestId parsed)

/-- The requests WebSocket reads in a text, if it accepts it. -/
def JsonText.wsRequests (reader : ValueReader) (text : JsonText) : Option (List JsonRpcRequest) :=
  (text.root.read reader recursionLimit).bind fun parsed =>
    (parsed.asArray.getD [parsed]).mapM wsRequest

/-- The same methods with the same parameters and ids, in the same order, or none on both. What
`jsonrpc` says is not compared, since WebSocket does not read it. -/
def JsonText.SameRequests (reader : ValueReader) (text : JsonText) : Prop :=
  (text.httpRequests reader).map (List.map JsonRpcRequest.meaning) =
    (text.wsRequests reader).map (List.map JsonRpcRequest.meaning)

def Raw.isArray : Raw → Bool
  | .array _ => true
  | _ => false

def Raw.isObject : Raw → Bool
  | .object _ => true
  | _ => false

def Raw.members : Raw → List (String × Raw)
  | .object members => members
  | _ => []

/-- The items of an array, or the text itself. -/
def JsonText.objects (text : JsonText) : List Raw :=
  match text.root with
  | .array items => items
  | root => [root]

/-- The levels left for the members of these. -/
def JsonText.levels (text : JsonText) : ℕ :=
  if text.root.isArray then recursionLimit - 2 else recursionLimit - 1

/-- A request object that `RpcRequest::parse` accepts by itself, and that does not subscribe or
unsubscribe. Those two are for WebSocket only. -/
structure Raw.IsRequest (reader : ValueReader) (o : Raw) : Prop where
  object : o.isObject = true
  accepted : (JsonRpcRequest.read reader recursionLimit o).isSome
  method : ∀ req, JsonRpcRequest.read reader recursionLimit o = some req →
    req.method ≠ "eth_subscribe" ∧ req.method ≠ "eth_unsubscribe"

/-- HTTP can read the text: it takes it for what it is, and can read `params` and `id` where they
stand, which in a batch is a level deeper. -/
def JsonText.HttpReads (reader : ValueReader) (text : JsonText) : Prop :=
  (text.root.isArray = true → text.blank = false) ∧
    ∀ o ∈ text.objects, ∀ m ∈ o.members, m.1 = "params" ∨ m.1 = "id" →
      (m.2.read reader text.levels).isSome

/-- WebSocket can read the text: no request object begins with the name of raw values, and it can
read every member, those that nobody asks for included. -/
def JsonText.WsReads (reader : ValueReader) (text : JsonText) : Prop :=
  ∀ o ∈ text.objects, beginsRawValue o.members = false ∧
    ∀ m ∈ o.members, (m.2.read reader text.levels).isSome

/-- Both can read the text and no `params` is missing, or neither can. This is the condition, and it
is about the text alone. -/
def JsonText.Alike (reader : ValueReader) (text : JsonText) : Prop :=
  (text.HttpReads reader ↔ text.WsReads reader) ∧
    (text.WsReads reader → ∀ o ∈ text.objects, o.members.any (·.1 == "params") = true)

/-! ### One object -/

variable {reader : ValueReader} {o : Raw} {v : Value} {d : ℕ}

/-- The fields of a request object. -/
theorem Raw.IsRequest.fields (ho : o.IsRequest reader) :
    ∃ members jsonrpc method params id, o = .object members ∧
      uniqueMember members "jsonrpc" = some (some (.string (some jsonrpc))) ∧
      uniqueMember members "method" = some (some (.string (some method))) ∧
      uniqueMember members "params" = some params ∧ uniqueMember members "id" = some (some id) ∧
      method ≠ "eth_subscribe" ∧ method ≠ "eth_unsubscribe" := by
  have hstring : ∀ {raw : Raw} {s : String}, raw.readString = some s → raw = .string (some s) := by
    intro raw s h
    cases raw <;> simp_all [Raw.readString]
  obtain ⟨hobject, haccepted, hmethods⟩ := ho
  obtain ⟨req, hreq⟩ := Option.isSome_iff_exists.mp haccepted
  cases o with
  | object members =>
    obtain ⟨jsonrpc, method, params, id, hjsonrpc, hmethod, hparams, hid, hj, hm, -, -⟩ :=
      JsonRpcRequest.read_object.mp hreq
    rw [hstring hj] at hjsonrpc
    rw [hstring hm] at hmethod
    exact ⟨members, _, _, params, id, rfl, hjsonrpc, hmethod, hparams, hid, hmethods req hreq⟩
  | _ => cases hobject

/-- **WebSocket reads a request object in its place** when it does not begin with the name of raw
values and every member can be read there. -/
theorem Raw.IsRequest.isSome_read_value (ho : o.IsRequest reader) :
    (o.read reader (d + 2)).isSome ↔ beginsRawValue o.members = false ∧
      ∀ m ∈ o.members, (m.2.read reader (d + 1)).isSome := by
  obtain ⟨hobject, haccepted, -⟩ := ho
  obtain ⟨req, hreq⟩ := Option.isSome_iff_exists.mp haccepted
  cases o with
  | object members => exact Raw.isSome_read_members (JsonRpcRequest.ne_singleton_of_read hreq)
  | _ => cases hobject

/-- HTTP reads a request object in its place when it can read the parameters and the id there. -/
theorem Raw.IsRequest.isSome_read (ho : o.IsRequest reader) :
    (JsonRpcRequest.read reader (d + 2) o).isSome ↔
      ∀ m ∈ o.members, m.1 = "params" ∨ m.1 = "id" → (m.2.read reader (d + 1)).isSome := by
  obtain ⟨members, jsonrpc, method, params, id, rfl, hjsonrpc, hmethod, hparams, hid, -, -⟩ :=
    ho.fields
  constructor
  · intro h m hm hkey
    obtain ⟨req, hreq⟩ := Option.isSome_iff_exists.mp h
    obtain ⟨_, _, params', id', -, -, hparams', hid', -, -, hp, hi⟩ :=
      JsonRpcRequest.read_object.mp hreq
    rcases hkey with hkey | hkey
    · rw [eq_of_uniqueMember hparams' hm hkey] at hp
      exact Option.isSome_iff_exists.mpr ⟨_, hp⟩
    · have heq := eq_of_uniqueMember hid' hm hkey
      rw [Option.some.inj heq] at hi
      exact Option.isSome_iff_exists.mpr ⟨_, hi⟩
  · intro h
    have hp : (readOrDefault reader (d + 1) params).isSome := by
      cases params with
      | none => rfl
      | some raw => exact h _ (mem_of_uniqueMember hparams) (.inl rfl)
    obtain ⟨p, hp⟩ := Option.isSome_iff_exists.mp hp
    obtain ⟨i, hi⟩ := Option.isSome_iff_exists.mp (h _ (mem_of_uniqueMember hid) (.inr rfl))
    exact Option.isSome_iff_exists.mpr ⟨⟨jsonrpc, method, p, i⟩, JsonRpcRequest.read_object.mpr
      ⟨_, _, params, id, hjsonrpc, hmethod, hparams, hid, rfl, rfl, hp, hi⟩⟩

/-- **What the two make of a request object that WebSocket can read** differs in the parameters when
there are none, and in nothing else. -/
theorem Raw.IsRequest.meaning_eq_iff (ho : o.IsRequest reader)
    (hv : o.read reader (d + 2) = some v) :
    ∃ req r, JsonRpcRequest.read reader (d + 2) o = some req ∧ wsRequest v = some r ∧
      r.method ≠ "eth_subscribe" ∧ r.method ≠ "eth_unsubscribe" ∧
      (req.meaning = r.meaning ↔ o.members.any (·.1 == "params") = true) := by
  obtain ⟨hplain, hall⟩ := ho.isSome_read_value.mp (Option.isSome_of_eq_some hv)
  obtain ⟨members, jsonrpc, method, params, id, rfl, hjsonrpc, hmethod, hparams, hid, hsub⟩ :=
    ho.fields
  obtain ⟨i, hi⟩ := Option.isSome_iff_exists.mp (hall _ (mem_of_uniqueMember hid))
  have hmethodOf : requestMethod v = some method := by
    rw [requestMethod, Raw.get_of_read hplain hv hmethod]
    rfl
  have hidOf : requestId v = i := by
    rw [requestId, Raw.get_of_read hplain hv hid]
    exact congrArg (Option.getD · _) hi
  have hws : wsRequest v = some (callRequest method (requestParams v) i) := by
    rw [wsRequest, hmethodOf, hidOf]
    rfl
  have hread : ∀ {p : Value}, readOrDefault reader (d + 1) params = some p →
      JsonRpcRequest.read reader (d + 2) (.object members) =
        some ⟨jsonrpc, method, p, i⟩ := fun hp =>
    JsonRpcRequest.read_object.mpr
      ⟨_, _, params, id, hjsonrpc, hmethod, hparams, hid, rfl, rfl, hp, hi⟩
  have hparamsOf := Raw.get_of_read hplain hv hparams
  cases params with
  | none =>
    refine ⟨_, _, hread rfl, hws, hsub.1, hsub.2, ?_⟩
    have hnone : requestParams v = .array [] := by
      rw [requestParams, hparamsOf]
      rfl
    have hmissing : ¬ members.any (·.1 == "params") = true := by
      rw [List.any_eq_true]
      rintro ⟨m, hm, hkey⟩
      exact absurd (eq_of_uniqueMember hparams hm (beq_iff_eq.mp hkey))
        (Option.some_ne_none _).symm
    refine iff_of_false (fun h => ?_) hmissing
    rw [JsonRpcRequest.meaning, JsonRpcRequest.meaning, callRequest, hnone] at h
    simp at h
  | some raw =>
    obtain ⟨p, hp⟩ := Option.isSome_iff_exists.mp (hall _ (mem_of_uniqueMember hparams))
    refine ⟨_, _, hread hp, hws, hsub.1, hsub.2, iff_of_true ?_ ?_⟩
    · have hsome : requestParams v = p := by
        rw [requestParams, hparamsOf]
        exact congrArg (Option.getD · _) hp
      rw [JsonRpcRequest.meaning, JsonRpcRequest.meaning, callRequest, hsome]
    · exact List.any_eq_true.mpr ⟨_, mem_of_uniqueMember hparams, rfl⟩

/-! ### All objects of a text -/

variable {items : List Raw} {vs : List Value}

theorem meanings_eq_iff (hitems : ∀ o ∈ items, o.IsRequest reader)
    (hvs : items.mapM (Raw.read reader (d + 2)) = some vs) :
    ∃ reqs rs, items.mapM (JsonRpcRequest.read reader (d + 2)) = some reqs ∧
      vs.mapM wsRequest = some rs ∧
      (∀ r ∈ rs, r.method ≠ "eth_subscribe" ∧ r.method ≠ "eth_unsubscribe") ∧
      (reqs.map JsonRpcRequest.meaning = rs.map JsonRpcRequest.meaning ↔
        ∀ o ∈ items, o.members.any (·.1 == "params") = true) := by
  rw [mapM_eq_some_iff] at hvs
  induction hvs with
  | nil => exact ⟨[], [], rfl, rfl, fun _ h => absurd h List.not_mem_nil, by simp⟩
  | @cons o v items vs hv _ ih =>
    obtain ⟨ho, hitems⟩ := List.forall_mem_cons.mp hitems
    obtain ⟨req, r, hreq, hr, hsubscribe, hunsubscribe, hmeaning⟩ := ho.meaning_eq_iff hv
    obtain ⟨reqs, rs, hreqs, hrs, hmethods, hmeanings⟩ := ih hitems
    refine ⟨req :: reqs, r :: rs, ?_, ?_, ?_, ?_⟩
    · exact mapM_eq_some_iff.mpr (.cons hreq (mapM_eq_some_iff.mp hreqs))
    · exact mapM_eq_some_iff.mpr (.cons hr (mapM_eq_some_iff.mp hrs))
    · exact List.forall_mem_cons.mpr ⟨⟨hsubscribe, hunsubscribe⟩, hmethods⟩
    · rw [List.map_cons, List.map_cons, List.cons.injEq, hmeaning, hmeanings,
        List.forall_mem_cons]

theorem isSome_mapM_read (hitems : ∀ o ∈ items, o.IsRequest reader) :
    (items.mapM (Raw.read reader (d + 2))).isSome ↔
      ∀ o ∈ items, beginsRawValue o.members = false ∧
        ∀ m ∈ o.members, (m.2.read reader (d + 1)).isSome := by
  rw [isSome_mapM_iff]
  exact forall₂_congr fun o ho => (hitems o ho).isSome_read_value

/-- Reading all objects of a text, in their places, in both ways. -/
theorem sameMeanings_iff (hitems : ∀ o ∈ items, o.IsRequest reader) :
    (items.mapM (JsonRpcRequest.read reader (d + 2))).map (List.map JsonRpcRequest.meaning) =
        ((items.mapM (Raw.read reader (d + 2))).bind fun vs => vs.mapM wsRequest).map
          (List.map JsonRpcRequest.meaning) ↔
      ((∀ o ∈ items, ∀ m ∈ o.members, m.1 = "params" ∨ m.1 = "id" →
          (m.2.read reader (d + 1)).isSome) ↔
        ∀ o ∈ items, beginsRawValue o.members = false ∧
          ∀ m ∈ o.members, (m.2.read reader (d + 1)).isSome) ∧
      ((∀ o ∈ items, beginsRawValue o.members = false ∧
          ∀ m ∈ o.members, (m.2.read reader (d + 1)).isSome) →
        ∀ o ∈ items, o.members.any (·.1 == "params") = true) := by
  have hhttp : (items.mapM (JsonRpcRequest.read reader (d + 2))).isSome ↔
      ∀ o ∈ items, ∀ m ∈ o.members, m.1 = "params" ∨ m.1 = "id" →
        (m.2.read reader (d + 1)).isSome := by
    rw [isSome_mapM_iff]
    exact forall₂_congr fun o ho => (hitems o ho).isSome_read
  rw [← hhttp, ← isSome_mapM_read hitems]
  cases hvs : items.mapM (Raw.read reader (d + 2)) with
  | none => cases items.mapM (JsonRpcRequest.read reader (d + 2)) <;> simp
  | some vs =>
    obtain ⟨reqs, rs, hreqs, hrs, -, hmeanings⟩ := meanings_eq_iff hitems hvs
    rw [hreqs, Option.bind_some, hrs, Option.map_some, Option.map_some, Option.some.injEq,
      hmeanings]
    simp

/-! ### Whole texts -/

/-- A text that is a request object, or an array of request objects. -/
def JsonText.HoldsRequests (reader : ValueReader) (text : JsonText) : Prop :=
  (text.root.isObject = true ∨ text.root.isArray = true) ∧ ∀ o ∈ text.objects, o.IsRequest reader

theorem mapM_singleton {α β : Type} (f : α → Option β) (a : α) :
    [a].mapM f = (f a).map ([·]) := by
  cases h : f a <;> simp [List.mapM_cons, h]

theorem httpRequests_object (blank : Bool) (members : List (String × Raw)) :
    JsonText.httpRequests reader ⟨blank, .object members⟩ =
      [Raw.object members].mapM (JsonRpcRequest.read reader recursionLimit) := by
  have hparse : RpcRequest.parse reader ⟨blank, .object members⟩ =
      (JsonRpcRequest.read reader recursionLimit (.object members)).map .single := by
    cases blank <;> rfl
  rw [JsonText.httpRequests, hparse, Option.map_map, mapM_singleton]
  rfl

theorem wsRequests_object (blank : Bool) {members : List (String × Raw)}
    (ho : (Raw.object members).IsRequest reader) :
    JsonText.wsRequests reader ⟨blank, .object members⟩ =
      ([Raw.object members].mapM (Raw.read reader recursionLimit)).bind fun vs =>
        vs.mapM wsRequest := by
  rw [JsonText.wsRequests, mapM_singleton, Option.bind_map]
  refine Option.bind_congr fun v hv => ?_
  have hv : (Raw.object members).read reader (126 + 2) = some v := hv
  obtain ⟨hplain, -⟩ := ho.isSome_read_value.mp (Option.isSome_of_eq_some hv)
  obtain ⟨ms, -, rfl⟩ := Raw.read_object_eq_some hplain hv
  rfl

theorem httpRequests_array (items : List Raw) :
    JsonText.httpRequests reader ⟨false, .array items⟩ =
      items.mapM (JsonRpcRequest.read reader (recursionLimit - 1)) := by
  have hparse : RpcRequest.parse reader ⟨false, .array items⟩ =
      (items.mapM (JsonRpcRequest.read reader (recursionLimit - 1))).map .batch := rfl
  rw [JsonText.httpRequests, hparse, Option.map_map]
  exact congrFun Option.map_id _

theorem wsRequests_array (blank : Bool) (items : List Raw) :
    JsonText.wsRequests reader ⟨blank, .array items⟩ =
      (items.mapM (Raw.read reader (recursionLimit - 1))).bind fun vs => vs.mapM wsRequest := by
  have hread : (Raw.array items).read reader recursionLimit =
      (items.mapM (Raw.read reader (recursionLimit - 1))).map .array := by
    rw [recursionLimit, Raw.read]
  rw [JsonText.wsRequests, hread, Option.bind_map]
  rfl

/-- An array of objects is no request in the form of an array. -/
theorem httpRequests_blank (hitems : ∀ o ∈ items, o.IsRequest reader) :
    JsonText.httpRequests reader ⟨true, .array items⟩ = none := by
  have hread : JsonRpcRequest.read reader recursionLimit (.array items) = none := by
    rcases items with _ | ⟨jsonrpc, _ | ⟨method, _ | ⟨params, _ | ⟨id, _ | ⟨extra, items⟩⟩⟩⟩⟩
    case cons.cons.cons.cons.nil =>
      obtain ⟨members, _, _, _, _, rfl, -⟩ := (hitems jsonrpc List.mem_cons_self).fields
      rfl
    all_goals rfl
  have hparse : RpcRequest.parse reader ⟨true, .array items⟩ =
      (JsonRpcRequest.read reader recursionLimit (.array items)).map .single := rfl
  rw [JsonText.httpRequests, hparse, hread]
  rfl

/-- **Both read the same requests exactly when both can read the text and no `params` is missing, or
neither can.** -/
theorem JsonText.HoldsRequests.sameRequests_iff {text : JsonText}
    (htext : text.HoldsRequests reader) : text.SameRequests reader ↔ text.Alike reader := by
  obtain ⟨blank, root⟩ := text
  obtain ⟨hroot, hitems⟩ := htext
  cases root with
  | object members =>
    have hhttp : HttpReads reader ⟨blank, .object members⟩ ↔
        ∀ o ∈ [Raw.object members], ∀ m ∈ o.members, m.1 = "params" ∨ m.1 = "id" →
          (m.2.read reader (126 + 1)).isSome :=
      and_iff_right fun h => absurd h Bool.false_ne_true
    rw [SameRequests, httpRequests_object,
      wsRequests_object blank (hitems _ (List.mem_singleton_self _)), Alike, hhttp]
    exact sameMeanings_iff (d := 126) hitems
  | array items =>
    cases blank with
    | false =>
      have hhttp : HttpReads reader ⟨false, .array items⟩ ↔ ∀ o ∈ items, ∀ m ∈ o.members,
          m.1 = "params" ∨ m.1 = "id" → (m.2.read reader (125 + 1)).isSome :=
        and_iff_right fun _ => rfl
      rw [SameRequests, httpRequests_array, wsRequests_array, Alike, hhttp]
      exact sameMeanings_iff (d := 125) hitems
    | true =>
      have hitems : ∀ o ∈ items, o.IsRequest reader := hitems
      have hhttp : ¬ HttpReads reader ⟨true, .array items⟩ := fun h => absurd (h.1 rfl) nofun
      have hws := isSome_mapM_read (d := 125) hitems
      have hreads : WsReads reader ⟨true, .array items⟩ ↔
          (items.mapM (Raw.read reader (recursionLimit - 1))).isSome := hws.symm
      rw [SameRequests, httpRequests_blank hitems, wsRequests_array, Alike, hreads]
      cases hvs : items.mapM (Raw.read reader (recursionLimit - 1)) with
      | none => simp [hhttp]
      | some vs =>
        obtain ⟨reqs, rs, -, hrs, -, -⟩ := meanings_eq_iff (d := 125) hitems hvs
        simp [hhttp, hrs]
  | _ => simp [Raw.isObject, Raw.isArray] at hroot

/-! ### The responses -/

/-- How a client reads what it is sent. -/
def Value.toRpcResponse : Value → Option RpcResponse
  | .array resps => (resps.mapM JsonRpcResponse.deserialize).map .batch
  | v => (JsonRpcResponse.deserialize v).map .single

section Responses

variable {Text ι : Type} (reader : ValueReader) (serde : SerdeJson Text) (blake3 : Blake3 Text)
  (toLowercase : String → String) (app : AppConfig ι) (chain : ι)
  (single : JsonRpcRequest → JsonRpcResponse)

/-- **Both transports answer the text, and a client reads the same responses in the same order**; or
both panic, and it reads nothing over either. -/
def JsonText.SameResponses (text : JsonText) : Prop :=
  (∃ resp m responses, handleRpc reader serde blake3 app chain single text = some resp ∧
    handleWsMessage toLowercase app single (text.root.read reader recursionLimit) = some m ∧
    resp.toValue.toRpcResponse = some responses ∧ m.toValue.toRpcResponse = some responses) ∨
  handleRpc reader serde blake3 app chain single text = none ∧
    handleWsMessage toLowercase app single (text.root.read reader recursionLimit) = none

/-- What `process_single_request` does before anything else. -/
def RejectsBlocked (blockedMethods : List String) (single : JsonRpcRequest → JsonRpcResponse) :
    Prop :=
  ∀ req, isMethodBlocked req.method blockedMethods = true →
    single req = .ofError req.id methodNotFound "Method not allowed"

variable {reader serde blake3 toLowercase app chain single}
  {answer : String → Value → JsonRpcResponse}

theorem deserialize_error (code : I64) (message : String) (id : Value) :
    JsonRpcResponse.deserialize (Reply.error code message id).toValue =
      some (.ofError id code message) := by
  simp [Reply.toValue, JsonRpcResponse.deserialize, fieldOf, JsonRpcResponse.ofFields, optionError,
    JsonRpcError.deserialize, JsonRpcError.ofFields, optionValue, JsonRpcResponse.ofError]

theorem toRpcResponse_reply (r : Reply) :
    r.toValue.toRpcResponse = (JsonRpcResponse.deserialize r.toValue).map .single := by
  cases r <;> rfl

theorem toRpcResponse_single (resp : JsonRpcResponse) :
    (RpcResponse.single resp).toValue.toRpcResponse = some (.single resp.canonical) := by
  have h : (RpcResponse.single resp).toValue.toRpcResponse =
      (JsonRpcResponse.deserialize resp.serialize).map .single := rfl
  rw [h, resp.deserialize_serialize, Option.map_some]

theorem toRpcResponse_batch (resps : List JsonRpcResponse) :
    (RpcResponse.batch resps).toValue.toRpcResponse =
      some (.batch (resps.map JsonRpcResponse.canonical)) := by
  have h : (resps.map JsonRpcResponse.serialize).mapM JsonRpcResponse.deserialize =
      some (resps.map JsonRpcResponse.canonical) := by
    rw [mapM_eq_some_iff, List.forall₂_map_left_iff, List.forall₂_map_right_iff]
    exact List.forall₂_same.mpr fun resp _ => resp.deserialize_serialize
  rw [RpcResponse.toValue, Value.toRpcResponse, h, Option.map_some]

theorem AnswersBy.congr (h : AnswersBy single answer) {req r : JsonRpcRequest}
    (hmeaning : req.meaning = r.meaning) : single req = single r := by
  rw [JsonRpcRequest.meaning, JsonRpcRequest.meaning, Prod.mk.injEq, Prod.mk.injEq] at hmeaning
  rw [h req, h r, hmeaning.1, hmeaning.2.1, hmeaning.2.2]

theorem AnswersBy.map_congr (h : AnswersBy single answer) {reqs rs : List JsonRpcRequest}
    (hmeanings : reqs.map JsonRpcRequest.meaning = rs.map JsonRpcRequest.meaning) :
    reqs.map single = rs.map single := by
  have hfactor : ∀ l : List JsonRpcRequest, l.map single =
      (l.map JsonRpcRequest.meaning).map fun x => (answer x.1 x.2.1).withId x.2.2 := by
    intro l
    rw [List.map_map]
    exact List.map_congr_left fun req _ => h req
  rw [hfactor, hfactor, hmeanings]

/-- WebSocket answers a request as `process_single_request` does, if the log survives that. -/
theorem wsReply_eq {r : JsonRpcRequest} (hblocked : RejectsBlocked app.blockedMethods single)
    (hr : wsRequest v = some r) (hsubscribe : r.method ≠ "eth_subscribe")
    (hunsubscribe : r.method ≠ "eth_unsubscribe")
    (hsurvives : app.debugClient.survives (single r) = true) :
    ∃ reply, wsReply toLowercase app single v = some reply ∧
      JsonRpcResponse.deserialize reply.toValue = some (single r).canonical := by
  obtain ⟨method, hmethod, rfl⟩ := Option.map_eq_some_iff.mp hr
  cases hb : isMethodBlocked method app.blockedMethods with
  | true =>
    refine ⟨.error methodNotFound "Method not allowed" (requestId v), ?_, ?_⟩
    · rw [wsReply, routeRequest_blocked hmethod hb]
    · rw [deserialize_error, hblocked _ hb]
      rfl
  | false =>
    refine ⟨.called (single (callRequest method (requestParams v) (requestId v))), ?_, ?_⟩
    · rw [wsReply, routeRequest_call hmethod hb hsubscribe hunsubscribe]
      exact Option.map_eq_some_iff.mpr ⟨_, if_pos hsurvives, rfl⟩
    · exact JsonRpcResponse.deserialize_serialize _

/-- And it panics where the log does. Only what `process_single_request` returns is logged. -/
theorem wsReply_eq_none {r : JsonRpcRequest} (hblocked : RejectsBlocked app.blockedMethods single)
    (hr : wsRequest v = some r) (hsubscribe : r.method ≠ "eth_subscribe")
    (hunsubscribe : r.method ≠ "eth_unsubscribe")
    (hpanics : app.debugClient.survives (single r) = false) :
    wsReply toLowercase app single v = none := by
  obtain ⟨method, hmethod, rfl⟩ := Option.map_eq_some_iff.mp hr
  cases hb : isMethodBlocked method app.blockedMethods with
  | true =>
    -- a refusal is an error, and errors are not cut
    rw [hblocked _ hb, DebugLog.survives_ofError] at hpanics
    cases hpanics
  | false =>
    rw [wsReply, routeRequest_call hmethod hb hsubscribe hunsubscribe]
    exact Option.map_eq_none_iff.mpr (if_neg (Bool.not_eq_true _ ▸ hpanics))

theorem wsReplies_eq {rs : List JsonRpcRequest}
    (hblocked : RejectsBlocked app.blockedMethods single)
    (hrs : vs.mapM wsRequest = some rs)
    (hmethods : ∀ r ∈ rs, r.method ≠ "eth_subscribe" ∧ r.method ≠ "eth_unsubscribe")
    (hsurvives : ∀ r ∈ rs, app.debugClient.survives (single r) = true) :
    ∃ replies, vs.mapM (wsReply toLowercase app single) = some replies ∧
      (replies.map Reply.toValue).mapM JsonRpcResponse.deserialize =
        some (rs.map fun r => (single r).canonical) := by
  rw [mapM_eq_some_iff] at hrs
  induction hrs with
  | nil => exact ⟨[], rfl, rfl⟩
  | @cons v r vs rs hr _ ih =>
    obtain ⟨⟨hsubscribe, hunsubscribe⟩, hmethods⟩ := List.forall_mem_cons.mp hmethods
    obtain ⟨hsurvive, hsurvives⟩ := List.forall_mem_cons.mp hsurvives
    obtain ⟨reply, hreply, hread⟩ : ∃ reply, wsReply toLowercase app single v = some reply ∧ _ :=
      wsReply_eq hblocked hr hsubscribe hunsubscribe hsurvive
    obtain ⟨replies, hreplies, hreads⟩ := ih hmethods hsurvives
    refine ⟨reply :: replies, ?_, ?_⟩
    · exact mapM_eq_some_iff.mpr (.cons hreply (mapM_eq_some_iff.mp hreplies))
    · exact mapM_eq_some_iff.mpr (.cons hread (mapM_eq_some_iff.mp hreads))

/-- One request that cannot be logged is enough. -/
theorem wsReplies_eq_none {rs : List JsonRpcRequest} {r : JsonRpcRequest}
    (hblocked : RejectsBlocked app.blockedMethods single)
    (hrs : vs.mapM wsRequest = some rs)
    (hmethods : ∀ r ∈ rs, r.method ≠ "eth_subscribe" ∧ r.method ≠ "eth_unsubscribe")
    (hr : r ∈ rs) (hpanics : app.debugClient.survives (single r) = false) :
    vs.mapM (wsReply toLowercase app single) = none := by
  have hmem : List.Forall₂ (fun v r => v ∈ vs ∧ wsRequest v = some r) vs rs :=
    (List.forall₂_and_left _ _).mpr ⟨fun _ hv => hv, mapM_eq_some_iff.mp hrs⟩
  obtain ⟨v, hv, hread⟩ := exists_of_forall₂_mem hmem.flip hr
  have hnone : wsReply toLowercase app single v = none :=
    wsReply_eq_none hblocked hread (hmethods r hr).1 (hmethods r hr).2 hpanics
  rw [← Option.not_isSome_iff_eq_none, isSome_mapM_iff]
  intro hall
  have hsome := hall v hv
  rw [hnone] at hsome
  cases hsome

/-- A text that neither can read. -/
theorem sameResponses_of_unreadable {text : JsonText} (hparse : RpcRequest.parse reader text = none)
    (hread : text.root.read reader recursionLimit = none) :
    text.SameResponses reader serde blake3 toLowercase app chain single := by
  refine .inl ⟨.single (.ofError .null parseError "Parse error"),
    .reply (.error parseError "Parse error" .null), _, ?_, ?_, toRpcResponse_single _, ?_⟩
  · rw [handleRpc, hparse]
  · rw [hread]
    rfl
  · refine (toRpcResponse_reply (.error parseError "Parse error" .null)).trans ?_
    rw [deserialize_error]
    rfl

/-- An object is one request over both. -/
theorem sameResponses_object (blank : Bool) {members : List (String × Raw)}
    (ho : (Raw.object members).IsRequest reader)
    (hsame : JsonText.SameRequests reader ⟨blank, .object members⟩)
    (hanswer : AnswersBy single answer) (hblocked : RejectsBlocked app.blockedMethods single) :
    JsonText.SameResponses reader serde blake3 toLowercase app chain single
      ⟨blank, .object members⟩ := by
  have hparse : RpcRequest.parse reader ⟨blank, .object members⟩ =
      (JsonRpcRequest.read reader recursionLimit (.object members)).map .single := by
    cases blank <;> rfl
  rw [JsonText.SameRequests, httpRequests_object, wsRequests_object blank ho, mapM_singleton,
    mapM_singleton, Option.bind_map] at hsame
  cases hread : (Raw.object members).read reader recursionLimit with
  | none =>
    refine sameResponses_of_unreadable ?_ hread
    rw [hread, Option.bind_none, Option.map_none, Option.map_eq_none_iff,
      Option.map_eq_none_iff] at hsame
    rw [hparse, hsame, Option.map_none]
  | some v =>
    obtain ⟨req, r, hreq, hr, hsubscribe, hunsubscribe, -⟩ := ho.meaning_eq_iff (d := 126) hread
    have hreq : JsonRpcRequest.read reader recursionLimit (.object members) = some req := hreq
    rw [hread, hreq, Option.bind_some, Function.comp_apply, mapM_singleton, hr] at hsame
    have hmeaning : req.meaning = r.meaning := by simpa using hsame
    have hobject : (Raw.object members).read reader (126 + 2) = some v := hread
    obtain ⟨hplain, -⟩ := ho.isSome_read_value.mp (Option.isSome_of_eq_some hobject)
    obtain ⟨ms, -, hv⟩ := Raw.read_object_eq_some hplain hobject
    have hws : handleWsMessage toLowercase app single (some v) =
        (wsReply toLowercase app single v).map .reply := by
      rw [handleWsMessage, readMessage, hv]
      rfl
    have hhttp : handleRpc reader serde blake3 app chain single ⟨blank, .object members⟩ =
        (processItem app.debugClient single req).map .single := by
      rw [handleRpc, hparse, hreq]
      rfl
    rw [JsonText.SameResponses, hread, hws, hhttp, processItem, hanswer.congr hmeaning]
    cases hlog : app.debugClient.survives (single r) with
    | false =>
      have hnone : wsReply toLowercase app single v = none :=
        wsReply_eq_none hblocked hr hsubscribe hunsubscribe hlog
      exact .inr ⟨rfl, by rw [hnone, Option.map_none]⟩
    | true =>
      obtain ⟨reply, hreply, hdecoded⟩ :
          ∃ reply, wsReply toLowercase app single v = some reply ∧ _ :=
        wsReply_eq hblocked hr hsubscribe hunsubscribe hlog
      refine .inl ⟨.single (single r), .reply reply, _, rfl, by rw [hreply, Option.map_some],
        toRpcResponse_single _, ?_⟩
      refine (toRpcResponse_reply _).trans ?_
      rw [hdecoded, Option.map_some]

/-- An array is a batch over both. -/
theorem sameResponses_array (blank : Bool) (hitems : ∀ o ∈ items, o.IsRequest reader)
    (hlimit : items.length ≤ app.maxBatchSize)
    (hsame : JsonText.SameRequests reader ⟨blank, .array items⟩)
    (hanswer : AnswersBy single answer)
    (hblocked : RejectsBlocked app.blockedMethods single)
    (hdigests : ∀ reqs, RpcRequest.parse reader ⟨blank, .array items⟩ = some (.batch reqs) →
      blake3.Separates serde {req ∈ reqs | (batchKey serde blake3 (app.chains chain).chainId
        app.blockedMethods req).isSome}) :
    JsonText.SameResponses reader serde blake3 toLowercase app chain single
      ⟨blank, .array items⟩ := by
  have hread : (Raw.array items).read reader recursionLimit =
      (items.mapM (Raw.read reader (recursionLimit - 1))).map .array := by
    rw [recursionLimit, Raw.read]
  rw [JsonText.SameRequests, wsRequests_array] at hsame
  cases hvs : items.mapM (Raw.read reader (recursionLimit - 1)) with
  | none =>
    refine sameResponses_of_unreadable ?_ (by rw [hread, hvs, Option.map_none])
    rwa [hvs, Option.bind_none, Option.map_none, Option.map_eq_none_iff, JsonText.httpRequests,
      Option.map_eq_none_iff] at hsame
  | some vs =>
    obtain ⟨reqs, rs, hreqs, hrs, hmethods, -⟩ := meanings_eq_iff (d := 125) hitems hvs
    rw [hvs, Option.bind_some, hrs, Option.map_some] at hsame
    cases blank with
    | true =>
      rw [httpRequests_blank hitems] at hsame
      cases hsame
    | false =>
      have hreqs : items.mapM (JsonRpcRequest.read reader (recursionLimit - 1)) = some reqs := hreqs
      have hparse : RpcRequest.parse reader ⟨false, .array items⟩ = some (.batch reqs) := by
        have h : RpcRequest.parse reader ⟨false, .array items⟩ =
            (items.mapM (JsonRpcRequest.read reader (recursionLimit - 1))).map .batch := rfl
        rw [h, hreqs, Option.map_some]
      rw [httpRequests_array, hreqs, Option.map_some, Option.some.injEq] at hsame
      have hlength : reqs.length = items.length := (mapM_eq_some_iff.mp hreqs).length_eq.symm
      have hlength' : vs.length = items.length := (mapM_eq_some_iff.mp hvs).length_eq.symm
      have hsingle := hanswer.map_congr hsame
      have hkeys := alike_of_batchKey serde blake3 (app.chains chain).chainId app.blockedMethods
        (hdigests reqs hparse)
      have hws : handleWsMessage toLowercase app single (some (.array vs)) =
          (vs.mapM (wsReply toLowercase app single)).map .replies := by
        simp only [handleWsMessage, readMessage, Value.asArray_array, hlength',
          if_neg (Nat.not_lt.mpr hlimit)]
      have hhttp : handleRpc reader serde blake3 app chain single ⟨false, .array items⟩ =
          (processBatch serde blake3 (app.chains chain).chainId app.blockedMethods app.debugClient
            single reqs).map .batch := by
        simp only [handleRpc, hparse, hlength, if_neg (Nat.not_lt.mpr hlimit)]
      rw [JsonText.SameResponses, hread, hvs, Option.map_some, hws, hhttp]
      by_cases hlog : ∀ r ∈ rs, app.debugClient.survives (single r) = true
      · obtain ⟨replies, hreplies, hdecoded⟩ :
            ∃ replies, vs.mapM (wsReply toLowercase app single) = some replies ∧ _ :=
          wsReplies_eq hblocked hrs hmethods hlog
        have hlogged : ∀ req ∈ reqs, app.debugClient.survives (single req) = true :=
          fun req hreq => by
            obtain ⟨r, hr, heq⟩ := List.mem_map.mp (hsingle ▸ List.mem_map_of_mem hreq)
            rw [← heq]
            exact hlog r hr
        have hbatch := processBatch_eq serde blake3 (app.chains chain).chainId app.blockedMethods
          hanswer hkeys hlogged
        refine .inl ⟨.batch (reqs.map single), .replies replies, _, by rw [hbatch, Option.map_some],
          by rw [hreplies, Option.map_some], toRpcResponse_batch _, ?_⟩
        rw [Outgoing.toValue, Value.toRpcResponse, hdecoded, hsingle, List.map_map]
        rfl
      · push Not at hlog
        obtain ⟨r, hr, hpanics⟩ := hlog
        rw [ne_eq, Bool.not_eq_true] at hpanics
        obtain ⟨req, hreq, heq⟩ := List.mem_map.mp (hsingle ▸ List.mem_map_of_mem hr)
        have hbatch := processBatch_eq_none serde blake3 (app.chains chain).chainId
          app.blockedMethods hanswer hkeys hreq (heq ▸ hpanics)
        have hnone : vs.mapM (wsReply toLowercase app single) = none :=
          wsReplies_eq_none hblocked hrs hmethods hr hpanics
        exact .inr ⟨by rw [hbatch, Option.map_none], by rw [hnone, Option.map_none]⟩

variable (reader serde blake3 toLowercase app chain) in
/-- **Both transports mean the same by a text exactly when both can read it and no `params` is
missing, or neither can read it**: they read the same requests, and whatever
`process_single_request` answers by method and parameters, the client reads the same responses in
the same order, or none over either where the log panics. -/
theorem transports_agree_iff {text : JsonText} (htext : text.HoldsRequests reader)
    (hlimit : text.root.isArray = true → text.objects.length ≤ app.maxBatchSize) :
    (text.SameRequests reader ∧ ∀ single answer, AnswersBy single answer →
      RejectsBlocked app.blockedMethods single →
      (∀ reqs, RpcRequest.parse reader text = some (.batch reqs) →
        blake3.Separates serde {req ∈ reqs | (batchKey serde blake3 (app.chains chain).chainId
          app.blockedMethods req).isSome}) →
      text.SameResponses reader serde blake3 toLowercase app chain single) ↔
      text.Alike reader := by
  rw [← htext.sameRequests_iff]
  refine and_iff_left_of_imp fun hsame single answer hanswer hblocked hdigests => ?_
  obtain ⟨blank, root⟩ := text
  obtain ⟨hroot, hitems⟩ := htext
  cases root with
  | object members =>
    exact sameResponses_object blank (hitems _ (List.mem_singleton_self _)) hsame hanswer hblocked
  | array items =>
    exact sameResponses_array blank hitems (hlimit rfl) hsame hanswer hblocked hdigests
  | _ => simp [Raw.isObject, Raw.isArray] at hroot

end Responses

/-! ### Texts -/

/-- A request object with these members before its id. -/
def syncingText (params : List (String × Raw)) : JsonText where
  blank := false
  root := .object (("jsonrpc", .string (some "2.0")) :: ("method", .string (some "eth_syncing")) ::
    (params ++ [("id", .string (some "1"))]))

theorem holdsRequests_syncingText {params : List (String × Raw)} {p : Value}
    (hread : JsonRpcRequest.read .plain recursionLimit (syncingText params).root =
      some ⟨"2.0", "eth_syncing", p, .string "1"⟩) : (syncingText params).HoldsRequests .plain := by
  refine ⟨.inl rfl, fun o ho => ?_⟩
  obtain rfl := List.mem_singleton.mp ho
  refine ⟨rfl, Option.isSome_iff_exists.mpr ⟨_, hread⟩, fun req hreq => ?_⟩
  rw [← Option.some.inj (hread.symm.trans hreq)]
  exact ⟨of_decide_eq_true rfl, of_decide_eq_true rfl⟩

/-- With an empty list of parameters, both ask for the same. -/
theorem emptyParams_agree : (syncingText [("params", .array [])]).SameRequests .plain := by
  have hread : JsonRpcRequest.read .plain recursionLimit
      (syncingText [("params", .array [])]).root =
        some ⟨"2.0", "eth_syncing", .array [], .string "1"⟩ := rfl
  have hreads : (syncingText [("params", .array [])]).WsReads .plain := by
    intro o ho
    obtain rfl := List.mem_singleton.mp ho
    refine ⟨rfl, fun m hm => ?_⟩
    simp only [syncingText, Raw.members, List.cons_append, List.nil_append, List.mem_cons,
      List.not_mem_nil, or_false] at hm
    rcases hm with rfl | rfl | rfl | rfl <;> rfl
  have halike : (syncingText [("params", .array [])]).Alike .plain := by
    refine ⟨iff_of_true ⟨fun _ => rfl, fun o ho m hm _ => (hreads o ho).2 m hm⟩ hreads, ?_⟩
    intro _ o ho
    obtain rfl := List.mem_singleton.mp ho
    rfl
  exact ((transports_agree_iff .plain .tree (.const "00" rfl) id localApp ()
    (holdsRequests_syncingText hread) fun h => absurd h Bool.false_ne_true).mpr halike).1

/-- Without one, HTTP asks with `null` and WebSocket with an empty list. -/
theorem missingParams_differ :
    (syncingText []).HoldsRequests .plain ∧
      ((syncingText []).httpRequests .plain).map (List.map JsonRpcRequest.params) = some [.null] ∧
      ((syncingText []).wsRequests .plain).map (List.map JsonRpcRequest.params) = some [.array []] ∧
      ¬ (syncingText []).SameRequests .plain := by
  have hread : JsonRpcRequest.read .plain recursionLimit (syncingText []).root =
      some ⟨"2.0", "eth_syncing", .null, .string "1"⟩ := rfl
  refine ⟨holdsRequests_syncingText hread, rfl, rfl, fun h => ?_⟩
  have hparams : some [Value.null] = some [Value.array []] :=
    congrArg (Option.map (List.map fun x : String × Value × Value => x.2.1)) h
  cases hparams

end Poolbeg
