import Poolbeg.Rpc.Body

/-!
# The reply to a request that is turned away

A request over the rate limit is answered by `rate_limit_response`, with an error for each request
of the body. It finds the ids by itself, with the reader for `Value`, and does not share the parser
of requests. The two differ in four ways, and in each the ids are lost.

* It reads at most a mebibyte of the body, whatever `max_body_size` lets in.
* It reads the members that the derived reader skips, and fails if one of them is no value.
* It takes a request object that begins with the name of raw values for a raw value, and fails; to
  the derived reader this is a member to skip.
* It looks for a member `id`, and a request in the second form has no members.

Where it fails there is one error with no id, also for a batch.

## When the difference does not show

An id that is null is what the reply has when it finds none, so a single request with that id is
answered rightly in every case. A batch is not: its reply is to be an array, and one error is none.
`KeepsIds` puts this together, for a single request and for a batch, and the main result is that
nothing else decides. It takes for granted that the body parses as a request, since the reply to a
body that does not is the reply to nobody's id.

## Main definitions

* `makeError`, `rateLimitResponse` — the source
* `RpcRequest.MirroredBy` — a reply with an error for each request, in their order
* `Raw.Legible`, `RpcRequest.KeepsIds` — the condition

## Main results

* `JsonRpcRequest.exists_idOrNull_iff` — the two readers on one request
* `rateLimitResponse_mirrors_iff` — the reply to a body
-/

namespace Poolbeg

/-! ### The reply -/

/-- The bytes of a body that are read at most. -/
def bufferLimit : ℕ := 1048576

/-- `to_bytes(..).await.unwrap_or_default()`. A body that is longer than the limit counts as empty,
it is not cut. -/
def collectBytes (body : List UInt8) : List UInt8 := if body.length ≤ bufferLimit then body else []

/-- `from_slice` into a `Vec<Value>`. The array itself takes one of the levels of nesting, and one
item that cannot be read fails them all. -/
def JsonSyntax.readValues (json : JsonSyntax) (body : List UInt8) : Option (List Value) :=
  match json.value (trim isWhitespace body) with
  | some (.array items) => items.mapM (Raw.read json.toValueReader (recursionLimit - 1))
  | _ => none

/-- `from_slice` into a `Value`. -/
def JsonSyntax.readValue (json : JsonSyntax) (body : List UInt8) : Option Value :=
  (json.value (trim isWhitespace body)).bind (Raw.read json.toValueReader recursionLimit)

/-- `make_error`. Only the id differs from one request to the next. -/
def makeError (id : Value) : Value := .object
  [("jsonrpc", .string "2.0"),
    ("error", .object
      [("code", .number (.negInt (-32005) (by decide))),
        ("message", .string "Rate limit exceeded")]),
    ("id", id)]

/-- `obj.get("id").cloned().unwrap_or(Value::Null)`. -/
def Value.idOrNull (obj : Value) : Value := (obj.get "id").getD .null

/-- `rate_limit_response`: the status and the body. The first byte decides whether an array is read
or a single value; if that fails, the id is null. -/
def rateLimitResponse (json : JsonSyntax) (body : List UInt8) : ℕ × Value :=
  let bodyBytes := collectBytes body
  let responseBody :=
    if bodyBytes.head? = some 0x5B then
      match json.readValues bodyBytes with
      | some arr => .array (arr.map fun obj => makeError obj.idOrNull)
      | none => makeError .null
    else
      match json.readValue bodyBytes with
      | some obj => makeError obj.idOrNull
      | none => makeError .null
  (429, responseBody)

/-! ### What it is for -/

/-- The error for a request with this id. -/
structure Value.IsErrorFor (reply id : Value) : Prop where
  jsonrpc : reply.get "jsonrpc" = some (.string "2.0")
  code : (reply.index "error").get "code" = some (.number (.negInt (-32005) (by decide)))
  id : reply.get "id" = some id

/-- **A reply mirrors a request**: one error for one request, and for a batch an array with the
errors of its requests in their order. -/
def RpcRequest.MirroredBy (reply : Value) : RpcRequest → Prop
  | .single req => reply.IsErrorFor req.id
  | .batch reqs => ∃ errors, reply = .array errors ∧
      List.Forall₂ (fun req error => Value.IsErrorFor error req.id) reqs errors

theorem makeError_isErrorFor_iff {id id' : Value} : (makeError id).IsErrorFor id' ↔ id = id' := by
  constructor
  · intro h
    exact Option.some.inj h.id
  · rintro rfl
    exact ⟨rfl, rfl, rfl⟩

/-! ### The condition -/

/-- The members of a request. -/
def requestFields : List String := ["jsonrpc", "method", "params", "id"]

/-- A request that the other reader understands: it does not begin with the name of raw values, what
it has besides the members of a request is readable, and if it is in the second form it has no id to
lose. -/
structure Raw.Legible (reader : ValueReader) (levels : ℕ) (raw : Raw) (req : JsonRpcRequest) :
    Prop where
  plain : ∀ members, raw = .object members → beginsRawValue members = false
  skipped : ∀ members, raw = .object members →
    ∀ m ∈ members, m.1 ∉ requestFields → m.2.readable reader levels
  positional : raw.IsMemberList reader levels req → req.id = .null

/-- **When the ids are kept**: the body is short enough and its requests are legible, or there is
one request and its id is null. -/
def RpcRequest.KeepsIds (json : JsonSyntax) (body : List UInt8) : RpcRequest → Prop
  | .single req => req.id = .null ∨ body.length ≤ bufferLimit ∧
      ∀ text, json.text body = some text → text.root.Legible json.toValueReader singleLevels req
  | .batch reqs => body.length ≤ bufferLimit ∧
      ∀ text items, json.text body = some text → text.root = .array items →
        List.Forall₂ (Raw.Legible json.toValueReader batchLevels) items reqs

/-! ### Two readers on one request -/

section Readers

variable {reader : ValueReader} {raw : Raw} {req : JsonRpcRequest} {levels : ℕ}

/-- The members of a request have been read as values, and only what it skips is left. So the other
reader succeeds if it can read that. -/
theorem JsonRpcRequest.isSome_read_object_iff {members : List (String × Raw)}
    (h : JsonRpcRequest.read reader (levels + 2) (.object members) = some req) :
    ((Raw.object members).read reader (levels + 2)).isSome ↔
      beginsRawValue members = false ∧
        ∀ m ∈ members, m.1 ∉ requestFields → m.2.readable reader levels := by
  rw [Raw.isSome_read_members (JsonRpcRequest.ne_singleton_of_read h)]
  simp only [Raw.isSome_read_iff_readable]
  refine and_congr_right fun _ => ⟨fun hall m hm _ => hall m hm, fun hskipped m hm => ?_⟩
  obtain ⟨jsonrpc, method, -, -, hjsonrpc, hmethod, -, -, hj, hme, -, -⟩ :=
    JsonRpcRequest.read_object.mp h
  by_cases hfield : m.1 ∈ requestFields
  · simp only [requestFields, List.mem_cons, List.not_mem_nil, or_false] at hfield
    rw [← Raw.isSome_read_iff_readable]
    obtain hkey | hkey | hkey := hfield
    · obtain rfl := Option.some.inj (eq_of_uniqueMember hjsonrpc hm hkey)
      rw [Raw.readString_eq_some_iff.mp hj]
      rfl
    · obtain rfl := Option.some.inj (eq_of_uniqueMember hmethod hm hkey)
      rw [Raw.readString_eq_some_iff.mp hme]
      rfl
    · exact Option.isSome_of_eq_some (JsonRpcRequest.read_members h m hm hkey)
  · exact hskipped m hm hfield

/-- In the second form everything has been read. -/
theorem Raw.IsMemberList.exists_read (h : raw.IsMemberList reader levels req) :
    ∃ vs, raw.read reader (levels + 2) = some (.array vs) := by
  obtain ⟨params, id, rfl, hparams, hid⟩ := h
  exact ⟨[.string req.jsonrpc, .string req.method, req.params, req.id], by
    simp [Raw.read, hparams, hid]⟩

/-- **The two readers on one request**: the id is found exactly when the request is legible. The
request is one that the derived reader accepts. -/
theorem JsonRpcRequest.exists_idOrNull_iff
    (h : JsonRpcRequest.read reader (levels + 2) raw = some req) :
    (∃ v, raw.read reader (levels + 2) = some v ∧ v.idOrNull = req.id) ↔
      raw.Legible reader levels req := by
  obtain ⟨⟨members, rfl⟩, -⟩ | hlist := JsonRpcRequest.form_of_read h
  · have hsome := JsonRpcRequest.isSome_read_object_iff h
    constructor
    · rintro ⟨v, hv, -⟩
      obtain ⟨hplain, hskipped⟩ := hsome.mp (Option.isSome_of_eq_some hv)
      refine ⟨?_, ?_, fun hlist => ?_⟩
      · rintro _ ⟨rfl⟩
        exact hplain
      · rintro _ ⟨rfl⟩
        exact hskipped
      · obtain ⟨params, id, heq, -⟩ := hlist
        cases heq
    · intro hlegible
      have hplain := hlegible.plain members rfl
      obtain ⟨v, hv⟩ := Option.isSome_iff_exists.mp
        (hsome.mpr ⟨hplain, hlegible.skipped members rfl⟩)
      obtain ⟨-, -, -, id, -, -, -, hid, -, -, -, hi⟩ := JsonRpcRequest.read_object.mp h
      refine ⟨v, hv, ?_⟩
      rw [Value.idOrNull, Raw.get_of_read hplain hv hid, Option.bind_some, hi]
      rfl
  · obtain ⟨vs, hvs⟩ := hlist.exists_read
    have hno : ∀ members, raw ≠ .object members := by
      rintro members rfl
      obtain ⟨params, id, heq, -⟩ := hlist
      cases heq
    constructor
    · rintro ⟨v, hv, hid⟩
      cases hvs.symm.trans hv
      refine ⟨?_, ?_, fun _ => hid.symm⟩
      · exact fun members hmembers => absurd hmembers (hno members)
      · exact fun members hmembers => absurd hmembers (hno members)
    · intro hlegible
      exact ⟨_, hvs, (hlegible.positional hlist).symm⟩

/-- An id that is null is found wherever there is a value. -/
theorem JsonRpcRequest.idOrNull_of_null {v : Value}
    (h : JsonRpcRequest.read reader (levels + 2) raw = some req)
    (hv : raw.read reader (levels + 2) = some v) (hnull : req.id = .null) :
    v.idOrNull = req.id := by
  have hlegible : raw.Legible reader levels req := by
    have hsome : ∀ members, raw = .object members → beginsRawValue members = false ∧
        ∀ m ∈ members, m.1 ∉ requestFields → m.2.readable reader levels := by
      rintro members rfl
      exact (JsonRpcRequest.isSome_read_object_iff h).mp (Option.isSome_of_eq_some hv)
    exact ⟨fun members hmembers => (hsome members hmembers).1,
      fun members hmembers => (hsome members hmembers).2, fun _ => hnull⟩
  obtain ⟨w, hw, hid⟩ := (JsonRpcRequest.exists_idOrNull_iff h).mpr hlegible
  cases hv.symm.trans hw
  exact hid

end Readers

/-! ### The reply to a text -/

/-- What is answered to a text that is short enough. -/
def JsonText.errors (reader : ValueReader) (text : JsonText) : Value :=
  match text.blank, text.root with
  | false, .array items =>
    match items.mapM (Raw.read reader (recursionLimit - 1)) with
    | some arr => .array (arr.map fun obj => makeError obj.idOrNull)
    | none => makeError .null
  | _, root =>
    match root.read reader recursionLimit with
    | some obj => makeError obj.idOrNull
    | none => makeError .null

section Reply

variable {json : JsonSyntax} {reader : ValueReader} {body : List UInt8} {text : JsonText}
  {req : JsonRpcRequest} {reqs : List JsonRpcRequest} {request : RpcRequest}

theorem rateLimitResponse_of_le (hshort : body.length ≤ bufferLimit)
    (htext : json.text body = some text) :
    (rateLimitResponse json body).2 = text.errors json.toValueReader := by
  rw [JsonSyntax.text] at htext
  obtain ⟨root, hroot, rfl⟩ := Option.map_eq_some_iff.mp htext
  rw [rateLimitResponse, collectBytes, if_pos hshort, JsonSyntax.readValues, JsonSyntax.readValue,
    hroot, Option.bind_some]
  split
  · rename_i hhead
    obtain ⟨items, rfl⟩ := json.array_of_head? hhead hroot
    rw [hhead]
    rfl
  · rename_i hhead
    cases root with
    | array items =>
      rw [json.blank_of_array hhead hroot]
      rfl
    | _ => cases body.head?.any isWhitespace <;> rfl

/-- Nothing is read of a body that is too long, and the reply is a single error without an id, even
if the body is a batch. -/
theorem rateLimitResponse_of_lt (hlong : bufferLimit < body.length) :
    (rateLimitResponse json body).2 = makeError .null := by
  have hnil : json.readValue [] = none := by
    rw [JsonSyntax.readValue, show trim isWhitespace [] = [] from rfl, json.value_nil]
    rfl
  rw [rateLimitResponse, collectBytes, if_neg (Nat.not_le.mpr hlong), if_neg (by simp), hnil]

theorem not_mirroredBy_batch {id : Value} :
    ¬ (RpcRequest.batch reqs).MirroredBy (makeError id) := by
  rintro ⟨errors, heq, -⟩
  cases heq

/-- One request, which may be an array only with whitespace in front. -/
theorem RpcRequest.read_of_parse_single (h : RpcRequest.parse reader text = some (.single req)) :
    JsonRpcRequest.read reader recursionLimit text.root = some req ∧
      text.errors reader =
        ((text.root.read reader recursionLimit).map fun obj => makeError obj.idOrNull).getD
          (makeError .null) := by
  obtain ⟨blank, root⟩ := text
  rw [RpcRequest.parse] at h
  split at h
  · obtain ⟨_, -, heq⟩ := Option.map_eq_some_iff.mp h
    cases heq
  · rename_i hnot
    obtain ⟨_, hread, heq⟩ := Option.map_eq_some_iff.mp h
    cases heq
    refine ⟨hread, ?_⟩
    rw [JsonText.errors]
    split
    · rename_i items hblank hroot
      exact absurd hroot (hnot items hblank)
    · cases root.read reader recursionLimit <;> rfl

/-- A batch, which is an array with no whitespace in front. -/
theorem RpcRequest.read_of_parse_batch (h : RpcRequest.parse reader text = some (.batch reqs)) :
    ∃ items, text.root = .array items ∧
      items.mapM (JsonRpcRequest.read reader (recursionLimit - 1)) = some reqs ∧
      text.errors reader = ((items.mapM (Raw.read reader (recursionLimit - 1))).map fun arr =>
        .array (arr.map fun obj => makeError obj.idOrNull)).getD (makeError .null) := by
  obtain ⟨blank, root⟩ := text
  rw [RpcRequest.parse] at h
  split at h
  · rename_i items hblank hroot
    obtain ⟨_, hread, heq⟩ := Option.map_eq_some_iff.mp h
    cases heq
    refine ⟨items, hroot, hread, ?_⟩
    rw [JsonText.errors, hblank, hroot]
    dsimp only
    cases items.mapM (Raw.read reader (recursionLimit - 1)) <;> rfl
  · obtain ⟨_, -, heq⟩ := Option.map_eq_some_iff.mp h
    cases heq

/-- A request whose id is null is answered rightly by the error that stands for a failure. -/
theorem JsonRpcRequest.mirrors_single_iff {levels : ℕ} {raw : Raw}
    (h : JsonRpcRequest.read reader (levels + 2) raw = some req) :
    (((raw.read reader (levels + 2)).map fun obj => makeError obj.idOrNull).getD
        (makeError .null)).IsErrorFor req.id ↔
      req.id = .null ∨ raw.Legible reader levels req := by
  rw [← JsonRpcRequest.exists_idOrNull_iff h]
  cases hread : raw.read reader (levels + 2) with
  | none => simp [makeError_isErrorFor_iff, eq_comm]
  | some v =>
    rw [Option.map_some, Option.getD_some, makeError_isErrorFor_iff]
    simp only [Option.some.injEq, exists_eq_left']
    refine ⟨.inr, ?_⟩
    rintro (hnull | hid)
    · exact JsonRpcRequest.idOrNull_of_null h hread hnull
    · exact hid

/-- Two lists that stand in a relation to a third, entry by entry: there is a third exactly if there
is one for each entry. -/
theorem exists_forall₂_iff {α β γ : Type} {R : α → γ → Prop} {S : β → γ → Prop} {as : List α}
    {bs : List β} :
    (∃ cs, List.Forall₂ R as cs ∧ List.Forall₂ S bs cs) ↔
      List.Forall₂ (fun a b => ∃ c, R a c ∧ S b c) as bs := by
  constructor
  · rintro ⟨cs, has, hbs⟩
    induction has generalizing bs with
    | nil =>
      cases hbs
      exact .nil
    | cons hac _ ih =>
      cases hbs with
      | cons hbc hbs => exact .cons ⟨_, hac, hbc⟩ (ih hbs)
  · intro h
    induction h with
    | nil => exact ⟨[], .nil, .nil⟩
    | cons hab _ ih =>
      obtain ⟨c, hac, hbc⟩ := hab
      obtain ⟨cs, has, hbs⟩ := ih
      exact ⟨c :: cs, .cons hac has, .cons hbc hbs⟩

theorem JsonRpcRequest.mirrors_batch_iff {levels : ℕ} {items : List Raw}
    (h : items.mapM (JsonRpcRequest.read reader (levels + 2)) = some reqs) :
    (RpcRequest.batch reqs).MirroredBy (((items.mapM (Raw.read reader (levels + 2))).map fun arr =>
        Value.array (arr.map fun obj => makeError obj.idOrNull)).getD (makeError .null)) ↔
      List.Forall₂ (Raw.Legible reader levels) items reqs := by
  have hmirrors : (RpcRequest.batch reqs).MirroredBy
      (((items.mapM (Raw.read reader (levels + 2))).map fun arr =>
        Value.array (arr.map fun obj => makeError obj.idOrNull)).getD (makeError .null)) ↔
      ∃ vs, items.mapM (Raw.read reader (levels + 2)) = some vs ∧
        List.Forall₂ (fun req v => Value.idOrNull v = req.id) reqs vs := by
    cases items.mapM (Raw.read reader (levels + 2)) with
    | none =>
      refine iff_of_false not_mirroredBy_batch ?_
      rintro ⟨vs, hvs, -⟩
      cases hvs
    | some vs =>
      simp only [RpcRequest.MirroredBy, Option.map_some, Option.getD_some, Value.array.injEq,
        exists_eq_left', List.forall₂_map_right_iff, makeError_isErrorFor_iff, Option.some.injEq]
  simp only [hmirrors, mapM_eq_some_iff, exists_forall₂_iff]
  exact forall₂_iff_of (mapM_eq_some_iff.mp h) fun item req hread =>
    JsonRpcRequest.exists_idOrNull_iff hread

/-- **A reply mirrors the request exactly when the ids are kept.** -/
theorem rateLimitResponse_mirrors_iff (hparse : RpcRequest.parseBody json body = some request) :
    request.MirroredBy (rateLimitResponse json body).2 ↔ request.KeepsIds json body := by
  rw [RpcRequest.parseBody_eq_bind] at hparse
  obtain ⟨text, htext, hparse⟩ := Option.bind_eq_some_iff.mp hparse
  rcases Nat.lt_or_ge bufferLimit body.length with hlong | hshort
  · rw [rateLimitResponse_of_lt hlong]
    cases request with
    | single req =>
      simp [RpcRequest.MirroredBy, RpcRequest.KeepsIds, makeError_isErrorFor_iff,
        Nat.not_le.mpr hlong, eq_comm]
    | batch reqs =>
      exact iff_of_false not_mirroredBy_batch fun hkeeps => Nat.not_le.mpr hlong hkeeps.1
  · rw [rateLimitResponse_of_le hshort htext]
    cases request with
    | single req =>
      obtain ⟨hread, herrors⟩ := RpcRequest.read_of_parse_single hparse
      rw [herrors, RpcRequest.MirroredBy, RpcRequest.KeepsIds]
      simp only [hshort, htext, Option.some.injEq, forall_eq', true_and]
      exact JsonRpcRequest.mirrors_single_iff hread
    | batch reqs =>
      obtain ⟨items, hroot, hread, herrors⟩ := RpcRequest.read_of_parse_batch hparse
      rw [herrors]
      refine (JsonRpcRequest.mirrors_batch_iff hread).trans ⟨fun hlegible => ?_, fun hkeeps => ?_⟩
      · refine ⟨hshort, fun text' items' htext' hroot' => ?_⟩
        cases htext.symm.trans htext'
        cases hroot.symm.trans hroot'
        exact hlegible
      · exact hkeeps.2 text items htext hroot

end Reply

section Bodies

def blockNumberRequest : JsonRpcRequest where
  jsonrpc := "2.0"
  method := "eth_blockNumber"
  params := .null
  id := .string "a"

theorem blockNumberBatch_mirrored :
    (RpcRequest.batch [blockNumberRequest]).MirroredBy
      (rateLimitResponse blockNumberSyntax blockNumberBatch).2 := by
  have htext : blockNumberSyntax.text blockNumberBatch =
      some ⟨false, .array [blockNumberObject]⟩ := by
    rfl
  have hparse : RpcRequest.parseBody blockNumberSyntax blockNumberBatch =
      some (.batch [blockNumberRequest]) := by
    rw [RpcRequest.parseBody_eq_bind, htext]
    rfl
  refine (rateLimitResponse_mirrors_iff hparse).mpr ⟨by decide, fun text items htext' hroot => ?_⟩
  cases htext.symm.trans htext'
  cases hroot
  refine .cons ⟨?_, ?_, ?_⟩ .nil
  · rintro _ ⟨rfl⟩
    rfl
  · rintro _ ⟨rfl⟩
    exact List.forall_mem_cons.mpr ⟨fun h => absurd (by decide) h, List.forall_mem_cons.mpr
      ⟨fun h => absurd (by decide) h, List.forall_mem_singleton.mpr fun h => absurd (by decide) h⟩⟩
  · rintro ⟨_, _, heq, -⟩
    cases heq

/-- The batch with a mebibyte of spaces behind it. -/
def paddedBatch : List UInt8 := blockNumberBatch ++ List.replicate bufferLimit 0x20

/-- `{"jsonrpc":"2.0","method":"eth_blockNumber","id":"a","gas":1e999}` -/
def outOfRangeObject : Raw := .object
  [("jsonrpc", .string (some "2.0")), ("method", .string (some "eth_blockNumber")),
    ("id", .string (some "a")), ("gas", .number ⟨false, 1, some 999⟩)]

/-- Its bytes. -/
def outOfRangeBody : List UInt8 :=
  "\x7b\"jsonrpc\":\"2.0\",\"method\":\"eth_blockNumber\",\"id\":\"a\",\"gas\":1e999\x7d".toList.map
    fun c => c.toNat.toUInt8

/-- The grammar, on this text. All that is used of it is how the text is structured. -/
def outOfRangeSyntax : JsonSyntax where
  toValueReader := .plain
  value text := if text = outOfRangeBody then some outOfRangeObject else none
  value_nil := rfl
  value_cons := by
    intro b text root h
    obtain ⟨htext, hroot⟩ := Option.ite_none_right_eq_some.mp h
    have hb : b = 0x7B := (List.cons.inj htext).1
    refine iff_of_false (fun hbracket => ?_) ?_
    · rw [hb] at hbracket
      exact absurd hbracket (by decide)
    · rintro ⟨items, rfl⟩
      cases hroot

theorem text_paddedBatch :
    blockNumberSyntax.text paddedBatch = some ⟨false, .array [blockNumberObject]⟩ := by
  have hblank : ∀ b ∈ List.replicate bufferLimit 0x20, isWhitespace b := by
    intro b hb
    rw [List.eq_of_mem_replicate hb]
    rfl
  have htrim : trim isWhitespace ([] ++ blockNumberBatch ++ List.replicate bufferLimit 0x20) =
      trim isWhitespace blockNumberBatch :=
    trim_append_append (fun _ h => absurd h List.not_mem_nil) hblank
  rw [List.nil_append] at htrim
  have hhead : paddedBatch.head?.any isWhitespace = false := by rfl
  rw [JsonSyntax.text, hhead, paddedBatch, htrim]
  rfl

theorem text_outOfRangeBody :
    outOfRangeSyntax.text outOfRangeBody = some ⟨false, outOfRangeObject⟩ := by
  rfl

/-- A batch that is too long for the reply, under a `max_body_size` of two mebibytes. -/
theorem paddedBatch_losesId :
    paddedBatch.length ≤ 2097152 ∧
      RpcRequest.parseBody blockNumberSyntax paddedBatch = some (.batch [blockNumberRequest]) ∧
      (rateLimitResponse blockNumberSyntax paddedBatch).2 = makeError .null := by
  have hlength : paddedBatch.length = blockNumberBatch.length + bufferLimit := by
    rw [paddedBatch, List.length_append, List.length_replicate]
  refine ⟨?_, ?_, rateLimitResponse_of_lt ?_⟩
  · rw [hlength]
    exact Nat.add_le_add_right (by decide : _ ≤ 1048576) bufferLimit
  · rw [RpcRequest.parseBody_eq_bind, text_paddedBatch]
    rfl
  · rw [hlength]
    exact Nat.lt_add_of_pos_left (by decide)

/-- A number that is out of range in a member that nobody reads. -/
theorem outOfRangeBody_losesId :
    outOfRangeBody.length ≤ 1048576 ∧
      RpcRequest.parseBody outOfRangeSyntax outOfRangeBody = some (.single blockNumberRequest) ∧
      (rateLimitResponse outOfRangeSyntax outOfRangeBody).2 = makeError .null := by
  refine ⟨by decide, ?_, ?_⟩
  · rw [RpcRequest.parseBody_eq_bind, text_outOfRangeBody]
    rfl
  · rw [rateLimitResponse_of_le (by decide) text_outOfRangeBody]
    rfl

/-- A batch and a request whose ids are lost. -/
theorem rateLimitResponse_losesIds :
    (paddedBatch.length ≤ 2097152 ∧
        RpcRequest.parseBody blockNumberSyntax paddedBatch = some (.batch [blockNumberRequest]) ∧
        ¬ (RpcRequest.batch [blockNumberRequest]).MirroredBy
          (rateLimitResponse blockNumberSyntax paddedBatch).2) ∧
      outOfRangeBody.length ≤ 1048576 ∧
      RpcRequest.parseBody outOfRangeSyntax outOfRangeBody = some (.single blockNumberRequest) ∧
      ¬ (RpcRequest.single blockNumberRequest).MirroredBy
        (rateLimitResponse outOfRangeSyntax outOfRangeBody).2 := by
  obtain ⟨hpadded, hpaddedParse, hpaddedReply⟩ := paddedBatch_losesId
  obtain ⟨hlength, hparse, hreply⟩ := outOfRangeBody_losesId
  refine ⟨⟨hpadded, hpaddedParse, ?_⟩, hlength, hparse, ?_⟩
  · rw [hpaddedReply]
    exact not_mirroredBy_batch
  · rw [hreply]
    intro h
    cases makeError_isErrorFor_iff.mp h

end Bodies

end Poolbeg
