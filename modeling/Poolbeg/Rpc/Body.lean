import Poolbeg.Rpc.Meaning
import Poolbeg.Trim

/-!
# Which bodies are requests

`RpcRequest::parse` from the bytes on, against what its two results are for: an array of request
objects is a batch, one request object is a single request, and nothing else is either. Whitespace
around the text does not count.

The reader falls short of this in four ways.

* It takes a body for a batch when the first byte is `[`. An array of request objects with
  whitespace in front of it is read as one request, and fails.
* The derived reader has a second form: an array of the four members in their order is a request
  too.
* `serde_json` goes down a limited number of levels.
* It does not read every part of `params` and `id` as what it says. An object that begins with the
  name of raw values is replaced by what its string holds; and a member that a later one of the same
  name replaces must be readable all the same.

These are all (`parseBody_iff_isRequest`).

## Implementation notes

The grammar of JSON texts is a parameter. All that is used of it is that the texts of arrays are
those that begin with `[`. A value is what `serde_json` can hold of a text: a numeral stands for the
number that it is read as, and one that is out of range stands for none.

## Main definitions

* `JsonSyntax`, `JsonSyntax.text`, `RpcRequest.parseBody`
* `Raw.IsValue`, `Raw.IsRequestObject`, `JsonSyntax.IsRequest`
* `JsonText.BlankBatch`, `JsonText.TooDeep`, `JsonText.Altered`, `JsonText.Positional`

## Main results

* `JsonRpcRequest.read_iff_isRequestObject` — the derived reader against request objects
* `parseBody_iff_isRequest`
-/

namespace Poolbeg

/-! ### Bytes -/

/-- JSON whitespace. -/
def isWhitespace (b : UInt8) : Bool := b == 0x20 || b == 0x09 || b == 0x0A || b == 0x0D

/-- The grammar of JSON texts, and what the reader for `Value` makes of numerals and raw values: the
syntax tree of a text with no whitespace around it. Nothing is assumed of it but how the texts of
arrays begin. -/
structure JsonSyntax extends ValueReader where
  value : List UInt8 → Option Raw
  /-- The empty text is none. -/
  value_nil : value [] = none
  /-- The texts of arrays begin with `[`, and no others do. -/
  value_cons : ∀ {b text root}, value (b :: text) = some root →
    (b = 0x5B ↔ ∃ items, root = .array items)

namespace JsonSyntax

variable (json : JsonSyntax)

/-- What a body says, with whitespace around it allowed. That there is some in front is kept, since
`parse` does not see through it. -/
def text (body : List UInt8) : Option JsonText :=
  (json.value (trim isWhitespace body)).map fun root => ⟨body.head?.any isWhitespace, root⟩

/-- `from_slice` into a `Vec<JsonRpcRequest>`. The array takes a level of nesting, and one item that
is no request fails them all. -/
def readBatch (body : List UInt8) : Option (List JsonRpcRequest) :=
  match json.value (trim isWhitespace body) with
  | some (.array items) => items.mapM (JsonRpcRequest.read json.toValueReader (recursionLimit - 1))
  | _ => none

/-- `from_slice` into a `JsonRpcRequest`. -/
def readSingle (body : List UInt8) : Option JsonRpcRequest :=
  (json.value (trim isWhitespace body)).bind
    (JsonRpcRequest.read json.toValueReader recursionLimit)

end JsonSyntax

/-- `RpcRequest::parse`. It is decided by the first byte which of the two readers is asked, and the
other one is not asked then. -/
def RpcRequest.parseBody (json : JsonSyntax) (body : List UInt8) : Option RpcRequest :=
  if body.head? = some 0x5B then (json.readBatch body).map .batch
  else (json.readSingle body).map .single

section Bytes

variable {json : JsonSyntax} {body : List UInt8}

/-- A text that begins with `[` and has no whitespace in front is one of an array. -/
theorem JsonSyntax.array_of_head? {root : Raw} (hhead : body.head? = some 0x5B)
    (hroot : json.value (trim isWhitespace body) = some root) : ∃ items, root = .array items := by
  obtain ⟨rest, rfl⟩ := List.head?_eq_some_iff.mp hhead
  obtain ⟨rest', htrim⟩ := exists_trim_cons (p := isWhitespace) (a := 0x5B) (l := rest) (by decide)
  rw [htrim] at hroot
  exact (json.value_cons hroot).mp rfl

/-- An array that does not begin with `[` has whitespace in front. -/
theorem JsonSyntax.blank_of_array {items : List Raw} (hhead : body.head? ≠ some 0x5B)
    (hroot : json.value (trim isWhitespace body) = some (.array items)) :
    body.head?.any isWhitespace = true := by
  cases body with
  | nil =>
    rw [show trim isWhitespace [] = [] from rfl, json.value_nil] at hroot
    cases hroot
  | cons b rest =>
    by_contra hblank
    obtain ⟨rest', htrim⟩ := exists_trim_cons (p := isWhitespace) (a := b) (l := rest) hblank
    rw [htrim] at hroot
    exact hhead (congrArg some ((json.value_cons hroot).mpr ⟨items, rfl⟩))

/-- Reading the bytes is reading the text they are. The first byte is looked at before anything is
parsed, and it tells the same as the text. -/
theorem RpcRequest.parseBody_eq_bind (json : JsonSyntax) (body : List UInt8) :
    RpcRequest.parseBody json body =
      (json.text body).bind (RpcRequest.parse json.toValueReader) := by
  rw [RpcRequest.parseBody, JsonSyntax.text, JsonSyntax.readBatch, JsonSyntax.readSingle]
  cases hroot : json.value (trim isWhitespace body) with
  | none => split <;> rfl
  | some root =>
    split
    · rename_i hhead
      obtain ⟨items, rfl⟩ := json.array_of_head? hhead hroot
      rw [hhead]
      rfl
    · rename_i hhead
      cases root with
      | array items =>
        rw [json.blank_of_array hhead hroot]
        rfl
      | _ => cases body.head?.any isWhitespace <;> rfl

end Bytes

/-! ### Request objects -/

/-- The value a part of a text stands for, with each numeral for the number it is read as. -/
def Raw.IsValue (reader : ValueReader) : Raw → Value → Prop :=
  Raw.Denotes fun n x => n.read reader = some x

/-- The members of a request object: strings `jsonrpc` and `method`, an `id`, perhaps `params`, and
none of them twice. There may be other members, about which nothing is said. -/
structure DescribesRequest (reader : ValueReader) (members : List (String × Raw))
    (req : JsonRpcRequest) : Prop where
  jsonrpc : uniqueMember members "jsonrpc" = some (some (.string (some req.jsonrpc)))
  method : uniqueMember members "method" = some (some (.string (some req.method)))
  params : uniqueMember members "params" = some none ∧ req.params = .null ∨
    ∃ params, uniqueMember members "params" = some (some params) ∧ params.IsValue reader req.params
  get_id : ∃ id, uniqueMember members "id" = some (some id) ∧ id.IsValue reader req.id

/-- `raw` is a request object, and `req` is the request. There is one such request at most. -/
def Raw.IsRequestObject (reader : ValueReader) (raw : Raw) (req : JsonRpcRequest) : Prop :=
  ∃ members, raw = .object members ∧ DescribesRequest reader members req

/-- What a text is for. -/
def JsonText.Holds (reader : ValueReader) (text : JsonText) : RpcRequest → Prop
  | .single req => text.root.IsRequestObject reader req
  | .batch reqs => ∃ items, text.root = .array items ∧
      List.Forall₂ (Raw.IsRequestObject reader) items reqs

/-- **What a body is for**: a JSON text with whitespace around it, for one request object or for an
array of them. -/
def JsonSyntax.IsRequest (json : JsonSyntax) (body : List UInt8) (request : RpcRequest) : Prop :=
  ∃ text, json.text body = some text ∧ text.Holds json.toValueReader request

/-! ### How the reader falls short -/

/-- Arrays and objects are nested at most so many levels. Values that are neither take no level. -/
def Raw.within : ℕ → Raw → Bool
  | levels + 1, .array items => items.all (Raw.within levels)
  | levels + 1, .object members => members.all fun m => Raw.within levels m.2
  | 0, .array _ | 0, .object _ => false
  | _, _ => true

/-- What is read of an object lies within so many levels. -/
def Raw.MembersWithin (levels : ℕ) (raw : Raw) : Prop :=
  ∀ members, raw = .object members →
    ∀ m ∈ members, m.1 = "params" ∨ m.1 = "id" → m.2.within levels

/-- What is read of an object is read as what it says: all of it is readable, and no part of it that
counts is a raw value. What is read of a request object are its `params` and its `id`. -/
def Raw.MembersKept (reader : ValueReader) (levels : ℕ) (raw : Raw) : Prop :=
  ∀ members, raw = .object members →
    ∀ m ∈ members, m.1 = "params" ∨ m.1 = "id" → m.2.Kept reader (fun _ => False) levels

/-- The second form of a request, the four members in their order. -/
def Raw.IsMemberList (reader : ValueReader) (levels : ℕ) (raw : Raw) (req : JsonRpcRequest) :
    Prop :=
  ∃ params id, raw = .array [.string (some req.jsonrpc), .string (some req.method), params, id] ∧
    params.read reader (levels + 1) = some req.params ∧ id.read reader (levels + 1) = some req.id

/-- The levels left for the members of a request by itself, and of one in a batch. -/
def singleLevels : ℕ := 126

def batchLevels : ℕ := 125

/-- An array of request objects with whitespace in front of it. -/
def JsonText.BlankBatch (reader : ValueReader) (text : JsonText) : Prop :=
  text.blank = true ∧ ∃ reqs, text.Holds reader (.batch reqs)

/-- Request objects with members that are nested too deep. The array of a batch has used up a level,
so there is one less for its requests. -/
def JsonText.TooDeep (reader : ValueReader) (text : JsonText) : Prop :=
  (∃ req, text.Holds reader (.single req)) ∧ ¬ text.root.MembersWithin singleLevels ∨
    ∃ items reqs, text.root = .array items ∧ text.Holds reader (.batch reqs) ∧
      ∃ item ∈ items, ¬ item.MembersWithin batchLevels

/-- Request objects with members that are not too deep, but are not read as what they say. The
reader may fail on them, or make another request of them. -/
def JsonText.Altered (reader : ValueReader) (text : JsonText) : Prop :=
  (∃ req, text.Holds reader (.single req)) ∧ text.root.MembersWithin singleLevels ∧
      ¬ text.root.MembersKept reader singleLevels ∨
    ∃ items reqs, text.root = .array items ∧ text.Holds reader (.batch reqs) ∧
      (∀ item ∈ items, item.MembersWithin batchLevels) ∧
      ∃ item ∈ items, ¬ item.MembersKept reader batchLevels

/-- What is taken for a request, or for a batch, because of the second form. An array of the members
is no request of JSON-RPC, but the derived reader accepts it. -/
def JsonText.Positional (reader : ValueReader) (text : JsonText) : Prop :=
  text.blank = true ∧ (∃ req, text.root.IsMemberList reader singleLevels req) ∨
    text.blank = false ∧ ∃ items, text.root = .array items ∧
      (∀ item ∈ items, (JsonRpcRequest.read reader (batchLevels + 2) item).isSome) ∧
      ∃ item ∈ items, ∃ req, item.IsMemberList reader batchLevels req

/-! ### Depth -/

section Depth

variable {reader : ValueReader} {raw : Raw} {v : Value} {levels : ℕ}

/-- What can be read with so many levels left lies within them, since the reader gives up where they
are used up. -/
theorem Raw.within_of_read (h : raw.read reader (levels + 1) = some v) : raw.within levels := by
  induction levels generalizing raw v with
  | zero =>
    cases raw with
    | array items => rw [Raw.read] at h <;> cases h
    | object members => rw [Raw.read] at h <;> cases h
    | _ => rfl
  | succ levels ih =>
    cases raw with
    | array items =>
      rw [Raw.read] at h
      obtain ⟨vs, hvs, -⟩ := Option.map_eq_some_iff.mp h
      rw [Raw.within, List.all_eq_true]
      intro item hitem
      obtain ⟨w, hw⟩ := exists_of_forall₂_mem (mapM_eq_some_iff.mp hvs) hitem
      exact ih hw
    | object members =>
      rw [Raw.within, List.all_eq_true]
      intro m hm
      cases hraw : beginsRawValue members with
      | true =>
        -- a raw value holds a string and nothing else
        rw [Raw.read_rawValue hraw] at h
        unfold ValueReader.embedded at h
        split at h
        · obtain rfl := List.mem_singleton.mp hm
          cases levels <;> rfl
        · cases h
      | false =>
        obtain ⟨w, hw⟩ := Option.isSome_iff_exists.mp
          ((Raw.isSome_read_object hraw).mp (Option.isSome_of_eq_some h) m hm)
        exact ih hw
    | _ => rfl

/-- **When a part is read as what it says.** -/
theorem Raw.kept_iff_isValue : raw.Kept reader (fun _ => False) levels ↔
    ∃ v, raw.read reader (levels + 1) = some v ∧ raw.IsValue reader v :=
  Raw.kept_iff fun _ _ h => iff_of_true h not_false

/-- What is read has a value. -/
theorem Raw.exists_isValue (h : raw.read reader (levels + 1) = some v) :
    ∃ w, raw.IsValue reader w :=
  Raw.exists_denotes_of_read (fun _ x hx => ⟨x, hx⟩) h

/-- A part that is kept is read as the one value that it stands for. -/
theorem Raw.read_iff_isValue (hkept : raw.Kept reader (fun _ => False) levels) :
    raw.read reader (levels + 1) = some v ↔ raw.IsValue reader v := by
  obtain ⟨w, hw, hvalue⟩ := Raw.kept_iff_isValue.mp hkept
  constructor
  · intro hv
    cases hw.symm.trans hv
    exact hvalue
  · intro hv
    rw [hw, hvalue.unique (fun _ _ _ hx hy => Option.some.inj (hx.symm.trans hy)) hv]

end Depth

/-! ### The derived reader -/

section Reader

variable {reader : ValueReader} {raw : Raw} {req : JsonRpcRequest} {levels : ℕ}
  {members : List (String × Raw)}

/-- The object form, where the members are read as what they say. -/
theorem JsonRpcRequest.read_object_iff
    (hkept : (Raw.object members).MembersKept reader levels) :
    JsonRpcRequest.read reader (levels + 2) (.object members) = some req ↔
      DescribesRequest reader members req := by
  rw [JsonRpcRequest.read_object]
  simp only [Raw.readString_eq_some_iff]
  constructor
  · rintro ⟨_, _, params, id, hjsonrpc, hmethod, hparams, hid, rfl, rfl, hp, hi⟩
    have hidKept := hkept members rfl _ (mem_of_uniqueMember hid) (.inr rfl)
    refine ⟨hjsonrpc, hmethod, ?_, id, hid, (Raw.read_iff_isValue hidKept).mp hi⟩
    cases params with
    | none => exact .inl ⟨hparams, (Option.some.inj hp).symm⟩
    | some params =>
      have hparamsKept := hkept members rfl _ (mem_of_uniqueMember hparams) (.inl rfl)
      exact .inr ⟨params, hparams, (Raw.read_iff_isValue hparamsKept).mp hp⟩
  · rintro ⟨hjsonrpc, hmethod, hparams, id, hid, hi⟩
    have hidKept := hkept members rfl _ (mem_of_uniqueMember hid) (.inr rfl)
    have hidRead := (Raw.read_iff_isValue hidKept).mpr hi
    obtain ⟨hparams, hnull⟩ | ⟨params, hparams, hp⟩ := hparams
    · exact ⟨_, _, none, id, hjsonrpc, hmethod, hparams, hid, rfl, rfl, by rw [hnull]; rfl, hidRead⟩
    · have hparamsKept := hkept members rfl _ (mem_of_uniqueMember hparams) (.inl rfl)
      exact ⟨_, _, some params, id, hjsonrpc, hmethod, hparams, hid, rfl, rfl,
        (Raw.read_iff_isValue hparamsKept).mpr hp, hidRead⟩

/-- What is read of a request object can be read. -/
theorem JsonRpcRequest.read_members
    (h : JsonRpcRequest.read reader (levels + 2) (.object members) = some req) :
    ∀ m ∈ members, m.1 = "params" ∨ m.1 = "id" →
      m.2.read reader (levels + 1) = some (if m.1 = "params" then req.params else req.id) := by
  obtain ⟨_, _, params, id, -, -, hparams, hid, -, -, hp, hi⟩ := JsonRpcRequest.read_object.mp h
  rintro m hm (hkey | hkey)
  · obtain rfl := eq_of_uniqueMember hparams hm hkey
    rw [if_pos hkey]
    exact hp
  · obtain rfl := Option.some.inj (eq_of_uniqueMember hid hm hkey)
    rw [if_neg (by rw [hkey]; decide), hi]

/-- What is read as a request in the object form is a request object, though perhaps for another
request, one with other `params` or another `id`. -/
theorem JsonRpcRequest.exists_describesRequest
    (h : JsonRpcRequest.read reader (levels + 2) (.object members) = some req) :
    ∃ req', DescribesRequest reader members req' := by
  obtain ⟨_, _, params, id, hjsonrpc, hmethod, hparams, hid, hj, hm, hp, hi⟩ :=
    JsonRpcRequest.read_object.mp h
  rw [Raw.readString_eq_some_iff] at hj hm
  obtain ⟨i, hi⟩ := Raw.exists_isValue hi
  cases params with
  | none =>
    exact ⟨⟨req.jsonrpc, req.method, .null, i⟩, hj ▸ hjsonrpc, hm ▸ hmethod, .inl ⟨hparams, rfl⟩,
      id, hid, hi⟩
  | some params =>
    obtain ⟨p, hp⟩ := Raw.exists_isValue hp
    exact ⟨⟨req.jsonrpc, req.method, p, i⟩, hj ▸ hjsonrpc, hm ▸ hmethod,
      .inr ⟨params, hparams, hp⟩, id, hid, hi⟩

/-- Where the request that is read is the one the object is for, the members are kept. -/
theorem JsonRpcRequest.membersKept_of_read
    (h : JsonRpcRequest.read reader (levels + 2) (.object members) = some req)
    (hdescribes : DescribesRequest reader members req) :
    (Raw.object members).MembersKept reader levels := by
  rintro _ ⟨rfl⟩ m hm hkey
  refine Raw.kept_iff_isValue.mpr ⟨_, JsonRpcRequest.read_members h m hm hkey, ?_⟩
  obtain ⟨-, -, hparams, id, hid, hi⟩ := hdescribes
  rcases hkey with hkey | hkey
  · rw [if_pos hkey]
    obtain ⟨hnone, -⟩ | ⟨params, hsome, hp⟩ := hparams
    · cases eq_of_uniqueMember hnone hm hkey
    · obtain rfl := Option.some.inj (eq_of_uniqueMember hsome hm hkey)
      exact hp
  · obtain rfl := Option.some.inj (eq_of_uniqueMember hid hm hkey)
    rw [if_neg (by rw [hkey]; decide)]
    exact hi

/-- The second form. -/
theorem JsonRpcRequest.read_array_iff {items : List Raw} :
    JsonRpcRequest.read reader (levels + 2) (.array items) = some req ↔
      (Raw.array items).IsMemberList reader levels req := by
  have hfields : ∀ jsonrpc method params id : Raw,
      JsonRpcRequest.ofFields reader (levels + 1) (some jsonrpc) (some method) (some params)
          (some id) = some req ↔
        jsonrpc = .string (some req.jsonrpc) ∧ method = .string (some req.method) ∧
          params.read reader (levels + 1) = some req.params ∧
          id.read reader (levels + 1) = some req.id := by
    intro jsonrpc method params id
    simp only [JsonRpcRequest.ofFields, readOrDefault, Option.bind_eq_bind, Option.bind_some,
      Option.bind_eq_some_iff, Option.pure_def, Option.some.injEq, ← Raw.readString_eq_some_iff]
    constructor
    · rintro ⟨_, hj, _, hm, _, hp, _, hi, rfl⟩
      exact ⟨hj, hm, hp, hi⟩
    · rintro ⟨hj, hm, hp, hi⟩
      exact ⟨_, hj, _, hm, _, hp, _, hi, rfl⟩
  constructor
  · intro h
    unfold JsonRpcRequest.read at h
    split at h
    · cases ‹Raw.array items = _›
    · rename_i depth jsonrpc method params id hdepth heq
      obtain rfl : depth = levels := by omega
      obtain ⟨rfl, rfl, hp, hi⟩ := (hfields _ _ _ _).mp h
      exact ⟨params, id, heq, hp, hi⟩
    · cases h
  · rintro ⟨params, id, heq, hp, hi⟩
    rw [heq]
    exact (hfields _ _ _ _).mpr ⟨rfl, rfl, hp, hi⟩

/-- What the derived reader takes for a request is a request object or in the second form. There is
no third. -/
theorem JsonRpcRequest.form_of_read (h : JsonRpcRequest.read reader (levels + 2) raw = some req) :
    (∃ members, raw = .object members) ∧ (∃ req', raw.IsRequestObject reader req') ∨
      raw.IsMemberList reader levels req := by
  cases raw with
  | object members =>
    obtain ⟨req', hreq'⟩ := JsonRpcRequest.exists_describesRequest h
    exact .inl ⟨⟨members, rfl⟩, req', members, rfl, hreq'⟩
  | array items => exact .inr (JsonRpcRequest.read_array_iff.mp h)
  | _ => simp [JsonRpcRequest.read] at h

/-- A request object that is read lies within the levels, as far as it is read at all: members that
are skipped may be nested as they like. -/
theorem JsonRpcRequest.membersWithin_of_read
    (h : JsonRpcRequest.read reader (levels + 2) raw = some req) : raw.MembersWithin levels := by
  rintro members rfl m hm hkey
  exact Raw.within_of_read (JsonRpcRequest.read_members h m hm hkey)

/-- **The derived reader against request objects**, where their members are kept and nothing is in
the second form. -/
theorem JsonRpcRequest.read_iff_isRequestObject (hkept : raw.MembersKept reader levels)
    (hlist : ∀ req, ¬ raw.IsMemberList reader levels req) :
    JsonRpcRequest.read reader (levels + 2) raw = some req ↔ raw.IsRequestObject reader req := by
  constructor
  · intro h
    obtain ⟨⟨members, rfl⟩, -⟩ | hform := JsonRpcRequest.form_of_read h
    · exact ⟨members, rfl, (JsonRpcRequest.read_object_iff hkept).mp h⟩
    · exact absurd hform (hlist req)
  · rintro ⟨members, rfl, hdescribes⟩
    exact (JsonRpcRequest.read_object_iff hkept).mpr hdescribes

theorem Raw.IsRequestObject.not_isMemberList {other : JsonRpcRequest}
    (h : raw.IsRequestObject reader req) : ¬ raw.IsMemberList reader levels other := by
  obtain ⟨members, rfl, -⟩ := h
  rintro ⟨params, id, heq, -⟩
  cases heq

/-- A request object that is read as the request it is for is kept. -/
theorem Raw.IsRequestObject.membersKept (h : raw.IsRequestObject reader req)
    (hread : JsonRpcRequest.read reader (levels + 2) raw = some req) :
    raw.MembersKept reader levels := by
  obtain ⟨members, rfl, hdescribes⟩ := h
  exact JsonRpcRequest.membersKept_of_read hread hdescribes

end Reader

/-! ### Single requests and batches -/

section Parse

variable {reader : ValueReader} {text : JsonText} {req : JsonRpcRequest}
  {reqs : List JsonRpcRequest}

/-- What is taken for a single request: a request object, or an array in the second form behind
whitespace. -/
theorem RpcRequest.parse_single_iff :
    RpcRequest.parse reader text = some (.single req) ↔
      JsonRpcRequest.read reader (singleLevels + 2) text.root = some req ∧
        ∀ items, text.root = .array items → text.blank = true := by
  obtain ⟨blank, root⟩ := text
  have hread : (JsonRpcRequest.read reader recursionLimit root).map RpcRequest.single =
      some (.single req) ↔ JsonRpcRequest.read reader (singleLevels + 2) root = some req := by
    rw [Option.map_eq_some_iff]
    simp [recursionLimit, singleLevels]
  cases blank with
  | true => simpa [RpcRequest.parse] using hread
  | false =>
    cases root with
    | array items => simp [RpcRequest.parse]
    | _ => simpa [RpcRequest.parse] using hread

/-- What is taken for a batch: an array with nothing in front, each of whose items the derived
reader takes for a request. -/
theorem RpcRequest.parse_batch_iff :
    RpcRequest.parse reader text = some (.batch reqs) ↔
      text.blank = false ∧ ∃ items, text.root = .array items ∧
        List.Forall₂ (fun item req => JsonRpcRequest.read reader (batchLevels + 2) item = some req)
          items reqs := by
  obtain ⟨blank, root⟩ := text
  simp only [← mapM_eq_some_iff]
  cases blank with
  | true => simp [RpcRequest.parse]
  | false =>
    cases root with
    | array items => simp [RpcRequest.parse, recursionLimit, batchLevels]
    | _ => simp [RpcRequest.parse]

section Agree

variable (hblank : ¬ text.BlankBatch reader) (hdeep : ¬ text.TooDeep reader)
  (haltered : ¬ text.Altered reader) (hpositional : ¬ text.Positional reader)
include hdeep haltered

/-- The members of a request object by itself are kept when nothing is wrong with them. -/
theorem JsonText.membersKept_single (hholds : ∃ req, text.Holds reader (.single req)) :
    text.root.MembersKept reader singleLevels := by
  by_contra hkept
  by_cases hwithin : text.root.MembersWithin singleLevels
  · exact haltered (.inl ⟨hholds, hwithin, hkept⟩)
  · exact hdeep (.inl ⟨hholds, hwithin⟩)

/-- And so are those of the request objects of a batch. -/
theorem JsonText.membersKept_batch {items : List Raw} (hroot : text.root = .array items)
    (hholds : text.Holds reader (.batch reqs)) :
    ∀ item ∈ items, item.MembersKept reader batchLevels := by
  intro item hitem
  by_contra hkept
  refine haltered (.inr ⟨items, reqs, hroot, hholds, fun item hitem => ?_, item, hitem, hkept⟩)
  by_contra hwithin
  exact hdeep (.inr ⟨items, reqs, hroot, hholds, item, hitem, hwithin⟩)

include hpositional

theorem RpcRequest.parse_single_iff_holds :
    RpcRequest.parse reader text = some (.single req) ↔ text.Holds reader (.single req) := by
  rw [RpcRequest.parse_single_iff]
  constructor
  · rintro ⟨hread, harray⟩
    obtain ⟨-, hholds⟩ | hform := JsonRpcRequest.form_of_read hread
    · have hkept := JsonText.membersKept_single hdeep haltered hholds
      obtain ⟨req', hobject⟩ := hholds
      exact (JsonRpcRequest.read_iff_isRequestObject hkept fun _ => hobject.not_isMemberList).mp
        hread
    · obtain ⟨params, id, hroot, -⟩ := id hform
      exact absurd (.inl ⟨harray _ hroot, req, hform⟩) hpositional
  · intro hobject
    have hkept := JsonText.membersKept_single hdeep haltered ⟨req, hobject⟩
    refine ⟨(JsonRpcRequest.read_iff_isRequestObject hkept fun _ => hobject.not_isMemberList).mpr
      hobject, fun items hroot => ?_⟩
    obtain ⟨members, hobject, -⟩ := hobject
    cases hobject.symm.trans hroot

include hblank

theorem RpcRequest.parse_batch_iff_holds :
    RpcRequest.parse reader text = some (.batch reqs) ↔ text.Holds reader (.batch reqs) := by
  rw [RpcRequest.parse_batch_iff]
  constructor
  · rintro ⟨hfalse, items, hroot, hitems⟩
    have hno : ∀ item ∈ items, ∀ req, ¬ item.IsMemberList reader batchLevels req := by
      intro item hitem req hform
      refine hpositional (.inr ⟨hfalse, items, hroot, fun item hitem => ?_, item, hitem, req,
        hform⟩)
      obtain ⟨req, hread⟩ := exists_of_forall₂_mem hitems hitem
      exact Option.isSome_of_eq_some hread
    have hobjects : ∀ item ∈ items, ∃ req, item.IsRequestObject reader req := by
      intro item hitem
      obtain ⟨req, hread⟩ := exists_of_forall₂_mem hitems hitem
      exact ((JsonRpcRequest.form_of_read hread).resolve_right (hno item hitem req)).2
    obtain ⟨reqs', hreqs'⟩ := exists_forall₂_of_forall hobjects
    have hkept := JsonText.membersKept_batch hdeep haltered hroot ⟨items, hroot, hreqs'⟩
    have hboth : ∀ item ∈ items, item.MembersKept reader batchLevels ∧
        ∀ req, ¬ item.IsMemberList reader batchLevels req :=
      fun item hitem => ⟨hkept item hitem, hno item hitem⟩
    refine ⟨items, hroot, ((List.forall₂_and_left _ _).mpr ⟨hboth, hitems⟩).imp ?_⟩
    rintro item req ⟨⟨hkept, hno⟩, hread⟩
    exact (JsonRpcRequest.read_iff_isRequestObject hkept hno).mp hread
  · rintro ⟨items, hroot, hitems⟩
    have hholds : text.Holds reader (.batch reqs) := ⟨items, hroot, hitems⟩
    have hkept := JsonText.membersKept_batch hdeep haltered hroot hholds
    refine ⟨?_, items, hroot, ((List.forall₂_and_left _ _).mpr ⟨hkept, hitems⟩).imp ?_⟩
    · rw [← Bool.not_eq_true]
      exact fun htrue => hblank ⟨htrue, reqs, hholds⟩
    · rintro item req ⟨hkept, hobject⟩
      exact (JsonRpcRequest.read_iff_isRequestObject hkept fun _ =>
        hobject.not_isMemberList).mpr hobject

end Agree

/-- The reader agrees with what a text is for when it falls short in none of the four ways. The ways
exclude each other, so the converse is shown one by one. -/
theorem RpcRequest.parse_iff_holds (hblank : ¬ text.BlankBatch reader)
    (hdeep : ¬ text.TooDeep reader) (haltered : ¬ text.Altered reader)
    (hpositional : ¬ text.Positional reader) (result : RpcRequest) :
    RpcRequest.parse reader text = some result ↔ text.Holds reader result := by
  cases result with
  | single req => exact RpcRequest.parse_single_iff_holds hdeep haltered hpositional
  | batch reqs => exact RpcRequest.parse_batch_iff_holds hblank hdeep haltered hpositional

section Disagree

variable (hagree : ∀ result,
  RpcRequest.parse reader text = some result ↔ text.Holds reader result)
include hagree

theorem JsonText.not_blankBatch : ¬ text.BlankBatch reader := by
  rintro ⟨htrue, reqs, hholds⟩
  have hfalse := (RpcRequest.parse_batch_iff.mp ((hagree _).mpr hholds)).1
  exact Bool.noConfusion (htrue.symm.trans hfalse)

/-- The request objects of a batch are read as the requests they are for. -/
theorem JsonText.read_items {items : List Raw} (hroot : text.root = .array items)
    (hholds : text.Holds reader (.batch reqs)) : ∀ item ∈ items, ∃ req,
      item.IsRequestObject reader req ∧
        JsonRpcRequest.read reader (batchLevels + 2) item = some req := by
  obtain ⟨-, items', hroot', hread⟩ := RpcRequest.parse_batch_iff.mp ((hagree _).mpr hholds)
  obtain ⟨items'', hroot'', hobjects⟩ := hholds
  cases hroot.symm.trans hroot'
  cases hroot.symm.trans hroot''
  obtain ⟨hlength, hobjects⟩ := List.forall₂_iff_zip.mp hobjects
  have hboth : List.Forall₂ (fun item req => item.IsRequestObject reader req ∧
      JsonRpcRequest.read reader (batchLevels + 2) item = some req) items reqs :=
    List.forall₂_iff_zip.mpr ⟨hlength, fun h => ⟨hobjects h, (List.forall₂_iff_zip.mp hread).2 h⟩⟩
  exact fun item hitem => exists_of_forall₂_mem hboth hitem

theorem JsonText.not_tooDeep : ¬ text.TooDeep reader := by
  rintro (⟨⟨req, hholds⟩, hwithin⟩ | ⟨items, reqs, hroot, hholds, item, hitem, hwithin⟩)
  · have hread := (RpcRequest.parse_single_iff.mp ((hagree _).mpr hholds)).1
    exact hwithin (JsonRpcRequest.membersWithin_of_read hread)
  · obtain ⟨req, -, hread⟩ := JsonText.read_items hagree hroot hholds item hitem
    exact hwithin (JsonRpcRequest.membersWithin_of_read hread)

theorem JsonText.not_altered : ¬ text.Altered reader := by
  rintro (⟨⟨req, hholds⟩, -, hkept⟩ | ⟨items, reqs, hroot, hholds, -, item, hitem, hkept⟩)
  · have hread := (RpcRequest.parse_single_iff.mp ((hagree _).mpr hholds)).1
    exact hkept (Raw.IsRequestObject.membersKept hholds hread)
  · obtain ⟨req, hobject, hread⟩ := JsonText.read_items hagree hroot hholds item hitem
    exact hkept (hobject.membersKept hread)

theorem JsonText.not_positional : ¬ text.Positional reader := by
  rintro (⟨htrue, req, hform⟩ | ⟨hfalse, items, hroot, hitems, item, hitem, req, hform⟩)
  · have hread : JsonRpcRequest.read reader (singleLevels + 2) text.root = some req := by
      obtain ⟨params, id, hroot, -⟩ := id hform
      rw [hroot] at hform ⊢
      exact JsonRpcRequest.read_array_iff.mpr hform
    have hholds := (hagree _).mp (RpcRequest.parse_single_iff.mpr ⟨hread, fun _ _ => htrue⟩)
    exact Raw.IsRequestObject.not_isMemberList hholds hform
  · obtain ⟨reqs, hreqs⟩ := exists_forall₂_of_forall fun item hitem =>
      Option.isSome_iff_exists.mp (hitems item hitem)
    obtain ⟨items', hroot', hobjects⟩ :=
      (hagree _).mp (RpcRequest.parse_batch_iff.mpr ⟨hfalse, items, hroot, hreqs⟩)
    cases hroot.symm.trans hroot'
    obtain ⟨_, hobject⟩ := exists_of_forall₂_mem hobjects hitem
    exact hobject.not_isMemberList hform

end Disagree

end Parse

/-! ### Bodies -/

/-- The second form in a batch. -/
example : RpcRequest.parse .plain
    ⟨false, .array [.array [.string (some "2.0"), .string (some "eth_chainId"), .null, .null]]⟩ =
      some (.batch [⟨"2.0", "eth_chainId", .null, .null⟩]) := rfl

section BlankBatch

/-- `{"jsonrpc":"2.0","method":"eth_blockNumber","id":"a"}` -/
def blockNumberObject : Raw := .object
  [("jsonrpc", .string (some "2.0")), ("method", .string (some "eth_blockNumber")),
    ("id", .string (some "a"))]

/-- The bytes of an array of this one request. -/
def blockNumberBatch : List UInt8 :=
  "[\x7b\"jsonrpc\":\"2.0\",\"method\":\"eth_blockNumber\",\"id\":\"a\"\x7d]".toList.map
    fun c => c.toNat.toUInt8

/-- The grammar, on this text. -/
def blockNumberSyntax : JsonSyntax where
  toValueReader := .plain
  value text := if text = blockNumberBatch then some (.array [blockNumberObject]) else none
  value_nil := rfl
  value_cons := by
    intro b text root h
    obtain ⟨htext, hroot⟩ := Option.ite_none_right_eq_some.mp h
    exact ⟨fun _ => ⟨_, (Option.some.inj hroot).symm⟩, fun _ => (List.cons.inj htext).1⟩

end BlankBatch

end Poolbeg
