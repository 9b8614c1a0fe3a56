import Mathlib.Algebra.Field.Rat
import Poolbeg.Rpc.Meaning

/-!
# From an upstream's answer to the client

An answer reaches a client in one of three ways: directly, out of the cache, or out of the broadcast
of a coalesced call. Each decodes the upstream's text into a `JsonRpcResponse`, replaces the id and
encodes the result again; the cache and the broadcast put one more encoding and decoding in between.
None of the three is transparent.

* The `Option` fields cannot hold a `null`, so a `null` result and a `null` error datum are dropped.
* An answer that does not decode is not relayed at all. The id, the result and the error datum have
  to be readable where they stand, which goes down a limited number of levels; the code of an error
  has to fit into `i64`, and its message must be Unicode.
* What decodes need not be what the text says. A numeral that is no 64-bit integer is read as a
  double and written as what that double is shown as, and an object that begins with the name of raw
  values is replaced by the text it holds.

`written_iff_representable` says that these are the only losses, the same on every path.

## Implementation notes

Values are compared with what the text says (`Raw.Denotes`), numbers by the rational numbers they
are. Which number a double is shown as is a parameter. The texts of the cache and of the broadcast
are what the proxy has written itself, and reading them back gives what was written (`SerdeJson`).

## Main definitions

* `JsonRpcResponse.read` — the derived reader
* `RelayPath`, `RelayPath.relayed`, `RelayPath.written`
* `ValidResponse` — the JSON-RPC 2.0 response objects
* `SameMembers`, `Representable`

## Main results

* `written_iff_representable`
-/

namespace Poolbeg

/-! ### The derived reader -/

/-- `deserialize_i64`: an integer in range, never a double. -/
def Raw.readI64 (reader : ValueReader) : Raw → Option I64
  | .number n => (n.read reader).bind fun x => (Value.number x).toI64
  | _ => none

/-- An `Option<Value>` field: missing and `null` both read as `None`. So `Some(null)` is never read,
except of a raw value whose text is `null`. -/
def readOption (reader : ValueReader) (depth : ℕ) : Option Raw → Option (Option Value)
  | none | some .null => some none
  | some raw => (raw.read reader depth).map some

def JsonRpcError.ofParts (reader : ValueReader) (depth : ℕ) (code message data : Option Raw) :
    Option JsonRpcError := do
  let code ← code.bind (Raw.readI64 reader)
  let message ← message.bind Raw.readString
  let data ← readOption reader depth data
  pure { code := code, message := message, data := data }

/-- What `#[derive(Deserialize)]` generates for an error. -/
def JsonRpcError.read (reader : ValueReader) : ℕ → Raw → Option JsonRpcError
  | depth + 2, .object members => do
    let code ← uniqueMember members "code"
    let message ← uniqueMember members "message"
    let data ← uniqueMember members "data"
    JsonRpcError.ofParts reader (depth + 1) code message data
  | depth + 2, .array [code, message, data] =>
    JsonRpcError.ofParts reader (depth + 1) (some code) (some message) (some data)
  | _, _ => none

/-- An `Option<JsonRpcError>` field. -/
def readOptionError (reader : ValueReader) (depth : ℕ) :
    Option Raw → Option (Option JsonRpcError)
  | none | some .null => some none
  | some raw => (JsonRpcError.read reader depth raw).map some

def JsonRpcResponse.ofParts (reader : ValueReader) (depth : ℕ)
    (jsonrpc id result error : Option Raw) : Option JsonRpcResponse := do
  let jsonrpc ← jsonrpc.bind Raw.readString
  let id ← id.bind (Raw.read reader depth)
  let result ← readOption reader depth result
  let error ← readOptionError reader depth error
  pure { jsonrpc := jsonrpc, id := id, result := result, error := error }

/-- What `#[derive(Deserialize)]` generates for a response. It reads an upstream's answer where
`JsonRpcResponse.deserialize` reads what the proxy itself has written. -/
def JsonRpcResponse.read (reader : ValueReader) : ℕ → Raw → Option JsonRpcResponse
  | depth + 2, .object members => do
    let jsonrpc ← uniqueMember members "jsonrpc"
    let id ← uniqueMember members "id"
    let result ← uniqueMember members "result"
    let error ← uniqueMember members "error"
    JsonRpcResponse.ofParts reader (depth + 1) jsonrpc id result error
  | depth + 2, .array [jsonrpc, id, result, error] =>
    JsonRpcResponse.ofParts reader (depth + 1) (some jsonrpc) (some id) (some result) (some error)
  | _, _ => none

/-! ### The three paths -/

/-- The way an upstream's answer takes to a client. -/
inductive RelayPath
  | direct
  | cache
  | coalesced

section Paths

variable {Text : Type} (reader : ValueReader) (serde : SerdeJson Text)

/-- The response handed to the client's encoder, given the decoded answer. On the cache path the
answer is stored only when it carries no error, and `id` is the id of the request that hits; on the
coalesced path `id` is the id of the request that led the call. -/
def RelayPath.relayed (answer : JsonRpcResponse) (id : Value) : RelayPath → Option JsonRpcResponse
  | .direct => some (answer.withId id)
  | .cache =>
    if answer.error.isNone then
      (JsonRpcResponse.ofText serde (answer.toText serde)).map fun r => r.withId id
    else none
  | .coalesced => JsonRpcResponse.ofText serde ((answer.withId id).toText serde)

/-- The JSON object written to the client for the text received from the upstream; `none` if the
text does not decode, and then the upstream counts as failed. -/
def RelayPath.written (path : RelayPath) (upstream : Raw) (id : Value) : Option Value :=
  (JsonRpcResponse.read reader recursionLimit upstream).bind fun answer =>
    (path.relayed serde answer id).map JsonRpcResponse.serialize

end Paths

/-! ### What an upstream can return -/

/-- The members of an error object: an integer code, a string message, optional data. -/
structure ValidError (members : List (String × Raw)) : Prop where
  nodup : (members.map Prod.fst).Nodup
  keys : ∀ m ∈ members, m.1 ∈ ["code", "message", "data"]
  code : ∃ n, members.lookup "code" = some (.number n)
  message : ∃ s, members.lookup "message" = some (.string s)

/-- The members of a JSON-RPC 2.0 response object: exactly one of `result` and `error`. Other
members may be there, and are not relayed. -/
structure ValidResponse (members : List (String × Raw)) : Prop where
  nodup : (members.map Prod.fst).Nodup
  jsonrpc : members.lookup "jsonrpc" = some (.string (some "2.0"))
  id : ∃ i, members.lookup "id" = some i
  exclusive : (∃ v, members.lookup "result" = some v) ↔ members.lookup "error" = none
  error : ∀ v, members.lookup "error" = some v → ∃ em, v = .object em ∧ ValidError em

/-- The cache serves only answers that carry no error. -/
def RelayPath.Applies (members : List (String × Raw)) : RelayPath → Prop
  | .cache => members.lookup "error" = none
  | _ => True

/-! ### What is the same -/

/-- The rational number that a numeral is. -/
def Numeral.value (n : Numeral) : ℚ :=
  (if n.negative then -1 else 1) * n.digits * 10 ^ n.scale.getD 0

section Same

variable (shown : UInt64 → ℚ)

/-- The rational number that a number is written as. -/
def Number.value : Number → ℚ
  | .posInt n _ => n
  | .negInt i _ => i
  | .float bits => shown bits

/-- The value that a text stands for, with each numeral for the number it is. -/
def Raw.Equals : Raw → Value → Prop := Raw.Denotes fun n x => n.value = x.value shown

/-- The objects have the same members, in whatever order. -/
def SameObject : Raw → Value → Prop
  | .object ms, .object ns => ∀ key, Option.Rel (Raw.Equals shown) (ms.lookup key) (ns.lookup key)
  | _, _ => False

/-- The object has the `result` and the `error` member that the upstream's has, and neither that it
has not. Numbers are compared as numbers and not as texts. -/
def SameMembers (members : List (String × Raw)) (w : Value) : Prop :=
  Option.Rel (Raw.Equals shown) (members.lookup "result") (w.get "result") ∧
    Option.Rel (SameObject shown) (members.lookup "error") (w.get "error")

variable (reader : ValueReader)

/-- A numeral that is read as a double which is not written as the same number. An integer beyond 64
bits is one, unless it happens to be written back as itself. -/
def Numeral.Lossy (n : Numeral) : Prop :=
  ∃ bits, n.read reader = some (.float bits) ∧ shown bits ≠ n.value

/-- What an `Option<Value>` field can hold: nothing, or a part that is not `null` and is read as
what it says, number by number. The levels are those left where the field stands. -/
def Holdable (levels : ℕ) (part : Option Raw) : Prop :=
  ∀ raw, part = some raw → raw ≠ .null ∧ raw.Kept reader (Numeral.Lossy shown reader) levels

/-- What a `JsonRpcError` can hold: an `i64` code, a message that is Unicode, and holdable data. -/
structure RepresentableError (members : List (String × Raw)) : Prop where
  code : ((members.lookup "code").bind (Raw.readI64 reader)).isSome
  message : ((members.lookup "message").bind Raw.readString).isSome
  data : Holdable shown reader 125 (members.lookup "data")

/-- **What a `JsonRpcResponse` can hold**: a readable id, a holdable result, and a representable
error. -/
structure Representable (members : List (String × Raw)) : Prop where
  id : ∀ raw, members.lookup "id" = some raw → raw.readable reader 126
  result : Holdable shown reader 126 (members.lookup "result")
  error : ∀ em, members.lookup "error" = some (.object em) → RepresentableError shown reader em

end Same

/-! ### Reading members -/

section Members

variable {members : List (String × Raw)} {key : String}

theorem lookup_eq_none_of_not_mem (h : key ∉ members.map Prod.fst) : members.lookup key = none := by
  rw [List.lookup_eq_none_iff]
  intro m hm
  exact bne_iff_ne.mpr fun hkey => h (List.mem_map.mpr ⟨m, hm, hkey.symm⟩)

/-- Without repeated names, a field is what a lookup finds. -/
theorem uniqueMember_of_nodup (key : String) (h : (members.map Prod.fst).Nodup) :
    uniqueMember members key = some (members.lookup key) := by
  induction members with
  | nil => rfl
  | cons m members ih =>
    obtain ⟨k, v⟩ := m
    obtain ⟨hk, htail⟩ := List.nodup_cons.mp h
    by_cases hkey : k = key
    · subst hkey
      have hnil : members.filter (fun m => m.1 == k) = [] := by
        rw [List.filter_eq_nil_iff]
        intro m hm hkey
        exact hk (List.mem_map.mpr ⟨m, hm, eq_of_beq hkey⟩)
      simp [uniqueMember, hnil]
    · have hne : (k == key) = false := beq_eq_false_iff_ne.mpr hkey
      have hne' : (key == k) = false := beq_eq_false_iff_ne.mpr (Ne.symm hkey)
      rw [List.lookup_cons, hne', ← ih htail]
      simp [uniqueMember, hne]

variable {reader : ValueReader} {levels : ℕ}

/-- What the derived reader accepts of a response object. -/
theorem JsonRpcResponse.read_object {resp : JsonRpcResponse}
    (h : (members.map Prod.fst).Nodup) :
    JsonRpcResponse.read reader (levels + 2) (.object members) = some resp ↔
      (members.lookup "jsonrpc").bind Raw.readString = some resp.jsonrpc ∧
        (members.lookup "id").bind (Raw.read reader (levels + 1)) = some resp.id ∧
        readOption reader (levels + 1) (members.lookup "result") = some resp.result ∧
        readOptionError reader (levels + 1) (members.lookup "error") = some resp.error := by
  simp only [JsonRpcResponse.read, uniqueMember_of_nodup _ h, JsonRpcResponse.ofParts,
    Option.bind_eq_bind, Option.bind_some, Option.bind_eq_some_iff, Option.pure_def,
    Option.some.injEq]
  constructor
  · rintro ⟨_, hjsonrpc, _, hid, _, hresult, _, herror, rfl⟩
    exact ⟨hjsonrpc, hid, hresult, herror⟩
  · rintro ⟨hjsonrpc, hid, hresult, herror⟩
    exact ⟨_, hjsonrpc, _, hid, _, hresult, _, herror, rfl⟩

/-- What it accepts of an error object. -/
theorem JsonRpcError.read_object {e : JsonRpcError} (h : (members.map Prod.fst).Nodup) :
    JsonRpcError.read reader (levels + 2) (.object members) = some e ↔
      (members.lookup "code").bind (Raw.readI64 reader) = some e.code ∧
        (members.lookup "message").bind Raw.readString = some e.message ∧
        readOption reader (levels + 1) (members.lookup "data") = some e.data := by
  simp only [JsonRpcError.read, uniqueMember_of_nodup _ h, JsonRpcError.ofParts,
    Option.bind_eq_bind, Option.bind_some, Option.bind_eq_some_iff, Option.pure_def,
    Option.some.injEq]
  constructor
  · rintro ⟨_, hcode, _, hmessage, _, hdata, rfl⟩
    exact ⟨hcode, hmessage, hdata⟩
  · rintro ⟨hcode, hmessage, hdata⟩
    exact ⟨_, hcode, _, hmessage, _, hdata, rfl⟩

end Members

/-! ### What a field can hold -/

section Fields

variable {shown : UInt64 → ℚ} {reader : ValueReader} {levels : ℕ} {part : Option Raw}
  {v : Option Value}

/-- A numeral that is not read as a double is read as the number it is. -/
theorem Numeral.value_of_read {n : Numeral} {x : Number} (h : n.read reader = some x)
    (hx : ∀ bits, x ≠ .float bits) : n.value = x.value shown := by
  have hdouble : (reader.double n).map Number.float ≠ some x := by
    intro h
    obtain ⟨bits, -, hbits⟩ := Option.map_eq_some_iff.mp h
    exact hx bits hbits.symm
  simp only [Numeral.read] at h
  split_ifs at h with hscale hnegative hdigits hdigits
  · cases h
    simp [Numeral.value, Number.value, hscale, hnegative]
  · exact absurd h hdouble
  · cases h
    simp [Numeral.value, Number.value, hscale, hnegative]
  · exact absurd h hdouble
  · exact absurd h hdouble

/-- What is read is the number that is meant unless the numeral is lossy. -/
theorem Numeral.value_eq_iff {n : Numeral} {x : Number} (h : n.read reader = some x) :
    n.value = x.value shown ↔ ¬ n.Lossy shown reader := by
  have hlossy : n.Lossy shown reader ↔ ∃ bits, x = .float bits ∧ shown bits ≠ n.value := by
    rw [Numeral.Lossy, h]
    simp only [Option.some.injEq]
  rw [hlossy]
  cases x with
  | float bits => simp [Number.value, eq_comm]
  | posInt k hk =>
    exact iff_of_true (Numeral.value_of_read h (by rintro _ ⟨⟩)) (by rintro ⟨bits, ⟨⟩, -⟩)
  | negInt k hk =>
    exact iff_of_true (Numeral.value_of_read h (by rintro _ ⟨⟩)) (by rintro ⟨bits, ⟨⟩, -⟩)

/-- A part that is kept, number by number. -/
theorem Raw.equals_iff_of_read {raw : Raw} {w : Value}
    (h : raw.read reader (levels + 1) = some w) :
    raw.Equals shown w ↔ raw.Kept reader (Numeral.Lossy shown reader) levels := by
  rw [Raw.Kept, ← Raw.isSome_read_iff_readable, h, and_iff_right Option.isSome_some]
  exact Raw.denotes_iff_of_read (fun n x hx => Numeral.value_eq_iff hx) h

/-- **A field holds what the text says if it can**, and otherwise, having been read, it holds
something else. -/
theorem rel_readOption_iff (h : readOption reader (levels + 1) part = some v) :
    Option.Rel (Raw.Equals shown) part v ↔ Holdable shown reader levels part := by
  unfold readOption at h
  split at h
  · cases h
    exact iff_of_true .none nofun
  · cases h
    exact iff_of_false nofun fun hholdable => (hholdable .null rfl).1 rfl
  · rename_i raw hnull
    obtain ⟨w, hw, rfl⟩ := Option.map_eq_some_iff.mp h
    have hne : raw ≠ .null := hnull
    rw [Option.rel_some_some, Raw.equals_iff_of_read hw, Holdable]
    simp [hne]

/-- It still does after a round trip, in which a `null` is lost. -/
theorem rel_optionValue_iff (h : readOption reader (levels + 1) part = some v) :
    Option.Rel (Raw.Equals shown) part (optionValue v) ↔ Holdable shown reader levels part := by
  rw [← rel_readOption_iff h]
  unfold readOption at h
  split at h
  · cases h
    rfl
  · cases h
    rfl
  · rename_i raw hnull
    obtain ⟨w, hw, rfl⟩ := Option.map_eq_some_iff.mp h
    cases w with
    | null =>
      -- only the text of a raw value reads as `null` here, and it says something else
      refine iff_of_false nofun ?_
      rintro ⟨⟨⟩⟩
      exact hnull rfl
    | _ => rfl

theorem exists_readOption (h : Holdable shown reader levels part) :
    ∃ v, readOption reader (levels + 1) part = some v := by
  unfold readOption
  split
  · exact ⟨_, rfl⟩
  · exact ⟨_, rfl⟩
  · rename_i raw hnull
    obtain ⟨-, hreadable, -⟩ := h raw rfl
    obtain ⟨w, hw⟩ := Option.isSome_iff_exists.mp (Raw.isSome_read_iff_readable.mpr hreadable)
    exact ⟨some w, by rw [hw, Option.map_some]⟩

end Fields

/-! ### Error objects -/

section Errors

variable {shown : UInt64 → ℚ} {reader : ValueReader} {em : List (String × Raw)}
  {e : JsonRpcError}

/-- The encoded members of an error, by name. -/
theorem lookup_error_members (code : I64) (message : String) (data : Option Value) (key : String) :
    (("code", I64.serialize code) :: ("message", Value.string message) ::
        optionalMember "data" data).lookup key =
      if key = "code" then some (I64.serialize code)
      else if key = "message" then some (.string message)
      else if key = "data" then data
      else none := by
  rcases data with _ | data <;>
    simp only [optionalMember, List.lookup_cons, List.lookup_nil, beq_eq_decide] <;>
    grind

theorem serialize_toI64 {v : Value} {i : I64} (h : v.toI64 = some i) : I64.serialize i = v := by
  unfold Value.toI64 at h
  split at h
  · split at h
    · cases h
      simp [I64.serialize]
    · exact absurd h (by simp)
  · rename_i i hi
    cases h
    have hneg : ¬ 0 ≤ i := by omega
    simp [I64.serialize, hneg]
  · exact absurd h (by simp)

/-- The code that is read is the code that is meant. -/
theorem Raw.equals_serialize_of_readI64 {raw : Raw} {code : I64}
    (h : raw.readI64 reader = some code) : raw.Equals shown (I64.serialize code) := by
  cases raw with
  | number n =>
    obtain ⟨x, hx, hcode⟩ := Option.bind_eq_some_iff.mp h
    rw [serialize_toI64 hcode]
    refine .number (Numeral.value_of_read hx ?_)
    rintro bits rfl
    cases hcode
  | _ => cases h

/-- **An error survives exactly when its data does.** -/
theorem sameObject_serialize_iff (hvalid : ValidError em)
    (hcode : (em.lookup "code").bind (Raw.readI64 reader) = some e.code)
    (hmessage : (em.lookup "message").bind Raw.readString = some e.message) :
    SameObject shown (.object em) e.serialize ↔
      Option.Rel (Raw.Equals shown) (em.lookup "data") e.data := by
  have hother : ∀ key, key ≠ "code" → key ≠ "message" → key ≠ "data" → em.lookup key = none := by
    intro key hc hm hd
    refine lookup_eq_none_of_not_mem fun hmem => ?_
    obtain ⟨m, hm', rfl⟩ := List.mem_map.mp hmem
    have hkey := hvalid.keys m hm'
    simp only [List.mem_cons, List.not_mem_nil, or_false] at hkey
    tauto
  have hmembers : SameObject shown (.object em) e.serialize ↔ ∀ key,
      Option.Rel (Raw.Equals shown) (em.lookup key)
        (if key = "code" then some (I64.serialize e.code)
          else if key = "message" then some (.string e.message)
          else if key = "data" then e.data
          else none) := by
    refine forall_congr' fun key => ?_
    rw [lookup_error_members]
  rw [hmembers]
  constructor
  · intro hsame
    simpa using hsame "data"
  · intro hdata key
    split_ifs with hc hm hd
    · obtain ⟨raw, hraw, hread⟩ := Option.bind_eq_some_iff.mp hcode
      rw [hc, hraw]
      exact .some (Raw.equals_serialize_of_readI64 hread)
    · obtain ⟨raw, hraw, hread⟩ := Option.bind_eq_some_iff.mp hmessage
      rw [hm, hraw, Raw.readString_eq_some_iff.mp hread]
      exact .some (.string _)
    · rw [hd]
      exact hdata
    · rw [hother key hc hm hd]
      exact .none

/-- An error that is read is representable exactly when its data is holdable. -/
theorem representableError_iff_of_read (hvalid : ValidError em)
    (h : JsonRpcError.read reader 127 (.object em) = some e) :
    RepresentableError shown reader em ↔ Holdable shown reader 125 (em.lookup "data") := by
  obtain ⟨hcode, hmessage, -⟩ := (JsonRpcError.read_object hvalid.nodup).mp h
  exact ⟨fun h => h.data, fun h =>
    ⟨Option.isSome_of_eq_some hcode, Option.isSome_of_eq_some hmessage, h⟩⟩

variable (shown) in
/-- What is written of an error, with or without a round trip. -/
theorem sameObject_of_read_iff (hvalid : ValidError em)
    (h : JsonRpcError.read reader 127 (.object em) = some e) :
    (SameObject shown (.object em) e.serialize ↔ RepresentableError shown reader em) ∧
      (SameObject shown (.object em) e.canonical.serialize ↔
        RepresentableError shown reader em) := by
  obtain ⟨hcode, hmessage, hdata⟩ := (JsonRpcError.read_object hvalid.nodup).mp h
  rw [representableError_iff_of_read hvalid h]
  constructor
  · rw [sameObject_serialize_iff hvalid hcode hmessage, rel_readOption_iff hdata]
  · rw [sameObject_serialize_iff (e := e.canonical) hvalid hcode hmessage]
    exact rel_optionValue_iff hdata

/-- An error that can be held can be read. -/
theorem exists_read_of_representable (hvalid : ValidError em)
    (h : RepresentableError shown reader em) :
    ∃ e, JsonRpcError.read reader 127 (.object em) = some e := by
  obtain ⟨code, hcode⟩ := Option.isSome_iff_exists.mp h.code
  obtain ⟨message, hmessage⟩ := Option.isSome_iff_exists.mp h.message
  obtain ⟨data, hdata⟩ := exists_readOption h.data
  exact ⟨⟨code, message, data⟩,
    (JsonRpcError.read_object hvalid.nodup).mpr ⟨hcode, hmessage, hdata⟩⟩

end Errors

/-! ### The paths -/

@[simp] theorem JsonRpcResponse.serialize_get_result (r : JsonRpcResponse) :
    r.serialize.get "result" = r.result := by
  rcases r with ⟨jsonrpc, id, _ | result, _ | error⟩ <;> rfl

@[simp] theorem JsonRpcResponse.serialize_get_error (r : JsonRpcResponse) :
    r.serialize.get "error" = r.error.map JsonRpcError.serialize := by
  rcases r with ⟨jsonrpc, id, _ | result, _ | error⟩ <;> rfl

section Written

variable {Text : Type} {shown : UInt64 → ℚ} {reader : ValueReader} {serde : SerdeJson Text}
  {members : List (String × Raw)} {path : RelayPath} {answer : JsonRpcResponse}

/-- On every path that applies, the client's encoder gets the decoded answer, as it is or as it is
after a round trip. The round trip changes nothing but a `Some(null)`. -/
theorem relayed_eq (id : Value) (happ : path = .cache → answer.error = none) :
    path.relayed serde answer id = some (answer.withId id) ∨
      path.relayed serde answer id = some (answer.canonical.withId id) := by
  cases path with
  | direct => exact .inl rfl
  | cache => exact .inr (by simp [RelayPath.relayed, happ rfl])
  | coalesced => exact .inr (by simp [RelayPath.relayed])

/-- The `error` member of an answer that is read. -/
theorem error_of_read (hvalid : ValidResponse members)
    (h : JsonRpcResponse.read reader 128 (.object members) = some answer) :
    members.lookup "error" = none ∧ answer.error = none ∨
      ∃ em e, members.lookup "error" = some (.object em) ∧ ValidError em ∧
        answer.error = some e ∧ JsonRpcError.read reader 127 (.object em) = some e := by
  obtain ⟨-, -, -, herror⟩ := (JsonRpcResponse.read_object hvalid.nodup).mp h
  cases hlookup : members.lookup "error" with
  | none =>
    rw [hlookup] at herror
    exact .inl ⟨rfl, (Option.some.inj herror).symm⟩
  | some v =>
    obtain ⟨em, rfl, hem⟩ := hvalid.error v hlookup
    rw [hlookup] at herror
    obtain ⟨e, he, heq⟩ := Option.map_eq_some_iff.mp herror
    exact .inr ⟨em, e, rfl, hem, heq.symm, he⟩

variable (shown) in
/-- **What is written of a decoded answer**, as it is or after a round trip. -/
theorem sameMembers_iff_of_read (hvalid : ValidResponse members)
    (h : JsonRpcResponse.read reader 128 (.object members) = some answer) (id : Value) :
    (SameMembers shown members (answer.withId id).serialize ↔
        Representable shown reader members) ∧
      (SameMembers shown members (answer.canonical.withId id).serialize ↔
        Representable shown reader members) := by
  obtain ⟨-, hid, hresult, -⟩ := (JsonRpcResponse.read_object hvalid.nodup).mp h
  have hreadable : ∀ raw, members.lookup "id" = some raw → raw.readable reader 126 := by
    intro raw hraw
    rw [hraw] at hid
    exact Raw.isSome_read_iff_readable.mp (Option.isSome_of_eq_some hid)
  have hrepresentable : Representable shown reader members ↔
      Holdable shown reader 126 (members.lookup "result") ∧
        ∀ em, members.lookup "error" = some (.object em) → RepresentableError shown reader em :=
    ⟨fun h => ⟨h.result, h.error⟩, fun h => ⟨hreadable, h.1, h.2⟩⟩
  rw [hrepresentable]
  have hboth : ∀ r : JsonRpcResponse,
      (Option.Rel (Raw.Equals shown) (members.lookup "result") r.result ↔
        Holdable shown reader 126 (members.lookup "result")) →
      (Option.Rel (SameObject shown) (members.lookup "error")
          (r.error.map JsonRpcError.serialize) ↔
        ∀ em, members.lookup "error" = some (.object em) → RepresentableError shown reader em) →
      (SameMembers shown members (r.withId id).serialize ↔
        Holdable shown reader 126 (members.lookup "result") ∧
          ∀ em, members.lookup "error" = some (.object em) →
            RepresentableError shown reader em) := by
    intro r hresult herror
    rw [SameMembers, JsonRpcResponse.serialize_get_result, JsonRpcResponse.serialize_get_error]
    exact and_congr hresult herror
  obtain ⟨hnone, hanswer⟩ | ⟨em, e, hlookup, hem, hanswer, hread⟩ := error_of_read hvalid h
  · have hvacuous : Option.Rel (SameObject shown) (members.lookup "error") none ↔
        ∀ em, members.lookup "error" = some (.object em) → RepresentableError shown reader em := by
      rw [hnone]
      exact iff_of_true .none nofun
    constructor
    · refine hboth answer (rel_readOption_iff hresult) ?_
      rw [hanswer]
      exact hvacuous
    · refine hboth answer.canonical (rel_optionValue_iff hresult) ?_
      rw [JsonRpcResponse.canonical, hanswer]
      exact hvacuous
  · obtain ⟨hsame, hcanonical⟩ := sameObject_of_read_iff shown hem hread
    constructor
    · refine hboth answer (rel_readOption_iff hresult) ?_
      rw [hanswer, hlookup, Option.map_some, Option.rel_some_some, hsame]
      simp
    · refine hboth answer.canonical (rel_optionValue_iff hresult) ?_
      rw [JsonRpcResponse.canonical, hanswer, hlookup, Option.map_some, Option.map_some,
        Option.rel_some_some, hcanonical]
      simp

/-- An answer that can be held can be read. -/
theorem exists_answer_of_representable (hvalid : ValidResponse members)
    (h : Representable shown reader members) :
    ∃ answer, JsonRpcResponse.read reader 128 (.object members) = some answer := by
  obtain ⟨raw, hraw⟩ := hvalid.id
  obtain ⟨i, hi⟩ := Option.isSome_iff_exists.mp
    (Raw.isSome_read_iff_readable.mpr (h.id raw hraw))
  obtain ⟨result, hresult⟩ := exists_readOption h.result
  have herror : ∃ error, readOptionError reader 127 (members.lookup "error") = some error := by
    cases hlookup : members.lookup "error" with
    | none => exact ⟨none, rfl⟩
    | some v =>
      obtain ⟨em, rfl, hem⟩ := hvalid.error v hlookup
      obtain ⟨e, he⟩ := exists_read_of_representable hem (h.error em hlookup)
      exact ⟨some e, Option.map_eq_some_iff.mpr ⟨e, he, rfl⟩⟩
  obtain ⟨error, herror⟩ := herror
  exact ⟨⟨"2.0", i, result, error⟩, (JsonRpcResponse.read_object hvalid.nodup).mpr
    ⟨by rw [hvalid.jsonrpc]; rfl, by rw [hraw]; exact hi, hresult, herror⟩⟩

end Written

/-- A transaction count, as an upstream returns it. -/
def transactionCount : List (String × Raw) :=
  [("jsonrpc", .string (some "2.0")), ("id", .number ⟨false, 7, none⟩),
    ("result", .string (some "0x10"))]

/-- The receipt of a transaction that is still pending. -/
def pendingReceipt : List (String × Raw) :=
  [("jsonrpc", .string (some "2.0")), ("id", .number ⟨false, 7, none⟩), ("result", .null)]

theorem validResponse_transactionCount : ValidResponse transactionCount where
  nodup := by decide
  jsonrpc := rfl
  id := ⟨_, rfl⟩
  exclusive := ⟨fun _ => rfl, fun _ => ⟨_, rfl⟩⟩
  error := fun _ h => nomatch h

theorem validResponse_pendingReceipt : ValidResponse pendingReceipt where
  nodup := by decide
  jsonrpc := rfl
  id := ⟨_, rfl⟩
  exclusive := ⟨fun _ => rfl, fun _ => ⟨_, rfl⟩⟩
  error := fun _ h => nomatch h

end Poolbeg
