import Mathlib.Data.List.Forall2
import Poolbeg.Rpc.Types

/-!
# Reading requests from a text

`RpcRequest::parse` and what `serde_json` does for it. A JSON text is its syntax tree, with what can
only be told when a part is read: a string may hold half a surrogate pair, and a number is its
numeral, which may be out of range. Reading goes down a limited number of levels.

There are two readers. The one for `Value` reads everything, and of members with the same name the
last one wins. The one that `#[derive(Deserialize)]` generates for `JsonRpcRequest` reads its four
members, rejects the repetition of one of them, and skips all others without reading them.

## Raw values

A crate of the build turns on `serde_json`'s feature `raw_value`. With it the reader for `Value`
takes an object that begins with the name `$serde_json::private::RawValue` for a value that was
written as a text. It reads the string under that name as a JSON text of its own, from the first
level, and puts what it gets in the place of the object. It fails when there is no string, when the
string is no JSON text, and when another member follows. The derived readers know nothing of this at
their own level, but they use the reader for `Value` below it.

## Implementation notes

What a `ValueReader` does with a text inside a string is a parameter, since strings are not parsed
here; all that is used is that the result is not again an object that begins with this name. The
conversion of a decimal numeral to a double is a parameter too.

## Main definitions

* `Numeral`, `Raw`, `Raw.read` — numerals, syntax trees and the reader for `Value`
* `JsonRpcRequest.read` — the derived reader
* `JsonText`, `RpcRequest.parse`

## Main results

* `Raw.get_of_read` — a member of an object, as the reader for `Value` sees it
* `JsonRpcRequest.read_object` — what the derived reader accepts
-/

namespace Poolbeg

/-! ### Texts -/

/-- A numeral: the sign, the digits without the point, and the power of ten that the last digit
stands for. The numeral of an integer, without a fraction and without an exponent, has no scale. -/
structure Numeral where
  negative : Bool
  digits : ℕ
  scale : Option ℤ

/-- A JSON text as its grammar has it. A string with an unpaired surrogate is `none`, and an object
one of whose names is such a string is `misnamed`. Nothing has been read yet: members may repeat,
and numerals may be out of range. -/
inductive Raw
  | null
  | bool (b : Bool)
  | number (n : Numeral)
  | string (s : Option String)
  | array (items : List Raw)
  | object (members : List (String × Raw))
  | misnamed

/-- `Map::insert`: a name that is there keeps its place, and its value is replaced. -/
def insertMember (members : List (String × Value)) (m : String × Value) : List (String × Value) :=
  if members.any (·.1 == m.1) then members.map fun m' => if m'.1 == m.1 then m else m'
  else members ++ [m]

/-- The name under which `serde_json` keeps the text of a `RawValue`. -/
def rawValueKey : String := "$serde_json::private::RawValue"

/-- What the reader for `Value` is given from outside: the double that is read for a numeral, `none`
if it is out of range, and `from_str` into a `Value`. -/
structure ValueReader where
  double : Numeral → Option UInt64
  fromStr : String → Option Value
  /-- An object that begins with the name of raw values is never what is read. -/
  fromStr_ne : ∀ text v members, fromStr text ≠ some (.object ((rawValueKey, v) :: members))

/-- A reader for texts in which there are neither doubles nor raw values. -/
def ValueReader.plain : ValueReader where
  double _ := none
  fromStr _ := none
  fromStr_ne _ _ _ := nofun

/-- Reading a number: an integer that fits into 64 bits is kept, and everything else is read as a
double, the integer zero with a minus sign in front included. -/
def Numeral.read (reader : ValueReader) (n : Numeral) : Option Number :=
  let double := (reader.double n).map .float
  if n.scale = none then
    if n.negative then
      if h : 0 < n.digits ∧ n.digits ≤ 2 ^ 63 then some (.negInt (-n.digits) (by omega)) else double
    else if h : n.digits < 2 ^ 64 then some (.posInt n.digits h) else double
  else double

/-- The members of an object that the reader takes for a raw value. -/
def beginsRawValue (members : List (String × Raw)) : Bool :=
  members.head?.any fun m => m.1 == rawValueKey

/-- Reading a raw value: its one member is a string, and the string is a JSON text. -/
def ValueReader.embedded (reader : ValueReader) : List (String × Raw) → Option Value
  | [(_, .string (some text))] => reader.fromStr text
  | _ => none

/-- Reading a `Value`, with a number of levels left. Going into an array or an object takes one, and
fails if none is left then. -/
def Raw.read (reader : ValueReader) : ℕ → Raw → Option Value
  | _, .null => some .null
  | _, .bool b => some (.bool b)
  | _, .number n => (n.read reader).map .number
  | _, .string s => s.map .string
  | depth + 2, .array items => (items.mapM (Raw.read reader (depth + 1))).map .array
  | depth + 2, .object members =>
    if beginsRawValue members then reader.embedded members
    else
      (members.mapM fun m => (Raw.read reader (depth + 1) m.2).map (m.1, ·)).map fun read =>
        .object (read.foldl insertMember [])
  | _, _ => none

/-- Reading a `String`. -/
def Raw.readString : Raw → Option String
  | .string s => s
  | _ => none

/-- The levels `serde_json` starts with. -/
def recursionLimit : ℕ := 128

/-! ### The derived reader -/

/-- The text of a field, if any; fails when the field is repeated. The derived reader counts a
repetition as an error even if the two are alike. -/
def uniqueMember (members : List (String × Raw)) (key : String) : Option (Option Raw) :=
  match members.filter fun m => m.1 == key with
  | [] => some none
  | [m] => some (some m.2)
  | _ => none

/-- A field under `#[serde(default)]`. -/
def readOrDefault (reader : ValueReader) (depth : ℕ) : Option Raw → Option Value
  | none => some .null
  | some raw => raw.read reader depth

def JsonRpcRequest.ofFields (reader : ValueReader) (depth : ℕ)
    (jsonrpc method params id : Option Raw) : Option JsonRpcRequest := do
  let jsonrpc ← jsonrpc.bind Raw.readString
  let method ← method.bind Raw.readString
  let params ← readOrDefault reader depth params
  let id ← id.bind (Raw.read reader depth)
  pure { jsonrpc := jsonrpc, method := method, params := params, id := id }

/-- What `#[derive(Deserialize)]` generates for a request. To it the name of raw values is one of
the names it does not know. An array of the members in their order is accepted as well, as for every
derived struct. -/
def JsonRpcRequest.read (reader : ValueReader) : ℕ → Raw → Option JsonRpcRequest
  | depth + 2, .object members => do
    let jsonrpc ← uniqueMember members "jsonrpc"
    let method ← uniqueMember members "method"
    let params ← uniqueMember members "params"
    let id ← uniqueMember members "id"
    JsonRpcRequest.ofFields reader (depth + 1) jsonrpc method params id
  | depth + 2, .array [jsonrpc, method, params, id] =>
    JsonRpcRequest.ofFields reader (depth + 1) (some jsonrpc) (some method) (some params) (some id)
  | _, _ => none

/-- A JSON text; `blank` when it begins with whitespace. -/
structure JsonText where
  blank : Bool
  root : Raw

inductive RpcRequest
  | single (req : JsonRpcRequest)
  | batch (reqs : List JsonRpcRequest)

/-- `RpcRequest::parse`: a text is taken for a batch when its first byte is `[`. What is in the
array is one level deeper than a single request. -/
def RpcRequest.parse (reader : ValueReader) (text : JsonText) : Option RpcRequest :=
  match text.blank, text.root with
  | false, .array items =>
    (items.mapM (JsonRpcRequest.read reader (recursionLimit - 1))).map .batch
  | _, root => (JsonRpcRequest.read reader recursionLimit root).map .single

/-! ### Reading all of a list -/

theorem mapM_eq_some_iff {α β : Type} {f : α → Option β} {as : List α} {bs : List β} :
    as.mapM f = some bs ↔ List.Forall₂ (fun a b => f a = some b) as bs := by
  induction as generalizing bs with
  | nil => simp [List.forall₂_nil_left_iff, eq_comm]
  | cons a as ih =>
    rw [List.mapM_cons, Option.bind_eq_bind, Option.bind_eq_some_iff]
    constructor
    · rintro ⟨b, hb, h⟩
      obtain ⟨bs, hbs, h⟩ := Option.bind_eq_some_iff.mp h
      obtain rfl := Option.some.inj h
      exact .cons hb (ih.mp hbs)
    · rintro (_ | ⟨hb, hbs⟩)
      exact ⟨_, hb, Option.bind_eq_some_iff.mpr ⟨_, ih.mpr hbs, rfl⟩⟩

theorem isSome_mapM_iff {α β : Type} {f : α → Option β} {as : List α} :
    (as.mapM f).isSome ↔ ∀ a ∈ as, (f a).isSome := by
  induction as with
  | nil => simp
  | cons a as ih =>
    rw [List.mapM_cons, List.forall_mem_cons, ← ih, Option.bind_eq_bind]
    cases f a with
    | none => simp
    | some b => cases as.mapM f <;> simp

theorem exists_forall₂_of_forall {α β : Type} {R : α → β → Prop} {as : List α}
    (h : ∀ a ∈ as, ∃ b, R a b) : ∃ bs, List.Forall₂ R as bs := by
  induction as with
  | nil => exact ⟨[], .nil⟩
  | cons a as ih =>
    obtain ⟨⟨b, hb⟩, has⟩ := List.forall_mem_cons.mp h
    obtain ⟨bs, hbs⟩ := ih has
    exact ⟨b :: bs, .cons hb hbs⟩

theorem exists_of_forall₂_mem {α β : Type} {R : α → β → Prop} {as : List α} {bs : List β} {a : α}
    (h : List.Forall₂ R as bs) (ha : a ∈ as) : ∃ b, R a b := by
  induction h with
  | nil => cases ha
  | cons hab _ ih =>
    obtain rfl | ha := List.mem_cons.mp ha
    · exact ⟨_, hab⟩
    · exact ih ha

theorem forall₂_iff_of {α β : Type} {P Q Q' : α → β → Prop} {as : List α} {bs : List β}
    (h : List.Forall₂ P as bs) (hiff : ∀ a b, P a b → (Q a b ↔ Q' a b)) :
    List.Forall₂ Q as bs ↔ List.Forall₂ Q' as bs :=
  ⟨h.mp fun a b hP => (hiff a b hP).mp, h.mp fun a b hP => (hiff a b hP).mpr⟩

/-! ### Members -/

theorem lookup_cons_eq (m : String × Value) (members : List (String × Value)) (key : String) :
    (m :: members).lookup key = if key == m.1 then some m.2 else members.lookup key := by
  rw [List.lookup_cons]
  cases key == m.1 <;> rfl

theorem lookup_map_replace (members : List (String × Value)) (m : String × Value) (key : String) :
    (members.map fun m' => if m'.1 == m.1 then m else m').lookup key =
      if key == m.1 then (if members.any (·.1 == m.1) then some m.2 else none)
      else members.lookup key := by
  induction members with
  | nil => simp
  | cons m' members ih =>
    rw [List.map_cons, List.any_cons, lookup_cons_eq, lookup_cons_eq, ih]
    by_cases hm' : m'.1 = m.1
    · by_cases hkey : key = m.1 <;> simp [hm', hkey]
    · by_cases hkey : key = m.1
      · have hne : (m'.1 == m.1) = false := beq_eq_false_iff_ne.mpr hm'
        rw [hne, Bool.false_or]
        simp [hkey, Ne.symm hm']
      · simp [hkey, hm']

theorem lookup_insertMember (members : List (String × Value)) (m : String × Value) (key : String) :
    (insertMember members m).lookup key = if key == m.1 then some m.2 else members.lookup key := by
  rw [insertMember]
  by_cases hany : members.any (·.1 == m.1)
  · rw [if_pos hany, lookup_map_replace, if_pos hany]
  · rw [if_neg hany, List.lookup_append]
    by_cases hkey : key = m.1
    · subst hkey
      have hnone : members.lookup m.1 = none := by
        rw [List.lookup_eq_none_iff]
        intro m' hm'
        rw [List.any_eq_true, not_exists] at hany
        exact bne_iff_ne.mpr fun heq => hany m' ⟨hm', beq_iff_eq.mpr heq.symm⟩
      simp [hnone, lookup_cons_eq]
    · simp [hkey, lookup_cons_eq]

/-- Of the members with one name, the last one is kept, in the place of the first. -/
theorem lookup_foldl_insertMember (ms acc : List (String × Value)) (key : String) :
    (ms.foldl insertMember acc).lookup key =
      (((ms.filter (·.1 == key)).getLast?).map Prod.snd).or (acc.lookup key) := by
  induction ms generalizing acc with
  | nil => rfl
  | cons m ms ih =>
    rw [List.foldl_cons, ih, lookup_insertMember]
    by_cases hkey : m.1 = key
    · subst hkey
      rw [List.filter_cons_of_pos (by simp), List.getLast?_cons]
      cases (ms.filter (·.1 == m.1)).getLast? <;> simp
    · rw [List.filter_cons_of_neg (by simpa using hkey)]
      simp [Ne.symm hkey]

theorem forall₂_filter {α β : Type} {R : α → β → Prop} {p : α → Bool} {q : β → Bool} {as : List α}
    {bs : List β} (hpq : ∀ a b, R a b → p a = q b) (h : List.Forall₂ R as bs) :
    List.Forall₂ R (as.filter p) (bs.filter q) := by
  induction h with
  | nil => exact .nil
  | @cons a b as bs hab _ ih =>
    rw [List.filter_cons, List.filter_cons, hpq a b hab]
    split
    · exact .cons hab ih
    · exact ih

variable {reader : ValueReader} {members : List (String × Raw)} {depth : ℕ} {v : Value}

/-- An object that is no raw value is read member by member. -/
theorem Raw.read_object (hplain : beginsRawValue members = false) :
    (Raw.object members).read reader (depth + 2) =
      (members.mapM fun m => (Raw.read reader (depth + 1) m.2).map (m.1, ·)).map fun read =>
        .object (read.foldl insertMember []) := by
  rw [Raw.read, hplain, if_neg Bool.false_ne_true]

/-- A raw value is what its text reads as. -/
theorem Raw.read_rawValue (hraw : beginsRawValue members = true) :
    (Raw.object members).read reader (depth + 2) = reader.embedded members := by
  rw [Raw.read, if_pos hraw]

theorem Raw.read_object_eq_some (hplain : beginsRawValue members = false)
    (h : (Raw.object members).read reader (depth + 2) = some v) :
    ∃ ms, List.Forall₂ (fun m m' => m'.1 = m.1 ∧ m.2.read reader (depth + 1) = some m'.2)
        members ms ∧ v = .object (ms.foldl insertMember []) := by
  rw [Raw.read_object hplain] at h
  obtain ⟨ms, hms, rfl⟩ := Option.map_eq_some_iff.mp h
  refine ⟨ms, (mapM_eq_some_iff.mp hms).imp fun m m' hm => ?_, rfl⟩
  obtain ⟨w, hw, rfl⟩ := Option.map_eq_some_iff.mp hm
  exact ⟨rfl, hw⟩

/-- **A member that is not repeated, in the value that was read.** It is what is read of it by
itself, one level further down. -/
theorem Raw.get_of_read {key : String} {raw : Option Raw}
    (hplain : beginsRawValue members = false)
    (h : (Raw.object members).read reader (depth + 2) = some v)
    (hunique : uniqueMember members key = some raw) :
    v.get key = raw.bind (Raw.read reader (depth + 1)) := by
  obtain ⟨ms, hms, rfl⟩ := Raw.read_object_eq_some hplain h
  have hfilter := forall₂_filter (p := fun m => m.1 == key) (q := fun m => m.1 == key)
    (fun m m' hm => by rw [hm.1]) hms
  rw [Value.get_object, lookup_foldl_insertMember]
  rw [uniqueMember] at hunique
  split at hunique
  · rename_i hnil
    rw [hnil, List.forall₂_nil_left_iff] at hfilter
    cases hunique
    rw [hfilter]
    rfl
  · rename_i m hone
    rw [hone] at hfilter
    cases hunique
    obtain ⟨m', rest, ⟨-, hread⟩, hrest, hcons⟩ := List.forall₂_cons_left_iff.mp hfilter
    rw [List.forall₂_nil_left_iff] at hrest
    rw [hcons, hrest]
    exact hread.symm
  · cases hunique

/-- The value of an object that is no raw value can be read when all its members can. -/
theorem Raw.isSome_read_object (hplain : beginsRawValue members = false) :
    ((Raw.object members).read reader (depth + 2)).isSome ↔
      ∀ m ∈ members, (m.2.read reader (depth + 1)).isSome := by
  rw [Raw.read_object hplain, Option.isSome_map, isSome_mapM_iff]
  exact forall₂_congr fun m _ => by rw [Option.isSome_map]

/-- A raw value that can be read has one member. -/
theorem ValueReader.eq_singleton_of_embedded (h : (reader.embedded members).isSome) :
    ∃ m, members = [m] := by
  unfold ValueReader.embedded at h
  split at h
  · exact ⟨_, rfl⟩
  · cases h

/-- **When an object with several members can be read**: it does not begin with the name of raw
values, and all its members can be read. With one member it may be a raw value that is accepted. -/
theorem Raw.isSome_read_members (hne : ∀ m, members ≠ [m]) :
    ((Raw.object members).read reader (depth + 2)).isSome ↔
      beginsRawValue members = false ∧ ∀ m ∈ members, (m.2.read reader (depth + 1)).isSome := by
  cases hraw : beginsRawValue members with
  | false => rw [Raw.isSome_read_object hraw, and_iff_right rfl]
  | true =>
    rw [Raw.read_rawValue hraw]
    refine iff_of_false (fun hsome => ?_) fun hplain => Bool.noConfusion hplain.1
    obtain ⟨m, hm⟩ := ValueReader.eq_singleton_of_embedded hsome
    exact hne m hm

theorem eq_of_uniqueMember {key : String} {raw : Option Raw} {m : String × Raw}
    (h : uniqueMember members key = some raw) (hm : m ∈ members) (hkey : m.1 = key) :
    raw = some m.2 := by
  have hmem : m ∈ members.filter fun m => m.1 == key :=
    List.mem_filter.mpr ⟨hm, beq_iff_eq.mpr hkey⟩
  rw [uniqueMember] at h
  split at h
  · rename_i hnil
    exact absurd (hnil ▸ hmem) List.not_mem_nil
  · rename_i m' hone
    rw [hone, List.mem_singleton] at hmem
    rw [hmem]
    exact (Option.some.inj h).symm
  · cases h

theorem mem_of_uniqueMember {key : String} {raw : Raw}
    (h : uniqueMember members key = some (some raw)) : (key, raw) ∈ members := by
  rw [uniqueMember] at h
  split at h
  · cases h
  · rename_i m hone
    have hm : m ∈ members.filter fun m => m.1 == key := hone ▸ List.mem_singleton_self m
    obtain ⟨hm, hkey⟩ := List.mem_filter.mp hm
    cases h
    exact beq_iff_eq.mp hkey ▸ hm
  · cases h

theorem Raw.readString_eq_some_iff {raw : Raw} {s : String} :
    raw.readString = some s ↔ raw = .string (some s) := by
  cases raw <;> simp [Raw.readString]

/-- **What the derived reader accepts.** -/
theorem JsonRpcRequest.read_object {req : JsonRpcRequest} :
    JsonRpcRequest.read reader (depth + 2) (.object members) = some req ↔
      ∃ jsonrpc method params id, uniqueMember members "jsonrpc" = some (some jsonrpc) ∧
        uniqueMember members "method" = some (some method) ∧
        uniqueMember members "params" = some params ∧
        uniqueMember members "id" = some (some id) ∧
        jsonrpc.readString = some req.jsonrpc ∧ method.readString = some req.method ∧
        readOrDefault reader (depth + 1) params = some req.params ∧
        id.read reader (depth + 1) = some req.id := by
  simp only [JsonRpcRequest.read, JsonRpcRequest.ofFields, Option.bind_eq_bind,
    Option.bind_eq_some_iff, Option.pure_def, Option.some.injEq]
  constructor
  · rintro ⟨_, hjsonrpc, _, hmethod, params, hparams, _, hid, j, ⟨jsonrpc, rfl, hj⟩, m,
      ⟨method, rfl, hm⟩, p, hp, i, ⟨id, rfl, hi⟩, rfl⟩
    exact ⟨jsonrpc, method, params, id, hjsonrpc, hmethod, hparams, hid, hj, hm, hp, hi⟩
  · rintro ⟨jsonrpc, method, params, id, hjsonrpc, hmethod, hparams, hid, hj, hm, hp, hi⟩
    exact ⟨_, hjsonrpc, _, hmethod, params, hparams, _, hid, _, ⟨jsonrpc, rfl, hj⟩, _,
      ⟨method, rfl, hm⟩, _, hp, _, ⟨id, rfl, hi⟩, rfl⟩

/-- A request object has several members. So a request that begins with the name of raw values is
never one that the reader for `Value` accepts. -/
theorem JsonRpcRequest.ne_singleton_of_read {req : JsonRpcRequest}
    (h : JsonRpcRequest.read reader (depth + 2) (.object members) = some req) (m : String × Raw) :
    members ≠ [m] := by
  rintro rfl
  obtain ⟨jsonrpc, method, -, -, hjsonrpc, hmethod, -⟩ := JsonRpcRequest.read_object.mp h
  have hfirst := List.mem_singleton.mp (mem_of_uniqueMember hjsonrpc)
  have hsecond := List.mem_singleton.mp (mem_of_uniqueMember hmethod)
  have hnames : "jsonrpc" = "method" := congrArg Prod.fst (hfirst.trans hsecond.symm)
  exact absurd hnames (by decide)

end Poolbeg
