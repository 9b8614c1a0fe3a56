import Poolbeg.Rpc.Parse

/-!
# What a JSON text means

The reader for `Value` does not always keep what a text says. A numeral may be read as another
number, and an object that begins with the name of raw values is replaced by the text it holds. What
a text says is stated here without the reader: a string is its characters, an array its items, and
an object has each of its names once, in the order in which they first occur, with the value that
stands last under the name. Which numbers a numeral may be read as is left open.

## Parts that count

A part of a text counts unless it lies in a member that a later one of the same name replaces. So
what is read of a text is what the text says exactly when none of the parts that count is altered
(`Raw.denotes_iff_of_read`). That a text is read at all is another matter, and concerns the parts
that do not count as well: a numeral out of range in a member that is replaced still makes the
reader fail.

## Implementation notes

`Raw.Denotes` takes a relation between numerals and numbers, and `Raw.Altered` a set of numerals.
The two are tied together where a reader comes in, by the assumption that a numeral that is read as
a number means it exactly if it is not in the set. A request is compared with the numbers as they
are read, so its set is empty; an upstream's answer is compared with the rational numbers that are
meant, and its set holds the numerals that a double does not keep.

## Main definitions

* `lastMember`, `memberNames` — the object that a list of members stands for
* `Raw.Denotes` — the value a text stands for
* `Raw.Altered` — a part that counts is read as something else
* `Raw.readable`, `Raw.Kept` — a text that is read, and one that is read as what it says

## Main results

* `Raw.Denotes.unique` — a text stands for one value
* `Raw.denotes_iff_of_read` — when the value that is read is that one
* `Raw.exists_denotes_of_read` — what is read stands for something
* `Raw.kept_iff` — both together
-/

namespace Poolbeg

/-! ### Names -/

/-- What stands last under a name. An object that repeats a name stands for what this says. -/
def lastMember {α : Type} (members : List (String × α)) (key : String) : Option α :=
  (members.filter (·.1 == key)).getLast?.map Prod.snd

/-- The names, in the order in which they first occur. -/
def memberNames {α : Type} (members : List (String × α)) : List String :=
  (members.map Prod.fst).eraseDups

section Names

variable {α β : Type} {members : List (String × α)} {key : String}

theorem lastMember_cons (m : String × α) (members : List (String × α)) (key : String) :
    lastMember (m :: members) key =
      (lastMember members key).or (if m.1 == key then some m.2 else none) := by
  rw [lastMember, lastMember, List.filter_cons]
  split
  · rw [List.getLast?_cons]
    cases (members.filter (·.1 == key)).getLast? <;> rfl
  · rw [Option.or_none]

/-- Something stands under a name exactly if the name occurs. -/
theorem lastMember_eq_none_iff : lastMember members key = none ↔ key ∉ members.map Prod.fst := by
  induction members with
  | nil => simp [lastMember]
  | cons m members ih =>
    rw [lastMember_cons, Option.or_eq_none_iff, ih, List.map_cons, List.mem_cons, not_or, and_comm]
    refine and_congr_left fun _ => ?_
    by_cases hkey : m.1 = key
    · simp [hkey]
    · simp [hkey, Ne.symm hkey]

theorem mem_of_lastMember {a : α} (h : lastMember members key = some a) : (key, a) ∈ members := by
  obtain ⟨m, hm, rfl⟩ := Option.map_eq_some_iff.mp h
  obtain ⟨hmem, hkey⟩ := List.mem_filter.mp (List.mem_of_getLast? hm)
  rwa [← eq_of_beq hkey]

theorem mem_memberNames_iff : key ∈ memberNames members ↔ lastMember members key ≠ none := by
  rw [Ne, lastMember_eq_none_iff, not_not, memberNames, List.mem_eraseDups]

/-- Lists of members with the same names, with values that correspond. -/
theorem lastMember_rel {R : α → β → Prop} {ms : List (String × β)}
    (h : List.Forall₂ (fun m m' => m'.1 = m.1 ∧ R m.2 m'.2) members ms) (key : String) :
    Option.Rel R (lastMember members key) (lastMember ms key) := by
  induction h with
  | nil => exact .none
  | @cons m m' members ms hm _ ih =>
    rw [lastMember_cons, lastMember_cons, hm.1]
    generalize lastMember members key = o at ih ⊢
    generalize lastMember ms key = o' at ih ⊢
    cases ih with
    | some hr => exact .some hr
    | none =>
      rw [Option.none_or, Option.none_or]
      split
      · exact .some hm.2
      · exact .none

theorem map_fst_eq_of_forall₂ {ms : List (String × β)}
    (h : List.Forall₂ (fun m m' => m'.1 = m.1) members ms) :
    ms.map Prod.fst = members.map Prod.fst := by
  induction h with
  | nil => rfl
  | cons hm _ ih => rw [List.map_cons, List.map_cons, hm, ih]

end Names

/-! ### The object that is read -/

section Insert

variable {ms acc : List (String × Value)} {m : String × Value}

theorem map_fst_insertMember (acc : List (String × Value)) (m : String × Value) :
    (insertMember acc m).map Prod.fst =
      if m.1 ∈ acc.map Prod.fst then acc.map Prod.fst else acc.map Prod.fst ++ [m.1] := by
  have hany : acc.any (·.1 == m.1) = true ↔ m.1 ∈ acc.map Prod.fst := by
    simp [List.any_eq_true, List.mem_map]
  rw [insertMember]
  by_cases hmem : m.1 ∈ acc.map Prod.fst
  · rw [if_pos (hany.mpr hmem), if_pos hmem, List.map_map]
    refine List.map_congr_left fun m' _ => ?_
    rw [Function.comp_apply]
    split
    · exact (eq_of_beq ‹_›).symm
    · rfl
  · rw [if_neg fun h => hmem (hany.mp h), if_neg hmem, List.map_append]
    rfl

/-- Names keep the places at which they first occur. -/
theorem map_fst_foldl_insertMember (ms acc : List (String × Value)) :
    (ms.foldl insertMember acc).map Prod.fst =
      acc.map Prod.fst ++ ((ms.map Prod.fst).filter (· ∉ acc.map Prod.fst)).eraseDups := by
  induction ms generalizing acc with
  | nil => simp
  | cons m ms ih =>
    rw [List.foldl_cons, ih, map_fst_insertMember, List.map_cons, List.filter_cons]
    by_cases hmem : m.1 ∈ acc.map Prod.fst
    · rw [if_pos hmem, if_neg (by simpa using hmem)]
    · rw [if_neg hmem, if_pos (by simpa using hmem), List.eraseDups_cons, List.filter_filter,
        List.append_assoc, List.singleton_append]
      refine congrArg (acc.map Prod.fst ++ m.1 :: ·) (congrArg List.eraseDups ?_)
      refine List.filter_congr fun key _ => ?_
      rw [Bool.eq_iff_iff]
      simp [and_comm]

theorem memberNames_foldl_insertMember (ms : List (String × Value)) :
    (ms.foldl insertMember []).map Prod.fst = memberNames ms := by
  rw [map_fst_foldl_insertMember, memberNames]
  simp

/-- What is read under a name is what stands last under it. The fold is that of the reader, member
by member. -/
theorem lastMember_of_mem_foldl (h : m ∈ ms.foldl insertMember acc) :
    lastMember ms m.1 = some m.2 ∨ lastMember ms m.1 = none ∧ m ∈ acc := by
  induction ms generalizing acc with
  | nil => exact .inr ⟨rfl, h⟩
  | cons m₀ ms ih =>
    rw [lastMember_cons]
    obtain hlast | ⟨hnone, hmem⟩ := ih h
    · exact .inl (by rw [hlast, Option.some_or])
    · rw [hnone, Option.none_or]
      rw [insertMember] at hmem
      split at hmem
      · obtain ⟨m', hm', hm⟩ := List.mem_map.mp hmem
        by_cases hname : m'.1 == m₀.1
        · rw [if_pos hname] at hm
          exact .inl (by rw [← hm, if_pos (beq_self_eq_true _)])
        · rw [if_neg hname] at hm
          subst hm
          exact .inr ⟨if_neg fun heq => hname (beq_iff_eq.mpr (eq_of_beq heq).symm), hm'⟩
      · rename_i hany
        obtain hmem | hmem := List.mem_append.mp hmem
        · refine .inr ⟨if_neg fun heq => hany ?_, hmem⟩
          exact List.any_eq_true.mpr ⟨m, hmem, beq_iff_eq.mpr (eq_of_beq heq).symm⟩
        · obtain rfl := List.mem_singleton.mp hmem
          exact .inl (if_pos (beq_self_eq_true _))

end Insert

/-! ### What a text says -/

/-- **The value a text stands for**, when `num` says which numbers a numeral stands for. A string
with an unpaired surrogate stands for none, and neither does an object with such a name. -/
inductive Raw.Denotes (num : Numeral → Number → Prop) : Raw → Value → Prop
  | null : Denotes num .null .null
  | bool (b : Bool) : Denotes num (.bool b) (.bool b)
  | number {n : Numeral} {x : Number} (hnum : num n x) : Denotes num (.number n) (.number x)
  | string (s : String) : Denotes num (.string (some s)) (.string s)
  | array {items : List Raw} {vs : List Value} (hlength : items.length = vs.length)
      (hitems : ∀ item v, (item, v) ∈ items.zip vs → Denotes num item v) :
      Denotes num (.array items) (.array vs)
  | object {members : List (String × Raw)} {vs : List (String × Value)}
      (hnames : vs.map Prod.fst = memberNames members)
      (hvalues : ∀ m ∈ vs, ∀ raw, lastMember members m.1 = some raw → Denotes num raw m.2) :
      Denotes num (.object members) (.object vs)

/-- **A part that counts is read as something else** than it says: a numeral for which this is so,
or an object that begins with the name of raw values. -/
inductive Raw.Altered (bad : Numeral → Prop) : Raw → Prop
  | number {n : Numeral} (hbad : bad n) : Altered bad (.number n)
  | rawValue {members : List (String × Raw)} (hraw : beginsRawValue members = true) :
      Altered bad (.object members)
  | item {items : List Raw} {item : Raw} (hitem : item ∈ items) (h : Altered bad item) :
      Altered bad (.array items)
  | member {members : List (String × Raw)} {key : String} {raw : Raw}
      (hlast : lastMember members key = some raw) (h : Altered bad raw) :
      Altered bad (.object members)

/-- A text that the reader for `Value` reads: every part of it is a value, and what it holds is
nested at most so many levels. Of a raw value it is the string that has to be a text. -/
def Raw.readable (reader : ValueReader) : ℕ → Raw → Bool
  | _, .null | _, .bool _ => true
  | _, .number n => (n.read reader).isSome
  | _, .string s => s.isSome
  | levels + 1, .array items => items.all (Raw.readable reader levels)
  | levels + 1, .object members =>
    if beginsRawValue members then (reader.embedded members).isSome
    else members.all fun m => Raw.readable reader levels m.2
  | _, _ => false

/-- A text that is read as what it says: it can be read, and no part of it that counts is altered.
-/
def Raw.Kept (reader : ValueReader) (bad : Numeral → Prop) (levels : ℕ) (raw : Raw) : Prop :=
  raw.readable reader levels = true ∧ ¬ raw.Altered bad

section Denotes

variable {num : Numeral → Number → Prop} {bad : Numeral → Prop} {raw : Raw} {v w : Value}
  {items : List Raw} {members : List (String × Raw)} {reader : ValueReader} {levels : ℕ}

theorem Raw.denotes_array_iff :
    (Raw.array items).Denotes num v ↔ ∃ vs, v = .array vs ∧
      List.Forall₂ (Raw.Denotes num) items vs := by
  constructor
  · rintro ⟨⟩
    rename_i vs hlength hitems
    exact ⟨vs, rfl, List.forall₂_iff_zip.mpr ⟨hlength, fun h => hitems _ _ h⟩⟩
  · rintro ⟨vs, rfl, h⟩
    obtain ⟨hlength, hitems⟩ := List.forall₂_iff_zip.mp h
    exact .array hlength fun _ _ h => hitems h

theorem Raw.denotes_object_iff {vs : List (String × Value)} :
    (Raw.object members).Denotes num (.object vs) ↔ vs.map Prod.fst = memberNames members ∧
      ∀ m ∈ vs, ∀ raw, lastMember members m.1 = some raw → raw.Denotes num m.2 := by
  constructor
  · rintro ⟨⟩
    exact ⟨‹_›, ‹_›⟩
  · rintro ⟨hnames, hvalues⟩
    exact .object hnames hvalues

theorem Raw.altered_array_iff :
    (Raw.array items).Altered bad ↔ ∃ item ∈ items, item.Altered bad := by
  constructor
  · rintro ⟨⟩
    exact ⟨_, ‹_›, ‹_›⟩
  · rintro ⟨item, hitem, h⟩
    exact .item hitem h

theorem Raw.altered_object_iff (hplain : beginsRawValue members = false) :
    (Raw.object members).Altered bad ↔
      ∃ key raw, lastMember members key = some raw ∧ raw.Altered bad := by
  constructor
  · rintro (_ | hraw | _ | ⟨hlast, h⟩)
    · exact Bool.noConfusion (hplain.symm.trans hraw)
    · exact ⟨_, _, hlast, h⟩
  · rintro ⟨key, raw, hlast, h⟩
    exact .member hlast h

/-- Objects with the same names in the same order and the same values under them. -/
theorem eq_of_map_fst_eq {vs ws : List (String × Value)}
    (hnames : vs.map Prod.fst = ws.map Prod.fst)
    (hvalues : ∀ key v w, (key, v) ∈ vs → (key, w) ∈ ws → v = w) : vs = ws := by
  induction vs generalizing ws with
  | nil => exact (List.map_eq_nil_iff.mp hnames.symm).symm
  | cons m vs ih =>
    cases ws with
    | nil => cases hnames
    | cons m' ws =>
      obtain ⟨hkey, hnames⟩ := List.cons.inj hnames
      have hvalue : m.2 = m'.2 :=
        hvalues m.1 m.2 m'.2 List.mem_cons_self (hkey ▸ List.mem_cons_self)
      rw [Prod.ext hkey hvalue, ih hnames fun key v w hv hw =>
        hvalues key v w (List.mem_cons_of_mem m hv) (List.mem_cons_of_mem m' hw)]

theorem eq_of_forall₂ {α β : Type} {R : α → β → Prop} {as : List α} {bs cs : List β}
    (hunique : List.Forall₂ (fun a b => ∀ c, R a c → b = c) as bs) (h : List.Forall₂ R as cs) :
    bs = cs := by
  induction hunique generalizing cs with
  | nil => exact (List.forall₂_nil_left_iff.mp h).symm
  | cons hb _ ih =>
    obtain ⟨c, cs', hc, hcs, rfl⟩ := List.forall₂_cons_left_iff.mp h
    rw [hb c hc, ih hcs]

/-- **A text stands for one value** if a numeral stands for one number. The names of an object and
their order are determined by the text, and so is what stands under each. -/
theorem Raw.Denotes.unique (hnum : ∀ n x y, num n x → num n y → x = y) (hv : raw.Denotes num v)
    (hw : raw.Denotes num w) : v = w := by
  induction hv generalizing w with
  | null | bool | string =>
    cases hw
    rfl
  | number hx =>
    cases hw with
    | number hy => rw [hnum _ _ _ hx hy]
  | @array items vs hlength hitems ih =>
    obtain ⟨ws, rfl, hws⟩ := Raw.denotes_array_iff.mp hw
    have hunique : List.Forall₂ (fun item v => ∀ w, Raw.Denotes num item w → v = w) items vs :=
      List.forall₂_iff_zip.mpr ⟨hlength, fun h w hw => ih _ _ h hw⟩
    rw [eq_of_forall₂ hunique hws]
  | @object members vs hnames hvalues ih =>
    cases hw with
    | @object _ ws hnames' hvalues' =>
      refine congrArg Value.object (eq_of_map_fst_eq (hnames.trans hnames'.symm) ?_)
      intro key v w hv hw
      have hkey : lastMember members key ≠ none := by
        rw [← mem_memberNames_iff, ← hnames]
        exact List.mem_map.mpr ⟨_, hv, rfl⟩
      obtain ⟨raw, hraw⟩ := Option.ne_none_iff_exists'.mp hkey
      exact ih (key, v) hv raw hraw (hvalues' (key, w) hw raw hraw)

/-- What the reader for `Value` reads. The induction is on the levels, and goes through the members
of an object one after the other. -/
theorem Raw.isSome_read_iff_readable :
    (raw.read reader (levels + 1)).isSome ↔ raw.readable reader levels := by
  induction levels generalizing raw with
  | zero => cases raw <;> simp [Raw.read, Raw.readable]
  | succ levels ih =>
    cases raw with
    | array items =>
      rw [Raw.read, Option.isSome_map, isSome_mapM_iff, Raw.readable, List.all_eq_true]
      exact forall₂_congr fun item _ => ih
    | object members =>
      rw [Raw.readable]
      cases hraw : beginsRawValue members with
      | true => rw [Raw.read_rawValue hraw, if_pos rfl]
      | false =>
        rw [Raw.isSome_read_object hraw, if_neg Bool.false_ne_true, List.all_eq_true]
        exact forall₂_congr fun m _ => ih
    | _ => simp [Raw.read, Raw.readable]

section Members

variable {ms : List (String × Value)}
  (hms : List.Forall₂ (fun m m' => m'.1 = m.1 ∧ m.2.read reader (levels + 1) = some m'.2)
    members ms)
include hms

/-- The names of an object stay. -/
theorem Raw.map_fst_of_read : (ms.foldl insertMember []).map Prod.fst = memberNames members := by
  rw [memberNames_foldl_insertMember, memberNames, memberNames,
    map_fst_eq_of_forall₂ (hms.imp fun _ _ hm => hm.1)]

/-- What has been read under a name is what is read of the part that stands last under it. -/
theorem Raw.lastMember_of_read {m : String × Value} (hm : m ∈ ms.foldl insertMember []) :
    ∃ raw, lastMember members m.1 = some raw ∧ raw.read reader (levels + 1) = some m.2 := by
  have hlast : lastMember ms m.1 = some m.2 :=
    (lastMember_of_mem_foldl hm).resolve_right fun h => List.not_mem_nil h.2
  have hrel := lastMember_rel (R := fun (raw : Raw) v =>
    raw.read reader (levels + 1) = some v) hms m.1
  rw [hlast] at hrel
  generalize lastMember members m.1 = o at hrel ⊢
  cases hrel with
  | some h => exact ⟨_, rfl, h⟩

/-- What is read of an object is what it says if this is so of each part that counts. Those that a
later one of the same name replaces do not. -/
theorem Raw.denotes_object_read_iff :
    (Raw.object members).Denotes num (.object (ms.foldl insertMember [])) ↔
      ∀ key raw v, lastMember members key = some raw → raw.read reader (levels + 1) = some v →
        raw.Denotes num v := by
  rw [Raw.denotes_object_iff, and_iff_right (Raw.map_fst_of_read hms)]
  constructor
  · intro hdenotes key raw v hlast hv
    have hmem : key ∈ (ms.foldl insertMember []).map Prod.fst := by
      rw [Raw.map_fst_of_read hms, mem_memberNames_iff, hlast]
      exact Option.some_ne_none raw
    obtain ⟨m, hm, rfl⟩ := List.mem_map.mp hmem
    obtain ⟨raw', hlast', hread⟩ := Raw.lastMember_of_read hms hm
    cases hlast.symm.trans hlast'
    cases hv.symm.trans hread
    exact hdenotes m hm raw hlast
  · intro hdenotes m hm raw hlast
    obtain ⟨raw', hlast', hread⟩ := Raw.lastMember_of_read hms hm
    cases hlast.symm.trans hlast'
    exact hdenotes m.1 raw m.2 hlast hread

/-- An object stands for something if the parts do that count. -/
theorem Raw.exists_denotes_object
    (hparts : ∀ (raw : Raw) v, raw.read reader (levels + 1) = some v → ∃ w, raw.Denotes num w) :
    ∃ w, (Raw.object members).Denotes num w := by
  have hmembers : ∀ m ∈ ms.foldl insertMember [], ∃ m' : String × Value, m'.1 = m.1 ∧
      ∀ raw, lastMember members m.1 = some raw → raw.Denotes num m'.2 := by
    intro m hm
    obtain ⟨raw, hlast, hread⟩ := Raw.lastMember_of_read hms hm
    obtain ⟨w, hw⟩ := hparts raw m.2 hread
    refine ⟨(m.1, w), rfl, fun raw' hlast' => ?_⟩
    cases hlast.symm.trans hlast'
    exact hw
  obtain ⟨vs, hvs⟩ := exists_forall₂_of_forall hmembers
  have hnames : vs.map Prod.fst = memberNames members := by
    rw [map_fst_eq_of_forall₂ (hvs.imp fun _ _ hm => hm.1), Raw.map_fst_of_read hms]
  refine ⟨.object vs, Raw.denotes_object_iff.mpr ⟨hnames, fun m' hm' raw hlast => ?_⟩⟩
  obtain ⟨m, hkey, hdenotes⟩ := exists_of_forall₂_mem hvs.flip hm'
  exact hdenotes raw (hkey ▸ hlast)

end Members

/-- No raw value stands for what is read of it: the text says an object that begins with the name,
and such an object is never read. -/
theorem Raw.not_denotes_rawValue (hraw : beginsRawValue members = true)
    (h : (Raw.object members).read reader (levels + 2) = some v) :
    ¬ (Raw.object members).Denotes num v := by
  rw [Raw.read_rawValue hraw] at h
  unfold ValueReader.embedded at h
  split at h
  · rename_i key text
    obtain rfl : key = rawValueKey := by simpa [beginsRawValue] using hraw
    rintro ⟨⟩
    rename_i vs hnames hvalues
    obtain ⟨m, ms, rfl⟩ : ∃ m ms, vs = m :: ms := by
      cases vs with
      | nil => simp [memberNames, List.eraseDups_cons] at hnames
      | cons m ms => exact ⟨m, ms, rfl⟩
    obtain ⟨hkey, -⟩ := List.cons.inj (hnames.trans List.eraseDups_cons)
    obtain ⟨key, v⟩ := m
    obtain rfl : key = rawValueKey := hkey
    exact reader.fromStr_ne text v ms h
  · cases h

/-- The parts that have no parts. -/
theorem Raw.denotes_leaf_iff {depth : ℕ}
    (hnum : ∀ n x, n.read reader = some x → (num n x ↔ ¬ bad n))
    (harray : ∀ items, raw ≠ .array items)
    (hobject : ∀ members, raw ≠ .object members) (h : raw.read reader depth = some v) :
    raw.Denotes num v ↔ ¬ raw.Altered bad := by
  cases raw with
  | null =>
    rw [Raw.read] at h
    cases h
    exact iff_of_true .null (by rintro ⟨⟩)
  | bool b =>
    rw [Raw.read] at h
    cases h
    exact iff_of_true (.bool b) (by rintro ⟨⟩)
  | number n =>
    rw [Raw.read] at h
    obtain ⟨x, hx, rfl⟩ := Option.map_eq_some_iff.mp h
    constructor
    · rintro ⟨⟩ ⟨hbad⟩
      exact (hnum n x hx).mp ‹_› hbad
    · exact fun hkept => .number ((hnum n x hx).mpr fun hbad => hkept (.number hbad))
  | string s =>
    rw [Raw.read] at h
    obtain ⟨text, rfl, rfl⟩ := Option.map_eq_some_iff.mp h
    exact iff_of_true (.string text) (by rintro ⟨⟩)
  | array items => exact absurd rfl (harray items)
  | object members => exact absurd rfl (hobject members)
  | misnamed =>
    rw [Raw.read.eq_def] at h
    cases h

/-- **What is read is what the text says exactly if no part of it is altered.** The induction is on
the levels that are left, and the leaves are alike at every level. -/
theorem Raw.denotes_iff_of_read (hnum : ∀ n x, n.read reader = some x → (num n x ↔ ¬ bad n))
    (h : raw.read reader (levels + 1) = some v) : raw.Denotes num v ↔ ¬ raw.Altered bad := by
  induction levels generalizing raw v with
  | zero =>
    cases raw with
    | array items => rw [Raw.read] at h <;> cases h
    | object members => rw [Raw.read] at h <;> cases h
    | _ => exact Raw.denotes_leaf_iff hnum (by rintro _ ⟨⟩) (by rintro _ ⟨⟩) h
  | succ levels ih =>
    cases raw with
    | array items =>
      rw [Raw.read] at h
      obtain ⟨vs, hvs, rfl⟩ := Option.map_eq_some_iff.mp h
      have hread := mapM_eq_some_iff.mp hvs
      have hitems : List.Forall₂ (Raw.Denotes num) items vs ↔
          List.Forall₂ (fun item v => ¬ item.Altered bad ∧ item.read reader (levels + 1) = some v)
            items vs :=
        forall₂_iff_of hread fun item v hv => by rw [ih hv, and_iff_left hv]
      rw [Raw.denotes_array_iff, Raw.altered_array_iff]
      simp only [Value.array.injEq, exists_eq_left', hitems, List.forall₂_and_left,
        and_iff_left hread, not_exists, not_and]
    | object members =>
      cases hraw : beginsRawValue members with
      | true => exact iff_of_false (Raw.not_denotes_rawValue hraw h) (not_not.mpr (.rawValue hraw))
      | false =>
        obtain ⟨ms, hms, rfl⟩ := Raw.read_object_eq_some hraw h
        rw [Raw.denotes_object_read_iff hms, Raw.altered_object_iff hraw]
        simp only [not_exists, not_and]
        refine forall_congr' fun key => forall_congr' fun raw => ?_
        constructor
        · intro hdenotes hlast
          obtain ⟨v, hv⟩ := Option.isSome_iff_exists.mp
            ((Raw.isSome_read_object hraw).mp (Option.isSome_of_eq_some h) (key, raw)
              (mem_of_lastMember hlast))
          exact (ih hv).mp (hdenotes v hlast hv)
        · exact fun hkept v hlast hv => (ih hv).mpr (hkept hlast)
    | _ => exact Raw.denotes_leaf_iff hnum (by rintro _ ⟨⟩) (by rintro _ ⟨⟩) h

/-- A raw value that is read stands for the object it is. -/
theorem Raw.exists_denotes_rawValue (hraw : beginsRawValue members = true)
    (h : (Raw.object members).read reader (levels + 2) = some v) :
    ∃ w, (Raw.object members).Denotes num w := by
  rw [Raw.read_rawValue hraw] at h
  unfold ValueReader.embedded at h
  split at h
  · rename_i key text
    refine ⟨.object [(key, .string text)],
      Raw.denotes_object_iff.mpr ⟨?_, fun m hm raw hlast => ?_⟩⟩
    · simp [memberNames, List.eraseDups_cons]
    · obtain rfl := List.mem_singleton.mp hm
      have hmem := List.mem_singleton.mp (mem_of_lastMember hlast)
      rw [(Prod.mk.inj hmem).2]
      exact .string text
  · cases h

/-- The parts that have no parts stand for something. -/
theorem Raw.exists_denotes_leaf {depth : ℕ} (hnum : ∀ n x, n.read reader = some x → ∃ y, num n y)
    (harray : ∀ items, raw ≠ .array items) (hobject : ∀ members, raw ≠ .object members)
    (h : raw.read reader depth = some v) : ∃ w, raw.Denotes num w := by
  cases raw with
  | null => exact ⟨_, .null⟩
  | bool b => exact ⟨_, .bool b⟩
  | number n =>
    rw [Raw.read] at h
    obtain ⟨x, hx, -⟩ := Option.map_eq_some_iff.mp h
    obtain ⟨y, hy⟩ := hnum n x hx
    exact ⟨_, .number hy⟩
  | string s =>
    rw [Raw.read] at h
    obtain ⟨text, rfl, -⟩ := Option.map_eq_some_iff.mp h
    exact ⟨_, .string text⟩
  | array items => exact absurd rfl (harray items)
  | object members => exact absurd rfl (hobject members)
  | misnamed =>
    rw [Raw.read.eq_def] at h
    cases h

/-- What is read stands for something, if the numerals do. -/
theorem Raw.exists_denotes_of_read (hnum : ∀ n x, n.read reader = some x → ∃ y, num n y)
    (h : raw.read reader (levels + 1) = some v) : ∃ w, raw.Denotes num w := by
  induction levels generalizing raw v with
  | zero =>
    cases raw with
    | array items => rw [Raw.read] at h <;> cases h
    | object members => rw [Raw.read] at h <;> cases h
    | _ => exact Raw.exists_denotes_leaf hnum (by rintro _ ⟨⟩) (by rintro _ ⟨⟩) h
  | succ levels ih =>
    cases raw with
    | array items =>
      rw [Raw.read] at h
      obtain ⟨vs, hvs, -⟩ := Option.map_eq_some_iff.mp h
      have hitems : ∀ item ∈ items, ∃ w, item.Denotes num w := by
        intro item hitem
        obtain ⟨v, hv⟩ := exists_of_forall₂_mem (mapM_eq_some_iff.mp hvs) hitem
        exact ih hv
      obtain ⟨ws, hws⟩ := exists_forall₂_of_forall hitems
      exact ⟨.array ws, Raw.denotes_array_iff.mpr ⟨ws, rfl, hws⟩⟩
    | object members =>
      cases hraw : beginsRawValue members with
      | true => exact Raw.exists_denotes_rawValue hraw h
      | false =>
        obtain ⟨ms, hms, -⟩ := Raw.read_object_eq_some hraw h
        exact Raw.exists_denotes_object hms fun raw v hv => ih hv
    | _ => exact Raw.exists_denotes_leaf hnum (by rintro _ ⟨⟩) (by rintro _ ⟨⟩) h

/-- **A text is kept exactly if it is read and stands for what is read.** The left side says it
without the value, part by part. -/
theorem Raw.kept_iff (hnum : ∀ n x, n.read reader = some x → (num n x ↔ ¬ bad n)) :
    raw.Kept reader bad levels ↔
      ∃ v, raw.read reader (levels + 1) = some v ∧ raw.Denotes num v := by
  rw [Raw.Kept, ← Raw.isSome_read_iff_readable]
  constructor
  · rintro ⟨hsome, hkept⟩
    obtain ⟨v, hv⟩ := Option.isSome_iff_exists.mp hsome
    exact ⟨v, hv, (Raw.denotes_iff_of_read hnum hv).mpr hkept⟩
  · rintro ⟨v, hv, hdenotes⟩
    exact ⟨Option.isSome_of_eq_some hv, (Raw.denotes_iff_of_read hnum hv).mp hdenotes⟩

end Denotes

end Poolbeg
