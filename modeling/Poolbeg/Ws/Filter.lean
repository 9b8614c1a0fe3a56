import Poolbeg.Ws.Subscription

/-!
# What a log filter matches

A filter asks for a log of one of some addresses, with one of some topics at each position. Where it
lists no alternatives it asks for nothing: an address or a topic that is absent, `null` or an empty
list matches anything. That is `Accepts`, on the filter object as a client sends it.

## Empty lists

`LogFilter::from_value` keeps two of these apart. What is absent or `null` becomes `None`, and the
matcher skips it; an empty list becomes `Some` of an empty list, and then no log has an address or a
topic that is in it. So a filter with an empty list in it matches nothing, and every other filter
matches what it should (`isMatch_iff_accepts`). In a filter such as `[[], [topic]]` the first
position is meant to be open.

## Letter case

Hexadecimal strings are compared without regard to case. The source lowers the alternatives with
`to_lowercase`, which knows all of Unicode, and compares addresses with `eq_ignore_ascii_case` and
topics after lowering both. On hexadecimal strings these are the same, which is all that is asked of
the parameter (`LowersAscii`).

## Main definitions

* `IsHex`, `LowersAscii` — strings and their case
* `IsAlternatives`, `IsFilter`, `IsLog` — what a filter and a log look like
* `alternatives`, `Accepts` — what a filter asks for
* `HasEmptyList` — the filters that match nothing

## Main results

* `isMatch_iff` — what the matcher asks for
* `exists_accepts` — every filter asks for some log
* `isMatch_iff_accepts` — when the two are the same
-/

namespace Poolbeg

/-! ### Letter case -/

/-- A hexadecimal string, in either letter case. -/
def IsHex (s : String) : Prop :=
  ∃ digits, s.toList = '0' :: 'x' :: digits ∧ ∀ c ∈ digits, (toDigit16 c).isSome

theorem isHex_of_all {s : String} (digits : List Char) (hs : s.toList = '0' :: 'x' :: digits)
    (h : digits.all fun c => (toDigit16 c).isSome) : IsHex s :=
  ⟨digits, hs, List.all_eq_true.mp h⟩

/-- On ASCII, `to_lowercase` is `to_ascii_lowercase`. -/
def LowersAscii (toLowercase : String → String) : Prop :=
  ∀ s : String, (∀ c ∈ s.toList, c.toNat < 128) → toLowercase s = s.toLower

theorem toNat_lt_of_toDigit16 {c : Char} (h : (toDigit16 c).isSome) : c.toNat < 128 := by
  have hnine : ('9' : Char).toNat < 128 := by decide
  have hf : ('f' : Char).toNat < 128 := by decide
  have hF : ('F' : Char).toNat < 128 := by decide
  rw [toDigit16] at h
  split_ifs at h with hdigit hlower hupper
  · exact lt_of_le_of_lt hdigit.2 hnine
  · exact lt_of_le_of_lt hlower.2 hf
  · exact lt_of_le_of_lt hupper.2 hF
  · cases h

theorem IsHex.ascii {s : String} (h : IsHex s) : ∀ c ∈ s.toList, c.toNat < 128 := by
  obtain ⟨digits, hs, hdigits⟩ := h
  rw [hs]
  refine List.forall_mem_cons.mpr ⟨by decide, List.forall_mem_cons.mpr ⟨by decide, ?_⟩⟩
  exact fun c hc => toNat_lt_of_toDigit16 (hdigits c hc)

theorem toLower_toLower_of_ascii {s : String} (h : ∀ c ∈ s.toList, c.toNat < 128) :
    s.toLower.toLower = s.toLower := by
  have hchar : ∀ n < 128, (Char.ofNat n).toLower.toLower = (Char.ofNat n).toLower := by decide
  show (s.map Char.toLower).map Char.toLower = s.map Char.toLower
  rw [← String.toList_inj]
  simp only [String.toList_map, List.map_map]
  refine List.map_congr_left fun c hc => ?_
  have hc' := hchar c.toNat (h c hc)
  rwa [Char.ofNat_toNat] at hc'

/-- Lowering a hexadecimal string first makes no difference where letter case is ignored. -/
theorem toLower_toLowercase {toLowercase : String → String} (hlower : LowersAscii toLowercase)
    {s : String} (h : IsHex s) : (toLowercase s).toLower = s.toLower := by
  rw [hlower s h.ascii, toLower_toLower_of_ascii h.ascii]

/-! ### Filters and logs -/

/-- An address or the topic at a position, as a filter may give it: nothing, one string, or a list
of strings, which may be empty. -/
inductive IsAlternatives : Value → Prop
  | any : IsAlternatives .null
  | one {s : String} (hs : IsHex s) : IsAlternatives (.string s)
  | list {ss : List String} (hs : ∀ s ∈ ss, IsHex s) : IsAlternatives (.array (ss.map .string))

/-- The members of a filter object that matter. The block range is none of them, since subscriptions
are about new logs. -/
structure IsFilter (filter : Value) : Prop where
  address : ∀ a, filter.get "address" = some a → IsAlternatives a
  topics : ∀ t, filter.get "topics" = some t →
    t = .null ∨ ∃ items, t = .array items ∧ ∀ item ∈ items, IsAlternatives item

/-- A log with its address and its topics. -/
structure IsLog (log : Value) (address : String) (topics : List String) : Prop where
  get_address : log.get "address" = some (.string address)
  get_topics : log.get "topics" = some (.array (topics.map .string))
  isHex_address : IsHex address
  isHex_topics : ∀ t ∈ topics, IsHex t

/-- The strings that are listed; none where nothing is asked for. -/
def alternatives : Value → List String
  | .string s => [s]
  | .array items => items.filterMap Value.asStr
  | _ => []

def filterAddresses (filter : Value) : List String :=
  ((filter.get "address").map alternatives).getD []

def filterTopics (filter : Value) : List (List String) :=
  (((filter.get "topics").bind Value.asArray).getD []).map alternatives

/-- One of the alternatives, whatever the letter case. -/
def OneOf (alts : List String) (s : String) : Prop := ∃ a ∈ alts, a.toLower = s.toLower

/-- **What a filter asks for**: one of its addresses, and at each of its positions one of the topics
there; no alternatives are no constraint. A position beyond the topics of the log is a constraint
only if it has alternatives. -/
structure Accepts (filter : Value) (address : String) (topics : List String) : Prop where
  address : filterAddresses filter = [] ∨ OneOf (filterAddresses filter) address
  topics : ∀ (i : ℕ) (alts : List String), (filterTopics filter)[i]? = some alts →
    alts = [] ∨ ∃ t, topics[i]? = some t ∧ OneOf alts t

/-- An empty list stands for the addresses or for the topics at some position. -/
def HasEmptyList (filter : Value) : Prop :=
  filter.get "address" = some (.array []) ∨
    ∃ items, filter.get "topics" = some (.array items) ∧ .array [] ∈ items

/-! ### What the parser makes of them -/

section Match

variable {toLowercase : String → String} {v filter log : Value} {address s : String}
  {topics alts : List String}

theorem filterMap_asStr {β : Type} (f : String → β) (ss : List String) :
    (ss.map Value.string).filterMap (fun x => x.asStr.map f) = ss.map f := by
  rw [List.filterMap_map]
  exact congrFun List.filterMap_eq_map ss

@[simp] theorem alternatives_list (ss : List String) :
    alternatives (.array (ss.map .string)) = ss := by
  rw [alternatives, List.filterMap_map]
  exact List.filterMap_some

theorem IsAlternatives.isHex (h : IsAlternatives v) : ∀ a ∈ alternatives v, IsHex a := by
  cases h with
  | any => exact fun a ha => absurd ha List.not_mem_nil
  | one hs => exact List.forall_mem_singleton.mpr hs
  | list hs => rwa [alternatives_list]

/-- The parser drops `null` and keeps an empty list. Here the two come apart. -/
theorem IsAlternatives.stringOrStrings_eq (h : IsAlternatives v) :
    stringOrStrings toLowercase v =
      if v.isNull then none else some ((alternatives v).map toLowercase) := by
  cases h with
  | any => rfl
  | one hs => rfl
  | list hs =>
    rw [alternatives_list, stringOrStrings]
    exact congrArg some (filterMap_asStr toLowercase _)

theorem IsAlternatives.eq_nil_iff (h : IsAlternatives v) :
    alternatives v = [] ↔ v.isNull = true ∨ v = .array [] := by
  cases h with
  | any => simp [alternatives, Value.isNull]
  | one hs => simp [alternatives, Value.isNull]
  | list hs => simp [Value.isNull]

/-- Comparing with lowered alternatives is comparing with the alternatives. -/
theorem any_eqIgnoreAsciiCase (hlower : LowersAscii toLowercase) (hs : s.toLower = address.toLower)
    (halts : ∀ a ∈ alts, IsHex a) :
    (alts.map toLowercase).any (fun a => eqIgnoreAsciiCase a s) = true ↔ OneOf alts address := by
  rw [List.any_map, List.any_eq_true, OneOf]
  refine exists_congr fun a => and_congr_right fun ha => ?_
  rw [Function.comp, eqIgnoreAsciiCase, beq_iff_eq, hs, toLower_toLowercase hlower (halts a ha)]

/-! ### What the matcher makes of them -/

/-- The addresses of the filter. -/
theorem addressMatches_iff (hlower : LowersAscii toLowercase) (hf : IsFilter filter)
    (hl : IsLog log address topics) :
    (LogFilter.fromValue toLowercase filter).addressMatches log = true ↔
      ∀ a, filter.get "address" = some a → a.isNull = true ∨ OneOf (alternatives a) address := by
  rw [LogFilter.addressMatches, LogFilter.fromValue]
  cases ha : filter.get "address" with
  | none => simp
  | some a =>
    have halts := hf.address a ha
    simp only [Option.bind_some, halts.stringOrStrings_eq, Option.some.injEq, forall_eq']
    cases hnull : a.isNull with
    | true => simp
    | false =>
      have haddress : (log.get "address").bind Value.asStr = some address := by
        rw [hl.get_address]
        rfl
      simp only [Bool.false_eq_true, if_false, false_or, haddress]
      exact any_eqIgnoreAsciiCase hlower rfl halts.isHex

/-- The topics of a log are its strings, lowered. -/
theorem logTopics_eq (hl : IsLog log address topics) :
    logTopics toLowercase log = topics.map toLowercase := by
  rw [logTopics, hl.get_topics]
  exact filterMap_asStr toLowercase topics

/-- The positions of the filter, one by one. -/
theorem topicsMatch_iff (hlower : LowersAscii toLowercase) (hf : IsFilter filter)
    (hl : IsLog log address topics) :
    (LogFilter.fromValue toLowercase filter).topicsMatch toLowercase log = true ↔
      ∀ items, filter.get "topics" = some (.array items) → ∀ (i : ℕ) item,
        items[i]? = some item →
          item.isNull = true ∨ ∃ t, topics[i]? = some t ∧ OneOf (alternatives item) t := by
  rw [LogFilter.topicsMatch, LogFilter.fromValue]
  cases ht : filter.get "topics" with
  | none => simp
  | some t =>
    rcases hf.topics t ht with rfl | ⟨items, rfl, hitems⟩
    · simp [Value.asArray]
    · simp only [Option.bind_some, Value.asArray_array, Option.map_some, List.all_eq_true,
        Prod.forall, List.mk_mem_zipIdx_iff_getElem?, List.getElem?_map, Option.some.injEq,
        Value.array.injEq, forall_eq', logTopics_eq hl]
      rw [forall_comm]
      refine forall_congr' fun i => ?_
      cases hitem : items[i]? with
      | none => simp
      | some item =>
        have halts := hitems item (List.mem_of_getElem? hitem)
        simp only [Option.map_some, Option.some.injEq, forall_eq', halts.stringOrStrings_eq]
        cases hnull : item.isNull with
        | true => simp
        | false =>
          cases ht' : topics[i]? with
          | none => simp
          | some t =>
            have ht'' := toLower_toLowercase hlower
              (hl.isHex_topics t (List.mem_of_getElem? ht'))
            simpa using any_eqIgnoreAsciiCase hlower ht'' halts.isHex

/-- **What the matcher asks for**: the same, but that only what is absent or `null` is no
constraint. -/
theorem isMatch_iff (hlower : LowersAscii toLowercase) (hf : IsFilter filter)
    (hl : IsLog log address topics) :
    (LogFilter.fromValue toLowercase filter).isMatch toLowercase log = true ↔
      (∀ a, filter.get "address" = some a → a.isNull = true ∨ OneOf (alternatives a) address) ∧
      ∀ items, filter.get "topics" = some (.array items) → ∀ (i : ℕ) item,
        items[i]? = some item →
          item.isNull = true ∨ ∃ t, topics[i]? = some t ∧ OneOf (alternatives item) t := by
  rw [LogFilter.isMatch, Bool.and_eq_true, addressMatches_iff hlower hf hl,
    topicsMatch_iff hlower hf hl]

theorem accepts_iff (hf : IsFilter filter) : Accepts filter address topics ↔
    (∀ a, filter.get "address" = some a →
      alternatives a = [] ∨ OneOf (alternatives a) address) ∧
    ∀ items, filter.get "topics" = some (.array items) → ∀ (i : ℕ) item, items[i]? = some item →
      alternatives item = [] ∨ ∃ t, topics[i]? = some t ∧ OneOf (alternatives item) t := by
  have haddress : (filterAddresses filter = [] ∨ OneOf (filterAddresses filter) address) ↔
      ∀ a, filter.get "address" = some a →
        alternatives a = [] ∨ OneOf (alternatives a) address := by
    rw [filterAddresses]
    cases filter.get "address" <;> simp
  have htopics : (∀ (i : ℕ) (alts : List String), (filterTopics filter)[i]? = some alts →
        alts = [] ∨ ∃ t, topics[i]? = some t ∧ OneOf alts t) ↔
      ∀ items, filter.get "topics" = some (.array items) → ∀ (i : ℕ) item,
        items[i]? = some item →
          alternatives item = [] ∨ ∃ t, topics[i]? = some t ∧ OneOf (alternatives item) t := by
    rw [filterTopics]
    cases ht : filter.get "topics" with
    | none => simp
    | some t =>
      rcases hf.topics t ht with rfl | ⟨items, rfl, -⟩
      · simp [Value.asArray]
      · simp
  rw [← haddress, ← htopics]
  exact ⟨fun h => ⟨h.address, h.topics⟩, fun h => ⟨h.1, h.2⟩⟩

/-! ### Empty lists -/

/-- A filter with an empty list in it matches nothing, whatever the log. -/
theorem not_isMatch_of_hasEmptyList (hlower : LowersAscii toLowercase) (hf : IsFilter filter)
    (hempty : HasEmptyList filter) (hl : IsLog log address topics) :
    (LogFilter.fromValue toLowercase filter).isMatch toLowercase log = false := by
  rw [← Bool.not_eq_true, isMatch_iff hlower hf hl]
  rintro ⟨haddress, htopics⟩
  rcases hempty with ha | ⟨items, ht, hmem⟩
  · rcases haddress _ ha with hnull | ⟨a, ha, -⟩
    · cases hnull
    · exact List.not_mem_nil ha
  · obtain ⟨i, hi⟩ := List.getElem?_of_mem hmem
    rcases htopics items ht i _ hi with hnull | ⟨t, -, a, ha, -⟩
    · cases hnull
    · exact List.not_mem_nil ha

/-- The first alternative, or any string where nothing is asked for. -/
def pick (alts : List String) : String := alts.headD "0x0"

theorem isHex_pick (h : ∀ a ∈ alts, IsHex a) : IsHex (pick alts) := by
  cases alts with
  | nil => exact isHex_of_all ['0'] rfl rfl
  | cons a alts => exact h a List.mem_cons_self

theorem oneOf_pick : alts = [] ∨ OneOf alts (pick alts) := by
  cases alts with
  | nil => exact .inl rfl
  | cons a alts => exact .inr ⟨a, List.mem_cons_self, rfl⟩

/-- The log with the first of all alternatives. -/
def acceptedLog (filter : Value) : Value :=
  .object [("address", .string (pick (filterAddresses filter))),
    ("topics", .array (((filterTopics filter).map pick).map .string))]

/-- **Every filter asks for some log.** So a filter that matches nothing is never what was asked
for. -/
theorem exists_accepts (hf : IsFilter filter) :
    IsLog (acceptedLog filter) (pick (filterAddresses filter)) ((filterTopics filter).map pick) ∧
      Accepts filter (pick (filterAddresses filter)) ((filterTopics filter).map pick) := by
  have haddresses : ∀ a ∈ filterAddresses filter, IsHex a := by
    rw [filterAddresses]
    cases ha : filter.get "address" with
    | none => exact fun a ha => absurd ha List.not_mem_nil
    | some a => exact (hf.address a ha).isHex
  have htopics : ∀ alts ∈ filterTopics filter, ∀ a ∈ alts, IsHex a := by
    rw [filterTopics]
    cases ht : filter.get "topics" with
    | none => exact fun alts halts => absurd halts List.not_mem_nil
    | some t =>
      rcases hf.topics t ht with rfl | ⟨items, rfl, hitems⟩
      · exact fun alts halts => absurd halts List.not_mem_nil
      · exact List.forall_mem_map.mpr fun item hitem => (hitems item hitem).isHex
  refine ⟨⟨rfl, rfl, isHex_pick haddresses, ?_⟩, ⟨oneOf_pick, fun i alts hi => ?_⟩⟩
  · exact List.forall_mem_map.mpr fun alts halts => isHex_pick (htopics alts halts)
  · refine oneOf_pick.imp_right fun h => ⟨pick alts, ?_, h⟩
    rw [List.getElem?_map, hi]
    rfl

/-- **The matcher agrees with what the filter asks for, on every log, exactly when there is no empty
list in the filter.** -/
theorem isMatch_iff_accepts (toLowercase : String → String) (hlower : LowersAscii toLowercase)
    (filter : Value) (hf : IsFilter filter) :
    (∀ log address topics, IsLog log address topics →
      ((LogFilter.fromValue toLowercase filter).isMatch toLowercase log = true ↔
        Accepts filter address topics)) ↔
      ¬ HasEmptyList filter := by
  constructor
  · intro h hempty
    obtain ⟨hl, haccepts⟩ := exists_accepts hf
    have hmatch := (h _ _ _ hl).mpr haccepts
    rw [not_isMatch_of_hasEmptyList hlower hf hempty hl] at hmatch
    cases hmatch
  · intro hnone log address topics hl
    rw [isMatch_iff hlower hf hl, accepts_iff hf]
    refine and_congr (forall_congr' fun a => imp_congr_right fun ha => ?_)
      (forall_congr' fun items => imp_congr_right fun ht => forall_congr' fun i =>
        forall_congr' fun item => imp_congr_right fun hi => ?_)
    · have hne : a ≠ .array [] := fun heq => hnone (.inl (heq ▸ ha))
      rw [(hf.address a ha).eq_nil_iff, or_iff_left hne]
    · have hitem := List.mem_of_getElem? hi
      have hne : item ≠ .array [] := fun heq => hnone (.inr ⟨items, ht, heq ▸ hitem⟩)
      rcases hf.topics _ ht with heq | ⟨items', heq, hitems⟩
      · cases heq
      · cases heq
        rw [(hitems item hitem).eq_nil_iff, or_iff_left hne]

end Match

/-- Any address, and one of no topics at the first position. -/
def noTopics : Value := .object [("topics", .array [.array []])]

/-- An address, one of two topics at the first position and any topic at the second. -/
def transferFilter : Value :=
  .object [("address", .string "0xABC"),
    ("topics", .array [.array [.string "0x8c5b", .string "0xDDF2"], .null])]

/-- A log of one topic. -/
def transferLog : Value :=
  .object [("address", .string "0xabc"), ("topics", .array [.string "0xddf2"])]

theorem lowersAscii_toLower : LowersAscii String.toLower := fun _ _ => rfl

theorem isFilter_noTopics : IsFilter noTopics where
  address a h := by cases h
  topics t h := by
    obtain rfl := Option.some.inj h
    have hempty : IsAlternatives (.array ([].map .string)) := .list (List.forall_mem_nil _)
    exact .inr ⟨_, rfl, List.forall_mem_singleton.mpr hempty⟩

theorem isFilter_transferFilter : IsFilter transferFilter where
  address a h := by
    obtain rfl := Option.some.inj h
    exact .one (isHex_of_all ['A', 'B', 'C'] rfl rfl)
  topics t h := by
    obtain rfl := Option.some.inj h
    have hlist : IsAlternatives (.array (["0x8c5b", "0xDDF2"].map .string)) := by
      refine .list (List.forall_mem_cons.mpr ⟨isHex_of_all ['8', 'c', '5', 'b'] rfl rfl, ?_⟩)
      exact List.forall_mem_singleton.mpr (isHex_of_all ['D', 'D', 'F', '2'] rfl rfl)
    exact .inr ⟨_, rfl, List.forall_mem_cons.mpr ⟨hlist, List.forall_mem_singleton.mpr .any⟩⟩

theorem isLog_transferLog : IsLog transferLog "0xabc" ["0xddf2"] where
  get_address := rfl
  get_topics := rfl
  isHex_address := isHex_of_all ['a', 'b', 'c'] rfl rfl
  isHex_topics := List.forall_mem_singleton.mpr (isHex_of_all ['d', 'd', 'f', '2'] rfl rfl)

theorem transferFilter_agrees :
    (LogFilter.fromValue String.toLower transferFilter).isMatch String.toLower transferLog =
        true ↔
      Accepts transferFilter "0xabc" ["0xddf2"] := by
  refine (isMatch_iff_accepts String.toLower lowersAscii_toLower transferFilter
    isFilter_transferFilter).mpr ?_ transferLog _ _ isLog_transferLog
  rintro (h | ⟨items, h, hmem⟩)
  · cases h
  · obtain rfl := Value.array.inj (Option.some.inj h)
    simp at hmem

/-- `noTopics` asks for every log and does not match one. -/
theorem noTopics_disagrees :
    IsFilter noTopics ∧ IsLog transferLog "0xabc" ["0xddf2"] ∧
      Accepts noTopics "0xabc" ["0xddf2"] ∧
      ¬ ((LogFilter.fromValue String.toLower noTopics).isMatch String.toLower transferLog =
          true ↔
        Accepts noTopics "0xabc" ["0xddf2"]) := by
  have haccepts : Accepts noTopics "0xabc" ["0xddf2"] :=
    ⟨.inl rfl, fun i alts hi => .inl (List.mem_singleton.mp (List.mem_of_getElem? hi))⟩
  refine ⟨isFilter_noTopics, isLog_transferLog, haccepts, fun h => ?_⟩
  exact absurd (h.mpr haccepts) (by decide)

end Poolbeg
