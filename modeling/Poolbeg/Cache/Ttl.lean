import Poolbeg.Cache.Layer
import Poolbeg.Trim

/-!
# From the text of a TTL to the expiry of an entry

A policy's `ttl` is written in the configuration as a number with a unit. It becomes a `TtlValue`, a
number of milliseconds in which zero stands for no expiry, and the argument of `PX`, an `i64`.

`"0"` and `"-1"` are texts of their own, for no expiry and for not storing at all. Every other
duration should expire after what is written, but on the way the minutes and hours are multiplied in
64 bits, the milliseconds are cast to 64 bits with a sign, and a duration that happens to be zero is
taken for the one that never ends. So what is stored expires as written just when that is more than
nothing and fits the cast (`honoursTtl_iff`).

## Two descriptions of a duration

`parseDurationString` does as the code does: it drops the unit at the end, the longer ones first,
trims what is left and reads a number. `Written` says what a duration is without any order of
attempts: a number and a unit with whitespace around and between them. That a text is cut in the one
way there is (`Written.splitUnit`) is what makes the two agree, for neither a number nor whitespace
has a letter in it that a unit begins with.

## Implementation notes

The multiplications are those of a release build, which wrap; a debug build panics where these do.
Whitespace is that of `char::is_whitespace`, which is more than ASCII, and `u64` accepts a plus sign
in front of its digits, so both occur in `Written`.

## Main definitions

* `DurationUnit`, `parseU64`, `parseDurationString`, `deserializeTtl` — as in the code
* `Written` — the texts of durations
* `Issues`, `HonoursTtl` — what a TTL asks of the commands of a store

## Main results

* `parseDurationString_eq_some_iff` — what is read is what is written, up to the wrapping
* `honoursTtl_iff` — when an entry expires as its policy says
-/

namespace Poolbeg

/-! ### Reading a duration -/

/-- `char::is_whitespace`, the code points with the property White_Space. -/
def isWhiteSpace (c : Char) : Bool :=
  let n := c.toNat
  0x09 ≤ n && n ≤ 0x0D || n == 0x20 || n == 0x85 || n == 0xA0 || n == 0x1680 ||
    0x2000 ≤ n && n ≤ 0x200A || n == 0x2028 || n == 0x2029 || n == 0x202F || n == 0x205F ||
    n == 0x3000

/-- The decimal digits of a `u64`, most significant first, failing on overflow. The digits before
are in the accumulator. -/
def accumulate10 : ℕ → List Char → Option ℕ
  | acc, [] => some acc
  | acc, c :: cs =>
    if c.isDigit ∧ 10 * acc + (c.toNat - '0'.toNat) < 2 ^ 64 then
      accumulate10 (10 * acc + (c.toNat - '0'.toNat)) cs
    else none

/-- `str::parse::<u64>`. A plus sign is allowed, but it is no number by itself, and neither is no
text at all. -/
def parseU64 : List Char → Option ℕ
  | [] => none
  | ['+'] => none
  | '+' :: cs => accumulate10 0 cs
  | cs => accumulate10 0 cs

/-- The units. A number without any is one of seconds. -/
inductive DurationUnit
  | ms
  | s
  | m
  | h

namespace DurationUnit

def suffix : DurationUnit → List Char
  | ms => ['m', 's']
  | s => ['s']
  | m => ['m']
  | h => ['h']

/-- The milliseconds in one. -/
def millis : DurationUnit → ℕ
  | ms => 1
  | s => 1000
  | m => 60000
  | h => 3600000

/-- The `Duration` of so many, in milliseconds: minutes and hours are made seconds in a `u64`, where
they may wrap around. Nothing wraps in milliseconds and seconds. -/
def duration : DurationUnit → ℕ → ℕ
  | ms, n => n
  | s, n => n * 1000
  | m, n => n * 60 % 2 ^ 64 * 1000
  | h, n => n * 3600 % 2 ^ 64 * 1000

/-- One branch of `parse_duration_string`, on what is left of the text without the suffix. There may
be whitespace between the number and its unit. -/
def parse (unit : DurationUnit) (rest : List Char) : Option ℕ :=
  (parseU64 (trim isWhiteSpace rest)).map unit.duration

end DurationUnit

/-- `parse_duration_string`. The suffixes are tried in this order, and `ms` has to come before `s`,
which it ends in. -/
def parseDurationString (s : String) : Option ℕ :=
  let s := trim isWhiteSpace s.toList
  match s.dropSuffix? DurationUnit.ms.suffix with
  | some rest => DurationUnit.ms.parse rest
  | none =>
  match s.dropSuffix? DurationUnit.s.suffix with
  | some rest => DurationUnit.s.parse rest
  | none =>
  match s.dropSuffix? DurationUnit.m.suffix with
  | some rest => DurationUnit.m.parse rest
  | none =>
  match s.dropSuffix? DurationUnit.h.suffix with
  | some rest => DurationUnit.h.parse rest
  -- a number of seconds
  | none => (parseU64 s).map DurationUnit.s.duration

/-- `deserialize_ttl`. The two reserved texts are compared as they are, so `" 0"` is a duration of
zero seconds. -/
def deserializeTtl (s : String) : Option TtlValue :=
  if s = "-1" then some .never
  else if s = "0" then some .forever
  else (parseDurationString s).map .duration

/-! ### The texts of durations -/

/-- The digits of a number, which may have a sign in front. -/
def unsigned : List Char → List Char
  | '+' :: cs => cs
  | cs => cs

/-- Decimal digits that write `n`. -/
structure IsNumeral (cs : List Char) (n : ℕ) : Prop where
  ne_nil : unsigned cs ≠ []
  isDigit : ∀ c ∈ unsigned cs, c.isDigit
  value : n = Nat.ofDigitChars 10 (unsigned cs) 0

/-- Nothing but whitespace, perhaps nothing at all. -/
def Blank (cs : List Char) : Prop := ∀ c ∈ cs, isWhiteSpace c

/-- **The text of a duration**: a number and a unit, which is seconds when there is none, with
whitespace around them and between them. The number need not fit anything here. -/
def Written (s : String) (n : ℕ) (unit : DurationUnit) : Prop :=
  ∃ before numeral between suffix after,
    s.toList = before ++ (numeral ++ between ++ suffix) ++ after ∧
      (Blank before ∧ Blank between ∧ Blank after) ∧ IsNumeral numeral n ∧
      (suffix = unit.suffix ∨ suffix = [] ∧ unit = .s)

/-! ### Numbers -/

section Numbers

variable {cs : List Char} {c : Char} {acc n n' : ℕ}

theorem IsNumeral.unique (h : IsNumeral cs n) (h' : IsNumeral cs n') : n = n' :=
  h.value.trans h'.value.symm

theorem eq_or_eq_cons_unsigned (cs : List Char) : cs = unsigned cs ∨ cs = '+' :: unsigned cs := by
  unfold unsigned
  split
  · exact .inr rfl
  · exact .inl rfl

theorem IsNumeral.eq_plus_or_isDigit (h : IsNumeral cs n) (hc : c ∈ cs) : c = '+' ∨ c.isDigit := by
  obtain heq | heq := eq_or_eq_cons_unsigned cs
  · rw [heq] at hc
    exact .inr (h.isDigit c hc)
  · rw [heq, List.mem_cons] at hc
    exact hc.imp id (h.isDigit c)

theorem IsNumeral.ne_nil' (h : IsNumeral cs n) : cs ≠ [] := by
  rintro rfl
  exact h.ne_nil rfl

/-- Reading on never makes the number smaller, so an overflow is not made good by the digits that
follow. -/
theorem le_ofDigitChars (cs : List Char) (acc : ℕ) : acc ≤ Nat.ofDigitChars 10 cs acc := by
  rw [Nat.ofDigitChars_eq_ofDigitChars_zero]
  have hpow : 0 < 10 ^ cs.length := Nat.pow_pos (by norm_num)
  exact (Nat.le_mul_of_pos_left acc hpow).trans (Nat.le_add_right _ _)

/-- Reading digits is reading the number they write, as long as it fits. -/
theorem accumulate10_eq_some_iff (hacc : acc < 2 ^ 64) :
    accumulate10 acc cs = some n ↔
      (∀ c ∈ cs, c.isDigit) ∧ n = Nat.ofDigitChars 10 cs acc ∧ n < 2 ^ 64 := by
  induction cs generalizing acc with
  | nil =>
    rw [accumulate10, Nat.ofDigitChars_nil, Option.some.injEq]
    constructor
    · rintro rfl
      exact ⟨fun _ hc => absurd hc List.not_mem_nil, rfl, hacc⟩
    · exact fun h => h.2.1.symm
  | cons c cs ih =>
    rw [accumulate10, Nat.ofDigitChars_cons, List.forall_mem_cons]
    split
    · rename_i hc
      rw [ih hc.2, and_assoc]
      exact (and_iff_right hc.1).symm
    · rename_i hc
      refine iff_of_false (fun h => by cases h) ?_
      rintro ⟨⟨hdigit, -⟩, rfl, hlt⟩
      exact hc ⟨hdigit, (le_ofDigitChars cs _).trans_lt hlt⟩

/-- A sign makes no difference, except that something must follow it. -/
theorem parseU64_eq (cs : List Char) :
    parseU64 cs = if unsigned cs = [] then none else accumulate10 0 (unsigned cs) := by
  unfold parseU64
  split
  · rfl
  · rfl
  · rename_i cs hne
    exact (if_neg fun hnil => hne hnil).symm
  · rename_i hnil _ hplus
    have hself : unsigned cs = cs := by
      unfold unsigned
      split
      · exact absurd rfl (hplus _)
      · rfl
    rw [hself, if_neg hnil]

/-- **The numbers that are read.** -/
theorem parseU64_eq_some_iff : parseU64 cs = some n ↔ IsNumeral cs n ∧ n < 2 ^ 64 := by
  rw [parseU64_eq]
  split
  · rename_i hnil
    exact iff_of_false (fun h => by cases h) fun h => h.1.ne_nil hnil
  · rename_i hne
    rw [accumulate10_eq_some_iff (by norm_num)]
    exact ⟨fun ⟨hdigits, hvalue, hlt⟩ => ⟨⟨hne, hdigits, hvalue⟩, hlt⟩,
      fun ⟨⟨_, hdigits, hvalue⟩, hlt⟩ => ⟨hdigits, hvalue, hlt⟩⟩

end Numbers

/-! ### The number and the unit of a text -/

/-- The text of the number, and the unit, that a text without whitespace around it is split into.
Without a suffix it is all number, of seconds. -/
def splitUnit (s : List Char) : List Char × DurationUnit :=
  match s.dropSuffix? DurationUnit.ms.suffix with
  | some rest => (trim isWhiteSpace rest, .ms)
  | none =>
  match s.dropSuffix? DurationUnit.s.suffix with
  | some rest => (trim isWhiteSpace rest, .s)
  | none =>
  match s.dropSuffix? DurationUnit.m.suffix with
  | some rest => (trim isWhiteSpace rest, .m)
  | none =>
  match s.dropSuffix? DurationUnit.h.suffix with
  | some rest => (trim isWhiteSpace rest, .h)
  | none => (s, .s)

section Split

variable {s : String} {cs rest numeral between : List Char} {c : Char} {n n' ms : ℕ}
  {unit unit' : DurationUnit}

/-- The code's chain of attempts finds the unit first and reads the number afterwards. If the number
is none, no other unit is tried. -/
theorem parseDurationString_eq (s : String) :
    parseDurationString s =
      (parseU64 (splitUnit (trim isWhiteSpace s.toList)).1).map
        (splitUnit (trim isWhiteSpace s.toList)).2.duration := by
  simp only [parseDurationString, splitUnit]
  repeat' split
  all_goals rfl

theorem dropSuffix?_eq_some {suffix : List Char} :
    cs.dropSuffix? suffix = some rest ↔ cs = rest ++ suffix := by
  rw [List.dropSuffix?_eq_some_iff]
  simp

theorem dropSuffix?_eq_none {suffix : List Char} (h : ∀ rest, cs ≠ rest ++ suffix) :
    cs.dropSuffix? suffix = none :=
  Option.eq_none_iff_forall_ne_some.mpr fun rest hrest => h rest (dropSuffix?_eq_some.mp hrest)

theorem dropSuffix?_concat_of_ne (suffix : List Char) {c' : Char} (h : c ≠ c') :
    (cs ++ [c]).dropSuffix? (suffix ++ [c']) = none := by
  refine dropSuffix?_eq_none fun rest heq => ?_
  rw [← List.append_assoc] at heq
  exact h (List.cons.inj (List.append_inj' heq rfl).2).1

theorem not_isWhiteSpace_of_isDigit (h : c.isDigit) : ¬ isWhiteSpace c := by
  have hrange : 48 ≤ c.toNat ∧ c.toNat ≤ 57 := by
    simpa [Char.isDigit, UInt32.le_iff_toNat_le] using h
  simp [isWhiteSpace]
  omega

theorem IsNumeral.not_isWhiteSpace (h : IsNumeral cs n) (hc : c ∈ cs) : ¬ isWhiteSpace c := by
  obtain rfl | hdigit := h.eq_plus_or_isDigit hc
  · decide
  · exact not_isWhiteSpace_of_isDigit hdigit

theorem blank_nil : Blank [] := fun _ hc => absurd hc List.not_mem_nil

theorem IsNumeral.trim_append (h : IsNumeral numeral n) (hbetween : Blank between) :
    trim isWhiteSpace (numeral ++ between) = numeral := by
  rw [← List.nil_append numeral,
    trim_append_append blank_nil hbetween, List.nil_append, trim_eq_self]
  · exact fun _ hc => h.not_isWhiteSpace (List.mem_of_head? hc)
  · exact fun _ hc => h.not_isWhiteSpace (List.mem_of_getLast? hc)

/-- No unit begins inside a number and the whitespace after it, so what is split off is the unit
that was written. -/
theorem IsNumeral.not_mem (h : IsNumeral numeral n) (hbetween : Blank between)
    (hplus : c ≠ '+') (hdigit : ¬ c.isDigit) (hblank : ¬ isWhiteSpace c) :
    c ∉ numeral ++ between := by
  rw [List.mem_append]
  rintro (hc | hc)
  · exact (h.eq_plus_or_isDigit hc).elim hplus hdigit
  · exact hblank (hbetween c hc)

/-- A number with a unit. -/
theorem IsNumeral.splitUnit_append (h : IsNumeral numeral n) (hbetween : Blank between) :
    splitUnit (numeral ++ between ++ unit.suffix) = (numeral, unit) := by
  have hsome : (numeral ++ between ++ unit.suffix).dropSuffix? unit.suffix =
      some (numeral ++ between) := dropSuffix?_eq_some.mpr rfl
  cases unit with
  | ms => simp only [splitUnit, hsome, h.trim_append hbetween]
  | s =>
    -- the last letter is that of `ms`, so it is the one before that tells
    have hms : (numeral ++ between ++ DurationUnit.s.suffix).dropSuffix?
        DurationUnit.ms.suffix = none := by
      refine dropSuffix?_eq_none fun rest heq => ?_
      have hs : numeral ++ between ++ ['s'] = rest ++ ['m'] ++ ['s'] := by
        rw [List.append_assoc rest]
        exact heq
      have hm := List.append_cancel_right hs
      refine h.not_mem hbetween (c := 'm') (by decide) (by decide) (by decide) ?_
      rw [hm]
      exact List.mem_append_right _ List.mem_cons_self
    simp only [splitUnit, hms, hsome, h.trim_append hbetween]
  | m =>
    have hms : (numeral ++ between ++ DurationUnit.m.suffix).dropSuffix?
        DurationUnit.ms.suffix = none := dropSuffix?_concat_of_ne ['m'] (by decide)
    have hs : (numeral ++ between ++ DurationUnit.m.suffix).dropSuffix?
        DurationUnit.s.suffix = none := dropSuffix?_concat_of_ne [] (by decide)
    simp only [splitUnit, hms, hs, hsome, h.trim_append hbetween]
  | h =>
    have hms : (numeral ++ between ++ DurationUnit.h.suffix).dropSuffix?
        DurationUnit.ms.suffix = none := dropSuffix?_concat_of_ne ['m'] (by decide)
    have hs : (numeral ++ between ++ DurationUnit.h.suffix).dropSuffix?
        DurationUnit.s.suffix = none := dropSuffix?_concat_of_ne [] (by decide)
    have hm : (numeral ++ between ++ DurationUnit.h.suffix).dropSuffix?
        DurationUnit.m.suffix = none := dropSuffix?_concat_of_ne [] (by decide)
    simp only [splitUnit, hms, hs, hm, hsome, h.trim_append hbetween]

/-- A number without a unit. -/
theorem IsNumeral.splitUnit_self (h : IsNumeral numeral n) : splitUnit numeral = (numeral, .s) := by
  have hnone : ∀ unit : DurationUnit, numeral.dropSuffix? unit.suffix = none := by
    intro unit
    refine dropSuffix?_eq_none fun rest heq => ?_
    obtain ⟨c, hc, hplus, hdigit, hblank⟩ : ∃ c ∈ unit.suffix,
        c ≠ '+' ∧ ¬ c.isDigit ∧ ¬ isWhiteSpace c := by
      cases unit with
      | ms | m => exact ⟨'m', List.mem_cons_self, by decide, by decide, by decide⟩
      | s => exact ⟨'s', List.mem_cons_self, by decide, by decide, by decide⟩
      | h => exact ⟨'h', List.mem_cons_self, by decide, by decide, by decide⟩
    have hmem : c ∈ numeral ++ [] := by
      rw [List.append_nil, heq]
      exact List.mem_append_right _ hc
    exact h.not_mem blank_nil hplus hdigit hblank hmem
  simp only [splitUnit, hnone]

theorem IsNumeral.trim_append_suffix (h : IsNumeral numeral n) :
    trim isWhiteSpace (numeral ++ between ++ unit.suffix) = numeral ++ between ++ unit.suffix := by
  refine trim_eq_self (fun c hc => ?_) fun c hc => ?_
  · rw [List.append_assoc, List.head?_append_of_ne_nil _ h.ne_nil'] at hc
    exact h.not_isWhiteSpace (List.mem_of_head? hc)
  · rw [List.getLast?_append] at hc
    cases unit with
    | ms | s => exact Option.some.inj hc ▸ by decide
    | m => exact Option.some.inj hc ▸ by decide
    | h => exact Option.some.inj hc ▸ by decide

/-- A text is split into the number and the unit it is written with. -/
theorem Written.splitUnit (h : Written s n unit) :
    ∃ numeral, splitUnit (trim isWhiteSpace s.toList) = (numeral, unit) ∧ IsNumeral numeral n := by
  obtain ⟨before, numeral, between, suffix, after, hs, ⟨hbefore, hbetween, hafter⟩, hnumeral,
    hunit⟩ := h
  refine ⟨numeral, ?_, hnumeral⟩
  rw [hs, trim_append_append hbefore hafter]
  obtain rfl | ⟨rfl, rfl⟩ := hunit
  · rw [hnumeral.trim_append_suffix, hnumeral.splitUnit_append hbetween]
  · rw [List.append_nil, hnumeral.trim_append hbetween, hnumeral.splitUnit_self]

/-- What stands around the number in a text from which a unit was dropped. -/
theorem exists_of_dropSuffix? (h : cs.dropSuffix? unit.suffix = some rest) :
    ∃ lead between suffix, cs = lead ++ (trim isWhiteSpace rest ++ between ++ suffix) ∧
      (Blank lead ∧ Blank between) ∧ (suffix = unit.suffix ∨ suffix = [] ∧ unit = .s) := by
  obtain ⟨lead, between, hrest, hlead, hbetween⟩ := exists_eq_append_trim isWhiteSpace rest
  refine ⟨lead, between, unit.suffix, ?_, ⟨hlead, hbetween⟩, .inl rfl⟩
  rw [dropSuffix?_eq_some.mp h, ← List.append_assoc, ← List.append_assoc, ← hrest]

/-- What stands around the number in any text, whether a unit was found or not: nothing but
whitespace. -/
theorem exists_of_splitUnit (cs : List Char) :
    ∃ lead between suffix, cs = lead ++ ((splitUnit cs).1 ++ between ++ suffix) ∧
      (Blank lead ∧ Blank between) ∧
      (suffix = (splitUnit cs).2.suffix ∨ suffix = [] ∧ (splitUnit cs).2 = .s) := by
  unfold splitUnit
  split
  · exact exists_of_dropSuffix? ‹_›
  split
  · exact exists_of_dropSuffix? ‹_›
  split
  · exact exists_of_dropSuffix? ‹_›
  split
  · exact exists_of_dropSuffix? ‹_›
  · exact ⟨[], [], [], by simp, ⟨blank_nil, blank_nil⟩, .inr ⟨rfl, rfl⟩⟩

theorem written_of_splitUnit (h : IsNumeral (splitUnit (trim isWhiteSpace s.toList)).1 n) :
    Written s n (splitUnit (trim isWhiteSpace s.toList)).2 := by
  obtain ⟨before, after, hs, hbefore, hafter⟩ := exists_eq_append_trim isWhiteSpace s.toList
  obtain ⟨lead, between, suffix, hcs, ⟨hlead, hbetween⟩, hsuffix⟩ :=
    exists_of_splitUnit (trim isWhiteSpace s.toList)
  refine ⟨before ++ lead, _, between, suffix, after, ?_, ⟨?_, hbetween, hafter⟩, h, hsuffix⟩
  · rw [List.append_assoc before, ← hcs]
    exact hs
  · intro c hc
    exact (List.mem_append.mp hc).elim (hbefore c) (hlead c)

/-- A text writes one duration. -/
theorem Written.unique (h : Written s n unit) (h' : Written s n' unit') :
    n = n' ∧ unit = unit' := by
  obtain ⟨numeral, hsplit, hnumeral⟩ := h.splitUnit
  obtain ⟨numeral', hsplit', hnumeral'⟩ := h'.splitUnit
  obtain ⟨rfl, rfl⟩ := Prod.mk.inj (hsplit.symm.trans hsplit')
  exact ⟨hnumeral.unique hnumeral', rfl⟩

/-- **What `parse_duration_string` reads**: what is written as a duration, if its number fits a
`u64`. -/
theorem parseDurationString_eq_some_iff :
    parseDurationString s = some ms ↔
      ∃ n unit, Written s n unit ∧ n < 2 ^ 64 ∧ ms = unit.duration n := by
  rw [parseDurationString_eq, Option.map_eq_some_iff]
  constructor
  · rintro ⟨n, hn, rfl⟩
    obtain ⟨hnumeral, hlt⟩ := parseU64_eq_some_iff.mp hn
    exact ⟨n, _, written_of_splitUnit hnumeral, hlt, rfl⟩
  · rintro ⟨n, unit, hwritten, hlt, rfl⟩
    obtain ⟨numeral, hsplit, hnumeral⟩ := hwritten.splitUnit
    rw [hsplit]
    exact ⟨n, parseU64_eq_some_iff.mpr ⟨hnumeral, hlt⟩, rfl⟩

end Split

/-! ### Sixty-four bits -/

section Bits

variable {ms n : ℕ} {unit : DurationUnit}

theorem asI64_lt (ms : ℕ) : asI64 ms < 2 ^ 63 := Int.bmod_lt (by norm_num)

/-- The cast leaves alone what fits. What does not fit may come out negative. -/
theorem asI64_of_lt (h : ms < 2 ^ 63) : asI64 ms = ms :=
  Int.bmod_eq_of_le (by omega) (by omega)

/-- Nothing wraps when the duration fits the cast: the bound on the result is one on what is
multiplied. -/
theorem DurationUnit.duration_of_lt (h : n * unit.millis < 2 ^ 63) :
    unit.duration n = n * unit.millis := by
  cases unit <;> simp only [millis, duration] at * <;> omega

end Bits

/-! ### What is stored -/

variable {Text : Type}

/-- The first policy that matches a request. Those after it do not count. -/
def CacheConfig.firstMatch (config : CacheConfig) (method : String) (isUnfinalized : Bool) :
    Option CachePolicy :=
  config.policies.find? fun policy =>
    matchesMethod policy.methods method &&
      matchesFinality policy.finality (if isUnfinalized then .unfinalized else .finalized)

/-- What a policy's TTL resolves to. A duration of zero is the same as no expiry here. -/
def TtlValue.resolve : TtlValue → Option ℕ
  | .never => none
  | .forever => some 0
  | .duration ms => some ms

/-- The `PX` option for a TTL. Zero is no option at all. -/
def expiry (ms : ℕ) : Option ℤ := if ms = 0 then none else some (asI64 ms)

/-- A `SET` with this `PX` option is among the commands, whatever its key and value. -/
def Issues (commands : List (Command Text)) (px : Option ℤ) : Prop :=
  ∃ key value, .set key value px ∈ commands

/-- **What the text of a TTL asks of the commands of a store**: no expiry for `"0"` and only for it,
no command for `"-1"` and only for it, and for any other text the expiry that it writes. -/
structure HonoursTtl (s : String) (commands : List (Command Text)) : Prop where
  no_expiry : Issues commands none ↔ s = "0"
  not_issued : (∀ px, ¬ Issues commands px) ↔ s = "-1"
  expiry : s ≠ "0" → s ≠ "-1" → ∃ n unit, Written s n unit ∧
    Issues commands (some ((n * unit.millis : ℕ) : ℤ))

section Stored

variable {serde : SerdeJson Text} {blake3 : Blake3 Text} {config : CacheConfig} {chainId : ℕ}
  {req : JsonRpcRequest} {resp : JsonRpcResponse} {isUnfinalized : Bool} {policy : CachePolicy}
  {s : String} {px : Option ℤ} {ms : ℕ}

theorem resolveTtl_of_firstMatch
    (hpolicy : config.firstMatch req.method isUnfinalized = some policy) :
    resolveTtl config req.method isUnfinalized = policy.ttl.resolve := by
  rw [CacheConfig.firstMatch] at hpolicy
  rw [resolveTtl, hpolicy]
  rfl

theorem issues_clientSet {key : String} {value : Text} {rest : List (Command Text)}
    (hrest : ∀ key value px, .set key value px ∉ rest) :
    Issues (RedisClient.set key value ms :: rest) px ↔ px = expiry ms := by
  rw [RedisClient.set, expiry]
  split
  · simp [Issues, hrest]
  · simp [Issues, hrest]

/-- The one `SET` of a store. The other commands of it track the key and set nothing. -/
theorem CacheLayer.issues_set_iff :
    Issues (CacheLayer.set serde blake3 config chainId req resp isUnfinalized) px ↔
      ∃ ms, resolveTtl config req.method isUnfinalized = some ms ∧ px = expiry ms := by
  rw [CacheLayer.set]
  cases resolveTtl config req.method isUnfinalized with
  | none => simp [Issues]
  | some ms =>
    simp only [Option.some.injEq, exists_eq_left']
    refine issues_clientSet ?_
    cases isUnfinalized <;> simp

theorem honoursTtl_of_never {commands : List (Command Text)}
    (hissues : ∀ px, ¬ Issues commands px) : HonoursTtl "-1" commands where
  no_expiry := iff_of_false (hissues none) (by decide)
  not_issued := iff_of_true hissues rfl
  expiry _ h := absurd rfl h

theorem honoursTtl_of_forever {commands : List (Command Text)}
    (hissues : ∀ px, Issues commands px ↔ px = none) : HonoursTtl "0" commands where
  no_expiry := iff_of_true ((hissues none).mpr rfl) rfl
  not_issued := iff_of_false (fun h => h none ((hissues none).mpr rfl)) (by decide)
  expiry h := absurd rfl h

/-- A duration, by what it becomes. -/
theorem honoursTtl_iff_of_written {commands : List (Command Text)} {n : ℕ} {unit : DurationUnit}
    (hnever : s ≠ "-1") (hforever : s ≠ "0") (hwritten : Written s n unit)
    (hissues : ∀ px, Issues commands px ↔ px = expiry (unit.duration n)) :
    HonoursTtl s commands ↔ 0 < n * unit.millis ∧ n * unit.millis < 2 ^ 63 := by
  constructor
  · intro h
    obtain ⟨n', unit', hwritten', hpx⟩ := h.expiry hforever hnever
    obtain ⟨rfl, rfl⟩ := hwritten.unique hwritten'
    have hexpiry := (hissues _).mp hpx
    rw [expiry] at hexpiry
    split at hexpiry
    · cases hexpiry
    · rename_i hne
      have hlt : n * unit.millis < 2 ^ 63 := by
        have hcast := Option.some.inj hexpiry
        have hbound := asI64_lt (unit.duration n)
        omega
      refine ⟨Nat.pos_of_ne_zero fun hzero => hne ?_, hlt⟩
      rw [DurationUnit.duration_of_lt hlt, hzero]
  · rintro ⟨hpos, hlt⟩
    have hexpiry : expiry (unit.duration n) = some ((n * unit.millis : ℕ) : ℤ) := by
      rw [DurationUnit.duration_of_lt hlt, expiry, if_neg hpos.ne', asI64_of_lt hlt]
    rw [hexpiry] at hissues
    have hissued := (hissues _).mpr rfl
    exact {
      no_expiry := iff_of_false (fun h => Option.some_ne_none _ ((hissues none).mp h).symm) hforever
      not_issued := iff_of_false (fun h => h _ hissued) hnever
      expiry := fun _ _ => ⟨n, unit, hwritten, hissued⟩ }

/-- **What is stored expires as written exactly when the text is `"0"` or `"-1"`, or writes a
duration that is not zero and whose milliseconds fit an `i64`.** -/
theorem honoursTtl_iff (hpolicy : config.firstMatch req.method isUnfinalized = some policy)
    (httl : deserializeTtl s = some policy.ttl) :
    HonoursTtl s (CacheLayer.set serde blake3 config chainId req resp isUnfinalized) ↔
      s = "0" ∨ s = "-1" ∨ ∃ n unit, Written s n unit ∧ 0 < n * unit.millis ∧
        n * unit.millis < 2 ^ 63 := by
  have hissues : ∀ px,
      Issues (CacheLayer.set serde blake3 config chainId req resp isUnfinalized) px ↔
        ∃ ms, policy.ttl.resolve = some ms ∧ px = expiry ms := fun px => by
    rw [CacheLayer.issues_set_iff, resolveTtl_of_firstMatch hpolicy]
  rw [deserializeTtl] at httl
  split_ifs at httl with hnever hforever
  · subst hnever
    rw [← Option.some.inj httl] at hissues
    refine iff_of_true (honoursTtl_of_never fun px => ?_) (.inr (.inl rfl))
    rw [hissues]
    rintro ⟨_, hresolve, -⟩
    cases hresolve
  · subst hforever
    rw [← Option.some.inj httl] at hissues
    refine iff_of_true (honoursTtl_of_forever fun px => ?_) (.inl rfl)
    rw [hissues]
    simp [TtlValue.resolve, Poolbeg.expiry]
  · obtain ⟨ms, hms, heq⟩ := Option.map_eq_some_iff.mp httl
    obtain ⟨n, unit, hwritten, -, rfl⟩ := parseDurationString_eq_some_iff.mp hms
    rw [← heq] at hissues
    rw [honoursTtl_iff_of_written hnever hforever hwritten fun px => by
      rw [hissues]; simp [TtlValue.resolve]]
    constructor
    · exact fun h => .inr (.inr ⟨n, unit, hwritten, h⟩)
    · rintro (h | h | ⟨n', unit', hwritten', h⟩)
      · exact absurd h hforever
      · exact absurd h hnever
      · obtain ⟨rfl, rfl⟩ := hwritten.unique hwritten'
        exact h

end Stored

section Stores

/-- A policy for everything. -/
def everyPolicy (ttl : TtlValue) : CachePolicy := { methods := ["*"], finality := .any, ttl := ttl }

/-- Storing a final response under this policy. The response is not what matters. -/
def storeCommands (ttl : TtlValue) : List (Command Value) :=
  CacheLayer.set .tree (.const "" rfl) ⟨[everyPolicy ttl]⟩ 1
    { jsonrpc := "2.0", method := "eth_getBlockByHash", params := .array [], id := .null }
    (.success .null (.bool true)) false

theorem threeSeconds_honoured : HonoursTtl "3s" (storeCommands (.duration 3000)) := by
  have httl : deserializeTtl "3s" = some (everyPolicy (.duration 3000)).ttl := by decide
  have hwritten : Written "3s" 3 .s :=
    ⟨[], ['3'], [], ['s'], [], rfl, ⟨blank_nil, blank_nil, blank_nil⟩,
      { ne_nil := by decide, isDigit := List.forall_mem_singleton.mpr rfl, value := rfl }, .inl rfl⟩
  exact (honoursTtl_iff rfl httl).mpr (.inr (.inr ⟨3, .s, hwritten, by decide, by decide⟩))

/-- No time at all is stored for ever, and three hundred million years are a negative expiry. -/
theorem zeroSeconds_neverExpires :
    deserializeTtl "0s" = some (.duration 0) ∧ ¬ HonoursTtl "0s" (storeCommands (.duration 0)) ∧
      deserializeTtl "9223372036854776s" = some (.duration 9223372036854776000) ∧
      Issues (storeCommands (.duration 9223372036854776000)) (some (-9223372036854775616)) := by
  refine ⟨by decide, fun h => ?_, by decide, ?_⟩
  · have hforever := h.no_expiry.mp ⟨_, _, List.mem_singleton_self _⟩
    exact absurd hforever (by decide)
  · exact ⟨_, _, List.mem_singleton_self _⟩

end Stores

end Poolbeg
