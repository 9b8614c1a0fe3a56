import Poolbeg.Cache.Ttl

/-!
# Writing a TTL and reading it back

A `TtlValue` is serialized as the text of a TTL, so a configuration that is written out can be read
again. `"-1"` and `"0"` come back as what they were. A duration is written in whole seconds, while
it is kept in milliseconds: what is left over is lost, and a duration of less than a second comes
back as zero, which the cache takes for no expiry.

## Which durations there are

The result is about TTLs that have been read from a text, for only these can be written. Their
seconds fit a `u64` in whatever unit they were written, since minutes and hours were wrapped into
one. So what is written of them can be read, and the round trip can lose a fraction of a second but
never fail.

## Main definitions

* `TtlValue.serialize` — as in the code
* `RoundTrips` — a TTL comes back as it was
* `WholeSeconds` — it is no duration, or one without a fraction of a second

## Main results

* `deserializeTtl_serialize_duration` — what a duration comes back as
* `roundTrips_iff`, `wholeSeconds_iff_written` — which TTLs survive, by the value and by the text
-/

namespace Poolbeg

/-- `Serialize for TtlValue`. The division drops what is left over of a second, and the unit is
always that of seconds. -/
def TtlValue.serialize : TtlValue → String
  | .never => "-1"
  | .forever => "0"
  | .duration ms => toString (ms / 1000) ++ "s"

/-- **A TTL comes back as it was**, and never as one without expiry when it had one. The second part
is the worse loss: such an entry would stay for ever. -/
structure RoundTrips (ttl : TtlValue) : Prop where
  same : deserializeTtl ttl.serialize = some ttl
  expires : ∀ ms, ttl = .duration ms → 0 < ms →
    ∀ back, deserializeTtl ttl.serialize = some back → back.resolve ≠ some 0

/-- The durations without a fraction of a second, and what is not a duration. It is looked up in the
value, not in the text that it was read from. -/
def WholeSeconds (ttl : TtlValue) : Prop := ∀ ms, ttl = .duration ms → 1000 ∣ ms

variable {s : String} {ttl : TtlValue} {ms n : ℕ} {unit : DurationUnit}

/-! ### What is read -/

theorem deserializeTtl_of_written (hnever : s ≠ "-1") (hforever : s ≠ "0")
    (hwritten : Written s n unit) (hlt : n < 2 ^ 64) :
    deserializeTtl s = some (.duration (unit.duration n)) := by
  have hparse : parseDurationString s = some (unit.duration n) :=
    parseDurationString_eq_some_iff.mpr ⟨n, unit, hwritten, hlt, rfl⟩
  rw [deserializeTtl, if_neg hnever, if_neg hforever, hparse]
  rfl

/-- The seconds of a duration fit a `u64`, whatever it was written in. So what is written can be
read again. -/
theorem DurationUnit.seconds_lt (unit : DurationUnit) (hn : n < 2 ^ 64) :
    unit.duration n / 1000 < 2 ^ 64 := by
  cases unit with
  | ms => exact (Nat.div_le_self n 1000).trans_lt hn
  | s => exact (Nat.mul_div_cancel n (by norm_num)).trans_lt hn
  | m =>
    rw [duration, Nat.mul_div_cancel _ (by norm_num)]
    exact Nat.mod_lt _ (by norm_num)
  | h =>
    rw [duration, Nat.mul_div_cancel _ (by norm_num)]
    exact Nat.mod_lt _ (by norm_num)

theorem seconds_lt_of_deserializeTtl (h : deserializeTtl s = some (.duration ms)) :
    ms / 1000 < 2 ^ 64 := by
  rw [deserializeTtl] at h
  split_ifs at h
  · cases h
  · cases h
  · obtain ⟨d, hd, heq⟩ := Option.map_eq_some_iff.mp h
    obtain ⟨n, unit, -, hlt, rfl⟩ := parseDurationString_eq_some_iff.mp hd
    cases heq
    exact unit.seconds_lt hlt

/-! ### What is written -/

/-- The decimal digits of a number write it. -/
theorem isNumeral_toDigits (n : ℕ) : IsNumeral (Nat.toDigits 10 n) n := by
  have hunsigned : unsigned (Nat.toDigits 10 n) = Nat.toDigits 10 n := by
    obtain heq | hplus := eq_or_eq_cons_unsigned (Nat.toDigits 10 n)
    · exact heq.symm
    · have hdigit : ('+' : Char).isDigit :=
        Nat.isDigit_of_mem_toDigits (by norm_num) (by norm_num) (hplus ▸ List.mem_cons_self)
      exact absurd hdigit (by decide)
  exact {
    ne_nil := by
      rw [hunsigned]
      exact Nat.toDigits_ne_nil
    isDigit := by
      rw [hunsigned]
      exact fun c hc => Nat.isDigit_of_mem_toDigits (by norm_num) (by norm_num) hc
    value := by rw [hunsigned, Nat.ofDigitChars_ten_toDigits] }

theorem toList_serialize_duration (ms : ℕ) :
    (TtlValue.duration ms).serialize.toList = Nat.toDigits 10 (ms / 1000) ++ ['s'] := by
  rw [TtlValue.serialize, String.toList_append, Nat.toString_eq_ofList_toDigits,
    String.toList_ofList]
  rfl

/-- A duration is written as its whole seconds. -/
theorem written_serialize_duration (ms : ℕ) :
    Written (TtlValue.duration ms).serialize (ms / 1000) .s := by
  refine ⟨[], Nat.toDigits 10 (ms / 1000), [], ['s'], [], ?_, ⟨blank_nil, blank_nil, blank_nil⟩,
    isNumeral_toDigits _, .inl rfl⟩
  rw [toList_serialize_duration]
  simp

/-- The text of a duration is neither of the reserved ones, since it ends in a unit. -/
theorem serialize_duration_ne {text : String} (h : text.toList.getLast? ≠ some 's') :
    (TtlValue.duration ms).serialize ≠ text := by
  rintro rfl
  rw [toList_serialize_duration, List.getLast?_concat] at h
  exact h rfl

/-- **What a duration comes back as**: the same, without the fraction of a second. Less than a
second comes back as none at all. -/
theorem deserializeTtl_serialize_duration (h : ms / 1000 < 2 ^ 64) :
    deserializeTtl (TtlValue.duration ms).serialize = some (.duration (ms / 1000 * 1000)) :=
  deserializeTtl_of_written (serialize_duration_ne (by decide)) (serialize_duration_ne (by decide))
    (written_serialize_duration ms) h

/-! ### The round trip -/

theorem roundTrips_of_not_duration (hsame : deserializeTtl ttl.serialize = some ttl)
    (h : ∀ ms, ttl ≠ .duration ms) : RoundTrips ttl where
  same := hsame
  expires ms hms := absurd hms (h ms)

theorem roundTrips_duration_iff (h : ms / 1000 < 2 ^ 64) :
    RoundTrips (.duration ms) ↔ 1000 ∣ ms := by
  have hback := deserializeTtl_serialize_duration h
  constructor
  · intro htrip
    rw [htrip.same, Option.some.injEq, TtlValue.duration.injEq] at hback
    exact ⟨ms / 1000, by rw [Nat.mul_comm]; exact hback⟩
  · intro hdvd
    rw [Nat.div_mul_cancel hdvd] at hback
    refine ⟨hback, ?_⟩
    rintro _ ⟨rfl⟩ hpos back hsome
    cases hback.symm.trans hsome
    exact fun hzero => hpos.ne' (Option.some.inj hzero)

/-- **A TTL that was read survives being written exactly when it has no fraction of a second.** The
others come back shorter, or as no expiry. -/
theorem roundTrips_iff (h : deserializeTtl s = some ttl) : RoundTrips ttl ↔ WholeSeconds ttl := by
  cases ttl with
  | never =>
    have hnot : ∀ ms, TtlValue.never ≠ .duration ms := fun ms heq => by cases heq
    exact iff_of_true (roundTrips_of_not_duration rfl hnot) fun ms heq => absurd heq (hnot ms)
  | forever =>
    have hnot : ∀ ms, TtlValue.forever ≠ .duration ms := fun ms heq => by cases heq
    exact iff_of_true (roundTrips_of_not_duration rfl hnot) fun ms heq => absurd heq (hnot ms)
  | duration ms =>
    rw [roundTrips_duration_iff (seconds_lt_of_deserializeTtl h), WholeSeconds]
    simp

/-- Which texts these are: only a number of milliseconds can leave a fraction. All other units are
made of whole seconds. -/
theorem wholeSeconds_iff_written (h : deserializeTtl s = some ttl) :
    WholeSeconds ttl ↔ ∀ n, Written s n .ms → 1000 ∣ n := by
  rw [deserializeTtl] at h
  split_ifs at h with hnever hforever
  · obtain rfl := Option.some.inj h
    refine iff_of_true (fun ms heq => by cases heq) fun n hwritten => ?_
    obtain ⟨numeral, hsplit, -⟩ := (hnever ▸ hwritten).splitUnit
    cases (Prod.mk.inj hsplit).2
  · obtain rfl := Option.some.inj h
    refine iff_of_true (fun ms heq => by cases heq) fun n hwritten => ?_
    obtain ⟨numeral, hsplit, -⟩ := (hforever ▸ hwritten).splitUnit
    cases (Prod.mk.inj hsplit).2
  · obtain ⟨ms, hms, rfl⟩ := Option.map_eq_some_iff.mp h
    obtain ⟨n, unit, hwritten, -, rfl⟩ := parseDurationString_eq_some_iff.mp hms
    rw [WholeSeconds]
    simp only [TtlValue.duration.injEq, forall_eq']
    constructor
    · intro hdvd n' hwritten'
      obtain ⟨rfl, rfl⟩ := hwritten.unique hwritten'
      exact hdvd
    · intro hdvd
      cases unit with
      | ms => exact hdvd n hwritten
      | s | m | h => exact ⟨_, Nat.mul_comm _ _⟩

/-- An hour is written as seconds. -/
theorem oneHour_roundTrips : RoundTrips (.duration 3600000) := by
  have hread : deserializeTtl "1h" = some (.duration 3600000) := by decide
  refine (roundTrips_iff hread).mpr ?_
  rintro _ ⟨rfl⟩
  decide

/-- A quarter of a second comes back as no expiry. -/
theorem quarterSecond_lost :
    deserializeTtl "250ms" = some (.duration 250) ∧
      deserializeTtl (TtlValue.duration 250).serialize = some (.duration 0) ∧
      (TtlValue.duration 0).resolve = some 0 ∧ ¬ RoundTrips (.duration 250) :=
  ⟨by decide, deserializeTtl_serialize_duration (by norm_num), rfl,
    (roundTrips_duration_iff (by norm_num)).not.mpr (by decide)⟩

end Poolbeg
