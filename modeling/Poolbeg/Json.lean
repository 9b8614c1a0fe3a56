import Mathlib.Data.List.Basic
import Mathlib.Tactic.NormNum

/-!
# JSON values and hexadecimal quantities

`Value` is `serde_json::Value` with the `preserve_order` feature: an object is its members in
insertion order. Numbers are kept the way `serde_json` keeps them, as a `u64`, a negative `i64` or a
binary double, with the range of the integer carried by the constructor.

## Texts

The text of a JSON value is abstract. A `SerdeJson Text` is a writer and a reader on some type of
texts together with the one law the program relies on: reading back what was written gives the value
that was written. The reader may also be given any other text, so a corrupted cache entry is just a
text that does not read as a response.

The law is about the values the program holds, and a `Value` stands for one of these, namely for one
that `serde_json` reads. Two kinds are not among them. A double stands for one that is read back
from its own text; without the `float_roundtrip` feature, which the build does not enable, the
reader may be off by one unit in the last place on others. And no object begins with the name under
which `serde_json` keeps raw values, since the reader replaces such an object by what it holds.

## Quantities

Block numbers travel as hexadecimal strings. `formatHex` is `format!("0x{:x}", n)` and
`fromStrRadix16` is `u64::from_str_radix(_, 16)`, which accepts a leading `+` and both letter cases
and fails on an empty string, on any other character and on overflow.

## Main definitions

* `Number`, `Value`, `Value.get`, `Value.asStr`, `Value.asArray` — values and what is looked up
* `SerdeJson` — a writer and a reader
* `formatHex`, `fromStrRadix16`, `parseQuantity` — quantities

## Main results

* `toString_nat_inj`, `formatHex_injective` — different numbers are written differently
* `parseQuantity_lt` — what is read is a `u64`
-/

namespace Poolbeg

/-- A JSON number as `serde_json` stores it: a natural number if there is one that fits, a negative
integer if there is one, and the bits of a double otherwise. -/
inductive Number
  | posInt (n : ℕ) (h : n < 2 ^ 64)
  | negInt (i : ℤ) (h : -(2 ^ 63) ≤ i ∧ i < 0)
  | float (bits : UInt64)
  deriving DecidableEq

/-- A JSON value; the members of an object are in insertion order. It stands for one that
`serde_json` reads. -/
inductive Value
  | null
  | bool (b : Bool)
  | number (n : Number)
  | string (s : String)
  | array (xs : List Value)
  | object (members : List (String × Value))

namespace Value

/-- `Value::get` with a string index. Of members with one name it is the first; what `serde_json`
reads has no two of them. -/
def get (v : Value) (key : String) : Option Value :=
  match v with
  | object members => members.lookup key
  | _ => none

/-- `v[key]`: a missing member reads as `null`, and so does any member of what is not an object. -/
def index (v : Value) (key : String) : Value := (v.get key).getD null

/-- `Value::as_str`. -/
def asStr : Value → Option String
  | string s => some s
  | _ => none

/-- `Value::as_array`. -/
def asArray : Value → Option (List Value)
  | array xs => some xs
  | _ => none

/-- `Value::is_null`. -/
def isNull : Value → Bool
  | null => true
  | _ => false

/-- A member of an object is looked up by its name. -/
@[simp] theorem get_object (members : List (String × Value)) (key : String) :
    (object members).get key = members.lookup key := rfl

@[simp] theorem asStr_string (s : String) : (string s).asStr = some s := rfl

@[simp] theorem asArray_array (xs : List Value) : (array xs).asArray = some xs := rfl

theorem asStr_eq_some {v : Value} {s : String} : v.asStr = some s ↔ v = string s := by
  cases v <;> simp [asStr]

theorem asArray_eq_some {v : Value} {xs : List Value} : v.asArray = some xs ↔ v = array xs := by
  cases v <;> simp [asArray]

/-- `Value::from` for a `u64`. -/
def ofU64 (n : UInt64) : Value := number (.posInt n.toNat n.toNat_lt)

end Value

/-! ### Texts -/

/-- The `serde_json` writer and reader on a type of texts. Writing a `Value` cannot fail, and
reading a text may: nothing is said of texts that were not written here. -/
structure SerdeJson (Text : Type) where
  toString : Value → Text
  fromStr : Text → Option Value
  /-- Reading back what was written. -/
  fromStr_toString : ∀ v, fromStr (toString v) = some v

attribute [simp] SerdeJson.fromStr_toString

/-- A text identified with the value it denotes. It serves where a run is evaluated and texts do not
matter. Reading never fails with it. -/
def SerdeJson.tree : SerdeJson Value where
  toString := id
  fromStr := some
  fromStr_toString _ := rfl

/-! ### Decimal -/

/-- A number can be told from its decimal digits, which is all the proxy has of a chain id in a key.
-/
theorem toDigits_injective : Function.Injective (Nat.toDigits 10) := by
  intro m n h
  calc m = Nat.ofDigitChars 10 (Nat.toDigits 10 m) 0 := Nat.ofDigitChars_ten_toDigits.symm
    _ = Nat.ofDigitChars 10 (Nat.toDigits 10 n) 0 := by rw [h]
    _ = n := Nat.ofDigitChars_ten_toDigits

theorem toString_nat_inj {m n : ℕ} (h : toString m = toString n) : m = n := by
  rw [Nat.toString_eq_ofList_toDigits, Nat.toString_eq_ofList_toDigits] at h
  exact toDigits_injective (by simpa using congrArg String.toList h)

/-! ### Hexadecimal -/

/-- `format!("0x{:x}", n)`. -/
def formatHex (n : ℕ) : String := String.ofList ('0' :: 'x' :: Nat.toDigits 16 n)

/-- Every quantity the proxy writes starts with `0x`. -/
theorem formatHex_toList (n : ℕ) : (formatHex n).toList = '0' :: 'x' :: Nat.toDigits 16 n := by
  simp [formatHex]

/-- `str::trim_start_matches("0x")`, which strips the prefix as often as it occurs. So `0x0x1` is
read as one. -/
def trimStartMatches0x : List Char → List Char
  | '0' :: 'x' :: cs => trimStartMatches0x cs
  | cs => cs

/-- `char::to_digit(16)`. -/
def toDigit16 (c : Char) : Option ℕ :=
  if '0' ≤ c ∧ c ≤ '9' then some (c.toNat - '0'.toNat)
  else if 'a' ≤ c ∧ c ≤ 'f' then some (c.toNat - 'a'.toNat + 10)
  else if 'A' ≤ c ∧ c ≤ 'F' then some (c.toNat - 'A'.toNat + 10)
  else none

/-- The digits of a `u64`, most significant first, failing on overflow. The digits before are in the
accumulator. -/
def accumulate16 : ℕ → List Char → Option ℕ
  | acc, [] => some acc
  | acc, c :: cs =>
    (toDigit16 c).bind fun d =>
      if acc * 16 + d < 2 ^ 64 then accumulate16 (acc * 16 + d) cs else none

/-- `u64::from_str_radix(_, 16)`. A sign alone is not a number, and there is only one sign. -/
def fromStrRadix16 : List Char → Option ℕ
  | [] => none
  | ['+'] => none
  | '+' :: cs => accumulate16 0 cs
  | cs => accumulate16 0 cs

/-- `u64::from_str_radix(s.trim_start_matches("0x"), 16)`, how every block number is read. -/
def parseQuantity (s : String) : Option ℕ := fromStrRadix16 (trimStartMatches0x s.toList)

theorem toDigit16_digitChar : ∀ d < 16, toDigit16 d.digitChar = some d := by decide

/-- The number a list of hexadecimal digits writes. It is for the proof that different quantities
are written differently. -/
def hexValue (cs : List Char) : ℕ := cs.foldl (fun acc c => acc * 16 + (toDigit16 c).getD 0) 0

theorem hexValue_concat (cs : List Char) (c : Char) :
    hexValue (cs ++ [c]) = hexValue cs * 16 + (toDigit16 c).getD 0 := by
  rw [hexValue, List.foldl_append]
  rfl

/-- The digits of a number write it. -/
theorem hexValue_toDigits (n : ℕ) : hexValue (Nat.toDigits 16 n) = n := by
  induction n using Nat.strongRecOn with
  | ind n ih =>
    rcases Nat.lt_or_ge n 16 with hlt | hle
    · rw [Nat.toDigits_of_lt_base hlt]
      simp [hexValue, toDigit16_digitChar n hlt]
    · have hdiv : n / 16 < n := Nat.div_lt_self (by omega) (by norm_num)
      rw [Nat.toDigits_of_base_le (by norm_num) hle, hexValue_concat, ih _ hdiv,
        toDigit16_digitChar _ (Nat.mod_lt n (by norm_num)), Option.getD_some]
      exact Nat.div_add_mod' n 16

/-- Different quantities are written differently. -/
theorem formatHex_injective : Function.Injective formatHex := by
  intro m n h
  have hdigits : Nat.toDigits 16 m = Nat.toDigits 16 n := by
    simpa [formatHex_toList] using congrArg String.toList h
  rw [← hexValue_toDigits m, hdigits, hexValue_toDigits]

/-- Whatever is read stays in range, since every step is checked. -/
theorem accumulate16_lt {acc n : ℕ} {cs : List Char} (hacc : acc < 2 ^ 64)
    (h : accumulate16 acc cs = some n) : n < 2 ^ 64 := by
  induction cs generalizing acc with
  | nil =>
    rw [accumulate16, Option.some.injEq] at h
    exact h ▸ hacc
  | cons c cs ih =>
    obtain ⟨d, -, hd⟩ := Option.bind_eq_some_iff.mp h
    split at hd
    · exact ih ‹_› hd
    · exact absurd hd (by simp)

/-- A quantity that reads at all is a `u64`. -/
theorem parseQuantity_lt {s : String} {n : ℕ} (h : parseQuantity s = some n) : n < 2 ^ 64 := by
  unfold parseQuantity fromStrRadix16 at h
  split at h
  · exact absurd h (by simp)
  · exact absurd h (by simp)
  · exact accumulate16_lt (by norm_num) h
  · exact accumulate16_lt (by norm_num) h

example : parseQuantity "0xfF" = some 255 := by decide

example : parseQuantity "0x10000000000000000" = none := by decide

end Poolbeg
