import Poolbeg.Boundary
import Poolbeg.JsonText

/-!
# Cutting a JSON text for the log

`truncate_json` shows the text of a value if it is short enough, and otherwise its first `max_len`
bytes and how many there are. A text is cut in the middle only between two characters, and Rust
panics where a slice would do otherwise. A character takes up to four bytes, so `max_len` may be a
position inside one.

## Bytes and characters

A `String` of Lean is a list of characters with their UTF-8 encoding, as a `String` of Rust is, and
a position in it that is no boundary between two characters can be written down and is not valid.
`sliceTo` asks exactly this of the position, so its `none` is the panic of the source and not a
convention of the embedding. Everything that is proved about it is proved on the list of characters,
where a position is a sum of sizes and `Boundary` says when a sum falls between two characters.

## Which values are safe

Outside strings and names a JSON text has only characters of one byte: the punctuation, the digits
and the letters of the constants and of the exponents. Escaping replaces a character of one byte by
several of one byte and leaves the others alone. So a value whose strings and names have no
character of several bytes is shown whatever `max_len` is, and no other value is.

## Main definitions

* `sliceTo`, `truncateJson` — the source, with a panic as an outcome
* `Shows` — what a reader of the log is to see
* `Value.Plain` — a value whose strings and names are of one byte a character

## Main results

* `sliceTo_eq_some_iff`, `isSome_sliceTo_iff` — when a text can be cut, and what is left
* `truncateJson_shows_iff` — one value and one limit
* `truncateJson_always_iff` — the values that are safe at every limit
-/

namespace Poolbeg

open Boundary

/-- `&s[..n]`, which panics unless `n` is a character boundary. The length of `s` is one, and what
lies beyond is none. -/
def sliceTo (s : String) (n : ℕ) : Option String :=
  if h : (⟨n⟩ : String.Pos.Raw).IsValid s then some (s.sliceTo (s.pos ⟨n⟩ h)).copy else none

/-- `Value::to_string`. -/
def Value.toText (f : FloatText) (val : Value) : String := String.ofList (val.print f)

/-- `truncate_json`; `none` is a panic. The length of the text is in bytes, as `String::len` is, and
so is `max_len`. -/
def truncateJson (f : FloatText) (val : Value) (maxLen : ℕ) : Option String :=
  let s := val.toText f
  if s.utf8ByteSize ≤ maxLen then some s
  else (sliceTo s maxLen).map fun shown =>
    shown ++ "... (" ++ toString s.utf8ByteSize ++ " bytes)"

/-- **What may be shown of a text**: all of it if it has at most so many bytes, and otherwise a
beginning that has, with the number of bytes of the text. -/
inductive Shows (text : String) (maxLen : ℕ) : String → Prop
  | whole (h : text.utf8ByteSize ≤ maxLen) : Shows text maxLen text
  | cut {shown rest : String} (htext : text = shown ++ rest) (hshown : shown.utf8ByteSize ≤ maxLen)
      (hlong : maxLen < text.utf8ByteSize) :
      Shows text maxLen (shown ++ "... (" ++ toString text.utf8ByteSize ++ " bytes)")

/-! ### Slices -/

section Slices

variable {s shown : String} {cs : List Char} {n : ℕ}

/-- **A slice is a beginning of the text with so many bytes.** -/
theorem sliceTo_eq_some_iff :
    sliceTo s n = some shown ↔ ∃ rest, s = shown ++ rest ∧ shown.utf8ByteSize = n := by
  rw [sliceTo]
  constructor
  · intro h
    split at h
    · rename_i hvalid
      obtain rfl := Option.some.inj h
      have hsplits := (s.pos ⟨n⟩ hvalid).splits
      exact ⟨_, hsplits.eq_append,
        (congrArg String.Pos.Raw.byteIdx hsplits.offset_eq_rawEndPos).symm⟩
    · cases h
  · rintro ⟨rest, hs, rfl⟩
    have hvalid : (⟨shown.utf8ByteSize⟩ : String.Pos.Raw).IsValid s :=
      String.Pos.Raw.isValid_iff_exists_append.mpr ⟨shown, rest, hs, rfl⟩
    rw [dif_pos hvalid, Option.some.injEq, String.copy_sliceTo_eq_iff_exists_splits]
    exact ⟨rest, hs, rfl⟩

theorem utf8ByteSize_ofList (cs : List Char) :
    (String.ofList cs).utf8ByteSize = total Char.utf8Size cs := by
  induction cs with
  | nil => rfl
  | cons c cs ih =>
    rw [String.ofList_cons, String.utf8ByteSize_append, ih, total_cons,
      String.utf8ByteSize_singleton]

/-- A slice does not panic where it cuts between two characters. -/
theorem isSome_sliceTo_iff : (sliceTo (String.ofList cs) n).isSome ↔ IsCut Char.utf8Size cs n := by
  rw [Option.isSome_iff_exists]
  simp only [sliceTo_eq_some_iff]
  constructor
  · rintro ⟨shown, rest, hs, rfl⟩
    refine ⟨shown.toList, ⟨rest.toList, ?_⟩, ?_⟩
    · rw [← String.toList_append, ← hs, String.toList_ofList]
    · rw [← utf8ByteSize_ofList, String.ofList_toList]
  · rintro ⟨pre, ⟨rest, rfl⟩, rfl⟩
    exact ⟨String.ofList pre, String.ofList rest, String.ofList_append, utf8ByteSize_ofList pre⟩

end Slices

/-! ### What is shown -/

section Shown

variable {f : FloatText} {val : Value} {maxLen : ℕ} {shown : String}

theorem utf8ByteSize_toText (f : FloatText) (val : Value) :
    (val.toText f).utf8ByteSize = total Char.utf8Size (val.print f) :=
  utf8ByteSize_ofList (val.print f)

theorem shows_of_truncateJson (h : truncateJson f val maxLen = some shown) :
    Shows (val.toText f) maxLen shown := by
  rw [truncateJson] at h
  split at h
  · rename_i hle
    exact Option.some.inj h ▸ .whole hle
  · rename_i hlong
    obtain ⟨pre, hpre, rfl⟩ := Option.map_eq_some_iff.mp h
    obtain ⟨rest, htext, hsize⟩ := sliceTo_eq_some_iff.mp hpre
    exact .cut htext hsize.le (Nat.lt_of_not_le hlong)

/-- When it does not panic: either nothing is cut, and then the limit is past the end, or the cut is
between two characters. -/
theorem isSome_truncateJson_iff :
    (truncateJson f val maxLen).isSome ↔ ¬ Straddles Char.utf8Size (val.print f) maxLen := by
  rw [truncateJson, utf8ByteSize_toText]
  split
  · rename_i hle
    exact iff_of_true rfl fun hstraddles => Nat.not_lt.mpr hle hstraddles.lt_total
  · rename_i hlong
    rw [Option.isSome_map, Value.toText, isSome_sliceTo_iff,
      isCut_iff_not_straddles (Nat.lt_of_not_le hlong).le]

/-- **A JSON text is shown as it should be unless one of its characters straddles the limit.** There
is nothing else that can go wrong, since a slice that is taken has the right number of bytes. -/
theorem truncateJson_shows_iff (f : FloatText) (val : Value) (maxLen : ℕ) :
    (∃ shown, truncateJson f val maxLen = some shown ∧ Shows (val.toText f) maxLen shown) ↔
      ¬ Straddles Char.utf8Size (val.print f) maxLen := by
  rw [← isSome_truncateJson_iff, Option.isSome_iff_exists]
  exact exists_congr fun shown => and_iff_left_of_imp shows_of_truncateJson

/-- Characters that are not escaped. -/
theorem printChars_append {cs : List Char} (h : ∀ c ∈ cs, escapeChar c = [c]) (cs' : List Char) :
    printChars (cs ++ cs') = cs ++ printChars cs' := by
  induction cs with
  | nil => rfl
  | cons c cs ih =>
    obtain ⟨hc, hcs⟩ := List.forall_mem_cons.mp h
    rw [List.cons_append, printChars, hc, ih hcs]
    rfl

theorem print_string_append (f : FloatText) {cs : List Char} (h : ∀ c ∈ cs, escapeChar c = [c])
    (cs' : List Char) :
    (Value.string (String.ofList (cs ++ cs'))).print f = ('"' :: cs) ++ printChars cs' := by
  show printString (String.ofList (cs ++ cs')) = _
  rw [printString, String.toList_ofList, printChars_append h, List.cons_append]

/-- A text in which `é` takes the bytes with the numbers 511 and 512. The quotation mark that opens
the string is the byte with the number 0. -/
def accentedResult : Value := .string (String.ofList (List.replicate 510 'a' ++ ['é']))

/-- The character with the number 511 of its text takes two bytes. -/
theorem straddles_accentedResult (f : FloatText) :
    Straddles Char.utf8Size (accentedResult.print f) 512 := by
  have hplain : ∀ c ∈ List.replicate 510 'a', escapeChar c = [c] := by
    intro c hc
    rw [List.eq_of_mem_replicate hc]
    rfl
  have hprint : accentedResult.print f = ('"' :: List.replicate 510 'a') ++ 'é' :: ['"'] :=
    print_string_append f hplain ['é']
  have hsize : total Char.utf8Size ('"' :: List.replicate 510 'a') = 511 := by
    rw [total_cons, total_replicate]
    rfl
  refine ⟨_, _, _, hprint, ?_, ?_⟩
  · rw [hsize]
    norm_num
  · rw [hsize]
    decide

/-- Its first 512 bytes are not a text. -/
theorem accentedResult_panics :
    truncateJson pointedBits accentedResult 512 = none ∧
      ¬ ∃ shown, truncateJson pointedBits accentedResult 512 = some shown ∧
        Shows (accentedResult.toText pointedBits) 512 shown := by
  have hnone : truncateJson pointedBits accentedResult 512 = none := by
    rw [← Option.not_isSome_iff_eq_none, isSome_truncateJson_iff, not_not]
    exact straddles_accentedResult pointedBits
  refine ⟨hnone, ?_⟩
  rintro ⟨shown, hshown, -⟩
  cases hnone.symm.trans hshown

end Shown

/-! ### Which values are shown at every limit -/

/-- All characters take one byte. -/
def OneByte (cs : List Char) : Prop := ∀ c ∈ cs, c.utf8Size = 1

mutual

/-- All characters of strings and names take one byte. Numbers, constants and punctuation cannot
have others. -/
def Value.Plain : Value → Prop
  | .string s => OneByte s.toList
  | .array xs => PlainItems xs
  | .object members => PlainMembers members
  | _ => True

def PlainItems : List Value → Prop
  | [] => True
  | x :: xs => x.Plain ∧ PlainItems xs

def PlainMembers : List (String × Value) → Prop
  | [] => True
  | (key, x) :: members => (OneByte key.toList ∧ x.Plain) ∧ PlainMembers members

end

section Plain

variable {cs cs' : List Char} {c : Char}

theorem oneByte_append : OneByte (cs ++ cs') ↔ OneByte cs ∧ OneByte cs' := List.forall_mem_append

theorem oneByte_cons : OneByte (c :: cs) ↔ c.utf8Size = 1 ∧ OneByte cs := List.forall_mem_cons

theorem oneByte_of_all (h : cs.all fun c => c.utf8Size == 1) : OneByte cs :=
  fun c hc => beq_iff_eq.mp (List.all_eq_true.mp h c hc)

theorem utf8Size_of_numeral (h : numeral c) : c.utf8Size = 1 := by
  have hle : c.val ≤ 0x7F := by
    simp only [numeral, Bool.or_eq_true, decide_eq_true_eq] at h
    obtain (((hdigit | rfl) | rfl) | rfl) | rfl := h
    · rw [Char.isDigit, Bool.and_eq_true, decide_eq_true_eq, decide_eq_true_eq] at hdigit
      exact UInt32.le_trans hdigit.2 (by decide)
    all_goals decide
  exact if_pos hle

theorem oneByte_escapeChar_control : ∀ n < 0x20, OneByte (escapeChar (Char.ofNat n)) := by
  intro n hn
  refine oneByte_of_all ?_
  interval_cases n <;> rfl

/-- Escaping neither adds nor removes characters of several bytes. The characters it replaces and
those it writes for them are all of one byte. -/
theorem oneByte_escapeChar_iff (c : Char) : OneByte (escapeChar c) ↔ c.utf8Size = 1 := by
  by_cases hcontrol : c.toNat < 0x20
  · have hsize : c.utf8Size = 1 := by
      refine if_pos (UInt32.le_iff_toNat_le.mpr ?_)
      exact (show c.toNat ≤ 0x7F by omega)
    rw [iff_true_right hsize]
    simpa using oneByte_escapeChar_control c.toNat hcontrol
  by_cases hquote : c = '"'
  · subst hquote
    exact iff_of_true (oneByte_of_all rfl) rfl
  by_cases hslash : c = '\\'
  · subst hslash
    exact iff_of_true (oneByte_of_all rfl) rfl
  rw [escapeChar_of_le (Nat.le_of_not_lt hcontrol) hquote hslash]
  exact List.forall_mem_singleton

theorem oneByte_printChars_iff (cs : List Char) : OneByte (printChars cs) ↔ OneByte cs := by
  induction cs with
  | nil => exact iff_of_true (oneByte_of_all rfl) (oneByte_of_all rfl)
  | cons c cs ih => rw [printChars, oneByte_append, oneByte_escapeChar_iff, ih, oneByte_cons]

theorem oneByte_printString_iff (s : String) : OneByte (printString s) ↔ OneByte s.toList := by
  rw [printString, oneByte_cons, oneByte_printChars_iff]
  exact and_iff_right rfl

theorem oneByte_separator (first : Bool) : OneByte (if first then [] else [',']) := by
  cases first <;> exact oneByte_of_all rfl

mutual

/-- A JSON text has characters of several bytes only where its value has. The induction is on the
value, with its items and members. -/
theorem Value.oneByte_print_iff (f : FloatText) : ∀ v : Value, OneByte (v.print f) ↔ v.Plain
  | .null => iff_of_true (oneByte_of_all rfl) trivial
  | .bool true => iff_of_true (oneByte_of_all rfl) trivial
  | .bool false => iff_of_true (oneByte_of_all rfl) trivial
  | .number n => iff_of_true (fun _ hc => utf8Size_of_numeral (n.numeral_of_mem_print hc)) trivial
  | .string s => oneByte_printString_iff s
  | .array xs => by
    show OneByte ('[' :: printItems f true xs) ↔ PlainItems xs
    rw [oneByte_cons, oneByte_printItems_iff f true xs]
    exact and_iff_right rfl
  | .object members => by
    show OneByte ('{' :: printMembers f true members) ↔ PlainMembers members
    rw [oneByte_cons, oneByte_printMembers_iff f true members]
    exact and_iff_right rfl

theorem oneByte_printItems_iff (f : FloatText) :
    ∀ (first : Bool) (xs : List Value), OneByte (printItems f first xs) ↔ PlainItems xs
  | _, [] => iff_of_true (oneByte_of_all rfl) trivial
  | first, x :: xs => by
    rw [printItems, oneByte_append, oneByte_append, Value.oneByte_print_iff f x,
      oneByte_printItems_iff f false xs, PlainItems]
    exact and_iff_right (oneByte_separator first)

theorem oneByte_printMembers_iff (f : FloatText) :
    ∀ (first : Bool) (members : List (String × Value)),
      OneByte (printMembers f first members) ↔ PlainMembers members
  | _, [] => iff_of_true (oneByte_of_all rfl) trivial
  | first, (key, x) :: members => by
    rw [printMembers, oneByte_append, oneByte_append, oneByte_printString_iff, oneByte_cons,
      oneByte_append, Value.oneByte_print_iff f x, oneByte_printMembers_iff f false members,
      PlainMembers, and_assoc]
    simp only [oneByte_separator first, true_and]
    exact and_congr_right fun _ => and_iff_right rfl

end

/-- **A value is shown at every limit exactly when its strings and names have only characters of one
byte.** If one has another character, the limit one byte past the beginning of that character is
bad. -/
theorem truncateJson_always_iff (f : FloatText) (val : Value) :
    (∀ maxLen, (truncateJson f val maxLen).isSome) ↔ val.Plain := by
  simp only [isSome_truncateJson_iff]
  rw [forall_not_straddles_iff, ← Value.oneByte_print_iff f val]
  refine forall₂_congr fun c _ => ?_
  exact ⟨fun hle => Nat.le_antisymm hle c.utf8Size_pos, fun hone => hone.le⟩

end Plain

end Poolbeg
