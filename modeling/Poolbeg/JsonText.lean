import Mathlib.Logic.Function.Basic
import Mathlib.Tactic.IntervalCases
import Poolbeg.Json

/-!
# Compact JSON text

The text `serde_json` writes for a value: no white space, members in insertion order, and strings
with `"`, `\` and the control characters escaped. It is the text a cache key is the digest of.

The text of a double is a parameter. A `FloatText` gives two doubles two texts, uses the characters
of a number only, and always shows a fraction or an exponent; a `Value` never holds a double that is
not finite, and for those the parameter is one of our own choosing.

## Where a text ends

A text is read from the left. What is written for a value is not always the start of what is written
for another, but it can be for a number: `1` starts `12`. So `print_append_inj` compares two texts
that are followed by something that does not continue a number. Inside an array or an object that is
a comma or a closing bracket, and at the end of a text it is nothing.

The first character of a text shows its kind, and from there on the comparison follows the value:
the items of an array one after the other, each of which ends where the next one begins, and the
members of an object with their names in front. A string ends at the first quotation mark that is
not escaped, which is what `readEscape` is for.

## Implementation notes

No parser is needed for the result. `readEscape` undoes the escape of a single character; above that
two texts are compared with each other and not read.

## Main definitions

* `FloatText`, `Number.print` — numbers
* `escapeChar`, `printString` — strings
* `Value.print`, `SerdeJson.compact` — values, and the writer they make

## Main results

* `readEscape_escapeChar`, `printString_append_inj` — strings end where they say
* `Value.print_append_inj`, `Value.print_injective` — and so do values
-/

namespace Poolbeg

/-! ### Numbers -/

/-- The characters of a number. -/
def numeral (c : Char) : Bool := c.isDigit || c = '-' || c = '+' || c = '.' || c = 'e'

/-- The text of a double: some text for each, which tells them apart and does not look like the text
of an integer. The writer that `serde_json` uses is such a one. -/
structure FloatText where
  text : UInt64 → List Char
  injective : Function.Injective text
  numeral_of_mem : ∀ bits, ∀ c ∈ text bits, numeral c
  /-- A double never looks like an integer. -/
  fractional : ∀ bits, ∃ c ∈ text bits, c = '.' ∨ c = 'e'

/-- The text of a number; an integer is in decimal. -/
def Number.print (f : FloatText) : Number → List Char
  | .posInt n _ => Nat.toDigits 10 n
  | .negInt i _ => '-' :: Nat.toDigits 10 i.natAbs
  | .float bits => f.text bits

theorem isDigit_of_mem_toDigits {n : ℕ} {c : Char} (h : c ∈ Nat.toDigits 10 n) : c.isDigit :=
  Nat.isDigit_of_mem_toDigits (by norm_num) (by norm_num) h

/-- A double has a character that no integer has. -/
theorem FloatText.ne_text {f : FloatText} {bits : UInt64} {cs : List Char}
    (h : ∀ c ∈ cs, c.isDigit ∨ c = '-') : cs ≠ f.text bits := by
  intro heq
  obtain ⟨c, hc, hkind⟩ := f.fractional bits
  have hint := h c (heq ▸ hc)
  obtain rfl | rfl := hkind
  · exact absurd hint (by decide)
  · exact absurd hint (by decide)

theorem toDigits_ne_text {f : FloatText} {n : ℕ} {bits : UInt64} :
    Nat.toDigits 10 n ≠ f.text bits :=
  FloatText.ne_text fun _ hc => .inl (isDigit_of_mem_toDigits hc)

theorem neg_toDigits_ne_text {f : FloatText} {n : ℕ} {bits : UInt64} :
    '-' :: Nat.toDigits 10 n ≠ f.text bits :=
  FloatText.ne_text (List.forall_mem_cons.mpr
    ⟨.inr rfl, fun _ hc => .inl (isDigit_of_mem_toDigits hc)⟩)

theorem toDigits_ne_neg {m n : ℕ} : Nat.toDigits 10 m ≠ '-' :: Nat.toDigits 10 n := by
  intro h
  have hdigit := isDigit_of_mem_toDigits (n := m) (h ▸ List.mem_cons_self)
  exact absurd hdigit (by decide)

/-- **A number can be told from its text.** The sign tells negative integers from the others, and a
point or an exponent tells doubles from integers. -/
theorem Number.print_injective (f : FloatText) : Function.Injective (Number.print f) := by
  intro a b h
  cases a with
  | posInt m hm =>
    cases b with
    | posInt n hn =>
      obtain rfl := toDigits_injective h
      rfl
    | negInt j hj => exact absurd h toDigits_ne_neg
    | float bits => exact absurd h toDigits_ne_text
  | negInt i hi =>
    cases b with
    | posInt n hn => exact absurd h.symm toDigits_ne_neg
    | negInt j hj =>
      have habs := toDigits_injective (List.cons.inj h).2
      obtain rfl : i = j := by omega
      rfl
    | float bits => exact absurd h neg_toDigits_ne_text
  | float bits =>
    cases b with
    | posInt n hn => exact absurd h.symm toDigits_ne_text
    | negInt j hj => exact absurd h.symm neg_toDigits_ne_text
    | float bits' => rw [f.injective h]

theorem numeral_of_isDigit {c : Char} (h : c.isDigit) : numeral c := by
  simp [numeral, h]

theorem Number.numeral_of_mem_print {f : FloatText} {n : Number} {c : Char} (h : c ∈ n.print f) :
    numeral c := by
  cases n with
  | posInt n hn => exact numeral_of_isDigit (isDigit_of_mem_toDigits h)
  | negInt i hi =>
    obtain rfl | h := List.mem_cons.mp h
    · decide
    · exact numeral_of_isDigit (isDigit_of_mem_toDigits h)
  | float bits => exact f.numeral_of_mem bits c h

theorem Number.print_ne_nil (f : FloatText) (n : Number) : n.print f ≠ [] := by
  cases n with
  | posInt n hn => exact Nat.toDigits_ne_nil
  | negInt i hi => simp [Number.print]
  | float bits =>
    obtain ⟨c, hc, -⟩ := f.fractional bits
    exact List.ne_nil_of_mem hc

/-- A text of doubles: the bits in decimal, behind a point. It shows that there is such a text, and
serves in examples. -/
def pointedBits : FloatText where
  text bits := '.' :: Nat.toDigits 10 bits.toNat
  injective a b h := UInt64.toNat_inj.mp (toDigits_injective (List.cons.inj h).2)
  numeral_of_mem bits c hc := by
    obtain rfl | hc := List.mem_cons.mp hc
    · decide
    · exact numeral_of_isDigit (isDigit_of_mem_toDigits hc)
  fractional bits := ⟨'.', List.mem_cons_self, .inl rfl⟩

/-! ### Strings -/

/-- One character of a string literal, escaped where it has to be: the quotation mark, the backslash
and the control characters. -/
def escapeChar (c : Char) : List Char :=
  match c.toNat with
  | 0x08 => ['\\', 'b']
  | 0x09 => ['\\', 't']
  | 0x0A => ['\\', 'n']
  | 0x0C => ['\\', 'f']
  | 0x0D => ['\\', 'r']
  | 0x22 => ['\\', '"']
  | 0x5C => ['\\', '\\']
  | n => if n < 0x20 then ['\\', 'u', '0', '0', (n / 16).digitChar, (n % 16).digitChar] else [c]

/-- The rest of a string literal, from a character on. -/
def printChars : List Char → List Char
  | [] => ['"']
  | c :: cs => escapeChar c ++ printChars cs

/-- A string literal. -/
def printString (s : String) : List Char := '"' :: printChars s.toList

/-- The first character of a string literal's rest, whether it is escaped or not. It is for the
proof that nothing is lost, and reads only what is written here. -/
def readEscape : List Char → Option (Char × List Char)
  | '\\' :: 'b' :: r => some (Char.ofNat 0x08, r)
  | '\\' :: 't' :: r => some ('\t', r)
  | '\\' :: 'n' :: r => some ('\n', r)
  | '\\' :: 'f' :: r => some (Char.ofNat 0x0C, r)
  | '\\' :: 'r' :: r => some ('\r', r)
  | '\\' :: 'u' :: '0' :: '0' :: h :: l :: r =>
    (toDigit16 h).bind fun m => (toDigit16 l).map fun n => (Char.ofNat (16 * m + n), r)
  | '\\' :: c :: r => some (c, r)
  | c :: r => some (c, r)
  | [] => none

theorem readEscape_cons {c : Char} (h : c ≠ '\\') (r : List Char) :
    readEscape (c :: r) = some (c, r) := by
  unfold readEscape
  split <;> simp_all

theorem escapeChar_of_le {c : Char} (h : 0x20 ≤ c.toNat) (hquote : c ≠ '"') (hslash : c ≠ '\\') :
    escapeChar c = [c] := by
  have hq : c.toNat ≠ 0x22 := fun hn => hquote (Char.toNat_inj.mp hn)
  have hs : c.toNat ≠ 0x5C := fun hn => hslash (Char.toNat_inj.mp hn)
  unfold escapeChar
  split <;> first | omega | exact if_neg (by omega)

theorem readEscape_control {n : ℕ} (h : n < 0x20) (r : List Char) :
    readEscape (escapeChar (Char.ofNat n) ++ r) = some (Char.ofNat n, r) := by
  interval_cases n <;> rfl

/-- **An escaped character reads back**, whatever follows it. -/
theorem readEscape_escapeChar (c : Char) (r : List Char) :
    readEscape (escapeChar c ++ r) = some (c, r) := by
  by_cases hcontrol : c.toNat < 0x20
  · simpa using readEscape_control hcontrol r
  by_cases hquote : c = '"'
  · subst hquote
    rfl
  by_cases hslash : c = '\\'
  · subst hslash
    rfl
  rw [escapeChar_of_le (Nat.le_of_not_lt hcontrol) hquote hslash]
  exact readEscape_cons hslash r

/-- An escaped character never closes the literal. -/
theorem head_escapeChar (c : Char) : (escapeChar c).head? ≠ some '"' ∧ escapeChar c ≠ [] := by
  unfold escapeChar
  split <;> try exact ⟨by decide, by decide⟩
  split
  · simp
  · refine ⟨fun h => ?_, by simp⟩
    have hq : c = '"' := by simpa using h
    subst hq
    simp_all

/-- A character can be told from its escape, and so can what follows. -/
theorem escapeChar_append_inj {c d : Char} {r r' : List Char}
    (h : escapeChar c ++ r = escapeChar d ++ r') : c = d ∧ r = r' := by
  have hread := congrArg readEscape h
  rw [readEscape_escapeChar, readEscape_escapeChar, Option.some.injEq, Prod.mk.injEq] at hread
  exact hread

theorem escapeChar_append_ne_quote {c : Char} {r r' : List Char} :
    escapeChar c ++ r ≠ '"' :: r' := by
  intro h
  obtain ⟨hquote, hne⟩ := head_escapeChar c
  obtain ⟨d, ds, hd⟩ := List.exists_cons_of_ne_nil hne
  rw [hd, List.cons_append] at h
  rw [hd, (List.cons.inj h).1] at hquote
  exact hquote rfl

/-- **A string literal ends where it says**, so it can be told from its text, and what follows from
the rest. -/
theorem printChars_append_inj :
    ∀ {s t r r' : List Char}, printChars s ++ r = printChars t ++ r' → s = t ∧ r = r'
  | [], [], _, _, h => ⟨rfl, (List.cons.inj h).2⟩
  | [], d :: ds, r, r', h => by
    rw [printChars, printChars, List.append_assoc] at h
    exact absurd h.symm escapeChar_append_ne_quote
  | c :: cs, [], r, r', h => by
    rw [printChars, printChars, List.append_assoc] at h
    exact absurd h escapeChar_append_ne_quote
  | c :: cs, d :: ds, r, r', h => by
    rw [printChars, printChars, List.append_assoc, List.append_assoc] at h
    obtain ⟨rfl, hrest⟩ := escapeChar_append_inj h
    obtain ⟨rfl, hr⟩ := printChars_append_inj hrest
    exact ⟨rfl, hr⟩

/-- A string can be told from its literal, and so can what follows. -/
theorem printString_append_inj {s t : String} {r r' : List Char}
    (h : printString s ++ r = printString t ++ r') : s = t ∧ r = r' := by
  obtain ⟨hchars, hr⟩ := printChars_append_inj (List.cons.inj h).2
  exact ⟨String.toList_inj.mp hchars, hr⟩

/-! ### Values -/

mutual

/-- The compact text of a value, without blanks, and with the members of an object in their order.
-/
def Value.print (f : FloatText) : Value → List Char
  | .null => "null".toList
  | .bool true => "true".toList
  | .bool false => "false".toList
  | .number n => n.print f
  | .string s => printString s
  | .array xs => '[' :: printItems f true xs
  | .object members => '{' :: printMembers f true members

/-- The items of an array and its closing bracket. -/
def printItems (f : FloatText) (first : Bool) : List Value → List Char
  | [] => [']']
  | x :: xs => (if first then [] else [',']) ++ (x.print f ++ printItems f false xs)

/-- The members of an object and its closing brace. -/
def printMembers (f : FloatText) (first : Bool) : List (String × Value) → List Char
  | [] => ['}']
  | (key, x) :: members =>
    (if first then [] else [',']) ++
      (printString key ++ ':' :: (x.print f ++ printMembers f false members))

end

example (f : FloatText) : Value.print f (.array [.bool true, .string "a\n", .ofU64 7]) =
    "[true,\"a\\n\",7]".toList := by rfl

/-- Nothing here continues a number: it is at its end, or what comes next is none of its characters.
-/
def Delimited (r : List Char) : Prop := ∀ c ∈ r.head?, ¬ numeral c

theorem delimited_nil : Delimited [] := by simp [Delimited]

/-- And nothing is by a character that is not one of a number. -/
theorem delimited_cons {c : Char} (h : ¬ numeral c) (r : List Char) : Delimited (c :: r) := by
  intro d hd
  rwa [← Option.some.inj hd]

theorem delimited_printItems (f : FloatText) (xs : List Value) (r : List Char) :
    Delimited (printItems f false xs ++ r) := by
  cases xs with
  | nil => exact delimited_cons (by decide) _
  | cons x xs => exact delimited_cons (by decide) _

theorem delimited_printMembers (f : FloatText) (members : List (String × Value)) (r : List Char) :
    Delimited (printMembers f false members ++ r) := by
  cases members with
  | nil => exact delimited_cons (by decide) _
  | cons m members => exact delimited_cons (by decide) _

/-- Two numbers end together: the longest run of characters of a number is the whole number. -/
theorem Number.print_append_inj {f : FloatText} {m n : Number} {r r' : List Char}
    (hr : Delimited r) (hr' : Delimited r') (h : m.print f ++ r = n.print f ++ r') :
    m = n ∧ r = r' := by
  have hrun : ∀ {k : Number} {s : List Char}, Delimited s →
      (k.print f ++ s).takeWhile numeral = k.print f := by
    intro k s hs
    rw [List.takeWhile_append_of_pos fun c hc => k.numeral_of_mem_print hc]
    cases s with
    | nil => simp
    | cons c s => simp [hs c rfl]
  have htext : m.print f = n.print f := by
    rw [← hrun hr, h, hrun hr']
  obtain rfl := Number.print_injective f htext
  exact ⟨rfl, List.append_cancel_left h⟩

/-- The kinds of value that their first character tells apart. The two truth values are of two
kinds, since they begin with different letters. -/
inductive Kind
  | null
  | bool (b : Bool)
  | number
  | string
  | array
  | object

/-- The kind of a value. The two truth values begin with letters of their own. -/
def Value.kind : Value → Kind
  | .null => .null
  | .bool b => .bool b
  | .number _ => .number
  | .string _ => .string
  | .array _ => .array
  | .object _ => .object

/-- The kind a first character stands for. -/
def kindOf (c : Char) : Option Kind :=
  if numeral c then some .number
  else
    match c with
    | 'n' => some .null
    | 't' => some (.bool true)
    | 'f' => some (.bool false)
    | '"' => some .string
    | '[' => some .array
    | '{' => some .object
    | _ => none

/-- **The first character of a text shows the kind of its value.** So two values with one text are
of one kind, and can be compared part by part. -/
theorem Value.kindOf_head_print (f : FloatText) (v : Value) (r : List Char) :
    (v.print f ++ r).head?.bind kindOf = some v.kind := by
  cases v with
  | null => rfl
  | bool b => cases b <;> rfl
  | number n =>
    obtain ⟨c, cs, hc⟩ := List.exists_cons_of_ne_nil (n.print_ne_nil f)
    have hnumeral : numeral c := n.numeral_of_mem_print (f := f) (hc ▸ List.mem_cons_self)
    have hprint : (Value.number n).print f ++ r = c :: (cs ++ r) := congrArg (· ++ r) hc
    rw [hprint, List.head?_cons, Option.bind_some]
    exact if_pos hnumeral
  | string s => rfl
  | array xs => rfl
  | object members => rfl

/-- So values with texts that go on alike are of one kind. -/
theorem Value.kind_eq_of_print {f : FloatText} {v w : Value} {r r' : List Char}
    (h : v.print f ++ r = w.print f ++ r') : v.kind = w.kind := by
  have hv := v.kindOf_head_print f r
  rw [h, w.kindOf_head_print f r'] at hv
  exact (Option.some.inj hv).symm

/-- A text does not begin with a character that no text begins with. -/
theorem Value.print_append_ne_cons {f : FloatText} {v : Value} {c : Char} {r r' : List Char}
    (hc : kindOf c = none) : v.print f ++ r ≠ c :: r' := by
  intro h
  have hv := v.kindOf_head_print f r
  rw [h, List.head?_cons, Option.bind_some, hc] at hv
  exact absurd hv (by simp)

theorem printItems_cons_ne_nil {f : FloatText} {first : Bool} {x : Value} {xs : List Value}
    {r r' : List Char} :
    printItems f first (x :: xs) ++ r ≠ printItems f first [] ++ r' := by
  intro h
  cases first with
  | true =>
    rw [printItems, printItems, if_pos rfl, List.nil_append, List.append_assoc] at h
    exact Value.print_append_ne_cons (by decide) h
  | false => exact absurd (List.cons.inj h).1 (by decide)

/-- And a list of members that goes on is not one that ends. -/
theorem printMembers_cons_ne_nil {f : FloatText} {first : Bool} {m : String × Value}
    {ms : List (String × Value)} {r r' : List Char} :
    printMembers f first (m :: ms) ++ r ≠ printMembers f first [] ++ r' := by
  intro h
  cases first with
  | true => exact absurd (List.cons.inj h).1 (by decide)
  | false => exact absurd (List.cons.inj h).1 (by decide)

mutual

/-- **A value ends where it says**, as long as nothing continues a number. The induction is on the
first value, together with the items and members of arrays and objects. -/
theorem Value.print_append_inj (f : FloatText) :
    ∀ (v w : Value) {r r' : List Char}, Delimited r → Delimited r' →
      v.print f ++ r = w.print f ++ r' → v = w ∧ r = r'
  | .null, w, r, r', _, _, h => by
    cases w with
    | null => exact ⟨rfl, List.append_cancel_left h⟩
    | _ => exact absurd (Value.kind_eq_of_print h) (by simp [Value.kind])
  | .bool b, w, r, r', _, _, h => by
    cases w with
    | bool b' =>
      obtain rfl : b = b' := by simpa [Value.kind] using Value.kind_eq_of_print h
      exact ⟨rfl, List.append_cancel_left h⟩
    | _ => exact absurd (Value.kind_eq_of_print h) (by simp [Value.kind])
  | .number n, w, r, r', hr, hr', h => by
    cases w with
    | number n' =>
      obtain ⟨rfl, hrest⟩ := Number.print_append_inj hr hr' h
      exact ⟨rfl, hrest⟩
    | _ => exact absurd (Value.kind_eq_of_print h) (by simp [Value.kind])
  | .string s, w, r, r', _, _, h => by
    cases w with
    | string t =>
      obtain ⟨rfl, hrest⟩ := printString_append_inj h
      exact ⟨rfl, hrest⟩
    | _ => exact absurd (Value.kind_eq_of_print h) (by simp [Value.kind])
  | .array xs, w, r, r', _, _, h => by
    cases w with
    | array ys =>
      obtain ⟨rfl, hrest⟩ := printItems_append_inj f true xs ys (List.cons.inj h).2
      exact ⟨rfl, hrest⟩
    | _ => exact absurd (Value.kind_eq_of_print h) (by simp [Value.kind])
  | .object ms, w, r, r', _, _, h => by
    cases w with
    | object ns =>
      obtain ⟨rfl, hrest⟩ := printMembers_append_inj f true ms ns (List.cons.inj h).2
      exact ⟨rfl, hrest⟩
    | _ => exact absurd (Value.kind_eq_of_print h) (by simp [Value.kind])

/-- Items can be told from their texts, one after the other. -/
theorem printItems_append_inj (f : FloatText) :
    ∀ (first : Bool) (xs ys : List Value) {r r' : List Char},
      printItems f first xs ++ r = printItems f first ys ++ r' → xs = ys ∧ r = r'
  | _, [], [], _, _, h => ⟨rfl, (List.cons.inj h).2⟩
  | _, [], _ :: _, _, _, h => absurd h.symm printItems_cons_ne_nil
  | _, _ :: _, [], _, _, h => absurd h printItems_cons_ne_nil
  | first, x :: xs, y :: ys, r, r', h => by
    rw [printItems, printItems] at h
    simp only [List.append_assoc] at h
    -- what follows an item is a comma or the closing bracket
    obtain ⟨rfl, hrest⟩ := Value.print_append_inj f x y (delimited_printItems f xs r)
      (delimited_printItems f ys r') (List.append_cancel_left h)
    obtain ⟨rfl, hr⟩ := printItems_append_inj f false xs ys hrest
    exact ⟨rfl, hr⟩

theorem printMembers_append_inj (f : FloatText) :
    ∀ (first : Bool) (ms ns : List (String × Value)) {r r' : List Char},
      printMembers f first ms ++ r = printMembers f first ns ++ r' → ms = ns ∧ r = r'
  | _, [], [], _, _, h => ⟨rfl, (List.cons.inj h).2⟩
  | _, [], _ :: _, _, _, h => absurd h.symm printMembers_cons_ne_nil
  | _, _ :: _, [], _, _, h => absurd h printMembers_cons_ne_nil
  | first, (key, x) :: ms, (key', y) :: ns, r, r', h => by
    rw [printMembers, printMembers] at h
    simp only [List.append_assoc, List.cons_append] at h
    obtain ⟨rfl, hmember⟩ := printString_append_inj (List.append_cancel_left h)
    obtain ⟨rfl, hrest⟩ := Value.print_append_inj f x y (delimited_printMembers f ms r)
      (delimited_printMembers f ns r') (List.cons.inj hmember).2
    obtain ⟨rfl, hr⟩ := printMembers_append_inj f false ms ns hrest
    exact ⟨rfl, hr⟩

end

/-- **A value can be told from its compact text.** This is what the keys of the cache rely on, next
to the digest. -/
theorem Value.print_injective (f : FloatText) : Function.Injective (Value.print f) := by
  intro v w h
  have hnil : v.print f ++ [] = w.print f ++ [] := by rw [h]
  exact (Value.print_append_inj f v w delimited_nil delimited_nil hnil).1

/-- The compact writer of `serde_json`, with any reader that undoes it. There is one, since values
can be told from their texts. -/
noncomputable def SerdeJson.compact (f : FloatText) : SerdeJson (List Char) where
  toString := Value.print f
  fromStr := Function.partialInv (Value.print f)
  fromStr_toString := Function.partialInv_left (Value.print_injective f)

end Poolbeg
