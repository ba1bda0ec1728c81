import Mathlib.Logic.Function.Basic
import YangSchema.Json.Reader
import YangSchema.Proofs.Digits

/-!
# Reading back what is written as JSON

What is written of a text between quotes is read back as that text (`Json.unescape?_escape`), so two
texts are not written alike. The same holds of whole values: a value that is made of texts, integers
and truth values by arrays and records (`Json.Made`) is read back from its written form, whatever
follows it (`Json.readValue?_write`). A number alone does not say where it ends; in an array or a
record a comma or a closing bracket does.

So the written form of such a value determines it (`Json.render_inj`).
-/

namespace YangSchema

namespace Json

variable {cs rest acc : List Char} {c l : Char}

/-! ## Texts -/

@[simp] theorem escape_nil : escape [] = [] := rfl

@[simp] theorem escape_cons (c : Char) (cs : List Char) :
    escape (c :: cs) = escapeChar c ++ escape cs := rfl

/-- A character is written behind a backslash, by a letter of its own or its number, or as it is. -/
theorem escapeChar_cases (c : Char) :
    (∃ l, escapedLetter? l = some c ∧ escapeChar c = ['\\', l])
      ∨ (c.toNat < 32 ∧ escapeChar c
          = ['\\', 'u', '0', '0', Nat.digitChar (c.toNat / 16), Nat.digitChar (c.toNat % 16)])
      ∨ (c ≠ '"' ∧ c ≠ '\\' ∧ 32 ≤ c.toNat ∧ escapeChar c = [c]) := by
  unfold escapeChar
  split
  · rename_i h
    subst h
    exact .inl ⟨'"', by decide, rfl⟩
  split
  · rename_i h
    subst h
    exact .inl ⟨'\\', by decide, rfl⟩
  split
  · rename_i h
    subst h
    exact .inl ⟨'b', by decide, rfl⟩
  split
  · rename_i h
    subst h
    exact .inl ⟨'t', by decide, rfl⟩
  split
  · rename_i h
    subst h
    exact .inl ⟨'n', by decide, rfl⟩
  split
  · rename_i h
    subst h
    exact .inl ⟨'f', by decide, rfl⟩
  split
  · rename_i h
    subst h
    exact .inl ⟨'r', by decide, rfl⟩
  split
  · rename_i h
    exact .inr (.inl ⟨h, rfl⟩)
  · exact .inr (.inr ⟨‹_›, ‹_›, by omega, rfl⟩)

theorem hexQuad?_digits {n : Nat} (hn : n < 32) :
    hexQuad? '0' '0' (Nat.digitChar (n / 16)) (Nat.digitChar (n % 16)) = some n := by
  revert n
  decide +kernel

theorem unescape?_letter (hl : escapedLetter? l = some c) :
    unescape? ('\\' :: l :: rest) = (unescape? rest).map (c :: ·) := by
  rw [unescape?.eq_def]
  split
  · rename_i heq
    cases heq
  · rename_i heq
    cases heq
    cases hl
  · rename_i heq
    cases heq
    cases hl
  · rename_i heq
    cases heq
    rw [hl]
  · rename_i hletter heq
    cases heq
    exact (hletter _ _ rfl rfl).elim

theorem unescape?_number {a b c d : Char} {n : Nat} (hn : hexQuad? a b c d = some n)
    (hhigh : isHighHalf n = false) (hlow : isLowHalf n = false) :
    unescape? ('\\' :: 'u' :: a :: b :: c :: d :: rest)
      = (unescape? rest).map (Char.ofNat n :: ·) := by
  rw [unescape?.eq_def]
  split
  · rename_i heq
    cases heq
  · rename_i heq
    cases heq
    simp [hn, hhigh, hlow]
  · rename_i heq
    cases heq
    simp [hn, hhigh, hlow]
  · rename_i hnumber heq
    cases heq
    exact (hnumber _ _ _ _ _ rfl rfl).elim
  · rename_i hletter heq
    cases heq
    exact (hletter _ _ rfl rfl).elim

theorem unescape?_plain (hc : c ≠ '\\') :
    unescape? (c :: rest) = (unescape? rest).map (c :: ·) := by
  rw [unescape?.eq_def]
  split
  · rename_i heq
    cases heq
  · rename_i heq
    cases heq
    exact absurd rfl hc
  · rename_i heq
    cases heq
    exact absurd rfl hc
  · rename_i heq
    cases heq
    exact absurd rfl hc
  · rename_i heq
    cases heq
    rw [if_neg hc]

/-- Reading undoes writing. -/
theorem unescape?_escape (cs : List Char) : unescape? (escape cs) = some cs := by
  induction cs with
  | nil => rfl
  | cons c cs ih =>
    rw [escape_cons]
    obtain ⟨l, hl, heq⟩ | ⟨hc, heq⟩ | ⟨_, hc, _, heq⟩ := escapeChar_cases c
    · rw [heq]
      show unescape? ('\\' :: l :: escape cs) = _
      rw [unescape?_letter hl, ih]
      rfl
    · have hhalf : isHighHalf c.toNat = false ∧ isLowHalf c.toNat = false := by
        simp [isHighHalf, isLowHalf]
        omega
      rw [heq]
      show unescape? ('\\' :: 'u' :: '0' :: '0' :: _ :: _ :: escape cs) = _
      rw [unescape?_number (hexQuad?_digits hc) hhalf.1 hhalf.2, ih, Char.ofNat_toNat]
      rfl
    · rw [heq]
      show unescape? (c :: escape cs) = _
      rw [unescape?_plain hc, ih]
      rfl

theorem escape_injective : Function.Injective escape := by
  intro cs ds h
  have hread := unescape?_escape cs
  rw [h, unescape?_escape ds] at hread
  exact (Option.some.inj hread).symm

/-! ## Strings -/

theorem readString?_letter (hl : escapedLetter? l = some c) :
    readString? acc ('\\' :: l :: rest) = readString? (l :: '\\' :: acc) rest := by
  rw [readString?.eq_def]
  split
  · rename_i heq
    cases heq
  · rename_i heq
    cases heq
    cases hl
  · rename_i heq
    cases heq
    rw [hl]
    rfl
  · rename_i hletter heq
    cases heq
    exact (hletter _ _ rfl rfl).elim

theorem readString?_number {a b c d : Char} (hn : (hexQuad? a b c d).isSome = true) :
    readString? acc ('\\' :: 'u' :: a :: b :: c :: d :: rest)
      = readString? (d :: c :: b :: a :: 'u' :: '\\' :: acc) rest := by
  rw [readString?, if_pos hn]

theorem readString?_plain (hquote : c ≠ '"') (hslash : c ≠ '\\') (hc : 32 ≤ c.toNat) :
    readString? acc (c :: rest) = readString? (c :: acc) rest := by
  rw [readString?.eq_def]
  split
  · rename_i heq
    cases heq
  · rename_i heq
    cases heq
    exact absurd rfl hslash
  · rename_i heq
    cases heq
    exact absurd rfl hslash
  · rename_i heq
    cases heq
    rw [if_neg hquote, if_neg (by simp [hslash]; omega)]

/-- An escaped text is read as it is written, up to the closing quote. -/
theorem readString?_escape (acc cs rest : List Char) :
    readString? acc (escape cs ++ '"' :: rest) = some (acc.reverse ++ escape cs, rest) := by
  induction cs generalizing acc with
  | nil =>
    show readString? acc ('"' :: rest) = _
    rw [readString?.eq_def]
    simp
  | cons c cs ih =>
    rw [escape_cons]
    obtain ⟨l, hl, heq⟩ | ⟨hc, heq⟩ | ⟨hquote, hslash, hc, heq⟩ := escapeChar_cases c
    · rw [heq]
      show readString? acc ('\\' :: l :: (escape cs ++ '"' :: rest)) = _
      rw [readString?_letter hl, ih]
      simp
    · have hdigits := congrArg Option.isSome (hexQuad?_digits hc)
      rw [heq]
      show readString? acc ('\\' :: 'u' :: '0' :: '0' :: _ :: _ :: (escape cs ++ '"' :: rest)) = _
      rw [readString?_number hdigits, ih]
      simp
    · rw [heq]
      show readString? acc (c :: (escape cs ++ '"' :: rest)) = _
      rw [readString?_plain hquote hslash hc, ih]
      simp

/-! ## Numbers -/

/-- What follows a number does not go on with it. -/
def EndsNumber (rest : List Char) : Prop :=
  ∀ c ∈ rest.head?, Text.isDigit c = false ∧ c ≠ '.' ∧ c ≠ 'e' ∧ c ≠ 'E'

/-- Digits are read up to where the number ends. -/
theorem readDigits?_append {digits : List Char} (hdigits : ∀ c ∈ digits, Text.isDigit c = true)
    (hne : digits ≠ []) (hrest : EndsNumber rest) :
    readDigits? (digits ++ rest) = some (digits, rest) := by
  have hstop : rest.takeWhile Text.isDigit = [] ∧ rest.dropWhile Text.isDigit = rest := by
    cases rest with
    | nil => exact ⟨rfl, rfl⟩
    | cons c cs =>
      have hc := (hrest c rfl).1
      rw [List.takeWhile_cons, List.dropWhile_cons, hc]
      exact ⟨rfl, rfl⟩
  unfold readDigits?
  rw [List.takeWhile_append_of_pos hdigits, List.dropWhile_append_of_pos hdigits, hstop.1, hstop.2,
    List.append_nil]
  simp [hne]

theorem readWhole?_toDigits (n : Nat) (hrest : EndsNumber rest) :
    readWhole? (Nat.toDigits 10 n ++ rest) = some (Nat.toDigits 10 n, rest) := by
  rcases Nat.eq_zero_or_pos n with rfl | hn
  · rfl
  · have hdigits := readDigits?_append (fun c => Text.isDigit_of_mem_toDigits (n := n))
      Nat.toDigits_ne_nil hrest
    have hhead := Text.head?_toDigits hn
    cases hcs : Nat.toDigits 10 n with
    | nil => exact absurd hcs Nat.toDigits_ne_nil
    | cons c cs =>
      rw [hcs] at hdigits hhead
      rw [List.cons_append, readWhole?.eq_def] at *
      split
      · rename_i heq
        cases heq
        exact absurd rfl hhead
      · exact hdigits

/-- Behind the whole part, a number that ends has neither a point nor an exponent. -/
theorem readFraction?_of_ends (hrest : EndsNumber rest) : readFraction? rest = some ([], rest) := by
  rw [readFraction?.eq_def]
  split
  · exact absurd rfl (hrest _ rfl).2.1
  · rfl

theorem readExponent?_of_ends (hrest : EndsNumber rest) : readExponent? rest = some ([], rest) := by
  cases rest with
  | nil => rfl
  | cons c cs =>
    obtain ⟨_, _, he, hE⟩ := hrest c rfl
    rw [readExponent?.eq_def]
    simp [he, hE]

/-- The digits of an integer, with the sign of a negative one. -/
def intChars (n : Int) : List Char :=
  if 0 ≤ n then Nat.toDigits 10 n.toNat else '-' :: Nat.toDigits 10 (-n).toNat

theorem toList_toString_int (n : Int) : (toString n).toList = intChars n := by
  rw [Int.toString_eq_repr, Int.repr_eq_if, intChars]
  split
  · rw [Nat.repr_eq_ofList_toDigits, String.toList_ofList]
  · rw [Nat.repr_eq_ofList_toDigits, String.toList_append, String.toList_ofList,
      String.toList_ofList]
    rfl

/-- An integer begins with a digit or a minus. -/
theorem exists_intChars_eq (n : Int) :
    ∃ c cs, intChars n = c :: cs ∧ (Text.isDigit c = true ∨ c = '-') := by
  unfold intChars
  split
  · cases hcs : Nat.toDigits 10 n.toNat with
    | nil => exact absurd hcs Nat.toDigits_ne_nil
    | cons c cs =>
      refine ⟨c, cs, rfl, .inl (Text.isDigit_of_mem_toDigits (n := n.toNat) ?_)⟩
      rw [hcs]
      exact List.mem_cons_self
  · exact ⟨'-', _, rfl, .inr rfl⟩

/-- An integer is read as it is written. -/
theorem readNumber?_int (n : Int) (hrest : EndsNumber rest) :
    readNumber? (intChars n ++ rest) = some (intChars n, rest) := by
  have hfraction := readFraction?_of_ends hrest
  have hexponent := readExponent?_of_ends hrest
  unfold intChars
  split
  · have hwhole := readWhole?_toDigits n.toNat hrest
    cases hcs : Nat.toDigits 10 n.toNat with
    | nil => exact absurd hcs Nat.toDigits_ne_nil
    | cons c cs =>
      -- no digit is a minus
      have hdigit : Text.isDigit c = true := by
        apply Text.isDigit_of_mem_toDigits (n := n.toNat)
        rw [hcs]
        exact List.mem_cons_self
      rw [hcs] at hwhole
      unfold readNumber?
      rw [List.cons_append] at hwhole ⊢
      split
      rename_i sign ds heq
      split at heq
      · rename_i hminus
        cases hminus
        cases hdigit
      · cases heq
        simp [hwhole, hfraction, hexponent]
  · have hwhole := readWhole?_toDigits (-n).toNat hrest
    unfold readNumber?
    rw [List.cons_append]
    simp [hwhole, hfraction, hexponent]

/-! ## Values -/

/-- A value that is made of texts, integers and truth values. -/
inductive Made : Json → Prop
  | null : Made .null
  | bool (value : Bool) : Made (.bool value)
  | int (n : Int) : Made (.ofInt n)
  | text (s : String) : Made (.ofText s)
  | array (items : List Json) (hitems : ∀ j ∈ items, Made j) : Made (.array items)
  | fields (fields : List (String × Json)) (hfields : ∀ f ∈ fields, Made f.2) :
    Made (.ofFields fields)

/-- The number of a natural number is that of an integer. -/
theorem Made.nat (n : Nat) : Made (.ofNat n) := .int n

/-- How the written form of a value begins: not with a blank, and not like the end of an array. -/
theorem exists_write_eq {j : Json} (h : Made j) (rest : List Char) :
    ∃ c cs, j.write rest = c :: cs ∧ isSpace c = false ∧ c ≠ ']' := by
  cases h with
  | null => exact ⟨'n', _, rfl, by decide, by decide⟩
  | bool value =>
    cases value with
    | true => exact ⟨'t', _, rfl, by decide, by decide⟩
    | false => exact ⟨'f', _, rfl, by decide, by decide⟩
  | int n =>
    obtain ⟨c, cs, hcs, hc⟩ := exists_intChars_eq n
    refine ⟨c, cs ++ rest, ?_, ?_, ?_⟩
    · rw [ofInt, write, toList_toString_int, hcs, List.cons_append]
    · rw [Bool.eq_false_iff]
      intro hspace
      simp only [isSpace, Bool.or_eq_true, beq_iff_eq] at hspace
      rcases hspace with ((rfl | rfl) | rfl) | rfl <;> revert hc <;> decide
    · rintro rfl
      revert hc
      decide
  | text s => exact ⟨'"', _, rfl, by decide, by decide⟩
  | array items hitems =>
    cases items with
    | nil => exact ⟨'[', _, rfl, by decide, by decide⟩
    | cons j js => exact ⟨'[', _, rfl, by decide, by decide⟩
  | fields fields hfields =>
    cases fields with
    | nil => exact ⟨'\x7b', _, rfl, by decide, by decide⟩
    | cons f fs => exact ⟨'\x7b', _, rfl, by decide, by decide⟩

theorem skipSpace_write {j : Json} (h : Made j) (rest : List Char) :
    skipSpace (j.write rest) = j.write rest := by
  obtain ⟨c, cs, heq, hspace, _⟩ := exists_write_eq h rest
  rw [heq, skipSpace, List.dropWhile_cons, hspace]
  rfl

mutual

/-- What follows a value is written behind it. -/
theorem write_append : ∀ (j : Json) (rest rest' : List Char),
    j.write (rest ++ rest') = j.write rest ++ rest'
  | .null, _, _ => rfl
  | .bool true, _, _ => rfl
  | .bool false, _, _ => rfl
  | .number written, rest, rest' => by rw [write, write, List.append_assoc]
  | .string written, rest, rest' => by
    rw [write, write, writeString, writeString, List.cons_append, List.append_assoc,
      List.cons_append]
  | .array [], _, _ => rfl
  | .array (j :: js), rest, rest' => by
    rw [write, write, ← List.cons_append, writeItems_append js, write_append j, List.cons_append]
  | .object [], _, _ => rfl
  | .object (f :: fs), rest, rest' => by
    rw [write, write, ← List.cons_append, writeFields_append fs, writeField_append f,
      List.cons_append]

theorem writeItems_append : ∀ (js : List Json) (rest rest' : List Char),
    writeItems js (rest ++ rest') = writeItems js rest ++ rest'
  | [], _, _ => rfl
  | j :: js, rest, rest' => by
    rw [writeItems, writeItems, writeItems_append js, write_append j, List.cons_append]

theorem writeField_append : ∀ (f : List Char × Json) (rest rest' : List Char),
    writeField f (rest ++ rest') = writeField f rest ++ rest'
  | (key, j), rest, rest' => by
    rw [writeField, writeField, write_append j, writeString, writeString, List.cons_append,
      List.append_assoc, List.cons_append, List.cons_append]

theorem writeFields_append : ∀ (fs : List (List Char × Json)) (rest rest' : List Char),
    writeFields fs (rest ++ rest') = writeFields fs rest ++ rest'
  | [], _, _ => rfl
  | f :: fs, rest, rest' => by
    rw [writeFields, writeFields, writeFields_append fs, writeField_append f, List.cons_append]

end

/-- A value is read back, whatever follows it: as many values may start in it as it has
characters. -/
def ReadsBack (j : Json) : Prop :=
  ∀ n rest, (j.write rest).length ≤ n + rest.length → EndsNumber rest →
    readValue? n (j.write rest) = some (j, rest)

theorem endsNumber_cons {c : Char} (hc : c ∈ [',', ']', '\x7d']) (rest : List Char) :
    EndsNumber (c :: rest) := by
  rintro _ ⟨⟩
  simp only [List.mem_cons, List.not_mem_nil, or_false] at hc
  rcases hc with rfl | rfl | rfl
  · decide
  · decide
  · decide

theorem endsNumber_writeItems (js : List Json) (rest : List Char) :
    EndsNumber (writeItems js (']' :: rest)) := by
  cases js with
  | nil => exact endsNumber_cons (by decide) rest
  | cons j js => exact endsNumber_cons (by decide) _

theorem endsNumber_writeFields (fs : List (List Char × Json)) (rest : List Char) :
    EndsNumber (writeFields fs ('\x7d' :: rest)) := by
  cases fs with
  | nil => exact endsNumber_cons (by decide) rest
  | cons f fs => exact endsNumber_cons (by decide) _

/-- A value takes at least one character. -/
theorem length_lt_write {j : Json} (h : Made j) (rest : List Char) :
    rest.length < (j.write rest).length := by
  obtain ⟨c, cs, heq, _⟩ := exists_write_eq h []
  have happend := write_append j [] rest
  rw [List.nil_append] at happend
  rw [happend, heq, List.length_append, List.length_cons]
  omega

theorem length_le_writeItems (js : List Json) (rest : List Char) :
    rest.length ≤ (writeItems js rest).length := by
  have happend := writeItems_append js [] rest
  rw [List.nil_append] at happend
  rw [happend, List.length_append]
  omega

theorem length_le_writeFields (fs : List (List Char × Json)) (rest : List Char) :
    rest.length ≤ (writeFields fs rest).length := by
  have happend := writeFields_append fs [] rest
  rw [List.nil_append] at happend
  rw [happend, List.length_append]
  omega

/-- Where something follows that ends a list, a part of the list is read back with one fewer. -/
theorem ReadsBack.part {j : Json} (back : ReadsBack j) (made : Made j) {n : Nat}
    {behind rest : List Char} (hends : EndsNumber behind) (hrest : rest.length < behind.length)
    (hn : (j.write behind).length ≤ n + rest.length) :
    ∃ k, n = k + 1 ∧ readValue? k (j.write behind) = some (j, behind)
      ∧ behind.length ≤ k + rest.length := by
  have hshorter := length_lt_write made behind
  refine ⟨n - 1, by omega, back _ _ (by omega) hends, by omega⟩

/-- The items of an array are read back, one behind the other. -/
theorem readItems?_write {j : Json} {js : List Json} (made : ∀ i ∈ j :: js, Made i)
    (back : ∀ i ∈ j :: js, ReadsBack i) (n : Nat) (rest : List Char)
    (hn : (j.write (writeItems js (']' :: rest))).length ≤ n + rest.length) :
    readItems? n (j.write (writeItems js (']' :: rest))) = some (j :: js, rest) := by
  induction js generalizing j n with
  | nil =>
    obtain ⟨k, rfl, hread, _⟩ := (back j List.mem_cons_self).part (made j List.mem_cons_self)
      (endsNumber_writeItems [] rest) (length_le_writeItems [] (']' :: rest)) hn
    rw [readItems?, hread]
    rfl
  | cons i js ih =>
    obtain ⟨k, rfl, hread, hlength⟩ := (back j List.mem_cons_self).part
      (made j List.mem_cons_self) (endsNumber_writeItems (i :: js) rest)
      (length_le_writeItems (i :: js) (']' :: rest)) hn
    rw [writeItems, List.length_cons] at hlength
    obtain ⟨_, made⟩ := List.forall_mem_cons.1 made
    obtain ⟨_, back⟩ := List.forall_mem_cons.1 back
    have hitems := ih made back k (by omega)
    rw [readItems?, hread]
    show (readItems? k (skipSpace (i.write (writeItems js (']' :: rest))))).map _ = _
    rw [skipSpace_write (made i List.mem_cons_self), hitems]
    rfl

/-- A field of a record as it is written. -/
def writtenField (f : String × Json) : List Char × Json := (escape f.1.toList, f.2)

/-- A field takes more characters than its value. -/
theorem length_write_le (f : String × Json) (behind : List Char) :
    (f.2.write behind).length ≤ (writeField (writtenField f) behind).length := by
  simp only [writtenField, writeField, writeString, List.length_cons, List.length_append]
  omega

/-- A field is read back where its value is. -/
theorem readFields?_field {f : String × Json} (made : Made f.2) {k : Nat} {behind : List Char}
    (hread : readValue? k (f.2.write behind) = some (f.2, behind)) :
    readFields? (k + 1) (writeField (writtenField f) behind) = match skipSpace behind with
      | ',' :: cs => (readFields? k (skipSpace cs)).map fun r => (writtenField f :: r.1, r.2)
      | '\x7d' :: cs => some ([writtenField f], cs)
      | _ => none := by
  have hkey := readString?_escape [] f.1.toList (':' :: f.2.write behind)
  show readFields? (k + 1) ('"' :: (escape f.1.toList ++ '"' :: ':' :: f.2.write behind)) = _
  have hcolon : skipSpace (':' :: f.2.write behind) = ':' :: f.2.write behind := rfl
  rw [readFields?, hkey]
  simp only [hcolon, skipSpace_write made, hread]
  rfl

/-- The fields of a record are read back, one behind the other. -/
theorem readFields?_write {f : String × Json} {fs : List (String × Json)}
    (made : ∀ g ∈ f :: fs, Made g.2) (back : ∀ g ∈ f :: fs, ReadsBack g.2) (n : Nat)
    (rest : List Char) (hn : (writeField (writtenField f)
      (writeFields (fs.map writtenField) ('\x7d' :: rest))).length ≤ n + rest.length) :
    readFields? n (writeField (writtenField f)
        (writeFields (fs.map writtenField) ('\x7d' :: rest)))
      = some ((f :: fs).map writtenField, rest) := by
  induction fs generalizing f n with
  | nil =>
    obtain ⟨k, rfl, hread, _⟩ := (back f List.mem_cons_self).part (made f List.mem_cons_self)
      (endsNumber_writeFields [] rest) (length_le_writeFields [] ('\x7d' :: rest))
      (Nat.le_trans (length_write_le f _) hn)
    exact readFields?_field (made f List.mem_cons_self) hread
  | cons g fs ih =>
    have hends := endsNumber_writeFields ((g :: fs).map writtenField) rest
    have hmore := length_le_writeFields ((g :: fs).map writtenField) ('\x7d' :: rest)
    obtain ⟨k, rfl, hread, hlength⟩ := (back f List.mem_cons_self).part
      (made f List.mem_cons_self) hends hmore (Nat.le_trans (length_write_le f _) hn)
    rw [List.map_cons, writeFields, List.length_cons] at hlength
    refine (readFields?_field (made f List.mem_cons_self) hread).trans ?_
    obtain ⟨_, made⟩ := List.forall_mem_cons.1 made
    obtain ⟨_, back⟩ := List.forall_mem_cons.1 back
    have hfields := ih made back k (by omega)
    show (readFields? k (writeField (writtenField g)
      (writeFields (fs.map writtenField) ('\x7d' :: rest)))).map _ = _
    rw [hfields]
    rfl

theorem ReadsBack.of_succ {j : Json} (made : Made j)
    (h : ∀ n rest, (j.write rest).length ≤ n + 1 + rest.length → EndsNumber rest →
      readValue? (n + 1) (j.write rest) = some (j, rest)) : ReadsBack j := by
  intro n rest hn hrest
  have hpos := length_lt_write made rest
  obtain ⟨k, rfl⟩ : ∃ k, n = k + 1 := ⟨n - 1, by omega⟩
  exact h k rest hn hrest

/-- Numbers are told from all other values by their first character. -/
theorem readValue?_int (k : Int) (n : Nat) (hrest : EndsNumber rest) :
    readValue? (n + 1) ((ofInt k).write rest) = some (ofInt k, rest) := by
  have hread := readNumber?_int k hrest
  obtain ⟨c, cs, hcs, hc⟩ := exists_intChars_eq k
  rw [ofInt, write, toList_toString_int]
  rw [hcs, List.cons_append] at hread ⊢
  rw [readValue?.eq_def]
  dsimp only
  split
  case h_8 =>
    rw [hread]
    rfl
  -- no other value begins with a digit or a minus
  all_goals
    rename_i heq
    cases heq <;> exact absurd hc (by decide)

/-- **What is made of texts, integers and truth values is read back from its written form.** -/
theorem readValue?_write {j : Json} (h : Made j) : ReadsBack j := by
  induction h with
  | null => exact .of_succ .null fun n rest _ _ => rfl
  | bool value =>
    apply ReadsBack.of_succ (.bool value)
    intro n rest _ _
    cases value <;> rfl
  | int k => exact .of_succ (.int k) fun n rest _ hrest => readValue?_int k n hrest
  | text s =>
    apply ReadsBack.of_succ (.text s)
    intro n rest _ _
    show readValue? (n + 1) ('"' :: (escape s.toList ++ '"' :: rest)) = _
    rw [readValue?, readString?_escape]
    rfl
  | array items hitems ih =>
    apply ReadsBack.of_succ (.array items hitems)
    intro n rest hn _
    cases items with
    | nil => rfl
    | cons j js =>
      have made := hitems j List.mem_cons_self
      have hlength : (j.write (writeItems js (']' :: rest))).length ≤ n + rest.length := by
        rw [write, List.length_cons] at hn
        omega
      have hread := readItems?_write hitems ih n rest hlength
      have hskip := skipSpace_write made (writeItems js (']' :: rest))
      obtain ⟨c, cs, heq, _, hc⟩ := exists_write_eq made (writeItems js (']' :: rest))
      show readValue? (n + 1) ('[' :: j.write (writeItems js (']' :: rest))) = _
      rw [readValue?, hskip]
      split
      · rename_i hclose
        rw [heq] at hclose
        cases hclose
        exact absurd rfl hc
      · rw [hread]
        rfl
  | fields fields hfields ih =>
    apply ReadsBack.of_succ (.fields fields hfields)
    intro n rest hn _
    cases fields with
    | nil => rfl
    | cons f fs =>
      have hlength : (writeField (writtenField f)
          (writeFields (fs.map writtenField) ('\x7d' :: rest))).length ≤ n + rest.length := by
        have hlonger : (writeField (writtenField f)
            (writeFields (fs.map writtenField) ('\x7d' :: rest))).length + 1
          ≤ n + 1 + rest.length := hn
        omega
      have hread := readFields?_write hfields ih n rest hlength
      show (readFields? n (writeField (writtenField f)
        (writeFields (fs.map writtenField) ('\x7d' :: rest)))).map _ = _
      rw [hread]
      rfl

/-- A value that is made so is read back from its text. -/
theorem parse?_render {j : Json} (h : Made j) : parse? j.render = some j := by
  unfold parse? render
  rw [String.toList_ofList, skipSpace_write h]
  have hread := readValue?_write h ((j.write []).length + 1) [] (by simp) (by simp [EndsNumber])
  rw [hread]
  rfl

/-- Its text determines a value that is made so. -/
theorem render_inj {j k : Json} (hj : Made j) (hk : Made k) : j.render = k.render ↔ j = k := by
  constructor
  · intro h
    have hread := parse?_render hj
    rw [h, parse?_render hk] at hread
    exact (Option.some.inj hread).symm
  · exact congrArg render

end Json

end YangSchema
