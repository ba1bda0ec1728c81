import Mathlib.Algebra.Group.Int.Defs
import Mathlib.Data.Nat.Digits.Defs
import YangSchema.Proofs.Digits
import YangSchema.Types.Interval

/-!
# Scaled numbers

A bound of a decimal type is an optional sign and digits, with a point among them or without one,
and its value is a whole number of the units that the scale leaves
(`Interval.boundOfString?_eq_some`).

`Interval.wordBound?` finds this value on words of 128 bits: the digits in front of the point are
read, and then the word is multiplied by ten and the next digit added, once for each place of the
scale. These two operations are checked. Nothing checks that the byte of a digit is not below that
of zero, nor that the final word has a negative, and nothing needs to: neither ever overflows, and
the words that come out are the numbers that `Interval.boundOfString?` gives
(`Interval.scaled_numbers_are_exact`). For while no digit is taken away a number never gets smaller,
so the first checked operation without a result tells that the final value has no word either.
-/

namespace YangSchema

namespace Text

variable {cs ds whole fraction : List Char} {n high : Nat}

/-! ## The value of digits -/

/-- The value of digits, each by the weight of its place. -/
def decimal (cs : List Char) : Nat := Nat.ofDigits 10 (cs.reverse.map digitValue)

theorem decimal_append : decimal (cs ++ ds) = decimal cs * 10 ^ ds.length + decimal ds := by
  unfold decimal
  rw [List.reverse_append, List.map_append, Nat.ofDigits_append, List.length_map,
    List.length_reverse, Nat.mul_comm, Nat.add_comm]

theorem decimal_singleton (c : Char) : decimal [c] = digitValue c := by
  show Nat.ofDigits 10 [digitValue c] = _
  rw [Nat.ofDigits_singleton]

theorem decimal_zeros (k : Nat) : decimal (List.replicate k '0') = 0 := by
  induction k with
  | zero => rfl
  | succ k ih =>
    rw [List.replicate_succ, ← List.singleton_append, decimal_append, ih, decimal_singleton]
    show 0 * _ + 0 = 0
    rw [Nat.zero_mul]

/-- Reading on behind digits shifts their value by the places that are read. -/
theorem digitsValue_eq (high : Nat) (cs : List Char) :
    digitsValue high cs = high * 10 ^ cs.length + decimal cs := by
  induction cs generalizing high with
  | nil =>
    show high = high * 10 ^ 0 + 0
    omega
  | cons c cs ih =>
    show digitsValue (10 * high + digitValue c) cs = _
    rw [ih, ← List.singleton_append, decimal_append, decimal_singleton, List.length_append,
      List.length_singleton, Nat.add_comm 1, Nat.pow_succ]
    ring

theorem le_digitsValue (high : Nat) (cs : List Char) : high ≤ digitsValue high cs := by
  rw [digitsValue_eq]
  have hpos : 0 < 10 ^ cs.length := Nat.pos_of_ne_zero (by simp)
  have hle := Nat.le_mul_of_pos_right high hpos
  omega

end Text

namespace Interval

variable {cs whole fraction : List Char} {text : String} {places n d : Nat} {v : Int}

/-! ## What is written -/

/-- The characters that stand for a sign; a number that is not negative may do without. -/
inductive IsSign : List Char → Int → Prop
  | absent : IsSign [] 1
  | plus : IsSign ['+'] 1
  | minus : IsSign ['-'] (-1)

/-- Digits, with at most `places` of them behind a point, write `n` units of the last place. -/
structure WritesUnits (places : Nat) (whole fraction : List Char) (n : Nat) : Prop where
  whole_ne : whole ≠ []
  whole_digits : ∀ c ∈ whole, Text.isDigit c = true
  fraction_digits : ∀ c ∈ fraction, Text.isDigit c = true
  length_le : fraction.length ≤ places
  /-- The fraction counts as if it were filled up with zeros. -/
  value : n = Text.decimal whole * 10 ^ places
    + Text.decimal fraction * 10 ^ (places - fraction.length)

/-- The digits stand with a point between them, which an empty fraction does not need. -/
def Joins (cs whole fraction : List Char) : Prop :=
  cs = whole ++ '.' :: fraction ∨ cs = whole ∧ fraction = []

/-- A text writes a number of units of the last place which has a word, as has its negative. -/
def WritesScaled (places : Nat) (t : String) (v : Int) : Prop :=
  ∃ (sign cs whole fraction : List Char) (s : Int) (n : Nat), t.toList = sign ++ cs ∧ IsSign sign s
    ∧ Joins cs whole fraction ∧ WritesUnits places whole fraction n
    ∧ v = s * n ∧ v.natAbs ≤ 2 ^ 127 - 1

theorem not_point_mem_digits (hcs : ∀ c ∈ cs, Text.isDigit c = true) : '.' ∉ cs :=
  fun hmem => absurd (hcs '.' hmem) (by decide)

/-- Digits are taken apart at the point between them. -/
theorem cutChars?_of_joins (hwhole : ∀ c ∈ whole, Text.isDigit c = true)
    (h : Joins cs whole fraction) :
    (Text.cutChars? '.' cs).getD (cs, []) = (whole, fraction) := by
  have hpoint := not_point_mem_digits hwhole
  rcases h with rfl | ⟨rfl, rfl⟩
  · rw [Text.cutChars?_eq_some_iff.2 ⟨rfl, hpoint⟩]
    rfl
  · rw [Text.cutChars?_eq_none_iff.2 hpoint]
    rfl

theorem joins_cutChars? (cs : List Char) :
    Joins cs ((Text.cutChars? '.' cs).getD (cs, [])).1
      ((Text.cutChars? '.' cs).getD (cs, [])).2 := by
  cases hcut : Text.cutChars? '.' cs with
  | none => exact .inr ⟨rfl, rfl⟩
  | some parts =>
    obtain ⟨whole, fraction⟩ := parts
    exact .inl (Text.cutChars?_eq_some_iff.1 hcut).1

/-- Zeros behind the fraction make it as long as the scale asks for. -/
theorem digitsValue_filled (whole fraction : List Char) (h : fraction.length ≤ places) :
    Text.digitsValue (Text.decimal whole)
        (fraction ++ List.replicate (places - fraction.length) '0')
      = Text.decimal whole * 10 ^ places
        + Text.decimal fraction * 10 ^ (places - fraction.length) := by
  have hlength : fraction.length + (places - fraction.length) = places := by omega
  rw [Text.digitsValue_eq, Text.decimal_append, Text.decimal_zeros, List.length_append,
    List.length_replicate, hlength, Nat.add_zero]

theorem digitsValue_zero (cs : List Char) : Text.digitsValue 0 cs = Text.decimal cs := by
  rw [Text.digitsValue_eq, Nat.zero_mul, Nat.zero_add]

theorem scaledMagnitude?_eq_some : scaledMagnitude? places cs = some n
    ↔ ∃ whole fraction, Joins cs whole fraction ∧ WritesUnits places whole fraction n := by
  constructor
  · intro h
    have hjoins := joins_cutChars? cs
    unfold scaledMagnitude? at h
    generalize (Text.cutChars? '.' cs).getD (cs, []) = parts at h hjoins
    obtain ⟨whole, fraction⟩ := parts
    dsimp only at h hjoins
    split at h
    · rename_i hcheck
      rw [Bool.and_eq_true, decide_eq_true_iff, List.all_eq_true] at hcheck
      obtain ⟨m, hm, rfl⟩ := Option.map_eq_some_iff.1 h
      obtain ⟨hne, hdigits, rfl⟩ := Text.natOfDigits?_eq_some.1 hm
      refine ⟨whole, fraction, hjoins, hne, hdigits, hcheck.2, hcheck.1, ?_⟩
      rw [digitsValue_zero, digitsValue_filled whole fraction hcheck.1]
    · cases h
  · rintro ⟨whole, fraction, hjoins, hwrites⟩
    have hcheck : (decide (fraction.length ≤ places) && fraction.all Text.isDigit) = true := by
      rw [Bool.and_eq_true, decide_eq_true_iff, List.all_eq_true]
      exact ⟨hwrites.length_le, hwrites.fraction_digits⟩
    have hread : Text.natOfDigits? whole = some (Text.decimal whole) :=
      Text.natOfDigits?_eq_some.2 ⟨hwrites.whole_ne, hwrites.whole_digits, digitsValue_zero whole⟩
    unfold scaledMagnitude?
    rw [cutChars?_of_joins hwrites.whole_digits hjoins]
    dsimp only
    rw [if_pos hcheck, hread, Option.map_some, digitsValue_filled _ _ hwrites.length_le,
      hwrites.value]

/-- A sign cut off: whether it is a minus, and what stands behind it. -/
def cutSign : List Char → Bool × List Char
  | '-' :: cs => (true, cs)
  | '+' :: cs => (false, cs)
  | cs => (false, cs)

/-- A number with the sign that has been cut off. -/
def signed (negative : Bool) (n : Nat) : Int := if negative then -n else n

theorem boundOfString?_eq (text : String) (places : Nat) :
    boundOfString? text (some places)
      = ((scaledMagnitude? places (cutSign (Text.trim text).toList).2).map
          (signed (cutSign (Text.trim text).toList).1)).filter
            fun n => -(greatestBound : Int) ≤ n && n ≤ greatestBound := by
  unfold boundOfString?
  dsimp only
  generalize (Text.trim text).toList = cs
  congr 1
  split
  · rename_i cs
    show _ = (scaledMagnitude? places cs).map (signed true)
    cases scaledMagnitude? places cs <;> rfl
  · rfl
  · rename_i hminus hplus
    rw [cutSign.eq_3 cs hminus hplus]
    rfl

/-- What stands behind the sign is the number, with one of the three spellings of its sign. -/
theorem exists_sign (cs : List Char) : ∃ sign, cs = sign ++ (cutSign cs).2
    ∧ IsSign sign (if (cutSign cs).1 then -1 else 1) := by
  unfold cutSign
  split
  · exact ⟨['-'], rfl, .minus⟩
  · exact ⟨['+'], rfl, .plus⟩
  · exact ⟨[], rfl, .absent⟩

/-- A sign is cut off from digits, of which none is a sign. -/
theorem cutSign_append {sign : List Char} {s : Int} (hsign : IsSign sign s)
    (hcs : ∀ c ∈ cs.head?, Text.isDigit c = true) :
    (cutSign (sign ++ cs)).2 = cs ∧ s = if (cutSign (sign ++ cs)).1 then -1 else 1 := by
  cases hsign with
  | absent =>
    rw [List.nil_append, cutSign.eq_def]
    split
    · exact absurd (hcs '-' rfl) (by decide)
    · exact absurd (hcs '+' rfl) (by decide)
    · exact ⟨rfl, rfl⟩
  | plus => exact ⟨rfl, rfl⟩
  | minus => exact ⟨rfl, rfl⟩

theorem isDigit_head?_of_joins (hwrites : WritesUnits places whole fraction n)
    (hjoins : Joins cs whole fraction) : ∀ c ∈ cs.head?, Text.isDigit c = true := by
  obtain ⟨c, whole', rfl⟩ := List.exists_cons_of_ne_nil hwrites.whole_ne
  intro d hd
  have hhead : cs.head? = some c := by
    rcases hjoins with rfl | ⟨rfl, -⟩
    · rfl
    · rfl
  rw [hhead] at hd
  cases hd
  exact hwrites.whole_digits c List.mem_cons_self

theorem signed_eq (negative : Bool) (n : Nat) :
    signed negative n = (if negative then -1 else 1) * (n : Int) := by
  unfold signed
  split
  · rw [Int.neg_mul, Int.one_mul]
  · rw [Int.one_mul]

theorem within_iff (v : Int) : (-(greatestBound : Int) ≤ v && v ≤ greatestBound) = true
    ↔ v.natAbs ≤ 2 ^ 127 - 1 := by
  have hbound : greatestBound = 2 ^ 127 - 1 := rfl
  rw [Bool.and_eq_true, decide_eq_true_iff, decide_eq_true_iff, hbound]
  omega

/-- **A bound is read exactly if it is written**, and what is read is its value. -/
theorem boundOfString?_eq_some :
    boundOfString? text (some places) = some v ↔ WritesScaled places (Text.trim text) v := by
  rw [boundOfString?_eq, Option.filter_eq_some_iff, Option.map_eq_some_iff, within_iff]
  constructor
  · rintro ⟨⟨n, hn, rfl⟩, hwithin⟩
    obtain ⟨whole, fraction, hjoins, hwrites⟩ := scaledMagnitude?_eq_some.1 hn
    obtain ⟨sign, hcs, hsign⟩ := exists_sign (Text.trim text).toList
    exact ⟨sign, _, whole, fraction, _, n, hcs, hsign, hjoins, hwrites, signed_eq _ n, hwithin⟩
  · rintro ⟨sign, cs, whole, fraction, s, n, hcs, hsign, hjoins, hwrites, rfl, hwithin⟩
    obtain ⟨hcut, hs⟩ := cutSign_append hsign (isDigit_head?_of_joins hwrites hjoins)
    rw [← hcs] at hcut hs
    refine ⟨⟨n, ?_, ?_⟩, hwithin⟩
    · rw [hcut]
      exact scaledMagnitude?_eq_some.2 ⟨whole, fraction, hjoins, hwrites⟩
    · rw [signed_eq, ← hs]

/-! ## The same on words -/

/-- A word of 128 bits with a sign. -/
abbrev Word := BitVec 128

/-- An operation that nothing checks, and whose result has no word. -/
inductive Overflow where
  /-- The byte of a digit less that of zero. -/
  | subtraction
  /-- The negative of a word. -/
  | negation

/-- A product, if it has a word. -/
def checkedMul (x y : Word) : Option Word := if x.smulOverflow y then none else some (x * y)

/-- A sum, if it has a word. -/
def checkedAdd (x y : Word) : Option Word := if x.saddOverflow y then none else some (x + y)

/-- The value of the byte of a digit. -/
def byteDigit (b : UInt8) : Except Overflow Word :=
  if b < 48 then .error .subtraction else .ok (BitVec.ofNat 128 (b - 48).toNat)

/-- The negative of a word. -/
def negate (x : Word) : Except Overflow Word :=
  if x.negOverflow then .error .negation else .ok (-x)

/-- The value of the next digit; behind the last one there are zeros. -/
def nextDigit : List UInt8 → Except Overflow Word
  | b :: _ => byteDigit b
  | [] => .ok 0

/-- Multiplies by ten and adds the next digit, once for each place. -/
def shiftIn : (places : Nat) → List UInt8 → Word → Except Overflow (Option Word)
  | 0, _, value => .ok (some value)
  | places + 1, bytes, value => do
    let digit ← nextDigit bytes
    match (checkedMul value 10).bind (checkedAdd · digit) with
    | none => return none
    | some value => shiftIn places bytes.tail value

/-- Reads a bound as a machine does. -/
def wordBound? (text : String) (places : Nat) : Except Overflow (Option Word) :=
  let (negative, magnitude) := cutSign (Text.trim text).toList
  let (whole, fraction) := (Text.cutChars? '.' magnitude).getD (magnitude, [])
  let bytes := Text.bytes (String.ofList fraction)
  if whole.isEmpty || places < bytes.length || !whole.all Text.isDigit
      || !fraction.all Text.isDigit then .ok none
  else
    match Text.signed? leastBound greatestBound (String.ofList whole) with
    | none => .ok none
    | some n => do
      match ← shiftIn places bytes (BitVec.ofInt 128 n) with
      | none => return none
      | some value => if negative then (negate value).map some else return some value

/-- The word of a number, if it has one. -/
def word? (n : Nat) : Option Word := if n < 2 ^ 127 then some (BitVec.ofNat 128 n) else none

theorem toInt_ofNat (hn : n < 2 ^ 127) : (BitVec.ofNat 128 n).toInt = n := by
  have hnat : (BitVec.ofNat 128 n).toNat = n := by
    rw [BitVec.toNat_ofNat]
    omega
  rw [BitVec.toInt_eq_toNat_of_lt (by rw [hnat]; omega), hnat]

/-- An operation that is checked gives the word of its result, if there is one. -/
theorem checked_eq {overflows : Bool} {w : Word} (hw : w = BitVec.ofNat 128 n)
    (h : overflows = true ↔ 2 ^ 127 ≤ n) : (if overflows then none else some w) = word? n := by
  unfold word?
  by_cases hfits : n < 2 ^ 127
  · rw [if_pos hfits, if_neg (by rw [h]; omega), hw]
  · rw [if_neg hfits, if_pos (h.2 (by omega))]

theorem checkedMul_ten (hn : n < 2 ^ 127) :
    checkedMul (BitVec.ofNat 128 n) 10 = word? (10 * n) := by
  have hten : (10 : Word).toInt = 10 := rfl
  have hproduct : BitVec.ofNat 128 n * 10 = BitVec.ofNat 128 (10 * n) := by
    rw [Nat.mul_comm, BitVec.ofNat_mul]
    rfl
  refine checked_eq hproduct ?_
  unfold BitVec.smulOverflow
  rw [toInt_ofNat hn, hten]
  simp only [Bool.or_eq_true, decide_eq_true_iff]
  omega

theorem checkedAdd_ofNat (hn : n < 2 ^ 127) (hd : d < 10) :
    checkedAdd (BitVec.ofNat 128 n) (BitVec.ofNat 128 d) = word? (n + d) := by
  refine checked_eq (BitVec.ofNat_add n d).symm ?_
  unfold BitVec.saddOverflow
  rw [toInt_ofNat hn, toInt_ofNat (by omega)]
  simp only [Bool.or_eq_true, decide_eq_true_iff]
  omega

/-- One more digit is taken in, if the number with it has a word. -/
theorem checkedMul_bind_checkedAdd (hn : n < 2 ^ 127) (hd : d < 10) :
    (checkedMul (BitVec.ofNat 128 n) 10).bind (checkedAdd · (BitVec.ofNat 128 d))
      = word? (10 * n + d) := by
  rw [checkedMul_ten hn]
  by_cases hfits : 10 * n < 2 ^ 127
  · rw [word?, if_pos hfits, Option.bind_some, checkedAdd_ofNat hfits hd]
  · rw [word?, word?, if_neg hfits, if_neg (by omega), Option.bind_none]

/-- The byte of a digit is not below that of zero. -/
theorem byteDigit_of_isDigit {c : Char} (hc : Text.isDigit c = true) :
    byteDigit c.val.toUInt8 = .ok (BitVec.ofNat 128 (Text.digitValue c)) := by
  obtain ⟨hlow, hhigh⟩ : 48 ≤ c.val.toNat ∧ c.val.toNat ≤ 57 := Text.isDigit_iff.1 hc
  have hbyte : c.val.toUInt8.toNat = c.val.toNat := by
    show c.val.toNat % 256 = c.val.toNat
    omega
  have hnot : ¬ c.val.toUInt8 < 48 := by
    rw [UInt8.lt_iff_toNat_lt, hbyte]
    show ¬ c.val.toNat < 48
    omega
  have hvalue : (c.val.toUInt8 - 48).toNat = Text.digitValue c := by
    rw [UInt8.toNat_sub_of_le _ _ (UInt8.not_lt.1 hnot), hbyte]
    rfl
  rw [byteDigit, if_neg hnot, hvalue]

/-- What has been read is a word, or has become too great for one. -/
theorem shiftIn_eq (hcs : ∀ c ∈ cs, Text.isDigit c = true) (hlength : cs.length ≤ places)
    (hn : n < 2 ^ 127) :
    shiftIn places (cs.map fun c => c.val.toUInt8) (BitVec.ofNat 128 n)
      = .ok (word? (Text.digitsValue n (cs ++ List.replicate (places - cs.length) '0'))) := by
  induction places generalizing cs n with
  | zero =>
    obtain rfl := List.length_eq_zero_iff.1 (Nat.le_zero.1 hlength)
    show _ = Except.ok (word? n)
    rw [word?, if_pos hn]
    rfl
  | succ places ih =>
    -- the next digit, or a zero behind the last one
    obtain ⟨c, rest, hc, hrest, hshorter, hdigit, htail, hnext⟩ :
        ∃ (c : Char) (rest : List Char), Text.isDigit c = true
          ∧ (∀ c ∈ rest, Text.isDigit c = true) ∧ rest.length ≤ places
          ∧ nextDigit (cs.map fun c => c.val.toUInt8)
            = .ok (BitVec.ofNat 128 (Text.digitValue c))
          ∧ (cs.map fun c => c.val.toUInt8).tail = rest.map (fun c => c.val.toUInt8)
          ∧ cs ++ List.replicate (places + 1 - cs.length) '0'
            = c :: (rest ++ List.replicate (places - rest.length) '0') := by
      cases cs with
      | nil => exact ⟨'0', [], by decide, by simp, by simp, rfl, rfl, rfl⟩
      | cons c cs =>
        rw [List.forall_mem_cons] at hcs
        rw [List.length_cons] at hlength
        refine ⟨c, cs, hcs.1, hcs.2, by omega, byteDigit_of_isDigit hcs.1, rfl, ?_⟩
        rw [List.length_cons, Nat.add_sub_add_right, List.cons_append]
    have hstep := checkedMul_bind_checkedAdd hn (Text.digitValue_lt hc)
    rw [shiftIn, hdigit, htail, hnext]
    show (match (checkedMul (BitVec.ofNat 128 n) 10).bind
        (checkedAdd · (BitVec.ofNat 128 (Text.digitValue c))) with
      | none => _
      | some value => _) = Except.ok (word? (Text.digitsValue (10 * n + Text.digitValue c) _))
    rw [hstep]
    by_cases hfits : 10 * n + Text.digitValue c < 2 ^ 127
    · rw [word?, if_pos hfits]
      exact ih hrest hshorter hfits
    · -- what is too great now remains so
      have hle := Text.le_digitsValue (10 * n + Text.digitValue c)
        (rest ++ List.replicate (places - rest.length) '0')
      rw [word?, word?, if_neg hfits, if_neg (by omega)]
      rfl

theorem toInt_negate (hn : n < 2 ^ 127) :
    ∃ w, negate (BitVec.ofNat 128 n) = .ok w ∧ w.toInt = -(n : Int) := by
  have hnot : ¬ (BitVec.ofNat 128 n).negOverflow = true := by
    unfold BitVec.negOverflow
    rw [toInt_ofNat hn, beq_iff_eq]
    omega
  refine ⟨-BitVec.ofNat 128 n, by rw [negate, if_neg hnot], ?_⟩
  rw [BitVec.toInt_neg_of_not_negOverflow hnot, toInt_ofNat hn]

theorem signed?_eq (least most : Int) (s : String) : Text.signed? least most s
    = ((Text.natOfDigits? (cutSign s.toList).2).map (signed (cutSign s.toList).1)).filter
        fun n => least ≤ n && n ≤ most := by
  unfold Text.signed?
  dsimp only
  generalize s.toList = cs
  congr 1
  split
  · rfl
  · rename_i cs
    show _ = (Text.natOfDigits? cs).map (signed true)
    cases Text.natOfDigits? cs <;> rfl
  · rename_i hplus hminus
    rw [cutSign.eq_3 cs hminus hplus]
    rfl

/-- Digits without a sign are read as their value, if it has a word. -/
theorem signed?_digits (hne : whole ≠ []) (hdigits : ∀ c ∈ whole, Text.isDigit c = true) :
    Text.signed? leastBound greatestBound (String.ofList whole)
      = if Text.decimal whole < 2 ^ 127 then some (Text.decimal whole : Int) else none := by
  have hread : Text.natOfDigits? whole = some (Text.decimal whole) :=
    Text.natOfDigits?_eq_some.2 ⟨hne, hdigits, digitsValue_zero whole⟩
  have hleast : leastBound = -2 ^ 127 := rfl
  have hgreatest : greatestBound = 2 ^ 127 - 1 := rfl
  have hcut : cutSign whole = (false, whole) := by
    unfold cutSign
    split
    · exact absurd (hdigits '-' List.mem_cons_self) (by decide)
    · exact absurd (hdigits '+' List.mem_cons_self) (by decide)
    · rfl
  rw [signed?_eq, String.toList_ofList, hcut, hread, Option.map_some, Option.filter_some, hleast,
    hgreatest]
  show (if (decide (-2 ^ 127 ≤ (Text.decimal whole : Int))
    && decide ((Text.decimal whole : Int) ≤ 2 ^ 127 - 1)) = true then _ else _) = _
  congr 1
  rw [Bool.and_eq_true, decide_eq_true_iff, decide_eq_true_iff, eq_iff_iff]
  omega

/-- The digits behind the point, too, are shifted in without an overflow. -/
theorem shiftIn_of_writesUnits (hwrites : WritesUnits places whole fraction n) :
    Text.signed? leastBound greatestBound (String.ofList whole) = none ∧ 2 ^ 127 ≤ n
    ∨ ∃ m, Text.signed? leastBound greatestBound (String.ofList whole) = some m
      ∧ shiftIn places (Text.bytes (String.ofList fraction)) (BitVec.ofInt 128 m)
        = .ok (word? n) := by
  have hvalue := digitsValue_filled whole fraction hwrites.length_le
  rw [← hwrites.value] at hvalue
  rw [signed?_digits hwrites.whole_ne hwrites.whole_digits]
  by_cases hfits : Text.decimal whole < 2 ^ 127
  · refine .inr ⟨Text.decimal whole, if_pos hfits, ?_⟩
    rw [Text.bytes_ofList fun c hc => Text.isAscii_of_isDigit (hwrites.fraction_digits c hc),
      BitVec.ofInt_natCast,
      shiftIn_eq hwrites.fraction_digits hwrites.length_le hfits, hvalue]
  · have hle := Text.le_digitsValue (Text.decimal whole)
      (fraction ++ List.replicate (places - fraction.length) '0')
    refine .inl ⟨if_neg hfits, ?_⟩
    omega

/-- The bytes of digits are as many as the digits, so that the two ways to count agree. -/
theorem length_bytes (hcs : ∀ c ∈ cs, Text.isDigit c = true) :
    (Text.bytes (String.ofList cs)).length = cs.length := by
  rw [Text.bytes_ofList fun c hc => Text.isAscii_of_isDigit (hcs c hc), List.length_map]

/-- The parts are refused exactly if they write no number. -/
theorem refuses_iff : (whole.isEmpty || places < (Text.bytes (String.ofList fraction)).length
    || !whole.all Text.isDigit || !fraction.all Text.isDigit) = true
    ↔ ¬ ∃ n, WritesUnits places whole fraction n := by
  constructor
  · rintro hrefuses ⟨n, hwrites⟩
    have hwhole := List.all_eq_true.2 hwrites.whole_digits
    have hfraction := List.all_eq_true.2 hwrites.fraction_digits
    have hempty : whole.isEmpty = false := List.isEmpty_eq_false_iff.2 hwrites.whole_ne
    have hlength := hwrites.length_le
    rw [length_bytes hwrites.fraction_digits, hwhole, hfraction, hempty] at hrefuses
    simp at hrefuses
    omega
  · intro hnone
    by_contra hrefuses
    rw [Bool.or_eq_true, Bool.or_eq_true, Bool.or_eq_true, not_or, not_or, not_or,
      Bool.not_eq_true, List.isEmpty_eq_false_iff, Bool.not_eq_true', Bool.not_eq_false,
      List.all_eq_true, Bool.not_eq_true', Bool.not_eq_false, List.all_eq_true,
      decide_eq_true_iff] at hrefuses
    obtain ⟨⟨⟨hne, hlength⟩, hwhole⟩, hfraction⟩ := hrefuses
    rw [length_bytes hfraction] at hlength
    exact hnone ⟨_, hne, hwhole, hfraction, by omega, rfl⟩

/-- What a number is read from are the parts in front of the first point and behind it. -/
theorem scaledMagnitude?_iff_cut : scaledMagnitude? places cs = some n
    ↔ WritesUnits places ((Text.cutChars? '.' cs).getD (cs, [])).1
      ((Text.cutChars? '.' cs).getD (cs, [])).2 n := by
  rw [scaledMagnitude?_eq_some]
  constructor
  · rintro ⟨whole, fraction, hjoins, hwrites⟩
    rw [cutChars?_of_joins hwrites.whole_digits hjoins]
    exact hwrites
  · intro hwrites
    exact ⟨_, _, joins_cutChars? cs, hwrites⟩

/-- With its sign, too, the number is the one that the word stands for, or has no word. -/
theorem signWord (negative : Bool) (n : Nat) :
    ∃ w : Option Word,
      (match word? n with
        | none => .ok none
        | some value =>
          if negative then (negate value).map some else .ok (some value)) = Except.ok w
      ∧ w.map BitVec.toInt
        = (some (signed negative n)).filter fun n => -(greatestBound : Int) ≤ n
          && n ≤ greatestBound := by
  have hgreatest : greatestBound = 2 ^ 127 - 1 := rfl
  rw [Option.filter_some]
  by_cases hfits : n < 2 ^ 127
  · have hwithin : (-(greatestBound : Int) ≤ signed negative n
        && signed negative n ≤ greatestBound) = true := by
      rw [within_iff, signed]
      split <;> omega
    rw [word?, if_pos hfits, if_pos hwithin]
    cases negative with
    | false => exact ⟨_, rfl, congrArg some (toInt_ofNat hfits)⟩
    | true =>
      obtain ⟨w, hw, hvalue⟩ := toInt_negate hfits
      refine ⟨some w, ?_, congrArg some hvalue⟩
      show (negate _).map some = _
      rw [hw]
      rfl
  · have hwithin : ¬ (-(greatestBound : Int) ≤ signed negative n
        && signed negative n ≤ greatestBound) = true := by
      rw [within_iff, signed]
      split <;> omega
    rw [word?, if_neg hfits, if_neg hwithin]
    exact ⟨none, rfl, rfl⟩

/-- The word that is read is the number that is read, and nothing overflows on the way. -/
theorem wordBound?_eq (text : String) (places : Nat) :
    ∃ w, wordBound? text places = .ok w
      ∧ w.map BitVec.toInt = boundOfString? text (some places) := by
  rw [boundOfString?_eq]
  unfold wordBound?
  generalize cutSign (Text.trim text).toList = cut
  obtain ⟨negative, cs⟩ := cut
  have hread (n : Nat) : scaledMagnitude? places cs = some n ↔ WritesUnits places _ _ n :=
    scaledMagnitude?_iff_cut
  dsimp only
  generalize (Text.cutChars? '.' cs).getD (cs, []) = parts at hread
  obtain ⟨whole, fraction⟩ := parts
  dsimp only at hread
  dsimp only
  by_cases hwritten : ∃ n, WritesUnits places whole fraction n
  · obtain ⟨n, hwrites⟩ := hwritten
    rw [if_neg (fun hrefuses => refuses_iff.1 hrefuses ⟨n, hwrites⟩), (hread n).2 hwrites,
      Option.map_some]
    obtain ⟨w, hword, hvalue⟩ := signWord negative n
    rcases shiftIn_of_writesUnits hwrites with ⟨hnone, hgreat⟩ | ⟨m, hm, hshift⟩
    · rw [hnone]
      rw [word?, if_neg (by omega)] at hword
      exact ⟨w, hword, hvalue⟩
    · rw [hm]
      dsimp only
      rw [hshift]
      exact ⟨w, hword, hvalue⟩
  · have hnone : scaledMagnitude? places cs = none := by
      rw [Option.eq_none_iff_forall_ne_some]
      exact fun n hn => hwritten ⟨n, (hread n).1 hn⟩
    rw [if_pos (refuses_iff.2 hwritten), hnone]
    exact ⟨none, rfl, rfl⟩

/-- **Scaled numbers are exact, and nothing overflows.** A bound is read exactly if it is an
optional sign, digits and at most `places` digits behind a point, and the number of units that this
writes lies within the words and their negatives; then it is that number. On words, where only the
product and the sum of a step are checked, no byte is less than that of zero and no word lacks its
negative, and the same numbers come out, or none for the same texts. -/
theorem scaled_numbers_are_exact (text : String) (places : Nat) :
    (∀ v, boundOfString? text (some places) = some v ↔ WritesScaled places (Text.trim text) v)
      ∧ ∃ w, wordBound? text places = .ok w
        ∧ w.map BitVec.toInt = boundOfString? text (some places) := by
  constructor
  · intro v
    exact boundOfString?_eq_some
  · exact wordBound?_eq text places

-- the last digit of the fraction makes the second of them too great
example : boundOfString? " -1701411834604692317316873037158841057.27" (some 2)
      = some (-(2 ^ 127 - 1))
    ∧ boundOfString? " -1701411834604692317316873037158841057.28" (some 2) = none := by
  decide +kernel

end Interval

end YangSchema
