import Mathlib.Algebra.Group.Nat.Defs
import Mathlib.Data.List.Basic
import Mathlib.Data.List.Induction
import YangSchema.Proofs.SourceOrder

/-!
# Numbers written in digits

Numbers are written in decimal digits without zeros in front, or with as many as a width asks for,
and both forms are read back (`Text.natOfDigits?_toDigits`, `Text.natOfDigits?_paddedDigits`). With
a width, the digits are also the only ones of their value (`Text.paddedDigits_digitsValue`). So a
revision is read back from its written form (`Revision.ofString?_text`), and no other text is read
as this revision (`Revision.text_of_ofString?`).
-/

namespace YangSchema

namespace Text

variable {c d : Char} {cs ds digits : List Char} {width n : Nat}

theorem natOfDigits?_eq_some : natOfDigits? digits = some n
    ↔ digits ≠ [] ∧ (∀ c ∈ digits, isDigit c = true) ∧ digitsValue 0 digits = n := by
  unfold natOfDigits?
  by_cases h : (!digits.isEmpty && digits.all isDigit) = true
  · rw [if_pos h, Option.some.injEq]
    rw [Bool.and_eq_true, Bool.not_eq_true', List.isEmpty_eq_false_iff, List.all_eq_true] at h
    exact ⟨fun hn => ⟨h.1, h.2, hn⟩, fun hn => hn.2.2⟩
  · rw [if_neg h]
    rw [Bool.and_eq_true, Bool.not_eq_true', List.isEmpty_eq_false_iff, List.all_eq_true] at h
    exact ⟨fun hn => (nomatch hn), fun hn => absurd ⟨hn.1, hn.2.1⟩ h⟩

/-! ## Writing and reading -/

theorem isDigit_of_mem_toDigits (hc : c ∈ Nat.toDigits 10 n) : isDigit c = true := by
  have hdigit := Nat.isDigit_of_mem_toDigits (by omega) (by omega) hc
  simpa [isDigit, Char.isDigit, Char.le_def] using hdigit

/-- Only zero is written with a zero in front. -/
theorem head?_toDigits (hn : 0 < n) : (Nat.toDigits 10 n).head? ≠ some '0' := by
  induction n using Nat.strongRecOn with
  | ind n ih =>
    rw [Nat.toDigits_eq_if (by omega)]
    split
    · rw [List.head?_cons]
      intro h
      have hzero := Nat.digitChar_eq_zero.1 (Option.some.inj h)
      omega
    · rw [List.head?_append_of_ne_nil _ Nat.toDigits_ne_nil]
      exact ih (n / 10) (by omega) (by omega)

theorem digitsValue_toDigits (n : Nat) : digitsValue 0 (Nat.toDigits 10 n) = n :=
  Nat.ofDigitChars_ten_toDigits

/-- A number is read back from its digits. -/
theorem natOfDigits?_toDigits (n : Nat) : natOfDigits? (Nat.toDigits 10 n) = some n := by
  have hdigits : (Nat.toDigits 10 n).all isDigit = true :=
    List.all_eq_true.2 fun c hc => isDigit_of_mem_toDigits hc
  rw [natOfDigits?, hdigits, digitsValue_toDigits]
  simp [Nat.toDigits_ne_nil]

theorem digitsValue_zeros (k : Nat) (cs : List Char) :
    digitsValue 0 (List.replicate k '0' ++ cs) = digitsValue 0 cs := by
  induction k with
  | zero => rfl
  | succ k ih => exact ih

/-- Zeros in front make no difference. -/
theorem natOfDigits?_paddedDigits (width n : Nat) :
    natOfDigits? (paddedDigits width n) = some n := by
  have hdigits : (paddedDigits width n).all isDigit = true := by
    rw [List.all_eq_true]
    intro c hc
    rcases List.mem_append.1 hc with hc | hc
    · rw [List.eq_of_mem_replicate hc]
      decide
    · exact isDigit_of_mem_toDigits hc
  have hvalue : digitsValue 0 (paddedDigits width n) = n :=
    (digitsValue_zeros _ _).trans (digitsValue_toDigits n)
  rw [natOfDigits?, hdigits, hvalue]
  simp [paddedDigits, Nat.toDigits_ne_nil]

/-- A number that fits the width has as many digits as it asks for. -/
theorem length_paddedDigits (hwidth : 0 < width) (hn : n < 10 ^ width) :
    (paddedDigits width n).length = width := by
  have hlength := (Nat.length_toDigits_le_iff (by omega) hwidth).2 hn
  simp only [paddedDigits, List.length_append, List.length_replicate]
  omega

/-! ## Digits and their value -/

/-- The digits are characters in a row. -/
theorem isDigit_iff : isDigit c = true ↔ 48 ≤ c.toNat ∧ c.toNat ≤ 57 := by
  unfold isDigit
  rw [Bool.and_eq_true, decide_eq_true_iff, decide_eq_true_iff]
  exact Iff.rfl

theorem digitValue_lt (hc : isDigit c = true) : digitValue c < 10 := by
  have hbounds := isDigit_iff.1 hc
  unfold digitValue
  omega

/-- Digits are told apart by their values. -/
theorem digitValue_inj (hc : isDigit c = true) (hd : isDigit d = true)
    (h : digitValue c = digitValue d) : c = d := by
  have hcbounds := isDigit_iff.1 hc
  have hdbounds := isDigit_iff.1 hd
  unfold digitValue at h
  exact Char.toNat_inj.1 (by omega)

theorem digitsValue_concat : digitsValue 0 (cs ++ [c]) = 10 * digitsValue 0 cs + digitValue c := by
  unfold digitsValue
  rw [List.foldl_append]
  rfl

theorem digitsValue_lt (hcs : ∀ c ∈ cs, isDigit c = true) : digitsValue 0 cs < 10 ^ cs.length := by
  induction cs using List.reverseRecOn with
  | nil => exact Nat.one_pos
  | append_singleton cs c ih =>
    rw [List.forall_mem_append, List.forall_mem_singleton] at hcs
    have hlow := digitValue_lt hcs.2
    have hhigh := ih hcs.1
    rw [digitsValue_concat, List.length_append, List.length_singleton, Nat.pow_succ]
    omega

/-- Of as many digits, only the same ones have the same value. -/
theorem digitsValue_inj (hcs : ∀ c ∈ cs, isDigit c = true) (hds : ∀ d ∈ ds, isDigit d = true)
    (hlength : cs.length = ds.length) (h : digitsValue 0 cs = digitsValue 0 ds) : cs = ds := by
  induction cs using List.reverseRecOn generalizing ds with
  | nil => exact (List.length_eq_zero_iff.1 hlength.symm).symm
  | append_singleton cs c ih =>
    -- the last digits are the remainders by ten, those before them the quotients
    obtain rfl | ⟨ds, d, rfl⟩ := List.eq_nil_or_concat' ds
    · simp at hlength
    · rw [List.forall_mem_append, List.forall_mem_singleton] at hcs hds
      rw [digitsValue_concat, digitsValue_concat] at h
      have hc := digitValue_lt hcs.2
      have hd := digitValue_lt hds.2
      have hlength : cs.length = ds.length := by simpa using hlength
      rw [ih hcs.1 hds.1 hlength (by omega), digitValue_inj hcs.2 hds.2 (by omega)]

/-- Digits are what their value is written in. -/
theorem paddedDigits_digitsValue (hcs : ∀ c ∈ cs, isDigit c = true) (hwidth : 0 < cs.length) :
    paddedDigits cs.length (digitsValue 0 cs) = cs := by
  have hread := natOfDigits?_eq_some.1 (natOfDigits?_paddedDigits cs.length (digitsValue 0 cs))
  exact digitsValue_inj hread.2.1 hcs (length_paddedDigits hwidth (digitsValue_lt hcs)) hread.2.2

/-! ## Bytes -/

/-- The bytes of a text in UTF-8. -/
def bytes (s : String) : List UInt8 := s.toUTF8.data.toList

theorem isAscii_of_isDigit (hc : isDigit c = true) : c.toNat < 128 := by
  have hbounds := isDigit_iff.1 hc
  omega

/-- ASCII characters take a byte each. -/
theorem bytes_ofList (hcs : ∀ c ∈ cs, c.toNat < 128) :
    bytes (String.ofList cs) = cs.map fun c => c.val.toUInt8 := by
  show (String.ofList cs).toByteArray.data.toList = _
  rw [String.toByteArray_ofList]
  induction cs with
  | nil => rfl
  | cons c cs ih =>
    rw [List.forall_mem_cons] at hcs
    have hsize : c.utf8Size = 1 := Char.utf8Size_eq_one_iff.2 (by
      rw [UInt32.le_iff_toNat_le]
      have hc : c.val.toNat < 128 := hcs.1
      show c.val.toNat ≤ 127
      omega)
    rw [List.utf8Encode_cons, List.utf8Encode_singleton, String.utf8EncodeChar_eq_singleton hsize,
      ByteArray.data_append, Array.toList_append, List.toList_data_toByteArray, ih hcs.2,
      List.map_cons, List.singleton_append]

end Text

namespace Revision

/-- A revision is read back from its written form. -/
theorem ofString?_text (r : Revision) : ofString? r.text = some r := by
  obtain ⟨hmonth, hday⟩ := r.two_digits
  obtain ⟨year, month, day, hdate⟩ := r
  obtain ⟨hyear, _⟩ := id hdate
  have hy := Text.natOfDigits?_paddedDigits 4 year
  have hm := Text.natOfDigits?_paddedDigits 2 month
  have hd := Text.natOfDigits?_paddedDigits 2 day
  rw [ofString?, text, String.toList_ofList, chars]
  -- the fields have as many digits as they should
  have hlength := Text.length_paddedDigits (n := year) (show 0 < 4 by omega) (by omega)
  obtain ⟨y₁, ys, heq⟩ := List.exists_cons_of_length_eq_add_one hlength
  rw [heq, List.length_cons] at hlength
  obtain ⟨y₂, y₃, y₄, rfl⟩ := List.length_eq_three.1 (Nat.succ.inj hlength)
  obtain ⟨m₁, m₂, hms⟩ := List.length_eq_two.1
    (Text.length_paddedDigits (n := month) (show 0 < 2 by omega) (by omega))
  obtain ⟨d₁, d₂, hds⟩ := List.length_eq_two.1
    (Text.length_paddedDigits (n := day) (show 0 < 2 by omega) (by omega))
  rw [heq] at hy
  rw [hms] at hm
  rw [hds] at hd
  dsimp only
  rw [heq, hms, hds]
  show ofChars? [y₁, y₂, y₃, y₄, '-', m₁, m₂, '-', d₁, d₂] = _
  rw [ofChars?, hy, hm, hd]
  exact dif_pos hdate

theorem text_injective : Function.Injective text := by
  intro r s h
  have hread := ofString?_text r
  rw [h, ofString?_text s] at hread
  exact (Option.some.inj hread).symm

theorem ofNumbers?_eq_some {year month day : Nat} {r : Revision} :
    ofNumbers? year month day = some r ↔ r.year = year ∧ r.month = month ∧ r.day = day := by
  unfold ofNumbers?
  constructor
  · intro h
    split at h
    · cases h
      exact ⟨rfl, rfl, rfl⟩
    · cases h
  · rintro ⟨rfl, rfl, rfl⟩
    exact dif_pos r.isDate

/-- A text that is read as a revision is its written form. -/
theorem text_of_ofString? {t : String} {r : Revision} (h : ofString? t = some r) : r.text = t := by
  rw [← String.toList_inj, text, String.toList_ofList]
  unfold ofString? at h
  generalize t.toList = cs at h
  unfold ofChars? at h
  split at h
  · rename_i y₁ y₂ y₃ y₄ m₁ m₂ d₁ d₂
    split at h
    · rename_i year month day hyear hmonth hday
      obtain ⟨_, hys, hyear⟩ := Text.natOfDigits?_eq_some.1 hyear
      obtain ⟨_, hms, hmonth⟩ := Text.natOfDigits?_eq_some.1 hmonth
      obtain ⟨_, hds, hday⟩ := Text.natOfDigits?_eq_some.1 hday
      obtain ⟨rfl, rfl, rfl⟩ := ofNumbers?_eq_some.1 h
      -- each field is what its value is written in
      have hy : Text.paddedDigits 4 r.year = [y₁, y₂, y₃, y₄] :=
        hyear ▸ Text.paddedDigits_digitsValue hys (Nat.succ_pos 3)
      have hm : Text.paddedDigits 2 r.month = [m₁, m₂] :=
        hmonth ▸ Text.paddedDigits_digitsValue hms (Nat.succ_pos 1)
      have hd : Text.paddedDigits 2 r.day = [d₁, d₂] :=
        hday ▸ Text.paddedDigits_digitsValue hds (Nat.succ_pos 1)
      rw [chars, hy, hm, hd]
      rfl
    · cases h
  · cases h

end Revision

end YangSchema
