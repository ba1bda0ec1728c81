import YangSchema.Proofs.WellLinked
import YangSchema.Proofs.Digits

/-!
# Revisions are dates

The revisions are the dates of the Gregorian calendar in the years from 0 to 9999, each written in
ten characters (`Revision.exists_ofString?_iff`). Their order is that of the calendar
(`Revision.compare_eq_lt_iff`). The parts of the written form stand from the greatest to the least,
each in as many digits as the others of its kind, so the order of the written forms, taken byte by
byte, is the same one (`Revision.compare_eq_lt_iff_bytes`).

Of the sources of one name the one without a revision comes first and the others follow by the
written forms. So the greatest identifier is that of the latest source, and this is the one that a
reference selects (`SourceId.revisions_order_sources`).
-/

namespace YangSchema

/-! ## The calendar -/

/-- The number of days of each month in a common year. -/
def commonMonths : List Nat := [31, 28, 31, 30, 31, 30, 31, 31, 30, 31, 30, 31]

/-- Every fourth year is a leap year, but of the full centuries only every fourth is one. -/
def IsLeap (year : Nat) : Prop := 4 ∣ year ∧ (100 ∣ year → 400 ∣ year)

/-- A day of the Gregorian calendar, which goes on before the years in which it has been in use. -/
inductive OnCalendar (year month day : Nat) : Prop
  /-- A day that its month has in every year. -/
  | common (length : Nat) (hmonth : 1 ≤ month) (hlength : commonMonths[month - 1]? = some length)
      (hfirst : 1 ≤ day) (hlast : day ≤ length)
  /-- The day that a leap year has more. -/
  | leap (hyear : IsLeap year) (hmonth : month = 2) (hday : day = 29)

theorem isLeapYear_iff (year : Nat) : isLeapYear year = true ↔ IsLeap year := by
  unfold isLeapYear IsLeap
  simp only [Bool.and_eq_true, Bool.or_eq_true, beq_iff_eq, bne_iff_ne]
  omega

theorem daysInMonth_eq (year : Nat) {month length : Nat} (hmonth : 1 ≤ month)
    (hlength : commonMonths[month - 1]? = some length) :
    daysInMonth year month = if month = 2 ∧ isLeapYear year then 29 else length := by
  have hbound : month - 1 < 12 := (List.getElem?_eq_some_iff.1 hlength).1
  obtain ⟨k, rfl⟩ : ∃ k, month = k + 1 := ⟨month - 1, by omega⟩
  have hk : k < 12 := hbound
  rw [Nat.add_sub_cancel] at hlength
  unfold daysInMonth
  -- the table is read for each of the twelve months
  interval_cases k <;> cases hlength <;> simp

/-- The days that the months are given in `IsDate` are those of the calendar. -/
theorem onCalendar_iff {year month day : Nat} (hyear : year ≤ 9999) :
    OnCalendar year month day ↔ IsDate year month day := by
  constructor
  · rintro (⟨length, hmonth, hlength, hfirst, hlast⟩ | ⟨hleap, rfl, rfl⟩)
    · have hbound : month - 1 < 12 := (List.getElem?_eq_some_iff.1 hlength).1
      have hdays := daysInMonth_eq year hmonth hlength
      refine ⟨hyear, hmonth, by omega, hfirst, ?_⟩
      rw [hdays]
      split
      · rename_i hfebruary
        -- February has 28 days in a common year
        obtain ⟨rfl, _⟩ := hfebruary
        cases hlength
        omega
      · exact hlast
    · refine ⟨hyear, by omega, by omega, by omega, ?_⟩
      rw [daysInMonth, if_pos rfl, if_pos ((isLeapYear_iff year).2 hleap)]
  · rintro ⟨_, hmonth, hlast, hfirst, hday⟩
    have hbound : month - 1 < commonMonths.length := by
      show month - 1 < 12
      omega
    have hlength := List.getElem?_eq_getElem hbound
    rw [daysInMonth_eq year hmonth hlength] at hday
    split at hday
    · rename_i hfebruary
      obtain ⟨rfl, hleap⟩ := hfebruary
      by_cases hadded : day = 29
      · exact .leap ((isLeapYear_iff year).1 hleap) rfl hadded
      · exact .common 28 hmonth rfl hfirst (by omega)
    · exact .common _ hmonth hlength hfirst hday

/-- Four centuries have as many days as they should. -/
example : (((List.range 400).map fun year =>
    ((List.range 12).map fun month => daysInMonth year (month + 1)).sum).sum) = 146097 := by
  decide +kernel

/-! ## The written form -/

/-- Ten characters that name a day of the calendar: digits, with hyphens behind the fourth and the
sixth digit. -/
def WritesDate (t : String) : Prop :=
  ∃ year month day : List Char,
    t.toList = year ++ '-' :: month ++ '-' :: day
      ∧ year.length = 4 ∧ month.length = 2 ∧ day.length = 2
      ∧ (∀ c ∈ year ++ month ++ day, Text.isDigit c = true)
      ∧ OnCalendar (Text.digitsValue 0 year) (Text.digitsValue 0 month) (Text.digitsValue 0 day)

namespace Revision

variable {r a b : Revision} {cs : List Char} {s t : String}

/-- What is read are the numbers between the hyphens, if they have four, two and two digits. -/
theorem ofChars?_eq_some : ofChars? cs = some r ↔ ∃ year month day : List Char,
    cs = year ++ '-' :: month ++ '-' :: day
      ∧ year.length = 4 ∧ month.length = 2 ∧ day.length = 2
      ∧ Text.natOfDigits? year = some r.year ∧ Text.natOfDigits? month = some r.month
      ∧ Text.natOfDigits? day = some r.day := by
  constructor
  · intro h
    unfold ofChars? at h
    split at h
    · rename_i y₁ y₂ y₃ y₄ m₁ m₂ d₁ d₂
      split at h
      · rename_i year month day hyear hmonth hday
        obtain ⟨rfl, rfl, rfl⟩ := ofNumbers?_eq_some.1 h
        exact ⟨[y₁, y₂, y₃, y₄], [m₁, m₂], [d₁, d₂], rfl, rfl, rfl, rfl, hyear, hmonth, hday⟩
      · cases h
    · cases h
  · rintro ⟨year, month, day, rfl, hy, hm, hd, hyear, hmonth, hday⟩
    obtain ⟨y₁, ys, rfl⟩ := List.exists_cons_of_length_eq_add_one hy
    obtain ⟨y₂, y₃, y₄, rfl⟩ := List.length_eq_three.1 (Nat.succ.inj hy)
    obtain ⟨m₁, m₂, rfl⟩ := List.length_eq_two.1 hm
    obtain ⟨d₁, d₂, rfl⟩ := List.length_eq_two.1 hd
    show ofChars? [y₁, y₂, y₃, y₄, '-', m₁, m₂, '-', d₁, d₂] = _
    rw [ofChars?, hyear, hmonth, hday]
    exact ofNumbers?_eq_some.2 ⟨rfl, rfl, rfl⟩

/-- **A text is read as a revision exactly if it writes a day of the calendar.** -/
theorem exists_ofString?_iff (t : String) : (∃ r, ofString? t = some r) ↔ WritesDate t := by
  unfold ofString?
  constructor
  · rintro ⟨r, hr⟩
    obtain ⟨year, month, day, hcs, hy, hm, hd, hyear, hmonth, hday⟩ := ofChars?_eq_some.1 hr
    obtain ⟨_, hys, hyear⟩ := Text.natOfDigits?_eq_some.1 hyear
    obtain ⟨_, hms, hmonth⟩ := Text.natOfDigits?_eq_some.1 hmonth
    obtain ⟨_, hds, hday⟩ := Text.natOfDigits?_eq_some.1 hday
    refine ⟨year, month, day, hcs, hy, hm, hd, ?_, ?_⟩
    · simp only [List.mem_append]
      rintro c ((hc | hc) | hc)
      · exact hys c hc
      · exact hms c hc
      · exact hds c hc
    · rw [hyear, hmonth, hday]
      exact (onCalendar_iff r.isDate.1).2 r.isDate
  · rintro ⟨year, month, day, hcs, hy, hm, hd, hdigits, hdate⟩
    simp only [List.mem_append] at hdigits
    have hys : ∀ c ∈ year, Text.isDigit c = true := fun c hc => hdigits c (.inl (.inl hc))
    have hms : ∀ c ∈ month, Text.isDigit c = true := fun c hc => hdigits c (.inl (.inr hc))
    have hds : ∀ c ∈ day, Text.isDigit c = true := fun c hc => hdigits c (.inr hc)
    -- four digits do not go beyond the last year
    have hbound := Text.digitsValue_lt hys
    rw [hy] at hbound
    have hisDate := (onCalendar_iff (by omega)).1 hdate
    refine ⟨⟨_, _, _, hisDate⟩, ofChars?_eq_some.2 ⟨year, month, day, hcs, hy, hm, hd, ?_⟩⟩
    refine ⟨Text.natOfDigits?_eq_some.2 ⟨?_, hys, rfl⟩, Text.natOfDigits?_eq_some.2 ⟨?_, hms, rfl⟩,
      Text.natOfDigits?_eq_some.2 ⟨?_, hds, rfl⟩⟩
    · exact List.ne_nil_of_length_pos (by omega)
    · exact List.ne_nil_of_length_pos (by omega)
    · exact List.ne_nil_of_length_pos (by omega)

end Revision

/-! ## The order of written forms -/

namespace Text

variable {as bs cs ds : List Char} {c d : Char} {m n width : Nat}

/-- Behind parts of one length it matters what follows only if the parts are the same. -/
theorem append_lt_append_iff (hlength : as.length = bs.length) :
    as ++ cs < bs ++ ds ↔ as < bs ∨ as = bs ∧ cs < ds := by
  induction as generalizing bs with
  | nil =>
    obtain rfl := List.length_eq_zero_iff.1 hlength.symm
    simp
  | cons a as ih =>
    cases bs with
    | nil => cases hlength
    | cons b bs =>
      rw [List.cons_append, List.cons_append, List.cons_lt_cons_iff, List.cons_lt_cons_iff,
        ih (Nat.succ.inj hlength), List.cons.injEq]
      tauto

theorem digitValue_lt_iff (hc : isDigit c = true) (hd : isDigit d = true) :
    digitValue c < digitValue d ↔ c < d := by
  have hcbounds := isDigit_iff.1 hc
  have hdbounds := isDigit_iff.1 hd
  have hchar : c < d ↔ c.toNat < d.toNat := Iff.rfl
  rw [hchar]
  unfold digitValue
  omega

/-- As many digits are ordered as their values are. -/
theorem digitsValue_lt_iff (hcs : ∀ c ∈ cs, isDigit c = true) (hds : ∀ d ∈ ds, isDigit d = true)
    (hlength : cs.length = ds.length) : digitsValue 0 cs < digitsValue 0 ds ↔ cs < ds := by
  induction cs using List.reverseRecOn generalizing ds with
  | nil =>
    obtain rfl := List.length_eq_zero_iff.1 hlength.symm
    simp
  | append_singleton cs c ih =>
    obtain rfl | ⟨ds, d, rfl⟩ := List.eq_nil_or_concat' ds
    · simp at hlength
    · rw [List.forall_mem_append, List.forall_mem_singleton] at hcs hds
      have hlength : cs.length = ds.length := by simpa using hlength
      have hlast := digitValue_lt_iff hcs.2 hds.2
      have hc := digitValue_lt hcs.2
      have hd := digitValue_lt hds.2
      -- the digits before the last one decide, unless they have the same value
      have hfront := ih hcs.1 hds.1 hlength
      have hsame : digitsValue 0 cs = digitsValue 0 ds ↔ cs = ds :=
        ⟨digitsValue_inj hcs.1 hds.1 hlength, fun h => by rw [h]⟩
      have hsingle : [c] < [d] ↔ c < d := by simp [List.cons_lt_cons_iff]
      rw [append_lt_append_iff hlength, ← hfront, ← hsame, hsingle, ← hlast, digitsValue_concat,
        digitsValue_concat]
      omega

theorem paddedDigits_lt_iff (hwidth : 0 < width) (hm : m < 10 ^ width) (hn : n < 10 ^ width) :
    paddedDigits width m < paddedDigits width n ↔ m < n := by
  obtain ⟨_, hms, hmvalue⟩ := natOfDigits?_eq_some.1 (natOfDigits?_paddedDigits width m)
  obtain ⟨_, hns, hnvalue⟩ := natOfDigits?_eq_some.1 (natOfDigits?_paddedDigits width n)
  have hlength : (paddedDigits width m).length = (paddedDigits width n).length := by
    rw [length_paddedDigits hwidth hm, length_paddedDigits hwidth hn]
  rw [← digitsValue_lt_iff hms hns hlength, hmvalue, hnvalue]

theorem paddedDigits_inj (h : paddedDigits width m = paddedDigits width n) : m = n := by
  have hread := natOfDigits?_paddedDigits width m
  rw [h, natOfDigits?_paddedDigits width n] at hread
  exact (Option.some.inj hread).symm

/-- The bytes of ASCII characters are ordered as the characters are. -/
theorem map_byte_lt_iff (hcs : ∀ c ∈ cs, c.toNat < 128) (hds : ∀ d ∈ ds, d.toNat < 128) :
    cs.map (fun c => c.val.toUInt8) < ds.map (fun d => d.val.toUInt8) ↔ cs < ds := by
  induction cs generalizing ds with
  | nil => cases ds <;> simp
  | cons c cs ih =>
    cases ds with
    | nil => simp
    | cons d ds =>
      rw [List.forall_mem_cons] at hcs hds
      have hbyte {c : Char} (hc : c.toNat < 128) : c.val.toUInt8.toNat = c.toNat := by
        show c.val.toNat % 256 = c.val.toNat
        have hc : c.val.toNat < 128 := hc
        omega
      have hlt : c.val.toUInt8 < d.val.toUInt8 ↔ c < d := by
        rw [UInt8.lt_iff_toNat_lt, hbyte hcs.1, hbyte hds.1]
        exact Iff.rfl
      have heq : c.val.toUInt8 = d.val.toUInt8 ↔ c = d := by
        rw [← UInt8.toNat_inj, hbyte hcs.1, hbyte hds.1, Char.toNat_inj]
      rw [List.map_cons, List.map_cons, List.cons_lt_cons_iff, List.cons_lt_cons_iff, hlt, heq,
        ih hcs.2 hds.2]

end Text

namespace Revision

variable {r a b : Revision} {cs : List Char} {s t : String}

/-- The earlier of two dates comes first. -/
theorem compare_eq_lt_iff : a.compare b = .lt ↔ a.year < b.year
    ∨ a.year = b.year ∧ (a.month < b.month ∨ a.month = b.month ∧ a.day < b.day) := by
  have ha := a.two_digits
  have hb := b.two_digits
  unfold compare number
  rw [Nat.compare_eq_lt]
  omega

/-- The characters of the written forms are ordered as the dates are. -/
theorem chars_lt_iff : a.chars < b.chars ↔ a.compare b = .lt := by
  have ha := a.two_digits
  have hb := b.two_digits
  have hayear : a.year < 10 ^ 4 := by have := a.isDate.1; omega
  have hbyear : b.year < 10 ^ 4 := by have := b.isDate.1; omega
  have hlength {width m n : Nat} (hwidth : 0 < width) (hm : m < 10 ^ width) (hn : n < 10 ^ width) :
      (Text.paddedDigits width m).length = (Text.paddedDigits width n).length := by
    rw [Text.length_paddedDigits hwidth hm, Text.length_paddedDigits hwidth hn]
  have hsame {width m n : Nat} : Text.paddedDigits width m = Text.paddedDigits width n ↔ m = n :=
    ⟨Text.paddedDigits_inj, fun h => by rw [h]⟩
  have hhyphen {cs ds : List Char} : '-' :: cs < '-' :: ds ↔ cs < ds := List.cons_lt_cons_self
  unfold chars
  rw [List.append_assoc, List.append_assoc,
    Text.append_lt_append_iff (hlength (by omega) hayear hbyear),
    List.cons_append, List.cons_append, hhyphen,
    Text.append_lt_append_iff (hlength (by omega) (by omega) (by omega)), hhyphen, hsame, hsame,
    Text.paddedDigits_lt_iff (by omega) hayear hbyear,
    Text.paddedDigits_lt_iff (by omega) (by omega) (by omega),
    Text.paddedDigits_lt_iff (by omega) (by omega) (by omega), compare_eq_lt_iff]

theorem isAscii_of_mem_chars {c : Char} (hc : c ∈ r.chars) : c.toNat < 128 := by
  have hdigits {width n : Nat} (hc : c ∈ Text.paddedDigits width n) : c.toNat < 128 := by
    have hread := Text.natOfDigits?_eq_some.1 (Text.natOfDigits?_paddedDigits width n)
    exact Text.isAscii_of_isDigit (hread.2.1 c hc)
  simp only [chars, List.mem_append, List.mem_cons] at hc
  rcases hc with (hc | rfl | hc) | rfl | hc
  · exact hdigits hc
  · decide
  · exact hdigits hc
  · decide
  · exact hdigits hc

/-- **Dates are ordered as the bytes of their written forms are.** -/
theorem compare_eq_lt_iff_bytes : a.compare b = .lt ↔ Text.bytes a.text < Text.bytes b.text := by
  have ha : ∀ c ∈ a.chars, c.toNat < 128 := fun c hc => isAscii_of_mem_chars hc
  have hb : ∀ c ∈ b.chars, c.toNat < 128 := fun c hc => isAscii_of_mem_chars hc
  unfold text
  rw [Text.bytes_ofList ha, Text.bytes_ofList hb, Text.map_byte_lt_iff ha hb, chars_lt_iff]

end Revision

/-! ## Identifiers of one name -/

namespace SourceId

/-- Of the sources of one name, one without a revision comes first; of others the bytes of the
written revisions decide. -/
inductive ComesBefore : Option String → Option String → Prop
  | absent (t : String) : ComesBefore none (some t)
  | text {s t : String} (h : Text.bytes s < Text.bytes t) : ComesBefore (some s) (some t)

theorem comesBefore_some_iff {s t : String} :
    ComesBefore (some s) (some t) ↔ Text.bytes s < Text.bytes t := by
  constructor
  · rintro ⟨h⟩
    assumption
  · exact .text

theorem compare_eq_lt_iff {a b : SourceId} (hname : a.name = b.name) : a.compare b = .lt
    ↔ ComesBefore (a.revision.map Revision.text) (b.revision.map Revision.text) := by
  obtain ⟨name, r⟩ := a
  obtain ⟨name', r'⟩ := b
  obtain rfl : name = name' := hname
  have hsame : Ord.compare name name = .eq := Std.compare_self
  unfold compare
  rw [hsame, Ordering.eq_then]
  cases r with
  | none =>
    cases r' with
    | none => exact ⟨fun h => (nomatch h), fun h => (nomatch h)⟩
    | some b => exact ⟨fun _ => .absent _, fun _ => rfl⟩
  | some a =>
    cases r' with
    | none => exact ⟨fun h => (nomatch h), fun h => (nomatch h)⟩
    | some b => exact Revision.compare_eq_lt_iff_bytes.trans comesBefore_some_iff.symm

theorem eq_or_lt_of_le {a b : SourceId} (h : a.le b = true) : a = b ∨ a.compare b = .lt := by
  cases hcompare : a.compare b with
  | lt => exact .inr rfl
  | eq => exact .inl (Std.LawfulEqCmp.eq_of_compare hcompare)
  | gt =>
    rw [le, hcompare] at h
    cases h

/-- **Revisions are the dates of the calendar, and the order of their written forms is the order of
the sources of one name.** A text is read as a revision exactly if it writes a day of the calendar,
and it is the written form of what is read. Of two such texts the one that is less, byte by byte, is
the earlier date. So the sources of one name begin with the one without a revision and go on by
written revisions, and the source that a reference without a revision selects is the greatest. -/
theorem revisions_order_sources :
    (∀ t, (∃ r, Revision.ofString? t = some r) ↔ WritesDate t)
    ∧ (∀ t r, Revision.ofString? t = some r → r.text = t)
    ∧ (∀ s t a b, Revision.ofString? s = some a → Revision.ofString? t = some b →
        (a.compare b = .lt ↔ Text.bytes s < Text.bytes t))
    ∧ (∀ a b : SourceId, a.name = b.name → (a.compare b = .lt
        ↔ ComesBefore (a.revision.map Revision.text) (b.revision.map Revision.text)))
    ∧ ∀ sources pairs, DeclaredModel.readHeaders sources = .ok pairs →
      ∀ isModule name h, Linkage.select? (pairs.map (·.1)) isModule name none = some h →
        Linkage.Names (pairs.map (·.1)) isModule name none h
        ∧ ∀ c, Linkage.Names (pairs.map (·.1)) isModule name none c → c.id = h.id
          ∨ ComesBefore (c.id.revision.map Revision.text) (h.id.revision.map Revision.text) := by
  refine ⟨Revision.exists_ofString?_iff, fun t r => Revision.text_of_ofString?, ?_,
    fun a b => compare_eq_lt_iff, ?_⟩
  · intro s t a b ha hb
    rw [Revision.compare_eq_lt_iff_bytes, Revision.text_of_ofString? ha,
      Revision.text_of_ofString? hb]
  · intro sources pairs hpairs isModule name h hselect
    have hselects := Linkage.Selects.of_select? (DeclaredModel.pairwise_readHeaders hpairs) hselect
    refine ⟨hselects.toNames, fun c hc => ?_⟩
    have hname : c.id.name = h.id.name := hc.name_eq.trans hselects.name_eq.symm
    exact (eq_or_lt_of_le (hselects.latest c hc)).imp_right (compare_eq_lt_iff hname).1

/-- Three modules of one name: without a revision, of the last day of a year, and of a leap day. -/
def datedModules : List Source :=
  [.bareModule "a" [.bare "revision" "2000-02-29" []],
    .bareModule "a" [],
    .bareModule "a" [.bare "revision" "1999-12-31" []]]

/-- Their headers, in identifier order. -/
def datedHeaders : List Header :=
  let l : Location := .synthetic "bare"
  [⟨⟨"a", none⟩, .module "a", .v1, "a", [], [], l⟩,
    ⟨⟨"a", Revision.ofNumbers? 1999 12 31⟩, .module "a", .v1, "a", [], [], l⟩,
    ⟨⟨"a", Revision.ofNumbers? 2000 2 29⟩, .module "a", .v1, "a", [], [], l⟩]

/-- There is a leap day in the years 0 and 2000, but not in 1900; the two modules that have a
revision come in its order behind the one that has none. -/
theorem revisions_order_sources_leapDays :
    (∃ r, Revision.ofString? "0000-02-29" = some r ∧ r.text = "0000-02-29")
    ∧ Revision.ofString? "1900-02-29" = none
    ∧ (∃ a b, Revision.ofString? "1999-12-31" = some a ∧ Revision.ofString? "2000-02-29" = some b
      ∧ a.compare b = .lt ∧ SourceId.compare ⟨"a", some a⟩ ⟨"a", some b⟩ = .lt
      ∧ SourceId.compare ⟨"a", none⟩ ⟨"a", some a⟩ = .lt)
    ∧ ∃ pairs, DeclaredModel.readHeaders datedModules = .ok pairs
      ∧ ∃ h, Linkage.select? (pairs.map (·.1)) true "a" none = some h
        ∧ h.id.revision.map Revision.text = some "2000-02-29"
        ∧ ∀ c, Linkage.Names (pairs.map (·.1)) true "a" none c → c.id = h.id
          ∨ ComesBefore (c.id.revision.map Revision.text) (some "2000-02-29") := by
  obtain ⟨hread, htext, horder, hname, hlatest⟩ := revisions_order_sources
  refine ⟨?_, ?_, ?_, ?_⟩
  · have hwrites : WritesDate "0000-02-29" := by
      refine ⟨['0', '0', '0', '0'], ['0', '2'], ['2', '9'], by cbv, rfl, rfl, rfl,
        List.all_eq_true.1 (by cbv), ?_⟩
      exact .leap ⟨by decide, by decide⟩ (by decide) (by decide)
    obtain ⟨r, hr⟩ := (hread "0000-02-29").2 hwrites
    exact ⟨r, hr, htext _ r hr⟩
  · cbv
  · have ha : Revision.ofString? "1999-12-31" = some ⟨1999, 12, 31, by decide⟩ := by cbv
    have hb : Revision.ofString? "2000-02-29" = some ⟨2000, 2, 29, by decide⟩ := by cbv
    have hbytes : Text.bytes "1999-12-31" < Text.bytes "2000-02-29" := by decide +kernel
    refine ⟨_, _, ha, hb, (horder _ _ _ _ ha hb).2 hbytes, ?_, ?_⟩
    · refine (hname ⟨"a", some ⟨1999, 12, 31, by decide⟩⟩ ⟨"a", some ⟨2000, 2, 29, by decide⟩⟩
        rfl).2 ?_
      rw [Option.map_some, Option.map_some, htext _ _ ha, htext _ _ hb]
      exact .text hbytes
    · exact (hname ⟨"a", none⟩ ⟨"a", some ⟨1999, 12, 31, by decide⟩⟩ rfl).2 (.absent _)
  · have hpairs : DeclaredModel.readHeaders datedModules = .ok (datedHeaders.zip
        [datedModules[1].root, datedModules[2].root, datedModules[0].root]) := by cbv
    have hselect : Linkage.select? datedHeaders true "a" none = datedHeaders[2]? := by cbv
    obtain ⟨_, hall⟩ := hlatest _ _ hpairs true "a" _ hselect
    exact ⟨_, hpairs, _, hselect, by cbv, hall⟩

end SourceId

end YangSchema
