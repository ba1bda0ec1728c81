import YangSchema.Proofs.JsonText
import YangSchema.Proofs.Restrictions
import YangSchema.Proofs.Splitting

/-!
# Lists of intervals as texts

What is read as a list of intervals is one: it is not empty, and its intervals are not empty and
ascend. Conversely a list of intervals is read back from its written form
(`Interval.interval_lists_read_back`).

The written form is cut at its bars, and each part at its first two points in a row. Neither can
stand in a number, which is written in digits behind an optional minus (`Text.mem_intChars`); so the
parts are the intervals and their bounds, with blanks around them. Blanks do not count when a bound
is read (`Interval.restrictedBound?_of_padded`).
-/

namespace YangSchema

open Json (intChars toList_toString_int)

namespace Text

variable {sep c : Char} {as bs cs front : List Char} {least most n : Int} {text : String}

/-! ## Cutting a joined text -/

/-- A text is cut behind a part without the separator. -/
theorem splitChars_append (h : sep ∉ as) (bs : List Char) :
    splitChars sep (as ++ sep :: bs) = as :: splitChars sep bs := by
  induction as with
  | nil => exact splitChars_cons_self
  | cons a as ih =>
    rw [List.mem_cons, not_or] at h
    rw [List.cons_append, splitChars, if_neg (Ne.symm h.1), ih h.2]

/-- Texts joined by a separator between blanks are cut into the same texts with blanks around
them. -/
theorem splitChars_intercalate (hsep : isBlank sep = false) (has : IsBlank as) (hbs : IsBlank bs)
    {parts : List (List Char)} (hne : parts ≠ []) (hparts : ∀ part ∈ parts, sep ∉ part)
    (hfront : IsBlank front) : List.Forall₂ Padded parts
      (splitChars sep (front ++ (as ++ sep :: bs).intercalate parts)) := by
  induction parts generalizing front with
  | nil => exact absurd rfl hne
  | cons part parts ih =>
    obtain ⟨hpart, hrest⟩ := List.forall_mem_cons.1 hparts
    have hfront' := hfront.not_mem hsep
    cases parts with
    | nil =>
      rw [List.intercalate_singleton, splitChars_of_not_mem (by simp [hpart, hfront'])]
      exact .cons ⟨front, [], hfront, isBlank_nil, by rw [List.append_nil]⟩ .nil
    | cons next parts =>
      -- the blanks behind the separator stand in front of the next text
      have hcut : front ++ (as ++ sep :: bs).intercalate (part :: next :: parts)
          = (front ++ (part ++ as)) ++ sep :: (bs ++ (as ++ sep :: bs).intercalate (next :: parts))
        := by simp [List.intercalate_cons_cons]
      rw [hcut, splitChars_append (by simp [hpart, hfront', has.not_mem hsep])]
      exact .cons ⟨front, as, hfront, has, rfl⟩ (ih (List.cons_ne_nil _ _) hrest hbs)

/-! ## Numbers -/

/-- An integer is written in digits, and a minus if it is negative. -/
theorem mem_intChars (hc : c ∈ intChars n) : isDigit c = true ∨ c = '-' := by
  unfold intChars at hc
  split at hc
  · exact .inl (isDigit_of_mem_toDigits hc)
  · exact (List.mem_cons.1 hc).symm.imp_left isDigit_of_mem_toDigits

theorem not_mem_intChars (hdigit : isDigit c = false) (hminus : c ≠ '-') : c ∉ intChars n := by
  intro hc
  rcases mem_intChars hc with h | h
  · rw [hdigit] at h
    cases h
  · exact hminus h

theorem isBlank_of_mem_intChars (hc : c ∈ intChars n) : isBlank c = false := by
  rcases mem_intChars hc with h | rfl
  · rw [isDigit, Bool.and_eq_true, decide_eq_true_iff, decide_eq_true_iff] at h
    have hlow : 48 ≤ c.toNat := h.1
    have hhigh : c.toNat ≤ 57 := h.2
    simp only [isBlank, Bool.or_eq_false_iff, Bool.and_eq_false_iff, decide_eq_false_iff_not,
      beq_eq_false_iff_ne]
    omega
  · decide

theorem trimChars_of_no_blank (h : ∀ c ∈ cs, isBlank c = false) : trimChars cs = cs := by
  have hkeep : ∀ ds : List Char, (∀ c ∈ ds, isBlank c = false) → ds.dropWhile isBlank = ds := by
    intro ds hds
    refine List.dropWhile_eq_self_iff.2 fun hlength => ?_
    rw [hds _ (List.getElem_mem hlength)]
    exact Bool.false_ne_true
  rw [trimChars, hkeep cs h, hkeep _ fun c hc => h c (List.mem_reverse.1 hc),
    List.reverse_reverse]

/-- Blanks around a number are dropped. -/
theorem trim_of_padded (h : Padded (intChars n) cs) : trim (String.ofList cs) = toString n := by
  rw [← String.toList_inj, trim, String.toList_ofList, String.toList_ofList, h.trimChars_eq,
    trimChars_of_no_blank fun _ => isBlank_of_mem_intChars, toList_toString_int]

/-- An integer within the bounds is read back from its written form. -/
theorem signed?_toString (hleast : least ≤ n) (hmost : n ≤ most) :
    signed? least most (toString n) = some n := by
  have nosign {d : Char} {ds : List Char} (h : Nat.toDigits 10 n.toNat = d :: ds) :
      isDigit d = true := isDigit_of_mem_toDigits (h ▸ List.mem_cons_self)
  unfold signed?
  dsimp only
  rw [toList_toString_int, intChars, Option.filter_eq_some_iff]
  refine ⟨?_, by simp [hleast, hmost]⟩
  by_cases hn : 0 ≤ n
  · rw [if_pos hn]
    split
    · rename_i hplus
      cases nosign hplus
    · rename_i hminus
      cases nosign hminus
    · rw [natOfDigits?_toDigits, Option.map_some]
      exact congrArg some (Int.toNat_of_nonneg hn)
  · have hread := natOfDigits?_toDigits (-n).toNat
    rw [if_neg hn]
    -- the magnitude is read, and its sign is changed
    show ((natOfDigits? (Nat.toDigits 10 (-n).toNat)).bind fun m => some (m : Int)).map (-·)
      = some n
    rw [hread, Option.bind_some, Option.map_some]
    refine congrArg some ?_
    omega

end Text

namespace Interval

variable {i : Interval} {is parent : List Interval} {low high n : Int} {scale : Option Nat}
  {text : String} {cs as bs : List Char}

/-! ## Bounds and intervals -/

/-- A number is read as a bound whatever blanks stand around it. -/
theorem restrictedBound?_of_padded (hleast : leastBound ≤ n) (hgreatest : n ≤ greatestBound)
    (h : Text.Padded (intChars n) cs) :
    restrictedBound? low high none (String.ofList cs) = some n := by
  -- neither word is a number
  have hword {word : String} {c : Char} {ds : List Char} (hcs : word.toList = c :: ds)
      (hdigit : Text.isDigit c = false) (hminus : c ≠ '-') : toString n ≠ word := by
    rintro rfl
    rw [toList_toString_int] at hcs
    exact Text.not_mem_intChars hdigit hminus (hcs ▸ List.mem_cons_self)
  have htrim : Text.trim (toString n) = toString n := by
    rw [Text.trim, toList_toString_int,
      Text.trimChars_of_no_blank fun _ => Text.isBlank_of_mem_intChars, ← toList_toString_int,
      String.ofList_toList]
  unfold restrictedBound?
  dsimp only
  rw [Text.trim_of_padded h, if_neg (hword rfl (by decide) (by decide)),
    if_neg (hword rfl (by decide) (by decide))]
  show Text.signed? leastBound greatestBound (Text.trim (toString n)) = some n
  rw [htrim, Text.signed?_toString hleast hgreatest]

/-- A text without a point is not cut. -/
theorem cutAtDots?_of_not_mem (h : '.' ∉ cs) : cutAtDots? cs = none := by
  induction cs with
  | nil => rfl
  | cons c cs ih =>
    rw [List.mem_cons, not_or] at h
    rw [cutAtDots?, ih h.2, Option.map_none]
    rintro ds rfl
    exact absurd rfl h.1

/-- A text is cut behind a part without a point. -/
theorem cutAtDots?_append (h : '.' ∉ as) (bs : List Char) :
    cutAtDots? (as ++ '.' :: '.' :: bs) = some (as, bs) := by
  induction as with
  | nil => rfl
  | cons a as ih =>
    rw [List.mem_cons, not_or] at h
    rw [List.cons_append, cutAtDots?, ih h.2, Option.map_some]
    rintro ds rfl
    exact absurd rfl h.1

theorem toList_text (i : Interval) : i.text.toList
    = if i.min = i.max then intChars i.min else intChars i.min ++ '.' :: '.' :: intChars i.max := by
  unfold Interval.text
  split
  · exact toList_toString_int i.min
  · rw [String.toList_append, String.toList_append, toList_toString_int, toList_toString_int,
      List.append_assoc]
    rfl

/-- A written interval is read back whatever blanks stand around it. -/
theorem ofString?_of_padded (hleast : leastBound ≤ i.min) (hgreatest : i.max ≤ greatestBound)
    (hi : i.min ≤ i.max) (h : Text.Padded i.text.toList cs) :
    ofString? low high none (String.ofList cs) = some i := by
  have hmin : i.min ≤ greatestBound := by omega
  have hmax : leastBound ≤ i.max := by omega
  obtain ⟨as, bs, has, hbs, rfl⟩ := h
  have hpoint : Text.isBlank '.' = false := by decide
  have hnumber {n : Int} : '.' ∉ intChars n := Text.not_mem_intChars (by decide) (by decide)
  unfold ofString?
  rw [String.toList_ofList, toList_text]
  by_cases heq : i.min = i.max
  · rw [if_pos heq]
    have hcut : '.' ∉ as ++ (intChars i.min ++ bs) := by
      simp [has.not_mem hpoint, hbs.not_mem hpoint, hnumber]
    rw [cutAtDots?_of_not_mem hcut]
    dsimp only
    rw [restrictedBound?_of_padded hleast hmin ⟨as, bs, has, hbs, rfl⟩, Option.map_some]
    exact congrArg (fun max => some (Interval.mk i.min max)) heq
  · rw [if_neg heq]
    have hcut : as ++ ((intChars i.min ++ '.' :: '.' :: intChars i.max) ++ bs)
        = (as ++ intChars i.min) ++ '.' :: '.' :: (intChars i.max ++ bs) := by simp
    have hlow : Text.Padded (intChars i.min) (as ++ intChars i.min) :=
      ⟨as, [], has, Text.isBlank_nil, by rw [List.append_nil]⟩
    have hhigh : Text.Padded (intChars i.max) (intChars i.max ++ bs) :=
      ⟨[], bs, Text.isBlank_nil, hbs, rfl⟩
    rw [hcut, cutAtDots?_append (by simp [has.not_mem hpoint, hnumber])]
    dsimp only
    rw [restrictedBound?_of_padded hleast hmin hlow,
      restrictedBound?_of_padded hmax hgreatest hhigh]

/-! ## Lists -/

theorem not_mem_text : '|' ∉ i.text.toList := by
  have hnumber {n : Int} : '|' ∉ intChars n := Text.not_mem_intChars (by decide) (by decide)
  rw [toList_text]
  split <;> simp [hnumber]

/-- A restriction states at least one interval. -/
theorem ne_nil_of_listOfString? (h : listOfString? text parent scale = some is) : is ≠ [] := by
  unfold listOfString? at h
  split at h
  · obtain ⟨hread, -⟩ := Option.filter_eq_some_iff.1 h
    obtain ⟨part, parts, hparts⟩ :=
      List.exists_cons_of_ne_nil (Text.splitChars_ne_nil '|' text.toList)
    rintro rfl
    rw [Text.splitAll, hparts, List.map_cons, List.mapM_cons] at hread
    obtain ⟨i, -, hread⟩ := Option.bind_eq_some_iff.1 hread
    obtain ⟨is, -, hread⟩ := Option.bind_eq_some_iff.1 hread
    cases hread
  · cases h

theorem mapM_of_forall₂ {α β : Type} {f : β → Option α} {as : List α} {bs : List β}
    (h : List.Forall₂ (fun a b => f b = some a) as bs) : bs.mapM f = some as := by
  induction h with
  | nil => rfl
  | cons hfirst _ ih =>
    rw [List.mapM_cons, hfirst, ih]
    rfl

/-- The parts of a written list are its intervals with blanks around them. -/
theorem forall₂_splitAll_listText (hne : is ≠ []) : List.Forall₂
    (fun i part => ∃ cs, Text.Padded i.text.toList cs ∧ part = String.ofList cs) is
    (Text.splitAll '|' (listText is)) := by
  have hbar : Text.isBlank '|' = false := by decide
  have hblank : Text.IsBlank [' '] := fun c hc => by
    rw [List.mem_singleton.1 hc]
    decide
  have hjoined : (listText is).toList
      = [] ++ ([' '] ++ '|' :: [' ']).intercalate (is.map fun i => i.text.toList) := by
    rw [listText, String.toList_intercalate, List.map_map]
    rfl
  have hne' : (is.map fun i => i.text.toList) ≠ [] := by simpa using hne
  have hparts := Text.splitChars_intercalate hbar hblank hblank hne'
    (List.forall_mem_map.2 fun i _ => not_mem_text) Text.isBlank_nil
  rw [← hjoined, List.forall₂_map_left_iff] at hparts
  rw [Text.splitAll, List.forall₂_map_right_iff]
  exact hparts.imp fun i cs hpadded => ⟨cs, hpadded, rfl⟩

/-- A list of intervals is read back from its written form. -/
theorem listOfString?_listText (hne : is ≠ []) (his : Ascending is)
    (hbounds : ∀ i ∈ is, leastBound ≤ i.min ∧ i.max ≤ greatestBound) (hparent : parent ≠ []) :
    listOfString? (listText is) parent none = some is := by
  have hparts := List.forall₂_iff_zip.1 (forall₂_splitAll_listText hne)
  have hread (low high : Int) :
      (Text.splitAll '|' (listText is)).mapM (ofString? low high none) = some is := by
    refine mapM_of_forall₂ (List.forall₂_iff_zip.2 ⟨hparts.1, fun {i part} hpart => ?_⟩)
    obtain ⟨hi, -⟩ := List.of_mem_zip hpart
    obtain ⟨cs, hpadded, rfl⟩ := hparts.2 hpart
    exact ofString?_of_padded (hbounds i hi).1 (hbounds i hi).2 (his.nonempty i hi) hpadded
  unfold listOfString?
  rw [List.head?_eq_some_head hparent, List.getLast?_eq_some_getLast hparent]
  dsimp only
  rw [hread, Option.filter_eq_some_iff]
  exact ⟨rfl, ascending_iff.2 his⟩

/-- **Lists of intervals are read back.** What is read as a restriction is a list of intervals that
is not empty and ascends; and every such list within the bounds of numbers is read back from its
written form, whatever is restricted. -/
theorem interval_lists_read_back :
    (∀ (text : String) (parent : List Interval) (scale : Option Nat) (is : List Interval),
        listOfString? text parent scale = some is → is ≠ [] ∧ Ascending is)
    ∧ ∀ is parent : List Interval, is ≠ [] → Ascending is →
        (∀ i ∈ is, leastBound ≤ i.min ∧ i.max ≤ greatestBound) → parent ≠ [] →
        listOfString? (listText is) parent none = some is :=
  ⟨fun _ _ _ _ h => ⟨ne_nil_of_listOfString? h, ascending_of_listOfString? h⟩,
    fun _ _ hne his hbounds hparent => listOfString?_listText hne his hbounds hparent⟩

/-- All numbers but those between -5 and 7, and zero. -/
def gapped : List Interval := [⟨leastBound, -5⟩, ⟨0, 0⟩, ⟨7, greatestBound⟩]

/-- A list from the least to the greatest number, and one that is written with a word. -/
theorem interval_lists_read_back_gapped :
    (listOfString? (listText gapped) [⟨0, 0⟩] none = some gapped
      ∧ listText gapped = "-170141183460469231731687303715884105728..-5 | 0 | "
        ++ "7..170141183460469231731687303715884105727")
    ∧ listOfString? "min .. -3|5" [⟨-9, 0⟩, ⟨4, 6⟩] none = some [⟨-9, -3⟩, ⟨5, 5⟩]
    ∧ Ascending [⟨-9, -3⟩, ⟨5, 5⟩] := by
  have hread : listOfString? "min .. -3|5" [⟨-9, 0⟩, ⟨4, 6⟩] none = some [⟨-9, -3⟩, ⟨5, 5⟩] := by
    decide +kernel
  refine ⟨⟨interval_lists_read_back.2 gapped [⟨0, 0⟩] (by decide) ?_ (by decide) (by decide), ?_⟩,
    hread, (interval_lists_read_back.1 _ _ _ _ hread).2⟩
  · exact ascending_iff.1 (by decide)
  · decide +kernel

end Interval

end YangSchema
