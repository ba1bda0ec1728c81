import YangSchema.Error
import YangSchema.Proofs.Checking

/-!
# File names and identifiers

A file name is taken apart at its extension and then at its first `@`. What comes out are the parts
from which it can be put together again, and there is only one way to do so
(`SourceId.splitFileName_eq_ok`): the name is not empty and holds no `@`, whatever the text behind
it may hold. Both readings of a file name start from these parts and differ in what they make of a
text that is no revision. As a revision has one written form only, an identifier and its file name
determine each other (`SourceId.file_names_are_identifiers`).
-/

namespace YangSchema

namespace SourceId

variable {file extension stem name text : String} {rest : Option String} {id : SourceId}
  {e : FileNameFault}

/-! ## The parts of a file name -/

/-- A name, and behind an `@` a text if there is one. -/
def stemOf (name : String) : Option String → String
  | none => name
  | some text => name ++ "@" ++ text

theorem text_eq_stemOf (id : SourceId) :
    id.text = stemOf id.name (id.revision.map Revision.text) := by
  unfold SourceId.text
  cases id.revision <;> rfl

/-- What stands before the extension is all but the extension. -/
theorem stem?_eq_some : stem? file extension = some stem ↔ file = stem ++ "." ++ extension := by
  have hfile : file = stem ++ "." ++ extension
      ↔ file.toList = stem.toList ++ '.' :: extension.toList := by
    rw [← String.toList_inj, String.toList_append, String.toList_append, List.append_assoc]
    rfl
  rw [hfile]
  unfold stem?
  dsimp only
  constructor
  · intro h
    split at h
    · rename_i hsuffix
      obtain ⟨front, hfront⟩ := List.isSuffixOf_iff_suffix.1 hsuffix
      rw [← hfront, List.length_append, Nat.add_sub_cancel, List.take_left] at h
      cases h
      rw [String.toList_ofList, hfront]
    · cases h
  · intro h
    rw [h, if_pos (List.isSuffixOf_iff_suffix.2 (List.suffix_append _ _)), List.length_append,
      Nat.add_sub_cancel, List.take_left, String.ofList_toList]

/-- A name without an `@` and the text behind it come out of what they are put together to. -/
theorem splitOnce?_stem (hname : '@' ∉ name.toList) :
    Text.splitOnce? '@' (stemOf name rest) = rest.map (name, ·) := by
  cases rest with
  | none =>
    unfold Text.splitOnce? stemOf
    rw [Text.cutChars?_eq_none_iff.2 hname]
    rfl
  | some text =>
    rw [Option.map_some, Text.splitOnce?_eq_some]
    refine ⟨?_, hname⟩
    rw [stemOf, String.toList_append, String.toList_append, List.append_assoc]
    rfl

/-- Every text is put together from a name without an `@` and, if it holds one, a text behind it. -/
theorem exists_stemOf (stem : String) :
    ∃ name rest, '@' ∉ name.toList ∧ stem = stemOf name rest := by
  cases hcut : Text.splitOnce? '@' stem with
  | none =>
    refine ⟨stem, none, ?_, rfl⟩
    rwa [Text.splitOnce?, Option.map_eq_none_iff, Text.cutChars?_eq_none_iff] at hcut
  | some parts =>
    obtain ⟨name, text⟩ := parts
    obtain ⟨hstem, hname⟩ := Text.splitOnce?_eq_some.1 hcut
    refine ⟨name, some text, hname, ?_⟩
    rw [← String.toList_inj, hstem, stemOf, String.toList_append, String.toList_append,
      List.append_assoc]
    rfl

theorem splitFileName_of_stem (hname : '@' ∉ name.toList)
    (hstem : stem? file extension = some (stemOf name rest)) :
    splitFileName file extension = if name = "" then .error (.emptyName file)
      else .ok (name, rest) := by
  unfold splitFileName
  rw [hstem]
  dsimp only
  rw [splitOnce?_stem hname]
  cases rest <;> rfl

/-- The parts of a file name are those from which it is put together. -/
theorem splitFileName_eq_ok : splitFileName file extension = .ok (name, rest)
    ↔ name ≠ "" ∧ '@' ∉ name.toList ∧ file = stemOf name rest ++ "." ++ extension := by
  rw [← stem?_eq_some]
  constructor
  · intro h
    cases hstem : stem? file extension with
    | none =>
      rw [splitFileName, hstem] at h
      cases h
    | some stem =>
      obtain ⟨name', rest', hname, rfl⟩ := exists_stemOf stem
      rw [splitFileName_of_stem hname hstem] at h
      split at h
      · cases h
      · cases h
        exact ⟨‹_›, hname, rfl⟩
  · rintro ⟨hne, hname, hstem⟩
    rw [splitFileName_of_stem hname hstem, if_neg hne]

/-! ## Faults -/

/-- A file name that is at fault for its form, not for its revision. -/
def FileNameFault.IsFormat (e : FileNameFault) : Prop :=
  ∃ fault, Error.ofFileName e = .identity fault

theorem isFormat_of_splitFileName (h : splitFileName file extension = .error e) : e.IsFormat := by
  cases hstem : stem? file extension with
  | none =>
    rw [splitFileName, hstem] at h
    cases h
    exact ⟨_, rfl⟩
  | some stem =>
    obtain ⟨name, rest, hname, rfl⟩ := exists_stemOf stem
    rw [splitFileName_of_stem hname hstem] at h
    split at h
    · cases h
      exact ⟨_, rfl⟩
    · cases h

theorem not_isFormat_revision : ¬ (FileNameFault.revision text).IsFormat :=
  fun ⟨_, h⟩ => nomatch h

/-! ## The two readings -/

/-- The strict reading wants a revision behind the `@`, in its written form. -/
theorem ofFileName_eq_ok : ofFileName file extension = .ok id
    ↔ splitFileName file extension = .ok (id.name, id.revision.map Revision.text) := by
  obtain ⟨name, revision⟩ := id
  unfold ofFileName
  constructor
  · intro h
    split at h
    · cases h
    · rename_i hparts
      cases h
      exact hparts
    · rename_i hparts
      split at h
      · rename_i r hr
        cases h
        rw [hparts, Option.map_some, Revision.text_of_ofString? hr]
      · cases h
  · intro h
    rw [h]
    cases revision with
    | none => rfl
    | some r =>
      dsimp only [Option.map_some]
      rw [Revision.ofString?_text]

/-- What is at fault for its form is so for both readings. -/
theorem ofFileName_eq_error_iff (he : e.IsFormat) : ofFileName file extension = .error e
    ↔ splitFileName file extension = .error e := by
  unfold ofFileName
  constructor
  · intro h
    split at h
    · rename_i hparts
      cases h
      exact hparts
    · cases h
    · split at h
      · cases h
      · cases h
        exact absurd he not_isFormat_revision
  · intro h
    rw [h]

theorem ofFileName_eq_revision (h : ofFileName file extension = .error (.revision text)) :
    ∃ name, splitFileName file extension = .ok (name, some text)
      ∧ Revision.ofString? text = none := by
  unfold ofFileName at h
  split at h
  · rename_i hparts
    cases h
    exact absurd (isFormat_of_splitFileName hparts) not_isFormat_revision
  · cases h
  · rename_i name _ hparts
    split at h
    · cases h
    · rename_i hnone
      cases h
      exact ⟨name, hparts, hnone⟩

theorem ofFileNameLenient_eq_error_iff : ofFileNameLenient file extension = .error e
    ↔ splitFileName file extension = .error e := by
  unfold ofFileNameLenient
  split <;> simp_all

/-- The lenient reading makes no difference between a text that is no revision and none at all. -/
theorem ofFileNameLenient_of_parts (h : splitFileName file extension = .ok (name, rest)) :
    ofFileNameLenient file extension = .ok ⟨name, rest.bind Revision.ofString?⟩ := by
  unfold ofFileNameLenient
  rw [h]

/-- **File names and identifiers determine each other, and the lenient reading extends the strict
one.** An identifier that is read from a file name has this file name, and one whose name is not
empty and holds no `@` is read from its file name. Whatever the extension, both readings find the
same file names at fault for their form, and the lenient one no others; it gives what the strict one
gives, and where this one misses a revision the name that stands before the `@`. -/
theorem file_names_are_identifiers :
    (∀ file id, ofFileName file defaultExtension = .ok id → id.fileName = file)
    ∧ (∀ id : SourceId, id.name ≠ "" → '@' ∉ id.name.toList →
        ofFileName id.fileName defaultExtension = .ok id)
    ∧ ∀ file extension,
      (∀ e, e.IsFormat → (ofFileName file extension = .error e
        ↔ ofFileNameLenient file extension = .error e))
      ∧ (∀ e, ofFileNameLenient file extension = .error e → e.IsFormat)
      ∧ (∀ id, ofFileName file extension = .ok id → ofFileNameLenient file extension = .ok id)
      ∧ ∀ text, ofFileName file extension = .error (.revision text) →
        ∃ name, name ≠ "" ∧ '@' ∉ name.toList ∧ file = name ++ "@" ++ text ++ "." ++ extension
          ∧ ofFileNameLenient file extension = .ok ⟨name, none⟩ := by
  refine ⟨fun file id h => ?_, fun id hne hname => ?_, fun file extension => ⟨?_, ?_, ?_, ?_⟩⟩
  · obtain ⟨_, _, hfile⟩ := splitFileName_eq_ok.1 (ofFileName_eq_ok.1 h)
    rw [hfile, fileName, text_eq_stemOf]
  · refine ofFileName_eq_ok.2 (splitFileName_eq_ok.2 ⟨hne, hname, ?_⟩)
    rw [fileName, text_eq_stemOf]
  · intro e he
    rw [ofFileName_eq_error_iff he, ofFileNameLenient_eq_error_iff]
  · exact fun e h => isFormat_of_splitFileName (ofFileNameLenient_eq_error_iff.1 h)
  · intro id h
    rw [ofFileNameLenient_of_parts (ofFileName_eq_ok.1 h)]
    obtain ⟨name, _ | r⟩ := id
    · rfl
    · dsimp only
      rw [Option.map_some, Option.bind_some, Revision.ofString?_text]
  · intro text h
    obtain ⟨name, hparts, hnone⟩ := ofFileName_eq_revision h
    obtain ⟨hne, hname, hfile⟩ := splitFileName_eq_ok.1 hparts
    refine ⟨name, hne, hname, hfile, ?_⟩
    rw [ofFileNameLenient_of_parts hparts, Option.bind_some, hnone]

/-- A name with a dot and a leap day; a second `@`, and no leap year. -/
theorem file_names_are_identifiers_leapDay :
    (∃ id : SourceId, id.name = "a.b-c" ∧ id.fileName = "a.b-c@2024-02-29.yang"
      ∧ ofFileName id.fileName defaultExtension = .ok id)
    ∧ ofFileName "a@2023-02-29@.yin" "yin" = .error (.revision "2023-02-29@")
    ∧ ∃ name, ofFileNameLenient "a@2023-02-29@.yin" "yin" = .ok ⟨name, none⟩ := by
  obtain ⟨_, hread, hboth⟩ := file_names_are_identifiers
  obtain ⟨_, _, _, hlenient⟩ := hboth "a@2023-02-29@.yin" "yin"
  have hstrict : ofFileName "a@2023-02-29@.yin" "yin" = .error (.revision "2023-02-29@") := by cbv
  obtain ⟨name, _, _, _, hname⟩ := hlenient _ hstrict
  refine ⟨⟨⟨"a.b-c", some ⟨2024, 2, 29, by decide⟩⟩, rfl, by cbv, ?_⟩, hstrict, name, hname⟩
  exact hread _ (by decide) (by decide)

end SourceId

end YangSchema
