import YangSchema.Proofs.Checking
import YangSchema.SchemaPath

/-!
# Two ways to split a path

The check cuts a path at its slashes, passes over what is empty and drops the blanks around the
rest (`Declaration.pathSteps`). Where a path is followed, the blanks around all of it are dropped
first, then those around each step, and only then is passed over what is empty
(`SchemaPath.stepsOf`). Both come to the same steps, on every text (`SchemaPath.stepsOf_trim`): a
slash is not a blank, so that the blanks at the ends of a path are at the ends of its first and last
step. The check may keep a step that has been blank, but such a step has no prefix.

So a path passes the check exactly if the prefixes of all its steps are bound
(`Declaration.takes_path_iff`).
-/

namespace YangSchema

namespace Text

variable {sep c : Char} {as bs cs x y : List Char} {text : String}

/-! ## Blanks at the ends -/

/-- Nothing but blanks. -/
def IsBlank (cs : List Char) : Prop := ∀ c ∈ cs, isBlank c = true

/-- The second text is the first one between blanks. -/
def Padded (x y : List Char) : Prop :=
  ∃ as bs, IsBlank as ∧ IsBlank bs ∧ y = as ++ (x ++ bs)

theorem isBlank_nil : IsBlank [] := fun _ h => absurd h List.not_mem_nil

theorem IsBlank.reverse (h : IsBlank cs) : IsBlank cs.reverse :=
  fun c hc => h c (List.mem_reverse.1 hc)

/-- A text is padded by the blanks that are dropped at its ends. -/
theorem padded_trimChars (cs : List Char) : Padded (trimChars cs) cs := by
  have blank (cs : List Char) : IsBlank (cs.takeWhile isBlank) := fun _ => List.mem_takeWhile_imp
  refine ⟨cs.takeWhile isBlank, ((cs.dropWhile isBlank).reverse.takeWhile isBlank).reverse,
    blank cs, (blank _).reverse, ?_⟩
  rw [trimChars, ← List.reverse_append, List.takeWhile_append_dropWhile, List.reverse_reverse,
    List.takeWhile_append_dropWhile]

theorem trimChars_append_blank (hbs : IsBlank bs) (cs : List Char) :
    trimChars (cs ++ bs) = trimChars cs := by
  unfold trimChars
  rw [List.dropWhile_append]
  split
  · rename_i hempty
    rw [List.isEmpty_iff.1 hempty, List.dropWhile_eq_nil_iff.2 hbs]
  · rw [List.reverse_append, List.dropWhile_append_of_pos hbs.reverse]

/-- Blanks at the ends make no difference to what is left when they are dropped. -/
theorem Padded.trimChars_eq (h : Padded x y) : trimChars y = trimChars x := by
  obtain ⟨as, bs, has, hbs, rfl⟩ := h
  rw [← trimChars_append_blank hbs x]
  unfold trimChars
  rw [List.dropWhile_append_of_pos has]

/-! ## Cutting between blanks -/

theorem splitChars_cons_self : splitChars sep (sep :: cs) = [] :: splitChars sep cs := if_pos rfl

/-- There is always a part. -/
theorem splitChars_ne_nil (sep : Char) (cs : List Char) : splitChars sep cs ≠ [] := by
  cases cs with
  | nil => simp [splitChars]
  | cons b bs =>
    unfold splitChars
    split
    · simp
    · split <;> simp

/-- A character that is no separator goes to the first part. -/
theorem splitChars_cons_of_ne (hne : c ≠ sep) (cs : List Char) : ∃ part parts,
    splitChars sep cs = part :: parts ∧ splitChars sep (c :: cs) = (c :: part) :: parts := by
  obtain ⟨part, parts, heq⟩ := List.exists_cons_of_ne_nil (splitChars_ne_nil sep cs)
  refine ⟨part, parts, heq, ?_⟩
  rw [splitChars, if_neg hne, heq]

theorem ne_of_isBlank (hsep : isBlank sep = false) (hc : isBlank c = true) : c ≠ sep := by
  rintro rfl
  rw [hsep] at hc
  cases hc

theorem IsBlank.not_mem (hsep : isBlank sep = false) (h : IsBlank cs) : sep ∉ cs :=
  fun hmem => ne_of_isBlank hsep (h sep hmem) rfl

theorem splitChars_of_not_mem (h : sep ∉ cs) : splitChars sep cs = [cs] := by
  induction cs with
  | nil => rfl
  | cons c cs ih =>
    rw [List.mem_cons, not_or] at h
    rw [splitChars, if_neg (Ne.symm h.1), ih h.2]

/-- Blanks behind a text come behind its last part. -/
theorem splitChars_append_blank (hsep : isBlank sep = false) (hbs : IsBlank bs) :
    List.Forall₂ (fun x y => ∃ as, IsBlank as ∧ y = x ++ as) (splitChars sep cs)
      (splitChars sep (cs ++ bs)) := by
  induction cs with
  | nil =>
    rw [List.nil_append, splitChars_of_not_mem (hbs.not_mem hsep)]
    exact .cons ⟨bs, hbs, rfl⟩ .nil
  | cons c cs ih =>
    by_cases hc : c = sep
    · subst hc
      rw [List.cons_append, splitChars_cons_self, splitChars_cons_self]
      exact .cons ⟨[], isBlank_nil, rfl⟩ ih
    · obtain ⟨part, parts, hparts, hcons⟩ := splitChars_cons_of_ne hc cs
      obtain ⟨part', parts', hparts', hcons'⟩ := splitChars_cons_of_ne hc (cs ++ bs)
      rw [hparts, hparts'] at ih
      rw [List.cons_append, hcons, hcons']
      cases ih with
      | cons hfirst hrest =>
        obtain ⟨as, has, rfl⟩ := hfirst
        exact .cons ⟨as, has, rfl⟩ hrest

/-- The parts of a padded text are padded: the blanks are no place to cut. -/
theorem Padded.splitChars (hsep : isBlank sep = false) (h : Padded x y) :
    List.Forall₂ Padded (splitChars sep x) (splitChars sep y) := by
  obtain ⟨as, bs, has, hbs, rfl⟩ := h
  induction as with
  | nil =>
    refine (splitChars_append_blank hsep hbs).imp fun x y hxy => ?_
    obtain ⟨as, has, rfl⟩ := hxy
    exact ⟨[], as, isBlank_nil, has, rfl⟩
  | cons a as ih =>
    obtain ⟨ha, hrest⟩ := List.forall_mem_cons.1 has
    obtain ⟨part, parts, hparts, hcons⟩ :=
      splitChars_cons_of_ne (ne_of_isBlank hsep ha) (as ++ (x ++ bs))
    have hpadded := ih hrest
    rw [hparts, List.forall₂_cons_right_iff] at hpadded
    obtain ⟨first, rest, ⟨as', bs', has', hbs', rfl⟩, htail, heq⟩ := hpadded
    rw [List.cons_append, hcons, heq]
    exact .cons ⟨a :: as', bs', List.forall_mem_cons.2 ⟨ha, has'⟩, hbs', rfl⟩ htail

/-- Whether the blanks around a text are dropped before it is cut or not, its parts are the same
when the blanks around them have been dropped. -/
theorem map_trim_splitAll_trim (hsep : isBlank sep = false) (text : String) :
    (splitAll sep (trim text)).map trim = (splitAll sep text).map trim := by
  have hparts := (padded_trimChars text.toList).splitChars hsep
  have hsame : (Text.splitChars sep (trimChars text.toList)).map trimChars
      = (Text.splitChars sep text.toList).map trimChars := by
    rw [← List.forall₂_eq_eq_eq, List.forall₂_map_left_iff, List.forall₂_map_right_iff]
    exact hparts.imp fun _ _ hpadded => hpadded.trimChars_eq.symm
  have hmap (css : List (List Char)) :
      (css.map String.ofList).map trim = (css.map trimChars).map String.ofList := by
    rw [List.map_map, List.map_map]
    apply List.map_congr_left
    intro cs _
    show String.ofList (trimChars (String.ofList cs).toList) = String.ofList (trimChars cs)
    rw [String.toList_ofList]
  show ((Text.splitChars sep (trim text).toList).map String.ofList).map trim = _
  rw [hmap, trim, String.toList_ofList, hsame, ← hmap]
  rfl

end Text

/-! ## Steps -/

namespace SchemaPath

/-- The steps of a path are those that the check sees, but for the empty ones: with any blanks, with
empty steps and with any number of colons. -/
theorem stepsOf_eq_pathSteps (path : String) : stepsOf path
    = ((Declaration.pathSteps path).filter (· != "")).map Step.ofString := by
  have hempty : Text.trim "" = "" := by decide
  unfold stepsOf Declaration.pathSteps
  congr 1
  rw [List.filter_map, List.filter_map, List.filter_filter]
  congr 1
  refine List.filter_congr fun part _ => ?_
  -- what is empty is so without its blanks
  simp only [Function.comp_apply]
  by_cases hpart : part = ""
  · rw [hpart, hempty]
    rfl
  · rw [bne_iff_ne.2 hpart, Bool.and_true]

/-- Dropping the blanks around a path first makes no difference to its steps. -/
theorem stepsOf_trim (path : String) : stepsOf (Text.trim path) = stepsOf path := by
  unfold stepsOf
  rw [Text.map_trim_splitAll_trim (by decide)]

/-- The steps of a path that is followed are those that the check has seen. -/
theorem steps?_eq_some {absolute : Bool} {path : String} {steps : List Step}
    (h : steps? absolute path = some steps) : steps = stepsOf path := by
  unfold steps? at h
  dsimp only at h
  split at h
  · rw [← Option.some.inj h, stepsOf_trim]
  · cases h

end SchemaPath

/-! ## Prefixes -/

namespace Declaration

variable {s : LinkedSource}

/-- The prefix that the check sees of a name is that of the name as a step. -/
theorem hasBoundPrefix_iff {name : String} : HasBoundPrefix s name
    ↔ ∀ p, (Step.ofString name).qualifier = some p →
        ∃ module, s.prefixes.lookup p = some module := by
  rw [hasBoundPrefix_iff_splitOnce?]
  unfold Step.ofString
  cases Text.splitOnce? ':' name with
  | none => exact iff_of_true (fun _ _ h => nomatch h) fun _ h => nomatch h
  | some parts =>
    obtain ⟨p, bare⟩ := parts
    constructor
    · rintro h _ ⟨⟩
      exact h p bare rfl
    · rintro h _ _ ⟨⟩
      exact h p rfl

/-- The check lets a path pass exactly if the prefixes of all steps are bound that are there when
it is followed. -/
theorem takes_path_iff {path : String} : (∀ step ∈ pathSteps path, HasBoundPrefix s step)
    ↔ ∀ step ∈ SchemaPath.stepsOf path, ∀ p, step.qualifier = some p →
        ∃ module, s.prefixes.lookup p = some module := by
  have hempty : HasBoundPrefix s "" := hasBoundPrefix_iff.2 fun p hp => nomatch hp
  rw [SchemaPath.stepsOf_eq_pathSteps, List.forall_mem_map]
  simp only [hasBoundPrefix_iff, List.mem_filter, and_imp, bne_iff_ne, ne_eq] at hempty ⊢
  constructor
  · intro h name hname _
    exact h name hname
  · intro h name hname
    by_cases hne : name = ""
    · rw [hne]
      exact hempty
    · exact h name hname hne

end Declaration

end YangSchema
