/-!
# Cutting texts at a separator

* `splitOnce?`: the part before the first separator and the part behind it;
* `splitAll`: all parts between separators, always at least one.
-/

namespace YangSchema.Text

/-- Cuts at the first `sep`; `none` if there is none. -/
def cutChars? (sep : Char) : List Char → Option (List Char × List Char)
  | [] => none
  | c :: cs => if c = sep then some ([], cs) else (cutChars? sep cs).map fun p => (c :: p.1, p.2)

/-- Cuts at every `sep`. -/
def splitChars (sep : Char) : List Char → List (List Char)
  | [] => [[]]
  | c :: cs =>
    if c = sep then [] :: splitChars sep cs
    else match splitChars sep cs with
      | [] => [[c]]
      | part :: parts => (c :: part) :: parts

/-- Cuts at the first `sep`; `none` if there is none. -/
def splitOnce? (sep : Char) (s : String) : Option (String × String) :=
  (cutChars? sep s.toList).map fun p => (String.ofList p.1, String.ofList p.2)

/-- Cuts at every `sep`. -/
def splitAll (sep : Char) (s : String) : List String :=
  (splitChars sep s.toList).map String.ofList

/-- A cut at the first separator loses the separator only, and leaves none before it. -/
theorem cutChars?_eq_some_iff {sep : Char} {cs a b : List Char} :
    cutChars? sep cs = some (a, b) ↔ cs = a ++ sep :: b ∧ sep ∉ a := by
  induction cs generalizing a with
  | nil => simp [cutChars?]
  | cons c cs ih =>
    unfold cutChars?
    by_cases h : c = sep
    · subst h
      simp only [↓reduceIte, Option.some.injEq, Prod.mk.injEq]
      constructor
      · rintro ⟨rfl, rfl⟩; simp
      · rintro ⟨h₁, h₂⟩
        cases a with
        | nil => simpa using h₁
        | cons x xs => simp at h₁ h₂; exact absurd h₁.1 h₂.1
    · simp only [h, ↓reduceIte, Option.map_eq_some_iff, Prod.mk.injEq, Prod.exists]
      constructor
      · rintro ⟨x, y, hxy, rfl, rfl⟩
        obtain ⟨rfl, hx⟩ := ih.1 hxy
        exact ⟨by simp, by simp [hx, Ne.symm h]⟩
      · rintro ⟨h₁, h₂⟩
        cases a with
        | nil => simp at h₁; exact absurd h₁.1 h
        | cons x xs =>
          simp only [List.cons_append, List.cons.injEq, List.mem_cons, not_or] at h₁ h₂
          exact ⟨xs, b, ih.2 ⟨h₁.2, h₂.2⟩, by rw [h₁.1], rfl⟩

/-- A text without the separator cannot be cut. -/
theorem cutChars?_eq_none_iff {sep : Char} {cs : List Char} :
    cutChars? sep cs = none ↔ sep ∉ cs := by
  induction cs with
  | nil => simp [cutChars?]
  | cons c cs ih =>
    unfold cutChars?
    by_cases h : c = sep
    · simp [h]
    · simp [h, ih, Ne.symm h]

end YangSchema.Text
