import YangSchema.Text.Split

/-!
# Keywords

A keyword is an identifier with an optional prefix, written `prefix:identifier`. The first colon
separates the two.
-/

namespace YangSchema

/-- A statement keyword such as `container` or `ext:annotation`. -/
structure Keyword where
  qualifier : Option String
  identifier : String
  deriving Repr, DecidableEq, Inhabited

namespace Keyword

/-- Reads a keyword; every text is one. -/
def ofString (text : String) : Keyword :=
  match Text.splitOnce? ':' text with
  | some (p, i) => ⟨some p, i⟩
  | none => ⟨none, text⟩

/-- The written form. -/
def text (k : Keyword) : String :=
  match k.qualifier with
  | some p => p ++ ":" ++ k.identifier
  | none => k.identifier

instance : ToString Keyword := ⟨text⟩

/-- Writing undoes reading. -/
theorem text_ofString (s : String) : (ofString s).text = s := by
  unfold ofString
  cases h : Text.splitOnce? ':' s with
  | none => rfl
  | some p =>
    obtain ⟨a, b⟩ := p
    obtain ⟨⟨x, y⟩, hxy, hab⟩ := Option.map_eq_some_iff.1 h
    obtain ⟨rfl, rfl⟩ := Prod.mk.inj hab
    obtain ⟨hs, _⟩ := Text.cutChars?_eq_some_iff.1 hxy
    apply String.toList_injective
    simp [text, hs, String.toList_append]

end Keyword

end YangSchema
