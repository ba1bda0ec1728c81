import YangSchema.Proofs.Addresses
import YangSchema.Proofs.CanonicalText
import YangSchema.Proofs.Declared
import YangSchema.Proofs.Digits
import YangSchema.Session
import YangSchema.Statement.Json

/-!
# Serialized statements

The text of a statement tree is read back as this tree, although what is absent leaves nothing in
the text. A record is read by looking up each of its fields (`Json.record?_ofFields`), so that a
field which has been left out is told from one with an empty value, and the reader puts back what an
absent field stands for. Only two things are ever in the way: a line or column that is no word of 32
bits, and objects and arrays that are nested deeper than a reader goes. For a statement this takes
an object and an array on each level, which is what the reader counts down
(`Statement.nesting_toJson_le`).

What has been read may come with another label than the original source. A label shows nowhere but
in two errors about headers, so sources with the same statements are declared alike
(`Session.declare_of_roots`).
-/

namespace YangSchema

namespace Json

/-! ## Reading what was written -/

/-- The fields of a record are looked up by their names. -/
theorem field?_eq_value? {fields : List (String × Json)} (hnames : (fields.map Prod.fst).Nodup)
    (name : String) : field? fields name = some (value? fields name) := by
  induction fields with
  | nil => rfl
  | cons f fields ih =>
    obtain ⟨hnot, hnames⟩ := List.nodup_cons.1 hnames
    specialize ih hnames
    unfold field? at ih ⊢
    rw [List.filter_cons, value?_cons]
    by_cases hname : name = f.1
    · -- the name does not come again
      have hrest : fields.filter (·.1 == name) = [] := by
        rw [List.filter_eq_nil_iff]
        intro g hg hgname
        exact hnot (List.mem_map.2 ⟨g, hg, by rw [beq_iff_eq.1 hgname, hname]⟩)
      rw [hrest, hname]
      simp
    · have hother : (f.1 == name) = false := beq_false_of_ne (Ne.symm hname)
      have hother' : (name == f.1) = false := beq_false_of_ne hname
      rw [hother, hother']
      exact ih

/-- Reading a record finds every field, and nothing for those that have been left out. -/
theorem record?_ofFields {fields : List (String × Json)} (hnames : (fields.map Prod.fst).Nodup)
    (names : List String) :
    record? names (ofFields fields) = some (names.map (value? fields)) := by
  have hkeys : ((fields.map fun f => (escape f.1.toList, f.2)).mapM fun f =>
      (unescape? f.1).map fun key => (String.ofList key, f.2)) = some fields := by
    clear hnames
    induction fields with
    | nil => rfl
    | cons f fields ih =>
      rw [List.map_cons, List.mapM_cons, ih, unescape?_escape, Option.map_some,
        String.ofList_toList]
      rfl
  have hvalues : names.mapM (field? fields) = some (names.map (value? fields)) := by
    induction names with
    | nil => rfl
    | cons name names ih =>
      rw [List.mapM_cons, field?_eq_value? hnames, ih]
      rfl
  show Option.bind _ _ = _
  rw [hkeys, Option.bind_some, hvalues]

@[simp] theorem text?_ofText (s : String) : (ofText s).text? = some s := by
  show (unescape? (escape s.toList)).map String.ofList = _
  rw [unescape?_escape, Option.map_some, String.ofList_toList]

/-- An absent text is read back from a missing field. -/
@[simp] theorem optionalText?_getD (s : Option String) :
    ((s.map ofText).getD .null).optionalText? = some s := by
  cases s with
  | none => rfl
  | some s =>
    show (ofText s).text?.map some = _
    rw [text?_ofText, Option.map_some]

@[simp] theorem natUpTo?_ofNat (most n : Nat) :
    (ofNat n).natUpTo? most = if n ≤ most then some n else none := by
  show (Text.natOfDigits? (toString n).toList).filter (· ≤ most) = _
  rw [Nat.toString_eq_repr, Nat.toList_repr, Text.natOfDigits?_toDigits, Option.filter_some]
  simp only [decide_eq_true_iff]

/-- Items are read one by one, each from what was written for it. -/
theorem mapM_map_eq_some {α : Type} {toJson : α → Json} {read : Json → Option α} {Fits : α → Prop}
    {as bs : List α} (heach : ∀ a ∈ as, ∀ b, read (toJson a) = some b ↔ b = a ∧ Fits a) :
    (as.map toJson).mapM read = some bs ↔ bs = as ∧ ∀ a ∈ as, Fits a := by
  induction as generalizing bs with
  | nil =>
    show some [] = some bs ↔ _
    simp [eq_comm]
  | cons a as ih =>
    obtain ⟨ha, has⟩ := List.forall_mem_cons.1 heach
    rw [List.map_cons, List.mapM_cons, List.forall_mem_cons]
    constructor
    · intro h
      obtain ⟨b, hb, hrest⟩ := Option.bind_eq_some_iff.1 h
      obtain ⟨rest, hread, hbs⟩ := Option.bind_eq_some_iff.1 hrest
      obtain ⟨rfl, hfits⟩ := (ha b).1 hb
      obtain ⟨rfl, hall⟩ := (ih has).1 hread
      exact ⟨(Option.some.inj hbs).symm, hfits, hall⟩
    · rintro ⟨rfl, hfits, hall⟩
      rw [(ha a).2 ⟨rfl, hfits⟩, (ih has).2 ⟨rfl, hall⟩]
      rfl

/-! ## How deep a value is nested -/

mutual

/-- How many objects and arrays open inside each other. -/
def nesting : Json → Nat
  | .array items => nestingItems items + 1
  | .object fields => nestingFields fields + 1
  | _ => 0

/-- The greatest nesting of a list of values. -/
def nestingItems : List Json → Nat
  | [] => 0
  | j :: js => max j.nesting (nestingItems js)

/-- The nesting of the value of a field. -/
def nestingField : List Char × Json → Nat
  | (_, j) => j.nesting

/-- The greatest nesting of the values of fields. -/
def nestingFields : List (List Char × Json) → Nat
  | [] => 0
  | f :: fs => max (nestingField f) (nestingFields fs)

end

theorem nestingItems_le {js : List Json} {n : Nat} :
    nestingItems js ≤ n ↔ ∀ j ∈ js, j.nesting ≤ n := by
  induction js with
  | nil => simp [nestingItems]
  | cons j js ih => rw [nestingItems, Nat.max_le, ih, List.forall_mem_cons]

theorem nesting_ofFields_le {fields : List (String × Json)} {n : Nat} :
    (ofFields fields).nesting ≤ n + 1 ↔ ∀ f ∈ fields, f.2.nesting ≤ n := by
  show nestingFields _ + 1 ≤ n + 1 ↔ _
  rw [Nat.add_le_add_iff_right]
  induction fields with
  | nil => simp [nestingFields]
  | cons f fields ih =>
    rw [List.map_cons, nestingFields, Nat.max_le, ih, List.forall_mem_cons]
    rfl

theorem nesting_optionalField (name : String) (s : Option String) :
    ∀ f ∈ optionalField name (s.map ofText), f.2.nesting = 0 := by
  cases s with
  | none => exact fun _ hf => absurd hf List.not_mem_nil
  | some s => exact List.forall_mem_singleton.2 rfl

/-- An array takes a level, but none if it is left out. -/
theorem nesting_arrayField_le {name : String} {items : List Json} {n : Nat} :
    (∀ f ∈ arrayField name items, f.2.nesting ≤ n + 1) ↔ ∀ j ∈ items, j.nesting ≤ n := by
  cases items with
  | nil => simp [arrayField]
  | cons j js =>
    show (∀ f ∈ [(name, Json.array (j :: js))], f.2.nesting ≤ n + 1) ↔ _
    rw [List.forall_mem_singleton, ← nestingItems_le]
    exact Nat.add_le_add_iff_right

/-! ## What is written -/

/-- Whether an object has a field of a name. -/
def hasField (name : String) : Json → Bool
  | .object fields => fields.any fun f => unescape? f.1 == some name.toList
  | _ => false

theorem hasField_ofFields (name : String) (fields : List (String × Json)) :
    (ofFields fields).hasField name = (value? fields name).isSome := by
  show (fields.map _).any _ = _
  induction fields with
  | nil => rfl
  | cons f fields ih =>
    rw [List.map_cons, List.any_cons, ih, value?_cons, unescape?_escape]
    by_cases hname : name = f.1
    · simp [hname]
    · have hother : f.1.toList ≠ name.toList := fun h => hname (String.toList_injective h).symm
      simp [hname, hother]

end Json

open Json (Made MadeFields)

/-! ## Locations and keywords -/

/-- Lines and columns are written as words of 32 bits. -/
def Location.IsPositioned (l : Location) : Prop :=
  l.line ≤ Text.wordMax 32 ∧ l.column ≤ Text.wordMax 32

instance (l : Location) : Decidable l.IsPositioned := inferInstanceAs (Decidable (_ ∧ _))

theorem Location.ofJson?_toJson (l l' : Location) :
    ofJson? l.toJson = some l' ↔ l' = l ∧ l.IsPositioned := by
  have hnames : ([("origin", Json.ofText l.origin), ("line", Json.ofNat l.line),
      ("column", Json.ofNat l.column)].map Prod.fst).Nodup := by
    show ["origin", "line", "column"].Nodup
    decide
  unfold ofJson? toJson IsPositioned
  rw [Json.record?_ofFields hnames]
  by_cases hline : l.line ≤ Text.wordMax 32
  · by_cases hcolumn : l.column ≤ Text.wordMax 32
    · simp [hline, hcolumn, eq_comm (a := l)]
    · simp [hline, hcolumn]
  · simp [hline]

theorem Location.made_toJson (l : Location) : Made l.toJson :=
  .record (.cons (.text _) (.cons (.nat _) (.cons (.nat _) .nil)))

theorem Location.nesting_toJson (l : Location) : l.toJson.nesting = 1 := rfl

theorem Keyword.ofJson?_toJson (k : Keyword) : ofJson? k.toJson = some k := by
  have hnames : ((Json.optionalField "prefix" (k.qualifier.map Json.ofText)
      ++ [("identifier", Json.ofText k.identifier)]).map Prod.fst).Nodup := by
    cases k.qualifier with
    | none => exact List.nodup_singleton _
    | some qualifier =>
      show ["prefix", "identifier"].Nodup
      decide
  unfold ofJson? toJson
  rw [Json.record?_ofFields hnames]
  simp

theorem Keyword.nesting_toJson (k : Keyword) : k.toJson.nesting = 1 := by
  unfold toJson
  cases k.qualifier <;> rfl

/-! ## Statements -/

namespace Statement

variable {s : Statement} {depth : Nat}

/-- Every line and column of a statement and of those inside it is a word of 32 bits. -/
def IsPositioned (s : Statement) : Prop := s.All fun head => head.location.IsPositioned

instance (s : Statement) : Decidable (IsPositioned s) :=
  inferInstanceAs (Decidable (∀ head ∈ s.preorder, _))

theorem isPositioned_iff : IsPositioned s
    ↔ s.label.location.IsPositioned ∧ ∀ c ∈ s.children, IsPositioned c := Tree.all_iff

theorem listToJson_eq (ss : List Statement) : listToJson ss = ss.map toJson := by
  induction ss with
  | nil => rfl
  | cons s ss ih => rw [listToJson, ih, List.map_cons]

/-- The fields of a serialized statement. -/
def fields (s : Statement) : List (String × Json) :=
  [("keyword", s.label.keyword.toJson)]
    ++ Json.optionalField "argument" (s.label.argument.map Json.ofText)
    ++ Json.arrayField "children" (s.children.map toJson)
    ++ [("location", s.label.location.toJson)]

theorem toJson_eq (s : Statement) : s.toJson = .ofFields (fields s) := by
  obtain ⟨head, children⟩ := s
  rw [toJson, listToJson_eq]
  rfl

theorem nodup_names (s : Statement) : ((fields s).map Prod.fst).Nodup := by
  obtain ⟨⟨keyword, argument, location⟩, children⟩ := s
  cases argument with
  | none =>
    cases children with
    | nil =>
      show ["keyword", "location"].Nodup
      decide
    | cons c cs =>
      show ["keyword", "children", "location"].Nodup
      decide
  | some a =>
    cases children with
    | nil =>
      show ["keyword", "argument", "location"].Nodup
      decide
    | cons c cs =>
      show ["keyword", "argument", "children", "location"].Nodup
      decide

theorem childItems?_nonempty? (items : List Json) :
    childItems? (Json.nonempty? items) = some items := by
  cases items <;> rfl

/-- Only the substatements and the location of what was written can be out of reach. -/
theorem ofJson?_toJson_succ (s : Statement) (depth : Nat) : ofJson? (depth + 2) s.toJson
    = ((s.children.map toJson).mapM (ofJson? depth)).bind fun children =>
        (Location.ofJson? s.label.location.toJson).bind fun location =>
          some ⟨⟨s.label.keyword, s.label.argument, location⟩, children⟩ := by
  rw [ofJson?, toJson_eq, Json.record?_ofFields (nodup_names s)]
  simp [fields, Keyword.ofJson?_toJson, childItems?_nonempty?]

/-- Each level of a statement takes an object, and an array or the object of a keyword. -/
theorem nesting_toJson_le : (toJson s).nesting ≤ depth + 2
    ↔ ∀ c ∈ s.children, (toJson c).nesting ≤ depth := by
  have hargument : ∀ f ∈ Json.optionalField "argument" (s.label.argument.map Json.ofText),
      f.2.nesting ≤ depth + 1 := by
    intro f hf
    rw [Json.nesting_optionalField _ _ f hf]
    omega
  rw [toJson_eq, Json.nesting_ofFields_le]
  unfold fields
  simp only [List.forall_mem_append, List.forall_mem_singleton, Json.nesting_arrayField_le,
    List.forall_mem_map, Keyword.nesting_toJson, Location.nesting_toJson]
  constructor
  · rintro ⟨⟨-, hchildren⟩, -⟩
    exact hchildren
  · intro hchildren
    exact ⟨⟨⟨by omega, hargument⟩, hchildren⟩, by omega⟩

theorem two_le_nesting_toJson (s : Statement) : 2 ≤ (toJson s).nesting := by
  by_contra hlow
  have hflat : (toJson s).nesting ≤ 0 + 1 := by omega
  rw [toJson_eq, Json.nesting_ofFields_le] at hflat
  have hkeyword := hflat ("keyword", s.label.keyword.toJson) (by simp [fields])
  rw [Keyword.nesting_toJson] at hkeyword
  omega

/-- A statement is read from what was written for it, if this does not nest too deep. -/
theorem ofJson?_toJson (s s' : Statement) (depth : Nat) : ofJson? depth (toJson s) = some s'
    ↔ s' = s ∧ IsPositioned s ∧ (toJson s).nesting ≤ depth := by
  induction s using Tree.induct generalizing s' depth with
  | step s ih =>
    obtain ⟨⟨keyword, argument, location⟩, children⟩ := s
    have hlevel := two_le_nesting_toJson ⟨⟨keyword, argument, location⟩, children⟩
    match depth with
    | 0 => simp only [ofJson?, reduceCtorEq, false_iff]; omega
    | 1 => simp only [ofJson?, reduceCtorEq, false_iff]; omega
    | depth + 2 =>
      have hchildren (cs : List Statement) : (children.map toJson).mapM (ofJson? depth) = some cs
          ↔ cs = children ∧ ∀ c ∈ children, IsPositioned c ∧ (toJson c).nesting ≤ depth :=
        Json.mapM_map_eq_some fun c hc c' => ih c hc c' depth
      rw [nesting_toJson_le, isPositioned_iff, ofJson?_toJson_succ, Option.bind_eq_some_iff]
      simp only [Option.bind_eq_some_iff, hchildren, Location.ofJson?_toJson]
      constructor
      · rintro ⟨_, ⟨rfl, hfits⟩, _, ⟨rfl, hlocation⟩, hs'⟩
        refine ⟨(Option.some.inj hs').symm, ⟨hlocation, fun c hc => (hfits c hc).1⟩, ?_⟩
        exact fun c hc => (hfits c hc).2
      · rintro ⟨rfl, ⟨hlocation, hpositioned⟩, hnested⟩
        exact ⟨_, ⟨rfl, fun c hc => ⟨hpositioned c hc, hnested c hc⟩⟩, _, ⟨rfl, hlocation⟩, rfl⟩

theorem made_toJson (s : Statement) : Made (toJson s) := by
  induction s using Tree.induct with
  | step s ih =>
    have hchildren : Made (.array (s.children.map toJson)) := .array _ (List.forall_mem_map.2 ih)
    rw [toJson_eq]
    exact .record (.append (.append (.append (.cons (Keyword.made_toJson _) .nil)
      (.optional .text _ _)) (.array _ hchildren)) (.cons (Location.made_toJson _) .nil))

/-- **A statement is read back from its text** exactly if all its positions are words and the text
nests no deeper than the reader goes, and nothing else is ever read from this text. -/
theorem ofJsonText?_render (s s' : Statement) : ofJsonText? (toJson s).render = some s'
    ↔ s' = s ∧ IsPositioned s ∧ (toJson s).nesting ≤ nestingLimit := by
  unfold ofJsonText?
  rw [Json.parse?_render (made_toJson s), Option.bind_some, ofJson?_toJson]

/-! ### What is left out -/

/-- What the text of a statement has a field for: a prefix, an argument and substatements only if
there are any. -/
structure LeavesOut (s : Statement) : Prop where
  qualifier : (keyword s).toJson.hasField "prefix" = (keyword s).qualifier.isSome
  argument : (toJson s).hasField "argument" = (argument s).isSome
  children : (toJson s).hasField "children" = !s.children.isEmpty

theorem leavesOut (s : Statement) : LeavesOut s := by
  refine ⟨?_, ?_, ?_⟩
  · show (Json.ofFields _).hasField _ = _
    simp [Json.hasField_ofFields]
  · rw [toJson_eq, Json.hasField_ofFields]
    simp [fields, argument]
  · rw [toJson_eq, Json.hasField_ofFields]
    cases hchildren : s.children <;> simp [fields, hchildren, Json.nonempty?]

end Statement

/-! ## Identifiers -/

/-- An identifier is read back from its text, with its revision or without one. -/
theorem SourceId.ofJsonText?_render (id : SourceId) : ofJsonText? id.toJson.render = some id := by
  obtain ⟨name, revision⟩ := id
  have hnames : ([("name", Json.ofText name)] ++ Json.optionalField "revision"
      (revision.map fun r => Json.ofText r.text)).map Prod.fst |>.Nodup := by
    cases revision with
    | none => exact List.nodup_singleton _
    | some r =>
      show ["name", "revision"].Nodup
      decide
  have hrevision : revisionOfJson? ((revision.map fun r => Json.ofText r.text).getD .null)
      = some revision := by
    cases revision with
    | none => rfl
    | some r =>
      have htext := Json.optionalText?_getD (some r.text)
      rw [Option.map_some] at htext
      unfold revisionOfJson?
      rw [Option.map_some, htext]
      dsimp only
      rw [Revision.ofString?_text, Option.map_some]
  unfold ofJsonText?
  rw [Json.parse?_render (made_toJson _), Option.bind_some]
  unfold ofJson? toJson
  rw [Json.record?_ofFields hnames]
  simp [hrevision]

/-! ## Registering what has been read -/

/-- A header does not tell how its source is labelled. -/
theorem Header.ofSource_relabel {origin origin' : String} {root : Statement} {h : Header}
    (hread : ofSource ⟨origin, root⟩ = .ok h) : ofSource ⟨origin', root⟩ = .ok h := by
  unfold ofSource at hread ⊢
  dsimp only at hread ⊢
  -- a label shows only where the root has another keyword, or no argument
  cases hargument : Statement.argument root with
  | none =>
    simp only [hargument] at hread
    split at hread
    · cases hread
    · split at hread
      · cases hread
      · cases hread
  | some name =>
    simp only [hargument] at hread ⊢
    split at hread
    · rename_i hmodule
      rw [if_pos hmodule]
      exact hread
    · rename_i hmodule
      rw [if_neg hmodule]
      split at hread
      · rename_i hsubmodule
        rw [if_pos hsubmodule]
        exact hread
      · cases hread

namespace DeclaredModel

variable {sources copies : List Source}

/-- The labels of sources do not count where their headers are read. -/
theorem readHeaders_of_roots {pairs : List (Header × Statement)}
    (h : copies.map (·.root) = sources.map (·.root)) (hread : readHeaders sources = .ok pairs) :
    readHeaders copies = .ok pairs := by
  obtain ⟨read, hread, hsort⟩ := readHeaders_eq_ok.1 hread
  refine readHeaders_eq_ok.2 ⟨read, ?_, hsort⟩
  have hroots : List.Forall₂ (fun copy source : Source => copy.root = source.root) copies
      sources := by
    rw [← List.forall₂_eq_eq_eq, List.forall₂_map_left_iff, List.forall₂_map_right_iff] at h
    exact h
  refine forall₂_trans hroots hread fun copy source p hroot hp => ⟨?_, hp.2.trans hroot.symm⟩
  obtain ⟨origin, root⟩ := source
  obtain ⟨origin', root'⟩ := copy
  cases hroot
  exact Header.ofSource_relabel hp.1

theorem ofSources_of_roots {order : Bool} {model : DeclaredModel}
    (h : copies.map (·.root) = sources.map (·.root))
    (hmodel : ofSources order sources = .ok model) : ofSources order copies = .ok model := by
  obtain ⟨pairs, linkage, hpairs, hrest⟩ := ofSources_eq_ok.1 hmodel
  exact ofSources_eq_ok.2 ⟨pairs, linkage, readHeaders_of_roots h hpairs, hrest⟩

end DeclaredModel

namespace Session

variable {settings : BuildSettings} {sources copies : List Source}

/-- Sources with the same statements are declared alike, whatever their labels are. -/
theorem declare_of_roots (h : copies.map (·.root) = sources.map (·.root)) (model : DeclaredModel) :
    declare ⟨settings, copies⟩ = .ok model ↔ declare ⟨settings, sources⟩ = .ok model :=
  ⟨DeclaredModel.ofSources_of_roots h.symm, DeclaredModel.ofSources_of_roots h⟩

theorem build_of_roots (h : copies.map (·.root) = sources.map (·.root)) (schema : Schema) :
    build ⟨settings, copies⟩ = .ok schema ↔ build ⟨settings, sources⟩ = .ok schema := by
  unfold build
  rw [Result.bind_eq_ok, Result.bind_eq_ok]
  exact exists_congr fun model => and_congr_left' (declare_of_roots h model)

/-- A copy of a source, under some label, that has been read from the text of its statements. -/
def IsReadBack (source copy : Source) : Prop :=
  Statement.ofJsonText? (Statement.toJson source.root).render = some copy.root

theorem roots_of_isReadBack (h : List.Forall₂ IsReadBack sources copies) :
    copies.map (·.root) = sources.map (·.root) := by
  induction h with
  | nil => rfl
  | cons hread _ ih =>
    rw [List.map_cons, List.map_cons, ih, ((Statement.ofJsonText?_render _ _).1 hread).1]

/-- **Statements survive their serialized form.** What is read from the text of a statement is this
statement, and it is read exactly if all positions in it are words and the text nests no deeper than
the reader goes, although the text leaves out every prefix and argument that is absent and every
empty list of substatements. Every identifier is read back from its text. Hence copies of sources
that have been read from their texts, under whatever labels, are declared and built like the
sources. -/
theorem serialized_statements_survive :
    (∀ s s' : Statement, Statement.ofJsonText? (Statement.toJson s).render = some s'
        ↔ s' = s ∧ Statement.IsPositioned s
          ∧ (Statement.toJson s).nesting ≤ Statement.nestingLimit)
      ∧ (∀ s : Statement, Statement.LeavesOut s)
      ∧ (∀ id : SourceId, SourceId.ofJsonText? id.toJson.render = some id)
      ∧ ∀ (settings : BuildSettings) (sources copies : List Source),
        List.Forall₂ IsReadBack sources copies →
          (∀ model, declare ⟨settings, copies⟩ = .ok model
              ↔ declare ⟨settings, sources⟩ = .ok model)
            ∧ ∀ schema, build ⟨settings, copies⟩ = .ok schema
              ↔ build ⟨settings, sources⟩ = .ok schema := by
  refine ⟨Statement.ofJsonText?_render, Statement.leavesOut, SourceId.ofJsonText?_render, ?_⟩
  intro settings sources copies hread
  have hroots := roots_of_isReadBack hread
  exact ⟨declare_of_roots hroots, build_of_roots hroots⟩

/-- A statement with a prefix and no argument, which holds one with an empty argument and one whose
argument has to be escaped. -/
def remarks : Statement :=
  ⟨⟨⟨some "x", "remarks"⟩, none, ⟨"a.yang", 7, 4294967295⟩⟩,
    [Statement.bare "description" "" [], Statement.bare "description" "\"\\\u0001\n\u00e9\"" []]⟩

/-- They are read back, and a module and one that augments it are built from their copies. -/
theorem serialized_statements_survive_augment :
    let sources := DeclaredModel.augmentedModule
    let copies := sources.map fun s : Source => (⟨"copy", s.root⟩ : Source)
    Statement.ofJsonText? (Statement.toJson remarks).render = some remarks
      ∧ List.Forall₂ IsReadBack sources copies
      ∧ ∃ schema, build ⟨{}, sources⟩ = .ok schema ∧ build ⟨{}, copies⟩ = .ok schema := by
  have hread : ∀ s : Statement, Statement.IsPositioned s
      ∧ (Statement.toJson s).nesting ≤ Statement.nestingLimit →
      Statement.ofJsonText? (Statement.toJson s).render = some s :=
    fun s hs => (serialized_statements_survive.1 s s).2 ⟨rfl, hs⟩
  have hcopies : List.Forall₂ IsReadBack DeclaredModel.augmentedModule
      (DeclaredModel.augmentedModule.map fun s : Source => (⟨"copy", s.root⟩ : Source)) :=
    .cons (hread _ (by decide +kernel)) (.cons (hread _ (by decide +kernel)) .nil)
  have hbuilds : (build ⟨{}, DeclaredModel.augmentedModule⟩).toBool = true := by
    have hbuild : build ⟨{}, DeclaredModel.augmentedModule⟩
        = Schema.ofModel DeclaredModel.augmentedModel :=
      Result.bind_eq_of_ok DeclaredModel.ofSources_augmentedModule
    rw [hbuild]
    decide +kernel
  have hbuilt := (serialized_statements_survive.2.2.2 {} _ _ hcopies).2
  refine ⟨hread remarks (by decide +kernel), hcopies, ?_⟩
  cases hschema : build ⟨{}, DeclaredModel.augmentedModule⟩ with
  | ok schema => exact ⟨schema, rfl, (hbuilt schema).2 hschema⟩
  | error e =>
    rw [hschema] at hbuilds
    cases hbuilds

end Session

end YangSchema
