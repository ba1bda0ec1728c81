import Mathlib.Data.List.Forall2
import YangSchema.Proofs.JsonText
import YangSchema.Proofs.Splitting
import YangSchema.Schema.Json

/-!
# What the canonical text tells

The canonical text shows of every module its identifier, namespace, prefix, version, submodules,
imports and nodes, and of every node everything but its parent and where it was written. Fields that
are absent or empty are left out, and a value may be told from another one by nothing but the names
of the fields that are there. Still no two values are written alike: each field is found again by
its name, whatever has been left out (`Json.value?_optionalField`). So two schemas have the same
canonical text exactly if their modules agree in all that it shows
(`Schema.canonical_text_determines`), and a common fingerprint of others is a collision of digests.
-/

namespace YangSchema

namespace Json

/-! ## Fields -/

theorem ofText_injective : Function.Injective ofText := by
  intro s t h
  exact String.toList_injective (escape_injective (Json.string.inj h))

theorem ofInt_injective : Function.Injective ofInt := by
  intro m n h
  have hwritten := String.toList_injective (Json.number.inj h)
  rwa [Int.toString_eq_repr, Int.toString_eq_repr, Int.repr_inj] at hwritten

theorem ofNat_injective : Function.Injective ofNat := by
  intro m n h
  exact Int.ofNat.inj (ofInt_injective h)

theorem bool_injective : Function.Injective Json.bool := fun _ _ h => Json.bool.inj h

/-- What a record has under a name. -/
def value? (fields : List (String × Json)) (name : String) : Option Json := fields.lookup name

/-- Where records are alike, so is every field. -/
theorem value?_of_ofFields {fs gs : List (String × Json)} (h : ofFields fs = ofFields gs)
    (name : String) : value? fs name = value? gs name := by
  have hfields : fs = gs := by
    apply List.map_injective_iff.2 _ (Json.object.inj h)
    rintro ⟨name, j⟩ ⟨name', j'⟩ hfield
    obtain ⟨hname, hvalue⟩ := Prod.mk.inj hfield
    exact Prod.ext (String.toList_injective (escape_injective hname)) hvalue
  rw [hfields]

/-- The array of some items, unless there are none. -/
def nonempty? (items : List Json) : Option Json :=
  if items.isEmpty then none else some (.array items)

theorem nonempty?_injective : Function.Injective nonempty? := by
  intro items items' h
  cases items with
  | nil =>
    cases items' with
    | nil => rfl
    | cons j js => cases h
  | cons j js =>
    cases items' with
    | nil => cases h
    | cons j' js' => exact Json.array.inj (Option.some.inj h)

@[simp] theorem value?_append (fs gs : List (String × Json)) (name : String) :
    value? (fs ++ gs) name = (value? fs name).or (value? gs name) := List.lookup_append

@[simp] theorem value?_cons (f : String × Json) (fs : List (String × Json)) (name : String) :
    value? (f :: fs) name = if name == f.1 then some f.2 else value? fs name := by
  unfold value?
  rw [List.lookup_cons]
  cases name == f.1 <;> rfl

@[simp] theorem value?_nil (name : String) : value? [] name = none := rfl

/-- A field that may be left out is found by its name, and no other is. -/
@[simp] theorem value?_optionalField (name key : String) (value : Option Json) :
    value? (optionalField key value) name = if name == key then value else none := by
  cases value with
  | none => simp [optionalField]
  | some j => simp [optionalField]

@[simp] theorem value?_arrayField (name key : String) (items : List Json) :
    value? (arrayField key items) name = if name == key then nonempty? items else none := by
  unfold arrayField nonempty?
  cases items <;> simp

theorem optional_inj {α : Type} {toJson : α → Json} (h : Function.Injective toJson)
    {a b : Option α} : a.map toJson = b.map toJson ↔ a = b := (Option.map_injective h).eq_iff

theorem nonempty_inj {α : Type} {toJson : α → Json} (h : Function.Injective toJson)
    {as bs : List α} : nonempty? (as.map toJson) = nonempty? (bs.map toJson) ↔ as = bs := by
  rw [nonempty?_injective.eq_iff, (List.map_injective_iff.2 h).eq_iff]

/-! ## What the values are made of -/

/-- The fields of a record whose values are made of texts, integers and truth values. -/
def MadeFields (fields : List (String × Json)) : Prop := ∀ f ∈ fields, Made f.2

theorem MadeFields.nil : MadeFields [] := fun _ h => absurd h List.not_mem_nil

theorem MadeFields.cons {name : String} {j : Json} {fields : List (String × Json)} (hj : Made j)
    (h : MadeFields fields) : MadeFields ((name, j) :: fields) :=
  List.forall_mem_cons.2 ⟨hj, h⟩

theorem madeFields_append_iff {fields fields' : List (String × Json)} :
    MadeFields (fields ++ fields') ↔ MadeFields fields ∧ MadeFields fields' :=
  List.forall_mem_append

theorem MadeFields.append {fields fields' : List (String × Json)} (h : MadeFields fields)
    (h' : MadeFields fields') : MadeFields (fields ++ fields') := madeFields_append_iff.2 ⟨h, h'⟩

theorem MadeFields.optional {α : Type} {toJson : α → Json} (made : ∀ a, Made (toJson a))
    (name : String) (value : Option α) : MadeFields (optionalField name (value.map toJson)) := by
  cases value with
  | none => exact .nil
  | some a => exact .cons (made a) .nil

theorem Made.map {α : Type} {toJson : α → Json} (made : ∀ a, Made (toJson a)) (as : List α) :
    Made (.array (as.map toJson)) := by
  apply Made.array
  intro j hj
  obtain ⟨a, _, rfl⟩ := List.mem_map.1 hj
  exact made a

theorem MadeFields.array {items : List Json} (name : String) (made : Made (.array items)) :
    MadeFields (arrayField name items) := by
  unfold arrayField
  split
  · exact .nil
  · exact .cons made .nil

theorem Made.record {fields : List (String × Json)} (h : MadeFields fields) :
    Made (ofFields fields) := Made.fields fields h

end Json

open Json (Made MadeFields value?_of_ofFields optional_inj nonempty_inj)

/-! ## Records -/

theorem Revision.json_injective : Function.Injective fun r : Revision => Json.ofText r.text :=
  Json.ofText_injective.comp Revision.text_injective

theorem SourceId.toJson_injective : Function.Injective SourceId.toJson := by
  rintro ⟨name, revision⟩ ⟨name', revision'⟩ h
  have hname : name = name' := by
    simpa [Json.ofText_injective.eq_iff] using value?_of_ofFields h "name"
  have hrevision : revision = revision' := by
    simpa [optional_inj Revision.json_injective] using value?_of_ofFields h "revision"
  rw [hname, hrevision]

theorem SourceId.made_toJson (id : SourceId) : Made id.toJson := by
  apply Made.record
  exact MadeFields.append (.cons (.text _) .nil) (.optional (fun _ => .text _) _ _)

theorem QName.toJson_injective : Function.Injective QName.toJson := by
  rintro ⟨uri, revision, localName⟩ ⟨uri', revision', localName'⟩ h
  have huri : uri = uri' := by
    simpa [Json.ofText_injective.eq_iff] using value?_of_ofFields h "namespace"
  have hrevision : revision = revision' := by
    simpa [optional_inj Revision.json_injective] using value?_of_ofFields h "revision"
  have hlocalName : localName = localName' := by
    simpa [Json.ofText_injective.eq_iff] using value?_of_ofFields h "local_name"
  rw [huri, hrevision, hlocalName]

theorem QName.made_toJson (q : QName) : Made q.toJson := by
  apply Made.record
  exact MadeFields.append (.append (.cons (.text _) .nil) (.optional (fun _ => .text _) _ _))
    (.cons (.text _) .nil)

theorem Keyword.toJson_injective : Function.Injective Keyword.toJson := by
  rintro ⟨qualifier, identifier⟩ ⟨qualifier', identifier'⟩ h
  have hqualifier : qualifier = qualifier' := by
    simpa [optional_inj Json.ofText_injective] using value?_of_ofFields h "prefix"
  have hidentifier : identifier = identifier' := by
    simpa [Json.ofText_injective.eq_iff] using value?_of_ofFields h "identifier"
  rw [hqualifier, hidentifier]

theorem Keyword.made_toJson (k : Keyword) : Made k.toJson := by
  apply Made.record
  exact MadeFields.append (.optional (fun _ => .text _) _ _) (.cons (.text _) .nil)

theorem Kind.nodup_label : (Kind.all.map Kind.label).Nodup := by decide +kernel

theorem Kind.label_injective : Function.Injective Kind.label := by
  intro k k' h
  exact List.inj_on_of_nodup_map nodup_label (mem_all k) (mem_all k') h

theorem Binding.toJson_injective : Function.Injective Binding.toJson := by
  intro b b' h
  cases b with
  | builtin kind =>
    cases b' with
    | builtin kind' =>
      have hlabel : kind.label = kind'.label := by
        simpa [Json.ofText_injective.eq_iff] using value?_of_ofFields h "Statement"
      rw [Kind.label_injective hlabel]
    | extension module' name' =>
      have hkind := value?_of_ofFields h "Statement"
      simp at hkind
    | uninterpreted => cases h
  | extension module name =>
    cases b' with
    | builtin kind' =>
      have hkind := value?_of_ofFields h "Statement"
      simp at hkind
    | extension module' name' =>
      have hcontent : Json.ofFields [("module", module.toJson), ("name", .ofText name)]
          = .ofFields [("module", module'.toJson), ("name", .ofText name')] := by
        simpa using value?_of_ofFields h "Extension"
      have hmodule : module = module' := by
        simpa [SourceId.toJson_injective.eq_iff] using value?_of_ofFields hcontent "module"
      have hname : name = name' := by
        simpa [Json.ofText_injective.eq_iff] using value?_of_ofFields hcontent "name"
      rw [hmodule, hname]
    | uninterpreted => cases h
  | uninterpreted =>
    cases b' with
    | builtin kind' => cases h
    | extension module' name' => cases h
    | uninterpreted => rfl

theorem Binding.made_toJson (b : Binding) : Made b.toJson := by
  cases b with
  | builtin kind => exact .record (.cons (.text _) .nil)
  | extension module name =>
    have hcontent : MadeFields [("module", module.toJson), ("name", .ofText name)] :=
      .cons module.made_toJson (.cons (.text _) .nil)
    exact .record (.cons (.record hcontent) .nil)
  | uninterpreted => exact .text _

theorem ConditionKind.text_injective : Function.Injective ConditionKind.text := by
  intro k k' h
  cases k <;> cases k' <;> first | rfl | exact absurd h (by decide)

theorem Condition.toJson_injective : Function.Injective Condition.toJson := by
  rintro ⟨kind, expression, origin⟩ ⟨kind', expression', origin'⟩ h
  have hkind : kind.text = kind'.text := by
    simpa [Json.ofText_injective.eq_iff] using value?_of_ofFields h "kind"
  have hexpression : expression = expression' := by
    simpa [Json.ofText_injective.eq_iff] using value?_of_ofFields h "expression"
  have horigin : origin = origin' := by
    simpa [SourceId.toJson_injective.eq_iff] using value?_of_ofFields h "origin"
  rw [ConditionKind.text_injective hkind, hexpression, horigin]

theorem Condition.made_toJson (c : Condition) : Made c.toJson :=
  .record (.cons (.text _) (.cons (.text _) (.cons c.origin.made_toJson .nil)))

theorem Version.text_injective : Function.Injective Version.text := by
  intro v v' h
  cases v <;> cases v' <;> first | rfl | exact absurd h (by decide)

/-! ## Types -/

theorem Interval.toJson_injective : Function.Injective Interval.toJson := by
  rintro ⟨min, max⟩ ⟨min', max'⟩ h
  have hmin : min = min' := by
    simpa [Json.ofInt_injective.eq_iff] using value?_of_ofFields h "min"
  have hmax : max = max' := by
    simpa [Json.ofInt_injective.eq_iff] using value?_of_ofFields h "max"
  rw [hmin, hmax]

theorem Interval.made_toJson (i : Interval) : Made i.toJson :=
  .record (.cons (.int _) (.cons (.int _) .nil))

theorem PatternRestriction.toJson_injective : Function.Injective PatternRestriction.toJson := by
  rintro ⟨expression, inverted⟩ ⟨expression', inverted'⟩ h
  have hexpression : expression = expression' := by
    simpa [Json.ofText_injective.eq_iff] using value?_of_ofFields h "expression"
  have hinverted : inverted = inverted' := by
    simpa using value?_of_ofFields h "inverted"
  rw [hexpression, hinverted]

theorem PatternRestriction.made_toJson (p : PatternRestriction) : Made p.toJson :=
  .record (.cons (.text _) (.cons (.bool _) .nil))

theorem Builtin.name_injective : Function.Injective Builtin.name := by
  intro b b' h
  have hread : ofName? b.name = ofName? b'.name := by rw [h]
  rw [ofName?_name, ofName?_name] at hread
  exact Option.some.inj hread

namespace EffectiveType

@[simp] theorem value?_textsField (name key : String) (texts : List String) :
    Json.value? (textsField key texts) name
      = if name == key then Json.nonempty? (texts.map .ofText) else none :=
  Json.value?_arrayField name key _

@[simp] theorem value?_textField (name key : String) (text : Option String) :
    Json.value? (textField key text) name = if name == key then text.map .ofText else none :=
  Json.value?_optionalField name key _

mutual

theorem toJson_inj : ∀ {t t' : EffectiveType}, t.toJson = t'.toJson → t = t'
  | ⟨name, base, typedefs, ranges, lengths, digits, patterns, enums, bits, members, path, bases,
      requireInstance, units, default⟩, t', h => by
    obtain ⟨name', base', typedefs', ranges', lengths', digits', patterns', enums', bits', members',
      path', bases', requireInstance', units', default'⟩ := t'
    have hname : name = name' := by
      simpa [Json.ofText_injective.eq_iff] using value?_of_ofFields h "name"
    have hbase : base.name = base'.name := by
      simpa [Json.ofText_injective.eq_iff] using value?_of_ofFields h "base"
    have htypedefs : typedefs = typedefs' := by
      simpa [nonempty_inj Json.ofText_injective] using value?_of_ofFields h "typedefs"
    have hranges : ranges = ranges' := by
      simpa [nonempty_inj Interval.toJson_injective] using value?_of_ofFields h "ranges"
    have hlengths : lengths = lengths' := by
      simpa [nonempty_inj Interval.toJson_injective] using value?_of_ofFields h "lengths"
    have hdigits : digits = digits' := by
      simpa [optional_inj Json.ofNat_injective] using value?_of_ofFields h "fraction_digits"
    have hpatterns : patterns = patterns' := by
      simpa [nonempty_inj PatternRestriction.toJson_injective] using value?_of_ofFields h "patterns"
    have henums : enums = enums' := by
      simpa [nonempty_inj Json.ofText_injective] using value?_of_ofFields h "enums"
    have hbits : bits = bits' := by
      simpa [nonempty_inj Json.ofText_injective] using value?_of_ofFields h "bits"
    have hmembers : listToJson members = listToJson members' := by
      simpa [Json.nonempty?_injective.eq_iff] using value?_of_ofFields h "members"
    have hpath : path = path' := by
      simpa [optional_inj Json.ofText_injective] using value?_of_ofFields h "path"
    have hbases : bases = bases' := by
      simpa [nonempty_inj Json.ofText_injective] using value?_of_ofFields h "bases"
    have hrequireInstance : requireInstance = requireInstance' := by
      simpa [optional_inj Json.bool_injective] using value?_of_ofFields h "require_instance"
    have hunits : units = units' := by
      simpa [optional_inj Json.ofText_injective] using value?_of_ofFields h "units"
    have hdefault : default = default' := by
      simpa [optional_inj Json.ofText_injective] using value?_of_ofFields h "default"
    rw [hname, Builtin.name_injective hbase, htypedefs, hranges, hlengths, hdigits, hpatterns,
      henums, hbits, listToJson_inj hmembers, hpath, hbases, hrequireInstance, hunits, hdefault]

theorem listToJson_inj : ∀ {ts ts' : List EffectiveType}, listToJson ts = listToJson ts' → ts = ts'
  | [], [], _ => rfl
  | t :: ts, t' :: ts', h => by
    obtain ⟨ht, hts⟩ := List.cons.inj h
    rw [toJson_inj ht, listToJson_inj hts]

end

theorem madeFields_texts (name : String) (texts : List String) :
    MadeFields (textsField name texts) := .array name (.map .text texts)

theorem madeFields_text (name : String) (text : Option String) :
    MadeFields (textField name text) := .optional .text name text

mutual

theorem made_toJson : ∀ t : EffectiveType, Made t.toJson
  | ⟨name, base, typedefs, ranges, lengths, digits, patterns, enums, bits, members, path, bases,
      requireInstance, units, default⟩ => by
    have hstart : MadeFields [("name", .ofText name), ("base", .ofText base.name)] :=
      .cons (.text _) (.cons (.text _) .nil)
    have hmembers : MadeFields (Json.arrayField "members" (listToJson members)) :=
      .array _ (.array _ (made_listToJson members))
    have hranges := MadeFields.array "ranges" (.map Interval.made_toJson ranges)
    have hlengths := MadeFields.array "lengths" (.map Interval.made_toJson lengths)
    have hdigits := MadeFields.optional .nat "fraction_digits" digits
    have hpatterns := MadeFields.array "patterns" (.map PatternRestriction.made_toJson patterns)
    have hrequireInstance := MadeFields.optional .bool "require_instance" requireInstance
    apply Made.record
    simp only [Json.madeFields_append_iff, and_assoc]
    exact ⟨hstart, madeFields_texts _ _, hranges, hlengths, hdigits, hpatterns,
      madeFields_texts _ _, madeFields_texts _ _, hmembers, madeFields_text _ _,
      madeFields_texts _ _, hrequireInstance, madeFields_text _ _, madeFields_text _ _⟩

theorem made_listToJson : ∀ ts : List EffectiveType, ∀ j ∈ listToJson ts, Made j
  | [] => fun _ h => absurd h List.not_mem_nil
  | t :: ts => List.forall_mem_cons.2 ⟨made_toJson t, made_listToJson ts⟩

end

end EffectiveType

/-! ## Nodes and modules -/

/-- Two rows agree in all that is shown of a node. -/
structure NodeData.Agrees (row row' : Tree.Row NodeData) : Prop where
  id : row.id = row'.id
  binding : row.label.binding = row'.label.binding
  keyword : row.label.keyword = row'.label.keyword
  argument : row.label.argument = row'.label.argument
  qname : row.label.qname = row'.label.qname
  children : row.children = row'.children
  augmenting : row.label.augmenting = row'.label.augmenting
  addedByUses : row.label.addedByUses = row'.label.addedByUses
  conditions : row.label.conditions = row'.label.conditions
  type : row.label.type = row'.label.type

/-- Two modules agree in all that is shown of a module. -/
structure Module.Agrees (m m' : Module) : Prop where
  id : m.id = m'.id
  uri : m.uri = m'.uri
  ownPrefix : m.ownPrefix = m'.ownPrefix
  version : m.version = m'.version
  submodules : m.submodules = m'.submodules
  imports : m.imports = m'.imports
  nodes : List.Forall₂ NodeData.Agrees m.nodes m'.nodes

theorem NodeData.toJson_eq_iff (row row' : Tree.Row NodeData) :
    NodeData.toJson row = NodeData.toJson row' ↔ Agrees row row' := by
  constructor
  · intro h
    have types : Function.Injective EffectiveType.toJson := fun _ _ => EffectiveType.toJson_inj
    have hid : row.id = row'.id := by
      simpa [Json.ofNat_injective.eq_iff] using value?_of_ofFields h "id"
    have hbinding : row.label.binding = row'.label.binding := by
      simpa [Binding.toJson_injective.eq_iff] using value?_of_ofFields h "kind"
    have hkeyword : row.label.keyword = row'.label.keyword := by
      simpa [Keyword.toJson_injective.eq_iff] using value?_of_ofFields h "keyword"
    have hargument : row.label.argument = row'.label.argument := by
      simpa [optional_inj Json.ofText_injective] using value?_of_ofFields h "argument"
    have hqname : row.label.qname = row'.label.qname := by
      simpa [optional_inj QName.toJson_injective] using value?_of_ofFields h "qname"
    have hchildren : row.children = row'.children := by
      simpa [nonempty_inj Json.ofNat_injective] using value?_of_ofFields h "children"
    have haugmenting : row.label.augmenting = row'.label.augmenting := by
      simpa using value?_of_ofFields h "augmenting"
    have haddedByUses : row.label.addedByUses = row'.label.addedByUses := by
      simpa using value?_of_ofFields h "added_by_uses"
    have hconditions : row.label.conditions = row'.label.conditions := by
      simpa [nonempty_inj Condition.toJson_injective] using value?_of_ofFields h "conditions"
    have htype : row.label.type = row'.label.type := by
      simpa [optional_inj types] using value?_of_ofFields h "effective_type"
    exact ⟨hid, hbinding, hkeyword, hargument, hqname, hchildren, haugmenting, haddedByUses,
      hconditions, htype⟩
  · intro h
    unfold NodeData.toJson
    simp only [h.id, h.binding, h.keyword, h.argument, h.qname, h.children, h.augmenting,
      h.addedByUses, h.conditions, h.type]

theorem NodeData.made_toJson (row : Tree.Row NodeData) : Made (NodeData.toJson row) := by
  have hstart : MadeFields [("id", .ofNat row.id), ("kind", row.label.binding.toJson),
      ("keyword", row.label.keyword.toJson)] :=
    .cons (.nat _) (.cons (Binding.made_toJson _) (.cons (Keyword.made_toJson _) .nil))
  have hqname := MadeFields.optional QName.made_toJson "qname" row.label.qname
  have hchildren := MadeFields.array "children" (.map .nat row.children)
  have hmarks : MadeFields [("augmenting", .bool row.label.augmenting),
      ("added_by_uses", .bool row.label.addedByUses)] := .cons (.bool _) (.cons (.bool _) .nil)
  have hconditions :=
    MadeFields.array "conditions" (.map Condition.made_toJson row.label.conditions)
  have htype := MadeFields.optional EffectiveType.made_toJson "effective_type" row.label.type
  apply Made.record
  simp only [Json.madeFields_append_iff, and_assoc]
  exact ⟨hstart, EffectiveType.madeFields_text _ _, hqname, hchildren, hmarks, hconditions, htype⟩

/-- Lists are written alike exactly if they agree item by item. -/
theorem Json.map_eq_iff {α : Type} {toJson : α → Json} {Agrees : α → α → Prop}
    (h : ∀ a a', toJson a = toJson a' ↔ Agrees a a') {as as' : List α} :
    as.map toJson = as'.map toJson ↔ List.Forall₂ Agrees as as' := by
  rw [← List.forall₂_eq_eq_eq, List.forall₂_map_left_iff, List.forall₂_map_right_iff]
  simp only [h]

theorem Module.toJson_eq_iff (m m' : Module) : m.toJson = m'.toJson ↔ Agrees m m' := by
  constructor
  · intro h
    have ids := List.map_injective_iff.2 SourceId.toJson_injective
    have hid : m.id = m'.id := by
      simpa [SourceId.toJson_injective.eq_iff] using value?_of_ofFields h "id"
    have huri : m.uri = m'.uri := by
      simpa [Json.ofText_injective.eq_iff] using value?_of_ofFields h "namespace"
    have hownPrefix : m.ownPrefix = m'.ownPrefix := by
      simpa [Json.ofText_injective.eq_iff] using value?_of_ofFields h "prefix"
    have hversion : m.version.text = m'.version.text := by
      simpa [Json.ofText_injective.eq_iff] using value?_of_ofFields h "version"
    have hsubmodules : m.submodules = m'.submodules := by
      simpa [ids.eq_iff] using value?_of_ofFields h "submodules"
    have himports : m.imports = m'.imports := by
      simpa [ids.eq_iff] using value?_of_ofFields h "imports"
    have hnodes : List.Forall₂ NodeData.Agrees m.nodes m'.nodes := by
      simpa [Json.map_eq_iff NodeData.toJson_eq_iff] using value?_of_ofFields h "nodes"
    exact ⟨hid, huri, hownPrefix, Version.text_injective hversion, hsubmodules, himports, hnodes⟩
  · intro h
    have hnodes := (Json.map_eq_iff NodeData.toJson_eq_iff).2 h.nodes
    unfold Module.toJson
    rw [hnodes, h.id, h.uri, h.ownPrefix, h.version, h.submodules, h.imports]

theorem Module.made_toJson (m : Module) : Made m.toJson := by
  have hsubmodules := Made.map SourceId.made_toJson m.submodules
  have himports := Made.map SourceId.made_toJson m.imports
  have hnodes := Made.map NodeData.made_toJson m.nodes
  apply Made.record
  exact .cons m.id.made_toJson (.cons (.text _) (.cons (.text _) (.cons (.text _)
    (.cons hsubmodules (.cons himports (.cons hnodes .nil))))))

/-! ## Digests -/

namespace Sha256

theorem digitChar_inj : ∀ {m n : Fin 16}, Nat.digitChar m = Nat.digitChar n → m = n := by decide

theorem wordDigits_injective : Function.Injective wordDigits := by
  intro v w h
  have hdigits : ∀ i < 8,
      v.toNat / Nat.pow 16 (7 - i) % 16 = w.toNat / Nat.pow 16 (7 - i) % 16 := by
    intro i hi
    have hchars := List.map_inj_left.1 h i (List.mem_range.2 hi)
    have hdigit := @digitChar_inj ⟨_, Nat.mod_lt _ (by decide)⟩ ⟨_, Nat.mod_lt _ (by decide)⟩ hchars
    exact Fin.mk.inj hdigit
  have h0 := hdigits 0 (by decide)
  have h1 := hdigits 1 (by decide)
  have h2 := hdigits 2 (by decide)
  have h3 := hdigits 3 (by decide)
  have h4 := hdigits 4 (by decide)
  have h5 := hdigits 5 (by decide)
  have h6 := hdigits 6 (by decide)
  have h7 := hdigits 7 (by decide)
  have hv := v.toNat_lt
  have hw := w.toNat_lt
  apply UInt32.toNat.inj
  norm_num at *
  omega

theorem length_wordDigits (w : UInt32) : (wordDigits w).length = 8 := by
  rw [wordDigits, List.length_map, List.length_range]

theorem flatMap_wordDigits_inj {vs ws : List UInt32}
    (h : vs.flatMap wordDigits = ws.flatMap wordDigits) : vs = ws := by
  induction vs generalizing ws with
  | nil =>
    cases ws with
    | nil => rfl
    | cons w ws =>
      have hlength := congrArg List.length h
      simp [length_wordDigits] at hlength
      omega
  | cons v vs ih =>
    cases ws with
    | nil =>
      have hlength := congrArg List.length h
      simp [length_wordDigits] at hlength
    | cons w ws =>
      rw [List.flatMap_cons, List.flatMap_cons] at h
      have hlength : (wordDigits v).length = (wordDigits w).length := by
        rw [length_wordDigits, length_wordDigits]
      obtain ⟨hword, hwords⟩ := List.append_inj h hlength
      rw [wordDigits_injective hword, ih hwords]

theorem toList_loop (bs : ByteArray) (i : Nat) (r : List UInt8) :
    ByteArray.toList.loop bs i r = r.reverse ++ bs.data.toList.drop i := by
  fun_induction ByteArray.toList.loop bs i r with
  | case1 i r h ih =>
    have hi : i < bs.data.toList.length := h
    have hbyte : bs.get! i = bs.data.toList[i] := by
      rw [Array.getElem_toList]
      exact getElem!_pos bs.data i h
    rw [ih, List.drop_eq_getElem_cons hi, hbyte, List.reverse_cons, List.append_assoc,
      List.singleton_append]
  | case2 i r h =>
    have hi : bs.data.toList.length ≤ i := Nat.le_of_not_lt h
    rw [List.drop_eq_nil_of_le hi, List.append_nil]

/-- Different texts are written in different bytes. -/
theorem bytes_injective : Function.Injective fun text : String => text.toUTF8.toList := by
  intro s t h
  have hbytes : s.toUTF8.data.toList = t.toUTF8.data.toList := by
    have hloop : ∀ bs : ByteArray, bs.toList = bs.data.toList := fun bs => toList_loop bs 0 []
    rw [← hloop, ← hloop]
    exact h
  exact String.toByteArray_inj.1 (ByteArray.ext (Array.toList_inj.1 hbytes))

/-- Two different texts have the same digest. -/
def Collide (text text' : String) : Prop :=
  text.toUTF8.toList ≠ text'.toUTF8.toList ∧
    digest text.toUTF8.toList = digest text'.toUTF8.toList

theorem hexDigest_eq_iff {text text' : String} : hexDigest text = hexDigest text'
    ↔ digest text.toUTF8.toList = digest text'.toUTF8.toList := by
  unfold hexDigest
  constructor
  · intro h
    exact flatMap_wordDigits_inj (String.ofList_injective h)
  · intro h
    rw [h]

/-- Texts have the same digest if they are the same or collide, and only then. -/
theorem hexDigest_eq_iff_or {text text' : String} :
    hexDigest text = hexDigest text' ↔ text = text' ∨ Collide text text' := by
  rw [hexDigest_eq_iff]
  constructor
  · intro h
    by_cases htext : text = text'
    · exact .inl htext
    · exact .inr ⟨fun hbytes => htext (bytes_injective hbytes), h⟩
  · rintro (rfl | hcollide)
    · rfl
    · exact hcollide.2

end Sha256

namespace Schema

theorem canonicalText_eq_iff (s s' : Schema) : s.canonicalText = s'.canonicalText
    ↔ List.Forall₂ Module.Agrees s.modules s'.modules := by
  have hmade : ∀ ms : List Module, Made (.array (ms.map Module.toJson)) :=
    fun ms => .map Module.made_toJson ms
  unfold canonicalText
  rw [Json.render_inj (hmade _) (hmade _), Json.array.injEq, Json.map_eq_iff Module.toJson_eq_iff]

/-- The canonical texts of two schemas are the same exactly if their modules agree in all that is
shown of them, of every node in particular its number, binding, keyword, argument, name, children,
marks, conditions and type; and the fingerprints of schemas whose modules do not agree are the same
only if the canonical texts are different texts with the same digest. -/
theorem canonical_text_determines (s s' : Schema) :
    (s.canonicalText = s'.canonicalText ↔ List.Forall₂ Module.Agrees s.modules s'.modules) ∧
      (s.fingerprint = s'.fingerprint ↔ List.Forall₂ Module.Agrees s.modules s'.modules ∨
        Sha256.Collide s.canonicalText s'.canonicalText) := by
  constructor
  · exact canonicalText_eq_iff s s'
  · unfold fingerprint
    rw [Sha256.hexDigest_eq_iff_or, canonicalText_eq_iff]

end Schema

end YangSchema
