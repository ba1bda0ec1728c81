import YangSchema.Proofs.Declared
import YangSchema.Proofs.PlainForests
import YangSchema.Schema.Json
import YangSchema.Session

/-!
# Positions do not matter

Two sets of sources whose statements differ in where they were written, and in nothing else, are
built alike: either both give a schema, with the same canonical text, fingerprint and link graph, or
both fail with the same sort of error (`Session.positions_do_not_matter`). For a build commutes with
leaving out all locations (`Session.build_plain`), and without these the two sets are the same.
-/

namespace YangSchema

/-! ## Schemas -/

/-- What is known of a node of a schema, without its location. -/
def NodeData.plain (d : NodeData) : NodeData := { d with toNodeLabel := d.toNodeLabel.plain }

/-- A module of a schema without locations. -/
def Module.plain (m : Module) : Module :=
  { m with nodes := m.nodes.map (Tree.Row.relabel fun _ => NodeData.plain) }

/-- A schema without locations. -/
def Schema.plain (s : Schema) : Schema := { s with modules := s.modules.map Module.plain }

namespace NodeData

variable {name name' : NodeLabel → QName}

mutual

theorem ofNode_plain (h : ∀ l : NodeLabel, name' l.plain = name l) : ∀ (inData : Bool) (n : Node),
    ofNode name' inData (n.map NodeLabel.plain) = (ofNode name inData n).map plain
  | inData, ⟨l, children⟩ => by
    rw [Tree.map, ofNode, ofNode, Tree.map, h, ofNodes_plain h _ children]
    rfl

theorem ofNodes_plain (h : ∀ l : NodeLabel, name' l.plain = name l) :
    ∀ (inData : Bool) (ns : List Node),
      ofNodes name' inData (Tree.mapForest NodeLabel.plain ns)
        = Tree.mapForest plain (ofNodes name inData ns)
  | _, [] => rfl
  | inData, n :: ns => by
    rw [Tree.mapForest, ofNodes, ofNodes, Tree.mapForest, ofNode_plain h inData n,
      ofNodes_plain h inData ns]

end

theorem ofRoot_plain (h : ∀ l : NodeLabel, name' l.plain = name l) (root : Node) :
    ofRoot name' (root.map NodeLabel.plain) = (ofRoot name root).map plain := by
  unfold ofRoot
  rw [Tree.label_map, Tree.children_map, ← Tree.mapForest_eq, ofNodes_plain h]
  rfl

theorem qnameOf_plain (model : DeclaredModel) (l : NodeLabel) :
    qnameOf model.plain l.plain = qnameOf model l := by
  unfold qnameOf
  dsimp only
  rw [DeclaredModel.source?_plain, Option.bind_map]
  rfl

end NodeData

theorem Module.ofTree_plain (model : DeclaredModel) (t : ModuleTree) :
    ofTree model.plain t.plain = (ofTree model t).plain := by
  have hrows : (NodeData.ofRoot (NodeData.qnameOf model.plain) (t.root.map NodeLabel.plain)).rows
      = (NodeData.ofRoot (NodeData.qnameOf model) t.root).rows.map
        (Tree.Row.relabel fun _ => NodeData.plain) := by
    rw [NodeData.ofRoot_plain (NodeData.qnameOf_plain model), Tree.rows_map]
  have hfamily : (model.plain.family t.id).drop 1 = ((model.family t.id).drop 1).map .plain := by
    rw [DeclaredModel.family_plain, List.map_drop]
  unfold ofTree plain
  dsimp only [ModuleTree.plain]
  rw [hrows, hfamily, List.map_map, DeclaredModel.source?_plain, Option.bind_map, Option.map_map,
    Option.map_map]
  rfl

namespace Schema

theorem ofForest_plain (model : DeclaredModel) (f : Forest) :
    ofForest model.plain (f.map ModuleTree.plain) = (ofForest model f).plain := by
  unfold ofForest plain
  rw [List.map_map, List.map_map]
  congr 1
  exact List.map_congr_left fun t _ => Module.ofTree_plain model t

theorem ofModel_plain (model : DeclaredModel) :
    ofModel model.plain = .plain plain (ofModel model) := by
  unfold ofModel
  apply Result.plain_bind (Forest.ofModel_plain model)
  intro f
  apply Result.plain_bind (Augmentation.applyAll_plain model f)
  intro f
  apply Result.plain_bind (Deviation.applyAll_plain model f)
  intro f
  rw [ofForest_plain]
  rfl

/-- Locations are not written. -/
@[simp] theorem canonicalText_plain (s : Schema) : s.plain.canonicalText = s.canonicalText := by
  have hmodule (m : Module) : m.plain.toJson = m.toJson := by
    unfold Module.toJson Module.plain
    dsimp only
    rw [List.map_map]
    rfl
  unfold canonicalText plain
  rw [List.map_map]
  simp only [Function.comp_def, hmodule]

end Schema

/-! ## Builds -/

/-- A statement as it is written, wherever that is. -/
def Statement.content (s : Statement) : Tree (Keyword × Option String) :=
  s.map fun h => (h.keyword, h.argument)

theorem Statement.map_plain_eq_of_content {s t : Statement} (h : s.content = t.content) :
    s.map Head.plain = t.map Head.plain := by
  have hplain (s : Statement) :
      s.map Head.plain = s.content.map fun c => ⟨c.1, c.2, .nowhere⟩ := by
    unfold content
    rw [Tree.map_map]
    rfl
  rw [hplain, hplain, h]

/-- A source with all its statements at one place of a text. -/
def Source.movedTo (place : Location) (s : Source) : Source :=
  ⟨place.origin, s.root.map fun h => { h with location := place }⟩

theorem Source.content_movedTo (s : Source) (place : Location) :
    (s.movedTo place).root.content = s.root.content := by
  unfold movedTo Statement.content
  dsimp only
  rw [Tree.map_map]
  rfl

namespace Session

/-- A build commutes with leaving out locations. -/
theorem build_plain (settings : BuildSettings) (sources : List Source) :
    build ⟨settings, sources.map Source.plain⟩ = .plain Schema.plain (build ⟨settings, sources⟩) :=
  Result.plain_bind (DeclaredModel.ofSources_plain settings.enforceOrder sources)
    Schema.ofModel_plain

/-- Sources that say the same, wherever they say it and under whatever label, are built alike. -/
theorem positions_do_not_matter (settings : BuildSettings) {sources sources' : List Source}
    (same : List.Forall₂ (fun s s' => s.root.content = s'.root.content) sources sources') :
    (∃ t t', build ⟨settings, sources⟩ = .ok t ∧ build ⟨settings, sources'⟩ = .ok t'
      ∧ t.canonicalText = t'.canonicalText ∧ t.fingerprint = t'.fingerprint ∧ t.graph = t'.graph)
    ∨ ∃ e e', build ⟨settings, sources⟩ = .error e ∧ build ⟨settings, sources'⟩ = .error e'
      ∧ e.kind = e'.kind := by
  have hsources : sources.map Source.plain = sources'.map Source.plain := by
    induction same with
    | nil => rfl
    | cons hcontent _ ih =>
      rw [List.map_cons, List.map_cons, ih, Source.plain, Source.plain,
        Statement.map_plain_eq_of_content hcontent]
  have hbuild : Result.plain Schema.plain (build ⟨settings, sources⟩)
      = .plain Schema.plain (build ⟨settings, sources'⟩) := by
    rw [← build_plain, ← build_plain, hsources]
  cases h : build ⟨settings, sources⟩ with
  | ok t =>
    cases h' : build ⟨settings, sources'⟩ with
    | ok t' =>
      rw [h, h'] at hbuild
      have hplain : t.plain = t'.plain := Except.ok.inj hbuild
      have htext : t.canonicalText = t'.canonicalText := by
        rw [← t.canonicalText_plain, hplain, t'.canonicalText_plain]
      have hgraph : t.plain.graph = t'.plain.graph := by rw [hplain]
      refine .inl ⟨t, t', rfl, rfl, htext, ?_, hgraph⟩
      rw [Schema.fingerprint, Schema.fingerprint, htext]
    | error e' =>
      rw [h, h'] at hbuild
      cases hbuild
  | error e =>
    cases h' : build ⟨settings, sources'⟩ with
    | ok t' =>
      rw [h, h'] at hbuild
      cases hbuild
    | error e' =>
      rw [h, h'] at hbuild
      have hplain : e.plain = e'.plain := Except.error.inj hbuild
      refine .inr ⟨e, e', rfl, rfl, ?_⟩
      rw [← e.kind_plain, hplain, e'.kind_plain]

theorem positions_do_not_matter_moved :
    let sources := DeclaredModel.augmentedModule
    let moved := sources.map (Source.movedTo ⟨"elsewhere", 7, 3⟩)
    moved.map (·.origin) ≠ sources.map (·.origin)
      ∧ List.Forall₂ (fun s s' => s.root.content = s'.root.content) sources moved
      ∧ ∃ t t', build ⟨{}, sources⟩ = .ok t ∧ build ⟨{}, moved⟩ = .ok t'
        ∧ t.canonicalText = t'.canonicalText ∧ t.fingerprint = t'.fingerprint
        ∧ t.graph = t'.graph := by
  intro sources moved
  have same : List.Forall₂ (fun s s' : Source => s.root.content = s'.root.content) sources
      moved := by
    rw [List.forall₂_map_right_iff, List.forall₂_same]
    intro s _
    exact (s.content_movedTo _).symm
  have hbuilds : (build ⟨{}, sources⟩).toBool = true := by
    have hbuild : build ⟨{}, sources⟩ = Schema.ofModel DeclaredModel.augmentedModel :=
      Result.bind_eq_of_ok DeclaredModel.ofSources_augmentedModule
    rw [hbuild]
    decide +kernel
  refine ⟨by decide, same, ?_⟩
  rcases positions_do_not_matter {} same with halike | ⟨e, _, herror, _⟩
  · exact halike
  · rw [herror] at hbuilds
    cases hbuilds

end Session

end YangSchema
