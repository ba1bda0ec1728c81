import Mathlib.Data.List.Perm.Subperm
import YangSchema.Proofs.Grammatical
import YangSchema.Scope

/-!
# Definitions and what stands inside them

A name refers to a statement of the wanted kind in a source of the model, and the scope with which
it is found has statements of sources of the model only (`Definition.valid_of_resolve`). There are
as many definitions of a kind as the model counts, so that a list of different ones has a bounded
length (`Definition.length_le_countOfKind`).

`Within` says that a statement stands in another one, or is that one, and in which scope.
-/

namespace YangSchema

variable {model : DeclaredModel}

theorem DeclaredModel.mem_of_source? {id : SourceId} {s : DeclaredSource}
    (h : model.source? id = some s) : s ∈ model.sources ∧ s.id = id :=
  ⟨List.mem_of_find?_eq_some h, by simpa using List.find?_some h⟩

theorem DeclaredModel.mem_of_family {module : SourceId} {s : DeclaredSource}
    (h : s ∈ model.family module) : s ∈ model.sources := by
  obtain ⟨_, _, hs⟩ := List.mem_filterMap.1 h
  exact (DeclaredModel.mem_of_source? hs).1

/-! ## Valid scopes and definitions -/

/-- A frame is a statement of a source of the model. -/
def Frame.Valid (model : DeclaredModel) (f : Frame) : Prop :=
  f.source ∈ model.sources ∧ f.statement ∈ f.source.root.subtrees

/-- All frames of a scope are statements of sources of the model. -/
def Scope.Valid (model : DeclaredModel) (scope : Scope) : Prop :=
  ∀ f ∈ scope.frames, f.Valid model

/-- A definition is a statement of its kind in a source of the model. -/
structure Definition.Valid (model : DeclaredModel) (kind : Kind) (d : Definition) : Prop where
  source : d.source ∈ model.sources
  statement : d.statement ∈ d.source.root.subtrees
  kind : Declaration.is d.statement kind = true
  scope : d.scope.Valid model

theorem Scope.valid_top (module : SourceId) : (Scope.top module).Valid model :=
  fun _ h => absurd h List.not_mem_nil

theorem Scope.Valid.enter {scope : Scope} (h : scope.Valid model) {s : DeclaredSource}
    {d : Declaration} (hs : s ∈ model.sources) (hd : d ∈ s.root.subtrees) :
    (scope.enter s d).Valid model := by
  intro f hf
  rcases List.mem_cons.1 hf with rfl | hf
  · exact ⟨hs, hd⟩
  · exact h f hf

theorem Definition.Valid.inner {kind : Kind} {d : Definition} (h : d.Valid model kind) :
    d.inner.Valid model := h.scope.enter h.source h.statement

namespace Definition

variable {kind : Kind} {name : String}

theorem mem_of_among? {parent d : Declaration} (h : among? kind name parent = some d) :
    d ∈ parent.children ∧ Declaration.is d kind = true ∧ d.label.argument = some name := by
  have hmem := List.mem_filter.1 (List.mem_of_find?_eq_some h)
  exact ⟨hmem.1, hmem.2, by simpa using List.find?_some h⟩

theorem valid_of_atTop? {module : SourceId} {d : Definition}
    (h : atTop? model kind name module = some d) : d.Valid model kind := by
  obtain ⟨s, hs, h⟩ := List.exists_of_findSome?_eq_some h
  obtain ⟨x, hx, rfl⟩ := Option.map_eq_some_iff.1 h
  obtain ⟨hmem, hkind, _⟩ := mem_of_among? hx
  exact ⟨DeclaredModel.mem_of_family hs,
    Tree.child_mem_subtrees (Tree.mem_subtrees_self _) hmem, hkind, Scope.valid_top module⟩

theorem valid_of_inFrames? {module : SourceId} {frames : List Frame} {d : Definition}
    (hframes : ∀ f ∈ frames, f.Valid model)
    (h : inFrames? kind name module frames = some d) : d.Valid model kind := by
  induction frames with
  | nil => cases h
  | cons f fs ih =>
    rw [inFrames?] at h
    split at h
    · rename_i x hx
      rw [← Option.some.inj h]
      obtain ⟨hmem, hkind, _⟩ := mem_of_among? hx
      obtain ⟨hsource, hstatement⟩ := hframes f List.mem_cons_self
      exact ⟨hsource, Tree.child_mem_subtrees hstatement hmem, hkind, hframes⟩
    · exact ih (fun f hf => hframes f (List.mem_cons_of_mem _ hf)) h

theorem valid_of_visible? {scope : Scope} {d : Definition} (hscope : scope.Valid model)
    (h : visible? model kind name scope = some d) : d.Valid model kind := by
  rcases Option.or_eq_some_iff.1 h with h | ⟨_, h⟩
  · exact valid_of_inFrames? hscope h
  · exact valid_of_atTop? h

/-- What a name refers to in a scope of the model is a definition of the model. -/
theorem valid_of_refersTo? {source : DeclaredSource} {scope : Scope} {d : Definition}
    (hscope : scope.Valid model) (h : refersTo? model source kind name scope = some d) :
    d.Valid model kind := by
  unfold refersTo? at h
  split at h
  · exact valid_of_visible? hscope h
  · split at h
    · cases h
    · split at h
      · exact valid_of_visible? hscope h
      · exact valid_of_atTop? h

theorem resolve_eq_ok {source : DeclaredSource} {reference : Declared} {scope : Scope}
    {d : Definition} : resolve model source kind reference scope = .ok d
      ↔ refersTo? model source kind (reference.argument.getD "") scope = some d := by
  cases h : refersTo? model source kind (reference.argument.getD "") scope with
  | none => simp [resolve, h]
  | some d => simp [resolve, h]

theorem valid_of_resolve {source : DeclaredSource} {reference : Declared} {scope : Scope}
    {d : Definition} (hscope : scope.Valid model)
    (h : resolve model source kind reference scope = .ok d) : d.Valid model kind :=
  valid_of_refersTo? hscope (resolve_eq_ok.1 h)

/-! ## Counting definitions -/

/-- The keys of all definitions of a kind. -/
def keys (model : DeclaredModel) (kind : Kind) : List (SourceId × Nat) :=
  model.sources.flatMap fun s =>
    (s.root.subtrees.filter (Declaration.is · kind)).map fun d => (s.id, d.label.place)

theorem length_keys : (keys model kind).length = model.countOfKind kind := by
  unfold keys DeclaredModel.countOfKind
  rw [List.length_flatMap, List.length_flatMap]
  simp only [List.length_map]

theorem Valid.key_mem {d : Definition} (h : d.Valid model kind) : d.key ∈ keys model kind :=
  List.mem_flatMap.2 ⟨d.source, h.source, List.mem_map.2
    ⟨d.statement, List.mem_filter.2 ⟨h.statement, h.kind⟩, rfl⟩⟩

/-- Different definitions are not more than there are. -/
theorem length_le_countOfKind {keys : List (SourceId × Nat)} (distinct : keys.Nodup)
    (hkeys : keys ⊆ Definition.keys model kind) : keys.length ≤ model.countOfKind kind := by
  rw [← length_keys]
  exact (distinct.subperm hkeys).length_le

/-- Where as many definitions have been collected as there are, every definition has been. -/
theorem Valid.key_mem_of_length {d : Definition} (h : d.Valid model kind)
    {keys : List (SourceId × Nat)} (distinct : keys.Nodup)
    (hkeys : keys ⊆ Definition.keys model kind) (hlen : model.countOfKind kind ≤ keys.length) :
    d.key ∈ keys := by
  rw [← length_keys] at hlen
  exact ((distinct.subperm hkeys).perm_of_length_le hlen).mem_iff.2 h.key_mem

/-- In a declared model the key tells a definition from all others. -/
theorem Valid.eq_of_key_eq {order : Bool} {sources : List Source}
    (declared : DeclaredModel.ofSources order sources = .ok model) {d d' : Definition}
    (h : d.Valid model kind) (h' : d'.Valid model kind) (hkey : d.key = d'.key) :
    d.source = d'.source ∧ d.statement = d'.statement := by
  obtain ⟨hid, hplace⟩ := Prod.mk.inj hkey
  have hsource := DeclaredModel.eq_of_id_eq declared h.source h'.source hid
  refine ⟨hsource, ?_⟩
  have hmem := h'.statement
  rw [← hsource] at hmem
  exact DeclaredModel.eq_of_place_eq declared h.source h.statement hmem hplace

theorem isPending_iff {d : Definition} {pending : List Pending} :
    d.isPending pending = true ↔ d.key ∈ pending.map (·.1) := by
  unfold isPending
  rw [List.any_eq_true, List.mem_map]
  simp only [decide_eq_true_iff]

end Definition

/-! ## Standing inside a statement -/

/-- Whether a statement is a `uses`. -/
def IsUses (d : Declaration) : Prop := d.label.binding = .builtin .uses

/-- The scope of what stands inside a statement. A `uses` declares nothing and is left out. -/
def Scope.inside (scope : Scope) (s : DeclaredSource) (d : Declaration) : Scope :=
  if d.label.binding = .builtin .uses then scope else scope.enter s d

theorem Scope.inside_of_uses {scope : Scope} {s : DeclaredSource} {d : Declaration}
    (h : IsUses d) : scope.inside s d = scope := if_pos h

theorem Scope.inside_of_not_uses {scope : Scope} {s : DeclaredSource} {d : Declaration}
    (h : ¬ IsUses d) : scope.inside s d = scope.enter s d := if_neg h

/-- A statement of another kind is no `uses`. -/
theorem not_isUses_of_binding {d : Declaration} {kind : Kind} (h : d.label.binding = .builtin kind)
    (hne : kind ≠ .uses) : ¬ IsUses d := by
  intro huses
  rw [IsUses, h, Binding.builtin.injEq] at huses
  exact hne huses

/-- The statement `x`, seen at the scope `inner`, is the statement `d`, seen at the scope `outer`,
or stands below it. -/
inductive Within (s : DeclaredSource) : (outer : Scope) → (d : Declaration) → (inner : Scope) →
    (x : Declaration) → Prop where
  | here (scope : Scope) (d : Declaration) : Within s scope d scope d
  | under {outer inner : Scope} {d c x : Declaration} :
    c ∈ d.children → Within s (outer.inside s d) c inner x → Within s outer d inner x

namespace Within

variable {s : DeclaredSource} {outer scope inner : Scope} {d x y : Declaration}

theorem trans (h : Within s outer d scope x) (h' : Within s scope x inner y) :
    Within s outer d inner y := by
  induction h with
  | here => exact h'
  | under hc _ ih => exact .under hc (ih h')

/-- What stands below a statement stands below all that this one stands below. -/
theorem child (h : Within s outer d scope x) (hy : y ∈ x.children) :
    Within s outer d (scope.inside s x) y := h.trans (.under hy (.here _ _))

theorem mem_subtrees (h : Within s outer d scope x) : x ∈ d.subtrees := by
  induction h with
  | here => exact Tree.mem_subtrees_self _
  | under hc _ ih => exact Tree.mem_subtrees_of_mem_child hc ih

theorem scope_valid (h : Within s outer d scope x) (hs : s ∈ model.sources)
    (hd : d ∈ s.root.subtrees) (houter : outer.Valid model) : scope.Valid model := by
  induction h with
  | here => exact houter
  | @under outer inner d c x hc _ ih =>
    refine ih (Tree.child_mem_subtrees hd hc) ?_
    unfold Scope.inside
    split
    · exact houter
    · exact houter.enter hs hd

end Within

end YangSchema
