import YangSchema.Proofs.Enclosing
import YangSchema.Proofs.Scopes

/-!
# Lexical lookup

What a name refers to is a matter of the place at which it is written: `Definition.lexical?` looks
it up in the statements of its source that enclose the place, and not in a scope. A statement that
is seen in the scope of its own place (`Lexical`) has its names looked up alike in both ways
(`Lexical.agrees`, `Scope.Agrees.refersTo?_eq`), and what they refer to is a definition in the scope
of its own place (`Lexical.of_lexical?`).

A `uses` and a `type` declare nothing, so that it does not matter whether they count as enclosing
statements.
-/

namespace YangSchema

/-- The statements of a source, below its root, in which the statement of a place stands; innermost
first. -/
def DeclaredSource.enclosing (s : DeclaredSource) (place : Nat) : List Declaration :=
  Tree.enclosing Declared.place place s.root.children

/-- The scope of a place of a source when the source is seen in a module. -/
def Scope.lexical (module : SourceId) (s : DeclaredSource) (place : Nat) : Scope :=
  ⟨module, ((s.enclosing place).filter fun d => d.label.binding ≠ .builtin .uses).map (⟨s, ·⟩)⟩

namespace Definition

/-- The innermost definition of a name in the statements that enclose a place. -/
def around? (kind : Kind) (name : String) (module : SourceId) (s : DeclaredSource) (place : Nat) :
    Option Definition :=
  ((s.enclosing place).findSome? (among? kind name)).map fun d =>
    ⟨s, d, .lexical module s d.label.place⟩

/-- The definition to which a name refers that is written at a place of a source, when the source is
seen in a module. -/
def lexical? (model : DeclaredModel) (kind : Kind) (name : String) (module : SourceId)
    (s : DeclaredSource) (place : Nat) : Option Definition :=
  match Text.splitOnce? ':' name with
  | none => (around? kind name module s place).or (atTop? model kind name module)
  | some (p, bare) =>
    match s.prefixTarget? p with
    | none => none
    | some target =>
      if target = s.owner then (around? kind bare module s place).or (atTop? model kind bare module)
      else atTop? model kind bare target

end Definition

/-! ## What declares nothing -/

namespace Kind

/-- Whether statements of a kind are definitions that names refer to. -/
def isDefinition (k : Kind) : Bool := k == .typedef || k == .grouping

/-- Neither a `uses` nor a `type` has definitions among its substatements. -/
theorem substatement?_of_isDefinition {k : Kind} (hk : k.isDefinition = true) :
    Kind.uses.substatement? k = none ∧ Kind.type.substatement? k = none := by
  have h : ∀ k ∈ all, k.isDefinition = true →
      Kind.uses.substatement? k = none ∧ Kind.type.substatement? k = none := by decide +kernel
  exact h k (mem_all k) hk

end Kind

namespace Declaration

variable {kind : Kind} {d : Declaration}

theorem Grammatical.among?_eq_none (h : d.Grammatical) {parent : Kind}
    (hd : d.label.binding = .builtin parent) (hnone : parent.substatement? kind = none)
    (name : String) : Definition.among? kind name d = none := by
  cases hfound : Definition.among? kind name d with
  | none => rfl
  | some c =>
    obtain ⟨hc, hkind, _⟩ := Definition.mem_of_among? hfound
    have hallowed := h.isSome_substatement? hd hc (kind?_eq_some_iff.2 (is_iff.1 hkind))
    rw [hnone] at hallowed
    cases hallowed

/-- A `uses` declares nothing. -/
theorem Grammatical.among?_of_uses (h : d.Grammatical) (hk : kind.isDefinition = true)
    (hd : IsUses d) (name : String) : Definition.among? kind name d = none :=
  h.among?_eq_none hd (Kind.substatement?_of_isDefinition hk).1 name

/-- A `type` declares nothing. -/
theorem Grammatical.among?_of_type (h : d.Grammatical) (hk : kind.isDefinition = true)
    (hd : d.is .type = true) (name : String) : Definition.among? kind name d = none :=
  h.among?_eq_none (is_iff.1 hd) (Kind.substatement?_of_isDefinition hk).2 name

end Declaration

/-! ## Enclosing statements -/

variable {order : Bool} {sources : List Source} {model : DeclaredModel} {s : DeclaredSource}
  {module : SourceId} {scope : Scope} {d c : Declaration} {kind : Kind} {name : String}

/-- A statement below the root of a source. -/
def DeclaredSource.Holds (s : DeclaredSource) (d : Declaration) : Prop :=
  d ∈ Tree.forestSubtrees s.root.children

namespace DeclaredSource

theorem holds_of_mem (hd : d ∈ s.root.children) : s.Holds d :=
  Tree.mem_forestSubtrees.2 ⟨d, hd, Tree.mem_subtrees_self d⟩

theorem Holds.mem_subtrees (h : s.Holds d) : d ∈ s.root.subtrees := by
  rw [Tree.subtrees_eq]
  exact List.mem_cons_of_mem _ h

theorem Holds.child (h : s.Holds d) (hc : c ∈ d.children) : s.Holds c := by
  obtain ⟨t, ht, hd⟩ := Tree.mem_forestSubtrees.1 h
  exact Tree.mem_forestSubtrees.2 ⟨t, ht, Tree.child_mem_subtrees hd hc⟩

theorem holds_of_mem_enclosing {place : Nat} (h : d ∈ s.enclosing place) : s.Holds d :=
  List.mem_of_mem_filter (List.mem_reverse.1 h)

end DeclaredSource

theorem DeclaredModel.nodup_placesBelow
    (declared : DeclaredModel.ofSources order sources = .ok model) (hs : s ∈ model.sources) :
    (Tree.forestNumbers Declared.place s.root.children).Nodup := by
  have hnodup := DeclaredModel.nodup_places declared hs
  rw [Tree.subtrees_eq, List.map_cons] at hnodup
  exact (List.nodup_cons.1 hnodup).2

/-- Nothing but the root encloses a top-level statement. -/
theorem DeclaredModel.enclosing_top (declared : DeclaredModel.ofSources order sources = .ok model)
    (hs : s ∈ model.sources) (hd : d ∈ s.root.children) : s.enclosing d.label.place = [] :=
  Tree.enclosing_of_mem (DeclaredModel.nodup_placesBelow declared hs) hd

/-- A substatement is enclosed by its statement and by what encloses that. -/
theorem DeclaredModel.enclosing_child (declared : DeclaredModel.ofSources order sources = .ok model)
    (hs : s ∈ model.sources) (hd : s.Holds d) (hc : c ∈ d.children) :
    s.enclosing c.label.place = d :: s.enclosing d.label.place :=
  Tree.enclosing_child (DeclaredModel.nodup_placesBelow declared hs) hd hc

/-! ## The scope of a place -/

theorem Scope.lexical_top (declared : DeclaredModel.ofSources order sources = .ok model)
    (hs : s ∈ model.sources) (hd : d ∈ s.root.children) :
    Scope.lexical module s d.label.place = .top module := by
  rw [Scope.lexical, DeclaredModel.enclosing_top declared hs hd]
  rfl

theorem Scope.lexical_child (declared : DeclaredModel.ofSources order sources = .ok model)
    (hs : s ∈ model.sources) (hd : s.Holds d) (hc : c ∈ d.children) :
    Scope.lexical module s c.label.place = (Scope.lexical module s d.label.place).inside s d := by
  unfold Scope.lexical
  rw [DeclaredModel.enclosing_child declared hs hd hc]
  by_cases huses : IsUses d
  · rw [Scope.inside_of_uses huses, List.filter_cons_of_neg (by simpa [IsUses] using huses)]
  · rw [Scope.inside_of_not_uses huses, List.filter_cons_of_pos (by simpa [IsUses] using huses)]
    rfl

/-- A statement below the root of a source is seen in the scope of its place. -/
structure Lexical (model : DeclaredModel) (s : DeclaredSource) (scope : Scope) (d : Declaration) :
    Prop where
  source : s ∈ model.sources
  holds : s.Holds d
  scope_eq : scope = .lexical scope.module s d.label.place

namespace Lexical

theorem top (declared : DeclaredModel.ofSources order sources = .ok model)
    (hs : s ∈ model.sources) (hd : d ∈ s.root.children) : Lexical model s (.top module) d :=
  ⟨hs, DeclaredSource.holds_of_mem hd, (Scope.lexical_top declared hs hd).symm⟩

/-- A substatement is seen in the scope of its place, too. -/
theorem child (declared : DeclaredModel.ofSources order sources = .ok model)
    (h : Lexical model s scope d) (hc : c ∈ d.children) :
    Lexical model s (scope.inside s d) c := by
  refine ⟨h.source, h.holds.child hc, ?_⟩
  have hmodule : (scope.inside s d).module = scope.module := by
    unfold Scope.inside
    split <;> rfl
  rw [hmodule, Scope.lexical_child declared h.source h.holds hc, ← h.scope_eq]

theorem child_of_not_uses (declared : DeclaredModel.ofSources order sources = .ok model)
    (h : Lexical model s scope d) (hnot : ¬ IsUses d) (hc : c ∈ d.children) :
    Lexical model s (scope.enter s d) c := by
  rw [← Scope.inside_of_not_uses hnot]
  exact h.child declared hc

end Lexical

/-! ## Both lookups agree -/

namespace Definition

/-- A statement that does not declare a name is passed over. -/
theorem around?_child_of_none (declared : DeclaredModel.ofSources order sources = .ok model)
    (hs : s ∈ model.sources) (hd : s.Holds d) (hc : c ∈ d.children)
    (hnone : among? kind name d = none) :
    around? kind name module s c.label.place = around? kind name module s d.label.place := by
  rw [around?, DeclaredModel.enclosing_child declared hs hd hc, List.findSome?_cons, hnone, around?]

/-- The innermost statement that declares a name has the definition. -/
theorem around?_child_of_some (declared : DeclaredModel.ofSources order sources = .ok model)
    (hs : s ∈ model.sources) (hd : s.Holds d) (hc : c ∈ d.children) {x : Declaration}
    (hsome : among? kind name d = some x) : around? kind name module s c.label.place
      = some ⟨s, x, .lexical module s x.label.place⟩ := by
  rw [around?, DeclaredModel.enclosing_child declared hs hd hc, List.findSome?_cons, hsome]
  rfl

/-- The frames of the scope of a place hold the definitions that the enclosing statements hold. -/
theorem inFrames?_lexical (declared : DeclaredModel.ofSources order sources = .ok model)
    (hs : s ∈ model.sources) (hkind : kind.isDefinition = true) (hd : s.Holds d)
    (module : SourceId) (name : String) :
    inFrames? kind name module (Scope.lexical module s d.label.place).frames
      = around? kind name module s d.label.place := by
  -- down the source: at the top there are no frames, and each statement adds itself to both sides
  refine Tree.inductDown (P := fun d =>
    inFrames? kind name module (Scope.lexical module s d.label.place).frames
      = around? kind name module s d.label.place) ?_ ?_ d hd
  · intro t ht
    rw [Scope.lexical_top declared hs ht, around?, DeclaredModel.enclosing_top declared hs ht]
    rfl
  · intro x hx ih c hc
    have hscope : Scope.lexical module s c.label.place
        = (Scope.lexical module s x.label.place).inside s x :=
      Scope.lexical_child declared hs hx hc
    by_cases huses : IsUses x
    · have hgrammatical := (DeclaredModel.grammatical_of_ofSources declared hs).of_mem
        (DeclaredSource.Holds.mem_subtrees hx)
      rw [around?_child_of_none declared hs hx hc (hgrammatical.among?_of_uses hkind huses name),
        hscope, Scope.inside_of_uses huses, ih]
    · rw [hscope, Scope.inside_of_not_uses huses]
      show inFrames? kind name module (⟨s, x⟩ :: _) = _
      rw [inFrames?]
      cases hfound : among? kind name x with
      | none => rw [around?_child_of_none declared hs hx hc hfound]; exact ih
      | some y =>
        have hy := (mem_of_among? hfound).1
        rw [around?_child_of_some declared hs hx hc hfound,
          Scope.lexical_child declared hs hx hy, Scope.inside_of_not_uses huses]
        rfl

end Definition

/-- In a scope the frames hold the definitions that the statements around a place hold. -/
def Scope.Agrees (scope : Scope) (s : DeclaredSource) (place : Nat) : Prop :=
  ∀ kind, kind.isDefinition = true → ∀ name,
    Definition.inFrames? kind name scope.module scope.frames
      = Definition.around? kind name scope.module s place

/-- In such a scope all names are looked up as at the place. -/
theorem Scope.Agrees.refersTo?_eq {place : Nat} (h : scope.Agrees s place)
    (hkind : kind.isDefinition = true) (name : String) :
    Definition.refersTo? model s kind name scope
      = Definition.lexical? model kind name scope.module s place := by
  have hvisible (bare : String) : Definition.visible? model kind bare scope
      = (Definition.around? kind bare scope.module s place).or
        (Definition.atTop? model kind bare scope.module) := by
    rw [Definition.visible?, h kind hkind]
  unfold Definition.refersTo? Definition.lexical?
  cases Text.splitOnce? ':' name with
  | none => exact hvisible name
  | some parts =>
    obtain ⟨p, bare⟩ := parts
    cases htarget : s.prefixTarget? p with
    | none => simp only [htarget]
    | some target => simp only [htarget, hvisible]

theorem Lexical.agrees (declared : DeclaredModel.ofSources order sources = .ok model)
    (h : Lexical model s scope d) : scope.Agrees s d.label.place := by
  intro kind hkind name
  have hlexical := Definition.inFrames?_lexical declared h.source hkind h.holds scope.module name
  rwa [← h.scope_eq] at hlexical

/-- What a name refers to is a definition below the root of a source, in the scope of its own
place. -/
theorem Lexical.of_lexical? (declared : DeclaredModel.ofSources order sources = .ok model)
    (hs : s ∈ model.sources) {place : Nat} {g : Definition}
    (h : Definition.lexical? model kind name module s place = some g) :
    Lexical model g.source g.scope g.statement ∧ Declaration.is g.statement kind = true := by
  -- what is found is declared at the top of a source or in an enclosing statement
  have atTop {name : String} {target : SourceId}
      (h : Definition.atTop? model kind name target = some g) :
      Lexical model g.source g.scope g.statement ∧ Declaration.is g.statement kind = true := by
    obtain ⟨t, ht, h⟩ := List.exists_of_findSome?_eq_some h
    obtain ⟨x, hx, rfl⟩ := Option.map_eq_some_iff.1 h
    obtain ⟨hmem, hkind, _⟩ := Definition.mem_of_among? hx
    exact ⟨.top declared (DeclaredModel.mem_of_family ht) hmem, hkind⟩
  have visible {name : String} (h : (Definition.around? kind name module s place).or
        (Definition.atTop? model kind name module) = some g) :
      Lexical model g.source g.scope g.statement ∧ Declaration.is g.statement kind = true := by
    rcases Option.or_eq_some_iff.1 h with h | ⟨_, h⟩
    · obtain ⟨x, hx, rfl⟩ := Option.map_eq_some_iff.1 h
      obtain ⟨y, hy, hx⟩ := List.exists_of_findSome?_eq_some hx
      obtain ⟨hmem, hkind, _⟩ := Definition.mem_of_among? hx
      exact ⟨⟨hs, (DeclaredSource.holds_of_mem_enclosing hy).child hmem, rfl⟩, hkind⟩
    · exact atTop h
  unfold Definition.lexical? at h
  split at h
  · exact visible h
  · split at h
    · cases h
    · split at h
      · exact visible h
      · exact atTop h

variable {g g' : Definition}

/-- What a name refers to in a scope that agrees with a place is a definition in the scope of its
own place. -/
theorem Scope.Agrees.lexical_of_resolve
    (declared : DeclaredModel.ofSources order sources = .ok model) (hs : s ∈ model.sources)
    {place : Nat} (h : scope.Agrees s place) (hkind : kind.isDefinition = true)
    {reference : Declared} (hresolve : Definition.resolve model s kind reference scope = .ok g) :
    Lexical model g.source g.scope g.statement ∧ Declaration.is g.statement kind = true := by
  have hfound := Definition.resolve_eq_ok.1 hresolve
  rw [h.refersTo?_eq hkind] at hfound
  exact Lexical.of_lexical? declared hs hfound

namespace Lexical

/-- What stands in a definition is seen there in the scope of its place. -/
theorem inner (declared : DeclaredModel.ofSources order sources = .ok model)
    (h : Lexical model g.source g.scope g.statement) (hkind : kind.isDefinition = true)
    (hg : Declaration.is g.statement kind = true) (hc : c ∈ g.statement.children) :
    Lexical model g.source g.inner c := by
  have hnot : ¬ IsUses g.statement := by
    refine not_isUses_of_binding (Declaration.is_iff.1 hg) ?_
    rintro rfl
    cases hkind
  exact h.child_of_not_uses declared hnot hc

/-- A definition in the scope of its place is one of the model. -/
theorem valid (h : Lexical model g.source g.scope g.statement)
    (hg : Declaration.is g.statement kind = true) : g.Valid model kind := by
  refine ⟨h.source, h.holds.mem_subtrees, hg, ?_⟩
  rw [h.scope_eq]
  intro f hf
  obtain ⟨d, hd, rfl⟩ := List.mem_map.1 hf
  exact ⟨h.source, (DeclaredSource.holds_of_mem_enclosing (List.mem_filter.1 hd).1).mem_subtrees⟩

/-- The statement and the module in which it is seen tell a definition from all others. -/
theorem definition_eq (h : Lexical model g.source g.scope g.statement)
    (h' : Lexical model g'.source g'.scope g'.statement) (hsource : g'.source = g.source)
    (hstatement : g'.statement = g.statement) (hmodule : g'.scope.module = g.scope.module) :
    g' = g := by
  have hscope : g'.scope = g.scope := by
    rw [h'.scope_eq, hmodule, hsource, hstatement, ← h.scope_eq]
  obtain ⟨source, statement, scope⟩ := g
  obtain ⟨source', statement', scope'⟩ := g'
  cases hsource
  cases hstatement
  cases hscope
  rfl

end Lexical

end YangSchema
