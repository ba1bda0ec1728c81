import YangSchema.Proofs.Families
import YangSchema.Proofs.GroundedTypes

/-!
# Sources seen in one module

A submodule can be in the families of several modules, and is then seen in each of them; so are the
definitions that it holds. Whatever is processed while a module is instantiated stands in a source
of the family of the module in which it is seen (`Processed.family`). Hence no typedef is seen in
two modules where no submodule is in the families of two modules
(`DeclaredModel.Unshared.seenOnce`).
-/

namespace YangSchema

variable {order : Bool} {sources : List Source} {model : DeclaredModel} {s : DeclaredSource}
  {scope : Scope} {kind : Kind} {name : String} {module : SourceId} {g : Definition}

/-- No submodule is in the families of two modules. -/
def DeclaredModel.Unshared (model : DeclaredModel) : Prop :=
  ∀ s ∈ model.sources, s.header.isModule = false → ∀ m ∈ model.modules, ∀ m' ∈ model.modules,
    s ∈ model.family m.id → s ∈ model.family m'.id → m.id = m'.id

/-- Where no submodule is shared, a source is in one family. -/
theorem DeclaredModel.Unshared.module_eq (unshared : model.Unshared)
    (declared : DeclaredModel.ofSources order sources = .ok model) {module' : SourceId}
    (hs : s ∈ model.family module) (hs' : s ∈ model.family module') : module = module' := by
  cases hrole : s.header.isModule with
  | true =>
    rw [← (isModule_iff_of_mem_family declared hs).1 hrole,
      ← (isModule_iff_of_mem_family declared hs').1 hrole]
  | false =>
    obtain ⟨m, hm, rfl⟩ := exists_module_of_mem_family declared hs
    obtain ⟨m', hm', rfl⟩ := exists_module_of_mem_family declared hs'
    exact unshared s (mem_of_family hs) hrole m hm m' hm' hs hs'

/-- No submodule is shared where there is one module. -/
theorem DeclaredModel.unshared_of_length (h : model.modules.length ≤ 1) : model.Unshared := by
  intro s _ _ m hm m' hm' _ _
  obtain ⟨i, hi, rfl⟩ := List.mem_iff_getElem.1 hm
  obtain ⟨j, hj, rfl⟩ := List.mem_iff_getElem.1 hm'
  have hij : i = j := by omega
  subst hij
  rfl

/-! ## Definitions -/

namespace Definition

/-- A definition is seen in a module whose family holds its source. -/
def IsInFamily (model : DeclaredModel) (g : Definition) : Prop :=
  g.source ∈ model.family g.scope.module

theorem isInFamily_of_atTop? (h : atTop? model kind name module = some g) :
    g.IsInFamily model := by
  obtain ⟨t, ht, h⟩ := List.exists_of_findSome?_eq_some h
  obtain ⟨x, _, rfl⟩ := Option.map_eq_some_iff.1 h
  exact ht

theorem isInFamily_of_around? {place : Nat} (hs : s ∈ model.family module)
    (h : around? kind name module s place = some g) : g.IsInFamily model := by
  obtain ⟨x, _, rfl⟩ := Option.map_eq_some_iff.1 h
  exact hs

/-- What a name refers to is so if the place is at which it is written. -/
theorem isInFamily_of_lexical? {place : Nat} (hs : s ∈ model.family module)
    (h : lexical? model kind name module s place = some g) : g.IsInFamily model := by
  have visible {bare : String} (h : (around? kind bare module s place).or
      (atTop? model kind bare module) = some g) : g.IsInFamily model := by
    rcases Option.or_eq_some_iff.1 h with h | ⟨_, h⟩
    · exact isInFamily_of_around? hs h
    · exact isInFamily_of_atTop? h
  unfold lexical? at h
  split at h
  · exact visible h
  · split at h
    · cases h
    · split at h
      · exact visible h
      · exact isInFamily_of_atTop? h

theorem isInFamily_of_resolve {place : Nat} {reference : Declared}
    (hs : s ∈ model.family scope.module) (hagrees : scope.Agrees s place)
    (hkind : kind.isDefinition = true)
    (h : resolve model s kind reference scope = .ok g) : g.IsInFamily model := by
  rw [resolve_eq_ok, hagrees.refersTo?_eq hkind] at h
  exact isInFamily_of_lexical? hs h

end Definition

/-! ## Statements -/

namespace Expansion

variable {e : Expansion} {k : Manner} {d : Declaration} {t : TypeTable}

/-- What is copied stands in a source of the family of the module in which it is seen. -/
theorem Copies.family (declared : DeclaredModel.ofSources order sources = .ok e.model)
    (h : Copies e k d t) : k.source ∈ e.model.family k.scope.module := by
  induction h with
  | top hsource _ => exact hsource.mem
  | under _ _ _ _ ih => exact ih
  | content h _ hresolve _ _ _ ih =>
    exact Definition.isInFamily_of_resolve ih ((h.lexical declared).agrees declared) rfl hresolve
  | added _ _ _ _ _ _ _ _ ih => exact ih

/-- And so does all that is processed. -/
theorem Processed.family (declared : DeclaredModel.ofSources order sources = .ok e.model)
    (h : Processed e s scope d) : s ∈ e.model.family scope.module := by
  induction h with
  | copied hcopies => exact hcopies.family declared
  | member _ _ _ _ ih => exact ih
  | typedef h _ hresolve _ ih =>
    exact Definition.isInFamily_of_resolve ih (h.agrees declared).2.2 rfl hresolve

end Expansion

/-- Where no submodule is in two families, no typedef is seen in two modules. -/
theorem DeclaredModel.Unshared.seenOnce (unshared : model.Unshared)
    (declared : DeclaredModel.ofSources order sources = .ok model) (module : SourceId) :
    Expansion.SeenOnce ⟨model, module⟩ := by
  have hfamily (g : Definition) (hg : Expansion.TypedefOf ⟨model, module⟩ g) :
      g.IsInFamily model := by
    obtain ⟨s, scope, d, hd, _, _, hresolve⟩ := hg
    exact Definition.isInFamily_of_resolve (hd.family declared) (hd.agrees declared).2.2 rfl
      hresolve
  intro g h hg hh hkey
  have hsource : g.source = h.source :=
    ((hg.valid declared).eq_of_key_eq declared (hh.valid declared) hkey).1
  have hgfamily := hfamily g hg
  unfold Definition.IsInFamily at hgfamily
  rw [hsource] at hgfamily
  exact unshared.module_eq declared hgfamily (hfamily h hh)

end YangSchema
