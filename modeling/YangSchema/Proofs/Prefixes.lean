import YangSchema.Proofs.Splitting
import YangSchema.Proofs.WellLinked
import YangSchema.Schema.Forest

/-!
# What prefixes name

Linking binds a prefix to nothing but modules: the own one of a source to its owner, those of its
imports to what they select (`DeclaredModel.exists_module_of_prefixTarget?`). The check has seen to
it that every name and every step of a path has a prefix that is bound. So each of them names a
module:

* the steps of the paths of `augment`, `deviation` and `refine` statements
  (`DeclaredModel.namesModules`);
* the names of `uses` and `type` statements, wherever they are looked up
  (`DeclaredModel.hasBoundPrefix`): a name is looked up in the module that it names as a step
  (`DeclaredSource.LooksUp`).
-/

namespace YangSchema

/-! ## Linking -/

namespace Linkage

variable {headers : List Header} {h : Header} {resolved : List Resolved} {r : Resolved}
  {families : Families} {s : LinkedSource} {id target : SourceId} {p : String}

/-- A prefix of a linked source is bound to its owner or to what it imports. -/
theorem target_of_linkSource (hs : linkSource headers families r = .ok s)
    (hp : s.prefixes.lookup p = some target) :
    target = s.owner ∨ target ∈ r.imports.map (·.2) := by
  obtain ⟨_, hperm⟩ := prefixes_of_linkSource hs
  rcases List.mem_cons.1 (hperm.mem_iff.1 (mem_of_lookup hp)) with hown | himport
  · exact .inl (Prod.mk.inj hown).2
  · exact .inr (List.mem_map_of_mem himport)

/-- An owner is a module. -/
theorem exists_module_of_owner (sorted : headers.Pairwise fun a b => a.id.le b.id)
    (hresolved : headers.mapM (resolve headers) = .ok resolved) (hh : h ∈ headers)
    (howner : owner headers (familiesOf resolved) h = .ok id) :
    ∃ m ∈ headers, m.isModule = true ∧ m.id = id := by
  unfold owner at howner
  split at howner
  · rename_i hmodule
    exact ⟨h, hh, hmodule, Except.ok.inj howner⟩
  · split at howner
    · rename_i f hlast
      have hf : (f.1, f.2) ∈ familiesOf resolved :=
        (List.mem_filter.1 (List.mem_of_getLast? hlast)).1
      obtain ⟨⟨r, hr, hmodule, hid⟩, _⟩ := mem_familiesOf hf
      refine ⟨r.header, ?_, hmodule, hid.trans (Except.ok.inj howner)⟩
      rw [← headers_of_resolved hresolved]
      exact List.mem_map_of_mem hr
    · split at howner
      · rename_i m hselect
        have hnames := (Selects.of_select? sorted hselect).toNames
        exact ⟨m, hnames.registered, hnames.role, Except.ok.inj howner⟩
      · cases howner

end Linkage

/-! ## Declared models -/

namespace DeclaredModel

variable {order : Bool} {sources : List Source} {model : DeclaredModel} {s : DeclaredSource}
  {d : Declaration} {kind : Kind} {id : SourceId} {p : String}

/-- The owner of a source is a module of the model. -/
theorem exists_module_of_owner (declared : ofSources order sources = .ok model)
    (hs : s ∈ model.sources) : ∃ m ∈ model.modules, m.id = s.owner := by
  obtain ⟨headers, resolved, hresolved, hsorted, _, hheaders, _, hlinked⟩ :=
    linked_of_ofSources declared
  obtain ⟨r, _, hr⟩ := hlinked s hs
  have hh : s.header ∈ headers := hheaders ▸ List.mem_map_of_mem hs
  obtain ⟨h, hh, hmodule, hid⟩ := Linkage.exists_module_of_owner hsorted hresolved hh
    (Linkage.owner_of_linkSource hr)
  rw [← hheaders] at hh
  obtain ⟨m, hm, rfl⟩ := List.mem_map.1 hh
  exact ⟨m, List.mem_filter.2 ⟨hm, hmodule⟩, hid⟩

/-- A prefix of a source names a module of the model. -/
theorem exists_module_of_prefixTarget? (declared : ofSources order sources = .ok model)
    (hs : s ∈ model.sources) (hp : s.prefixTarget? p = some id) :
    ∃ m ∈ model.modules, m.id = id := by
  obtain ⟨headers, resolved, hresolved, hsorted, hnodup, hheaders, _, hlinked⟩ :=
    linked_of_ofSources declared
  obtain ⟨r, hr, hlink⟩ := hlinked s hs
  rcases Linkage.target_of_linkSource hlink hp with rfl | himport
  · exact exists_module_of_owner declared hs
  · obtain ⟨h, _, hread⟩ := Result.exists_of_mem_mapM hresolved hr
    obtain ⟨i, _, m, hselects, rfl⟩ := (Linkage.mem_imports_iff hsorted hnodup hread).1 himport
    have hm := hselects.registered
    rw [← hheaders] at hm
    obtain ⟨x, hx, rfl⟩ := List.mem_map.1 hm
    exact ⟨x, List.mem_filter.2 ⟨hx, hselects.role⟩, rfl⟩

/-- A statement of a source that takes an argument has one that its kind takes. -/
theorem takes_of_ofSources (declared : ofSources order sources = .ok model)
    (hs : s ∈ model.sources) (hd : d ∈ s.root.subtrees) (hkind : d.kind? = some kind)
    (htakes : kind.takesArgument = true) :
    Declaration.Takes s.toLinkedSource kind d.argumentText := by
  have hcheck := Declaration.checkOne_of_check (checked_of_ofSources declared hs).1 hd
  have hconforms := Declaration.checkOne_eq_ok.1 hcheck kind hkind
  have hargument := hconforms.hasArgument
  rw [htakes] at hargument
  obtain ⟨argument, heq⟩ := Option.isSome_iff_exists.1 hargument
  unfold Declaration.argumentText
  rw [heq]
  exact hconforms.takes argument heq

end DeclaredModel

/-! ## Steps and names -/

namespace Forest

/-- Every step of a path that is written in a source names a module of the model. -/
def NamesModules (model : DeclaredModel) (source : SourceId) (path : String) : Prop :=
  ∀ step ∈ SchemaPath.stepsOf path, ∃ m ∈ model.modules, stepModule? model source step = some m.id

end Forest

/-- A name that is written in a source is looked up, from any scope, in the module of the model that
it names as a step of a path: around the place if this is the owner of the source, and at the top of
the module otherwise. -/
def DeclaredSource.LooksUp (model : DeclaredModel) (s : DeclaredSource) (name : String) : Prop :=
  ∃ m ∈ model.modules, Forest.stepModule? model s.id (Step.ofString name) = some m.id
    ∧ ∀ kind scope, Definition.refersTo? model s kind name scope
      = if m.id = s.owner then Definition.visible? model kind (Step.ofString name).name scope
        else Definition.atTop? model kind (Step.ofString name).name m.id

namespace DeclaredModel

variable {order : Bool} {sources : List Source} {model : DeclaredModel} {s : DeclaredSource}
  {d : Declaration} {kind : Kind} {step : Step} {path name : String}

theorem stepModule?_eq (declared : ofSources order sources = .ok model) (hs : s ∈ model.sources)
    (step : Step) : Forest.stepModule? model s.id step
      = match step.qualifier with
        | some p => s.prefixTarget? p
        | none => some s.owner := by
  unfold Forest.stepModule?
  rw [source?_id declared hs]
  rfl

/-- A step names a module exactly if its prefix is bound. -/
theorem exists_stepModule?_iff (declared : ofSources order sources = .ok model)
    (hs : s ∈ model.sources) :
    (∃ m ∈ model.modules, Forest.stepModule? model s.id step = some m.id)
      ↔ ∀ p, step.qualifier = some p → ∃ module, s.prefixes.lookup p = some module := by
  rw [stepModule?_eq declared hs]
  cases hq : step.qualifier with
  | none =>
    refine iff_of_true ?_ fun p hp => (nomatch hp)
    obtain ⟨m, hm, hid⟩ := exists_module_of_owner declared hs
    exact ⟨m, hm, congrArg some hid.symm⟩
  | some p =>
    constructor
    · rintro ⟨m, _, hp⟩ _ ⟨⟩
      exact ⟨m.id, hp⟩
    · intro hbound
      obtain ⟨module, hp⟩ := hbound p rfl
      obtain ⟨m, hm, rfl⟩ := exists_module_of_prefixTarget? declared hs hp
      exact ⟨m, hm, hp⟩

/-- The steps of a path name modules exactly if those that the check sees have bound prefixes. -/
theorem namesModules_iff (declared : ofSources order sources = .ok model) (hs : s ∈ model.sources) :
    Forest.NamesModules model s.id path
      ↔ ∀ step ∈ Declaration.pathSteps path,
          Declaration.HasBoundPrefix s.toLinkedSource step := by
  rw [Declaration.takes_path_iff]
  exact forall₂_congr fun _ _ => exists_stepModule?_iff declared hs

/-- A name is looked up in a module exactly if its prefix is bound. -/
theorem looksUp_iff (declared : ofSources order sources = .ok model) (hs : s ∈ model.sources) :
    s.LooksUp model name ↔ Declaration.HasBoundPrefix s.toLinkedSource name := by
  rw [Declaration.hasBoundPrefix_iff, ← exists_stepModule?_iff declared hs]
  refine exists_congr fun m => and_congr_right fun _ => and_iff_left_of_imp fun hstep => ?_
  intro kind scope
  rw [stepModule?_eq declared hs] at hstep
  unfold Definition.refersTo?
  unfold Step.ofString at hstep ⊢
  cases hcut : Text.splitOnce? ':' name with
  | none =>
    rw [hcut] at hstep
    rw [if_pos (Option.some.inj hstep).symm]
  | some parts =>
    rw [hcut] at hstep
    dsimp only at hstep ⊢
    rw [hstep]

/-- Every step of the path of an `augment`, `deviation` or `refine` statement names a module. -/
theorem namesModules (declared : ofSources order sources = .ok model) (hs : s ∈ model.sources)
    (hd : d ∈ s.root.subtrees) (hkind : d.kind? = some kind)
    (hpath : kind ∈ [Kind.augment, .deviation, .refine]) :
    Forest.NamesModules model s.id d.argumentText := by
  rw [namesModules_iff declared hs]
  simp only [List.mem_cons, List.not_mem_nil, or_false] at hpath
  rcases hpath with rfl | rfl | rfl <;>
    exact takes_of_ofSources declared hs hd hkind (by decide)

/-- The name of a `uses` or `type` statement has a prefix that is bound. -/
theorem hasBoundPrefix (declared : ofSources order sources = .ok model) (hs : s ∈ model.sources)
    (hd : d ∈ s.root.subtrees) (hkind : d.kind? = some kind) (hname : kind ∈ [Kind.uses, .type]) :
    Declaration.HasBoundPrefix s.toLinkedSource d.argumentText := by
  simp only [List.mem_cons, List.not_mem_nil, or_false] at hname
  rcases hname with rfl | rfl <;> exact takes_of_ofSources declared hs hd hkind (by decide)

end DeclaredModel

end YangSchema
