import YangSchema.Proofs.LateErrors
import YangSchema.Proofs.SiblingNames

/-!
# Paths whose modules are known

The `augment` and `deviation` statements at the top of instantiated modules are those of the
sources, with their paths and `deviate` statements as they have been checked
(`Expansion.IsWritten`). Every step of such a path names a module
(`Forest.namesModules_of_instantiated`). At all stages of applying augments and deviations every
module keeps its tree (`Forest.Stage.map_id`), so that a path is at fault only for want of a node
(`Forest.Stage.not_isLate_of_locate`), and where it leads, it leads to a node with a name.

So building a schema from a declared model never ends with an error that comes too late
(`Schema.prefixes_are_settled`).
-/

namespace YangSchema

variable {order : Bool} {sources : List Source} {model : DeclaredModel} {f g : Forest}

/-! ## Following paths -/

namespace Forest

variable {source : SourceId} {path : String} {n x : Node} {step : Step} {steps : List Step}
  {p : List Nat} {fault : PathFault} {t : Target}

/-- Steps that name modules are at fault only where there is no such node. -/
theorem not_isLate_of_follow
    (hsteps : ∀ step ∈ steps, ∃ m ∈ model.modules, stepModule? model source step = some m.id)
    (h : follow model source n steps = .error fault) : ¬ fault.IsLate := by
  induction steps generalizing n with
  | nil => cases h
  | cons step steps ih =>
    obtain ⟨⟨m, _, hm⟩, hrest⟩ := List.forall_mem_cons.1 hsteps
    rw [follow, stepModule, hm] at h
    simp only [bind, Except.bind] at h
    split at h
    · rename_i child _ _
      cases hchild : follow model source child steps with
      | error e =>
        rw [hchild] at h
        cases h
        exact ih hrest hchild
      | ok r =>
        rw [hchild] at h
        cases h
    · cases h
      rintro ⟨⟩

/-- A path whose steps name modules is at fault only if it is malformed or for want of a node, as
long as every module has its tree. -/
theorem not_isLate_of_locate (hids : f.map (·.id) = model.modules.map (·.id))
    (hpath : NamesModules model source path) (h : locate model f source path = .error fault) :
    ¬ fault.IsLate := by
  unfold locate at h
  split at h
  · cases h
    rintro ⟨⟩
  · cases h
    rintro ⟨⟩
  · rename_i first rest hsteps
    rw [NamesModules, ← SchemaPath.steps?_eq_some hsteps] at hpath
    obtain ⟨m, hm, hfirst⟩ := hpath first List.mem_cons_self
    have hmem : m.id ∈ f.map (·.id) := hids ▸ List.mem_map_of_mem hm
    obtain ⟨u, hu, hid⟩ := List.mem_map.1 hmem
    have hroot : (f.root? m.id).isSome = true := by
      unfold root?
      rw [Option.isSome_map, List.find?_isSome]
      exact ⟨u, hu, decide_eq_true hid⟩
    obtain ⟨root, hroot⟩ := Option.isSome_iff_exists.1 hroot
    rw [stepModule, hfirst] at h
    simp only [bind, Except.bind, hroot] at h
    cases hfollow : follow model source root (first :: rest) with
    | error e =>
      rw [hfollow] at h
      cases h
      exact not_isLate_of_follow hpath hfollow
    | ok r =>
      rw [hfollow] at h
      cases h

/-- The last step of a path leads to a node with a name. -/
theorem isSchemaNode_of_follow (h : follow model source n (step :: steps) = .ok (p, x)) :
    Node.isSchemaNode x = true := by
  induction steps generalizing n step p with
  | nil =>
    obtain ⟨m, i, c, q, _, hi, hc, hrest, _⟩ := follow_cons_eq_ok.1 h
    cases hrest
    have hfound : n.children.find? (Node.hasName (m, step.name)) = some x := by
      rw [List.find?_eq_bind_findIdx?_getElem?, hi]
      exact hc
    have hname : Node.hasName (m, step.name) x = true := List.find?_some hfound
    exact (Bool.and_eq_true_iff.1 hname).1
  | cons next steps ih =>
    obtain ⟨_, _, _, _, _, _, _, hrest, _⟩ := follow_cons_eq_ok.1 h
    exact ih hrest

theorem exists_kind_of_locate (h : locate model f source path = .ok t) :
    ∃ kind, Node.kind? t.node = some kind := by
  obtain ⟨step, rest, m, root, _, _, _, hfollow, _⟩ := locate_eq_ok.1 h
  obtain ⟨kind, hkind, _⟩ := (Option.any_eq_true _ _).1 (isSchemaNode_of_follow hfollow)
  exact ⟨kind, hkind⟩

end Forest

/-! ## Statements that are copied as they are -/

namespace Expansion

variable {e : Expansion} {grouping : Site → Building (List Node)} {s : DeclaredSource}
  {addedByUses isMember : Bool} {scope : Scope} {d : Declaration} {n : Node} {nodes : List Node}
  {t u : TypeTable}

/-- A node that a statement of a source has become says what the statement does. -/
structure IsWritten (s : DeclaredSource) (d : Declaration) (n : Node) : Prop where
  source : n.label.source = s.id
  argument : n.label.argument = d.label.argument
  binding : n.label.binding = d.label.binding

/-- What is no content of groupings has not been brought by a `uses`: it is a statement of the list
that is copied, with its substatements. -/
theorem exists_written {p : Binding → Bool} {ds : List Declaration}
    (hgrouping : ∀ site t r, grouping site t = .ok r → ∀ n ∈ r.1, IsBrought e n)
    (h : copyAll e grouping s addedByUses isMember scope p ds t = .ok (nodes, u)) (hn : n ∈ nodes)
    (hcontent : Node.isGroupingContent n.label.binding = false) :
    ∃ d ∈ ds, IsWritten s d n ∧ ∃ abu ism inner v w,
      copyAll e grouping s abu ism inner (fun _ => true) d.children v = .ok (n.children, w) := by
  obtain ⟨d, hd, _, v, w, part, hcopy, hn⟩ := exists_copy_of_mem h hn
  rcases origin_of_copy hgrouping hcopy hn with ⟨_, _, hbrought, _⟩ | ⟨hnot, _⟩
  · rw [hcontent] at hbrought
    cases hbrought
  · obtain ⟨type, x, copied, _, hcopied, rfl⟩ := steps_of_not_uses hnot hcopy
    rw [List.mem_singleton.1 hn]
    exact ⟨d, hd, ⟨rfl, rfl, rfl⟩, _, _, _, _, _, hcopied⟩

end Expansion

namespace Forest

open Expansion (IsWritten)

variable {tree : ModuleTree} {n c : Node} {kind : Kind}

/-- A statement at the top of an instantiated module that is no content of groupings is one of a
source of its family, and so are its substatements of such kinds. -/
theorem exists_written_of_statements (instantiated : Forest.ofModel model = .ok f) (ht : tree ∈ f)
    (hn : n ∈ tree.statements kind) (hkind : Node.isGroupingContent (.builtin kind) = false) :
    ∃ s ∈ model.family tree.id, ∃ d ∈ s.root.children,
      IsWritten s d n ∧ Declaration.kind? d = some kind
      ∧ ∀ c ∈ n.children, Node.isGroupingContent c.label.binding = false →
        ∃ x ∈ d.children, IsWritten s x c := by
  obtain ⟨nodes, u, hnodes, hn, hbinding⟩ :=
    Forest.exists_nodes_of_statements instantiated ht hn
  obtain ⟨parts, v, hparts, hreturn⟩ := Building.bind_eq_ok.1 hnodes
  cases hreturn
  obtain ⟨part, hpart, hn⟩ := List.mem_flatten.1 hn
  obtain ⟨s, hs, w, w', hsource⟩ := Building.exists_of_mem_mapM hparts hpart
  have hbrought (site : Expansion.Site) (t : TypeTable) (r : List Node × TypeTable) :
      Expansion.ofGrouping ⟨model, tree.id⟩ (model.countOfKind .grouping) [] site t = .ok r →
        ∀ n ∈ r.1, Expansion.IsBrought ⟨model, tree.id⟩ n := Expansion.isBrought_of_ofGrouping
  obtain ⟨d, hd, hwritten, _, _, _, _, _, hchildren⟩ :=
    Expansion.exists_written hbrought hsource hn (hbinding ▸ hkind)
  refine ⟨s, hs, d, hd, hwritten, ?_, fun c hc hcontent => ?_⟩
  · exact Declaration.kind?_eq_some_iff.2 (hwritten.binding.symm.trans hbinding)
  · obtain ⟨x, hx, hwritten', _⟩ := Expansion.exists_written hbrought hchildren hc hcontent
    exact ⟨x, hx, hwritten'⟩

/-- Every step of the path of an `augment` or `deviation` names a module. -/
theorem namesModules_of_instantiated
    (declared : DeclaredModel.ofSources order sources = .ok model)
    (instantiated : Forest.ofModel model = .ok f) (ht : tree ∈ f) (hn : n ∈ tree.statements kind)
    (hkind : kind ∈ [Kind.augment, .deviation]) :
    NamesModules model n.label.source (n.label.argument.getD "") := by
  have hstatement : Node.isGroupingContent (.builtin kind) = false
      ∧ kind ∈ [Kind.augment, .deviation, .refine] := by
    simp only [List.mem_cons, List.not_mem_nil, or_false] at hkind
    rcases hkind with rfl | rfl <;> decide
  obtain ⟨s, hs, d, hd, hwritten, hdkind, _⟩ :=
    exists_written_of_statements instantiated ht hn hstatement.1
  rw [hwritten.source, hwritten.argument]
  exact DeclaredModel.namesModules declared (DeclaredModel.mem_of_family hs)
    (Tree.child_mem_subtrees (Tree.mem_subtrees_self _) hd) hdkind hstatement.2

end Forest

/-! ## Stages -/

/-- A stage of applying the augments and deviations of instantiated modules: the trees as they were
instantiated, or what one of the augments or deviations makes of a stage. -/
inductive Forest.Stage (model : DeclaredModel) (f : Forest) : Forest → Prop where
  | instantiated : Stage model f f
  | augment {a : Node} {g h : Forest} : Stage model f g → a ∈ f.flatMap (·.statements .augment) →
    Augmentation.attempt model g a = .ok (.ok h) → Stage model f h
  | deviation {d : Node} {g h : Forest} : Stage model f g →
    d ∈ f.flatMap (·.statements .deviation) → Deviation.apply model g d = .ok h → Stage model f h

theorem Deviation.map_id_of_apply {d : Node} {h : Forest} (happly : apply model g d = .ok h) :
    h.map (·.id) = g.map (·.id) := by
  obtain ⟨t, _, happly⟩ := Result.bind_eq_ok.1 happly
  split at happly
  · cases happly
  · obtain ⟨ds, _, happly⟩ := Result.bind_eq_ok.1 happly
    split at happly
    · split at happly
      · cases happly
      · cases happly
        exact Forest.map_id_update
    · obtain ⟨n, _, hreturn⟩ := Result.bind_eq_ok.1 happly
      cases hreturn
      exact Forest.map_id_update

/-- Every module keeps its tree. -/
theorem Forest.Stage.map_id (hg : Stage model f g) : g.map (·.id) = f.map (·.id) := by
  induction hg with
  | instantiated => rfl
  | augment _ _ happly ih => exact (Augmentation.map_id_of_attempt happly).trans ih
  | deviation _ _ happly ih => exact (Deviation.map_id_of_apply happly).trans ih

/-- At every stage the path of an `augment` or `deviation` is at fault only if it is malformed or
for want of a node. -/
theorem Forest.Stage.not_isLate_of_locate (hg : Stage model f g)
    (declared : DeclaredModel.ofSources order sources = .ok model)
    (instantiated : Forest.ofModel model = .ok f) {kind : Kind} {n : Node}
    (hkind : kind ∈ [Kind.augment, .deviation]) (hn : n ∈ f.flatMap (·.statements kind))
    {fault : PathFault}
    (h : locate model g n.label.source (n.label.argument.getD "") = .error fault) :
    ¬ fault.IsLate := by
  obtain ⟨tree, ht, hn⟩ := List.mem_flatMap.1 hn
  exact Forest.not_isLate_of_locate (hg.map_id.trans (Augmentation.map_id_of_ofModel instantiated))
    (namesModules_of_instantiated declared instantiated ht hn hkind) h

/-! ## Augments -/

namespace Augmentation

open Forest (Stage)
open Result (FailsWith)

variable {a : Node} {as : List Node} {h : Forest} {next : SourceId → List SourceId}
  {waiting : List PendingModule}

theorem splice_isTimely (a n : Node) : FailsWith (Error.IsTimely model) (splice a n) := by
  unfold splice
  split
  · rintro e ⟨⟩ ⟨⟩
  · split
    · rintro e ⟨⟩ ⟨⟩
    · exact .ok _

/-- Applying an augment at any stage ends with no late error. -/
theorem applyOne_isTimely (declared : DeclaredModel.ofSources order sources = .ok model)
    (instantiated : Forest.ofModel model = .ok f) (hg : Stage model f g)
    (ha : a ∈ f.flatMap (·.statements .augment)) :
    FailsWith (Error.IsTimely model) (applyOne model g a) := by
  have htried : FailsWith (Error.IsTimely model) (attempt model g a) := by
    unfold attempt
    split
    · exact .ok _
    · exact (splice_isTimely a _).bind fun _ => .ok _
  refine htried.bind_of_ok fun tried h => ?_
  cases tried with
  | ok g => exact .ok g
  | error fault =>
    unfold attempt at h
    split at h
    · rename_i hlocate
      cases h
      rintro e ⟨⟩ (_ | hlate)
      exact hg.not_isLate_of_locate declared instantiated (by decide) ha hlocate hlate
    · obtain ⟨_, _, h⟩ := Result.bind_eq_ok.1 h
      cases h

theorem applyModule_isTimely (declared : DeclaredModel.ofSources order sources = .ok model)
    (instantiated : Forest.ofModel model = .ok f) (hg : Stage model f g)
    (has : ∀ a ∈ as, a ∈ f.flatMap (·.statements .augment)) :
    FailsWith (Error.IsTimely model) (applyModule model g as) := by
  obtain ⟨xs, hperm, hrun⟩ := exists_applyInTurn_eq model g as
  rw [← hrun]
  refine FailsWith.foldlM_of_invariant (Q := Stage model f) (fun a ha k hk => ?_) hg
  have ha := has a (hperm.mem_iff.1 ha)
  exact ⟨applyOne_isTimely declared instantiated hk ha,
    fun h hh => .augment hk ha (applyOne_eq_ok_iff_attempt.1 hh)⟩

theorem stage_of_applyModule (hg : Stage model f g)
    (has : ∀ a ∈ as, a ∈ f.flatMap (·.statements .augment))
    (happly : applyModule model g as = .ok h) : Stage model f h := by
  obtain ⟨xs, hperm, hrun⟩ := exists_applyInTurn_eq model g as
  refine Result.foldlM_invariant_of_mem (P := Stage model f) ?_ hg (hrun.trans happly)
  intro a ha k l hk hl
  exact .augment hk (has a (hperm.mem_iff.1 ha)) (applyOne_eq_ok_iff_attempt.1 hl)

theorem applyRounds_isTimely (declared : DeclaredModel.ofSources order sources = .ok model)
    (instantiated : Forest.ofModel model = .ok f) (hg : Stage model f g)
    (hwaiting : ∀ m ∈ waiting, ∀ a ∈ m.augments, a ∈ f.flatMap (·.statements .augment)) :
    FailsWith (Error.IsTimely model) (applyRounds model next g waiting) := by
  fun_induction applyRounds model next g waiting with
  | case1 g => exact .ok g
  | case2 => rintro e ⟨⟩ ⟨⟩
  | case3 g waiting _ _ ih =>
    have hready (m : PendingModule) (hm : m ∈ ready next waiting) :=
      hwaiting m (List.mem_filter.1 hm).1
    refine (FailsWith.foldlM_of_invariant (Q := Stage model f) (fun m hm k hk => ?_) hg).bind_of_ok
      fun k hk => ?_
    · exact ⟨applyModule_isTimely declared instantiated hk (hready m hm),
        fun l hl => stage_of_applyModule hk (hready m hm) hl⟩
    · refine ih k ?_ fun m hm => hwaiting m (List.mem_filter.1 hm).1
      exact Result.foldlM_invariant_of_mem (P := Stage model f)
        (fun m hm k l hk hl => stage_of_applyModule hk (hready m hm) hl) hg hk

/-- Applying all augments ends with no late error. -/
theorem applyAll_isTimely (declared : DeclaredModel.ofSources order sources = .ok model)
    (instantiated : Forest.ofModel model = .ok f) :
    FailsWith (Error.IsTimely model) (applyAll model f) := by
  have hcheck : FailsWith (Error.IsTimely model) (checkCycles f (dependenciesOf model f)) := by
    unfold checkCycles
    split
    · exact .ok _
    · rintro e ⟨⟩ ⟨⟩
  rw [applyAll_eq]
  refine hcheck.bind fun _ => applyRounds_isTimely declared instantiated .instantiated ?_
  intro m hm a ha
  obtain ⟨t, ht, rfl, _⟩ := mem_pendingModules_iff.1 hm
  exact List.mem_flatMap.2 ⟨t, ht, ha⟩

/-- What all augments make of the instantiated modules is a stage. -/
theorem stage_of_applyAll (distinct : (f.map (·.id)).Nodup) (happly : applyAll model f = .ok g) :
    Stage model f g := by
  obtain ⟨xs, hperm, hrun⟩ := exists_applyInTurn_of_applyAll distinct happly
  refine Result.foldlM_invariant_of_mem (P := Stage model f) ?_ .instantiated hrun
  intro a ha k l hk hl
  exact .augment hk (hperm.mem_iff.1 ha) (applyOne_eq_ok_iff_attempt.1 hl)

end Augmentation

/-! ## Deviations -/

namespace Deviation

open Result (FailsWith)

variable {d : Node}

theorem applyProperty_isTimely (d : Node) (deviate : Deviate) (targetKind : Kind)
    (target property : Node) :
    FailsWith (Error.IsTimely model) (applyProperty d deviate targetKind target property) := by
  unfold applyProperty
  split
  · exact .ok _
  · split
    · rintro e ⟨⟩ ⟨⟩
    · cases deviate with
      | notSupported => exact .ok _
      | add =>
        dsimp only [added]
        split
        · rintro e ⟨⟩ ⟨⟩
        · exact .ok _
      | replace =>
        dsimp only [replaced]
        split
        · exact .ok _
        · rintro e ⟨⟩ ⟨⟩
      | delete =>
        dsimp only [deleted]
        split
        · exact .ok _
        · rintro e ⟨⟩ ⟨⟩

/-- The `deviate` statements of an instantiated module are of the known sorts. -/
theorem exists_deviates (declared : DeclaredModel.ofSources order sources = .ok model)
    (instantiated : Forest.ofModel model = .ok f)
    (hd : d ∈ f.flatMap (·.statements .deviation)) : ∃ ds, deviates d = .ok ds := by
  obtain ⟨tree, ht, hd⟩ := List.mem_flatMap.1 hd
  obtain ⟨s, hs, x, hx, _, _, hchildren⟩ :=
    Forest.exists_written_of_statements instantiated ht hd (by decide)
  refine Result.exists_mapM_eq_ok.2 fun n hn => ?_
  obtain ⟨hn, hkind⟩ := List.mem_filter.1 hn
  have hbinding : n.label.binding = .builtin .deviate :=
    Binding.kind?_eq_some_iff.1 (beq_iff_eq.1 hkind)
  obtain ⟨y, hy, hwritten⟩ := hchildren n hn (by rw [hbinding]; decide)
  have hdeviate := DeclaredModel.takes_of_ofSources declared (DeclaredModel.mem_of_family hs)
    (Tree.child_mem_subtrees (Tree.child_mem_subtrees (Tree.mem_subtrees_self _) hx) hy)
    (Declaration.kind?_eq_some_iff.2 (hwritten.binding.symm.trans hbinding)) (by decide)
  have hread : ∃ deviate, Deviate.ofString? (y.label.argument.getD "") = some deviate := by
    rcases hdeviate with h | h | h | h <;> rw [Declaration.argumentText] at h <;> rw [h]
    · exact ⟨.notSupported, by decide⟩
    · exact ⟨.add, by decide⟩
    · exact ⟨.replace, by decide⟩
    · exact ⟨.delete, by decide⟩
  obtain ⟨deviate, hread⟩ := hread
  rw [← hwritten.argument] at hread
  refine ⟨(deviate, n), ?_⟩
  dsimp only
  rw [hread]

theorem target_isTimely (declared : DeclaredModel.ofSources order sources = .ok model)
    (instantiated : Forest.ofModel model = .ok f) (hg : Forest.Stage model f g)
    (hd : d ∈ f.flatMap (·.statements .deviation)) :
    FailsWith (Error.IsTimely model) (target model g d) := by
  unfold target
  split
  · exact .ok _
  · rename_i hlocate
    rintro e ⟨⟩ (_ | _ | hlate)
    exact hg.not_isLate_of_locate declared instantiated (by decide) hd hlocate hlate

theorem target_eq_ok {t : Target} : target model g d = .ok t
    ↔ Forest.locate model g d.label.source (d.label.argument.getD "") = .ok t := by
  unfold target
  split <;> simp_all

/-- The target of a deviation has a kind. -/
theorem exists_kind_of_target {t : Target} (h : target model g d = .ok t) :
    ∃ kind, Node.kind? t.node = some kind := Forest.exists_kind_of_locate (target_eq_ok.1 h)

/-- Applying a deviation at any stage ends with no late error. -/
theorem apply_isTimely (declared : DeclaredModel.ofSources order sources = .ok model)
    (instantiated : Forest.ofModel model = .ok f) (hg : Forest.Stage model f g)
    (hd : d ∈ f.flatMap (·.statements .deviation)) :
    FailsWith (Error.IsTimely model) (apply model g d) := by
  obtain ⟨ds, hds⟩ := exists_deviates declared instantiated hd
  refine (target_isTimely declared instantiated hg hd).bind_of_ok fun t htarget => ?_
  obtain ⟨targetKind, hkind⟩ := exists_kind_of_target htarget
  rw [hkind]
  dsimp only
  rw [hds]
  show FailsWith _ (if _ then _ else _)
  split
  · split
    · rintro e ⟨⟩ ⟨⟩
    · exact .ok _
  · refine FailsWith.bind ?_ fun _ => .ok _
    exact FailsWith.foldlM (fun n (deviate : Deviate × Node) =>
      FailsWith.foldlM (fun n p => applyProperty_isTimely d deviate.1 targetKind n p) _ n) _ _

/-- What all deviations make of a stage is a stage. -/
theorem stage_of_applyAll (hg : Forest.Stage model f g)
    (hsame : g.flatMap (·.statements .deviation) = f.flatMap (·.statements .deviation))
    {h : Forest} (happly : applyAll model g = .ok h) : Forest.Stage model f h := by
  unfold applyAll at happly
  rw [hsame] at happly
  exact Result.foldlM_invariant_of_mem (P := Forest.Stage model f)
    (fun d hd k l hk hl => .deviation hk hd hl) hg happly

/-- What instantiating, augmenting and deviating make of the modules is a stage. -/
theorem stage_of_ofModel {k : Forest} (declared : DeclaredModel.ofSources order sources = .ok model)
    (instantiated : Forest.ofModel model = .ok f)
    (haugments : Augmentation.applyAll model f = .ok g) (hdeviations : applyAll model g = .ok k) :
    g.flatMap (·.statements .deviation) = f.flatMap (·.statements .deviation)
      ∧ Forest.Stage model f k := by
  have distinct := Augmentation.nodup_of_ofModel declared instantiated
  have hsame : g.flatMap (·.statements .deviation) = f.flatMap (·.statements .deviation) :=
    Augmentation.statements_of_applyAll rfl distinct haugments
  exact ⟨hsame, stage_of_applyAll (Augmentation.stage_of_applyAll distinct haugments) hsame
    hdeviations⟩

/-- Applying all deviations ends with no late error. -/
theorem applyAll_isTimely (declared : DeclaredModel.ofSources order sources = .ok model)
    (instantiated : Forest.ofModel model = .ok f)
    (haugment : Augmentation.applyAll model f = .ok g) :
    FailsWith (Error.IsTimely model) (applyAll model g) := by
  have distinct := Augmentation.nodup_of_ofModel declared instantiated
  unfold applyAll
  rw [Augmentation.statements_of_applyAll rfl distinct haugment]
  refine FailsWith.foldlM_of_invariant (Q := Forest.Stage model f) (fun d hd h hh => ?_)
    (Augmentation.stage_of_applyAll distinct haugment)
  exact ⟨apply_isTimely declared instantiated hh hd, fun k hk => .deviation hh hd hk⟩

end Deviation

/-! ## Building a schema -/

namespace Schema

/-- A schema is what instantiating, augmenting and deviating make of the modules. -/
theorem ofModel_eq_ok {schema : Schema} : ofModel model = .ok schema
    ↔ ∃ f g k, Forest.ofModel model = .ok f ∧ Augmentation.applyAll model f = .ok g
      ∧ Deviation.applyAll model g = .ok k ∧ schema = ofForest model k := by
  unfold ofModel
  simp only [Result.bind_eq_ok, exists_and_left]
  constructor
  · rintro ⟨f, hf, g, hg, k, hk, hreturn⟩
    exact ⟨f, hf, g, hg, k, hk, (Except.ok.inj hreturn).symm⟩
  · rintro ⟨f, hf, g, hg, k, hk, rfl⟩
    exact ⟨f, hf, g, hg, k, hk, rfl⟩

/-- **Later phases meet no unknown prefix and no missing module.**

* On every text, the steps of a path are those that the check sees, but for the empty ones; they are
  the steps that are followed.
* In every source, whatever the text, the check lets a path pass exactly if all of these steps name
  modules of the model, and a name exactly if it is looked up in a module of the model, whatever the
  scope. The names of all `uses` and `type` statements are.
* At every stage of applying the augments and deviations of instantiated modules their paths are at
  fault only if malformed or for want of a node, and no deviation fails for a `deviate` of no known
  sort or a target that has no name.
* Building the schema ends with no error of these sorts, and with no name that is unresolved for its
  prefix. -/
theorem prefixes_are_settled (declared : DeclaredModel.ofSources order sources = .ok model) :
    (∀ path, SchemaPath.stepsOf path
          = ((Declaration.pathSteps path).filter (· != "")).map Step.ofString
        ∧ ∀ absolute steps, SchemaPath.steps? absolute path = some steps →
          steps = SchemaPath.stepsOf path)
      ∧ (∀ s ∈ model.sources,
          (∀ d path, ∀ kind ∈ [Kind.augment, .deviation, .refine],
            Declaration.checkArgumentText s.toLinkedSource d kind path = .ok ()
              ↔ Forest.NamesModules model s.id path)
          ∧ (∀ d name, ∀ kind ∈ [Kind.uses, .type],
            Declaration.checkArgumentText s.toLinkedSource d kind name = .ok ()
              ↔ s.LooksUp model name)
          ∧ ∀ d ∈ s.root.subtrees, ∀ kind ∈ [Kind.uses, .type], Declaration.kind? d = some kind →
            s.LooksUp model (Declaration.argumentText d))
      ∧ (∀ f g, Forest.ofModel model = .ok f → Forest.Stage model f g →
          (∀ kind ∈ [Kind.augment, .deviation], ∀ n ∈ f.flatMap (·.statements kind),
            Forest.NamesModules model n.label.source (n.label.argument.getD "")
            ∧ ∀ fault, Forest.locate model g n.label.source (n.label.argument.getD "")
              = .error fault → ¬ fault.IsLate)
          ∧ ∀ d ∈ f.flatMap (·.statements .deviation), ∀ e, Deviation.apply model g d = .error e →
            ¬ e.IsLate model)
      ∧ ∀ e, Schema.ofModel model = .error e → ¬ e.IsLate model := by
  refine ⟨fun path => ⟨SchemaPath.stepsOf_eq_pathSteps path, fun _ _ => SchemaPath.steps?_eq_some⟩,
    fun s hs => ⟨fun d path kind hkind => ?_, fun d name kind hkind => ?_,
      fun d hd kind hkind hdkind => ?_⟩,
    fun f g instantiated hg => ⟨fun kind hkind n hn => ⟨?_, fun fault h => ?_⟩, fun d hd => ?_⟩, ?_⟩
  · rw [Declaration.checkArgumentText_eq_ok, DeclaredModel.namesModules_iff declared hs]
    simp only [List.mem_cons, List.not_mem_nil, or_false] at hkind
    rcases hkind with rfl | rfl | rfl <;> rfl
  · rw [Declaration.checkArgumentText_eq_ok, DeclaredModel.looksUp_iff declared hs]
    simp only [List.mem_cons, List.not_mem_nil, or_false] at hkind
    rcases hkind with rfl | rfl <;> rfl
  · rw [DeclaredModel.looksUp_iff declared hs]
    exact DeclaredModel.hasBoundPrefix declared hs hd hdkind hkind
  · obtain ⟨tree, ht, hn⟩ := List.mem_flatMap.1 hn
    exact Forest.namesModules_of_instantiated declared instantiated ht hn hkind
  · exact hg.not_isLate_of_locate declared instantiated hkind hn h
  · exact Deviation.apply_isTimely declared instantiated hg hd
  · have hall : (Schema.ofModel model).FailsWith (Error.IsTimely model) := by
      refine (Forest.ofModel_isTimely declared).bind_of_ok fun f instantiated => ?_
      refine (Augmentation.applyAll_isTimely declared instantiated).bind_of_ok fun g haugment => ?_
      exact (Deviation.applyAll_isTimely declared instantiated haugment).bind fun _ => .ok _
    exact hall

/-- A module with a container, and one that adds to it, by a path with blanks and empty steps, and
deviates from what is not there. -/
def spacedPaths : List Source :=
  [.bareModule "a" [.bare "container" "c" []],
    .bareModule "b" [.bare "import" "a" [.bare "prefix" "p" []],
      .bare "augment" " // p:c/ " [.bare "leaf" "x" [.bare "type" "string" []]],
      .bare "deviation" "/p:c/y" [.bare "deviate" "not-supported" []]]]

/-- Their declared model. -/
def spacedModel : DeclaredModel := .ofLinkage DeclaredModel.augmentedLinkage spacedPaths

/-- What is evaluated of it: the sources can be declared and instantiated, with the path of the
augment, but no schema can be built. -/
theorem evaluated_spacedPaths :
    DeclaredModel.canDeclare DeclaredModel.augmentedLinkage spacedPaths = true
      ∧ ((Forest.ofModel spacedModel).toOption.map fun f =>
        (f.flatMap (·.statements .augment)).map fun a =>
          SchemaPath.stepsOf (a.label.argument.getD "")) = some [[⟨some "p", "c"⟩]]
      ∧ (Schema.ofModel spacedModel).toBool = false := by
  decide +kernel

theorem ofSources_spacedPaths : DeclaredModel.ofSources true spacedPaths = .ok spacedModel :=
  DeclaredModel.ofSources_eq_ofLinkage (by cbv) rfl (by cbv) evaluated_spacedPaths.1

/-- The path of the augment names the module of the container. The schema cannot be built, but for
the node that is missing, and not for its prefix. -/
theorem prefixes_are_settled_spaced : ∃ f e, Forest.ofModel spacedModel = .ok f
    ∧ (∃ a ∈ f.flatMap (·.statements .augment),
      SchemaPath.stepsOf (a.label.argument.getD "") = [⟨some "p", "c"⟩]
        ∧ Forest.NamesModules spacedModel a.label.source (a.label.argument.getD ""))
    ∧ Schema.ofModel spacedModel = .error e ∧ ¬ e.IsLate spacedModel := by
  obtain ⟨-, hforest, hfails⟩ := evaluated_spacedPaths
  obtain ⟨f, hf, haugments⟩ := Option.map_eq_some_iff.1 hforest
  have instantiated := Result.eq_ok_of_toOption hf
  obtain ⟨a, heq, hsteps⟩ := List.map_eq_singleton_iff.1 haugments
  have ha : a ∈ f.flatMap (·.statements .augment) := heq ▸ List.mem_singleton_self a
  obtain ⟨_, _, hpaths, hrun⟩ := prefixes_are_settled ofSources_spacedPaths
  cases hbuilt : Schema.ofModel spacedModel with
  | ok schema =>
    rw [hbuilt] at hfails
    cases hfails
  | error e =>
    exact ⟨f, e, instantiated, ⟨a, ha, hsteps,
      ((hpaths f f instantiated .instantiated).1 .augment (by decide) a ha).1⟩, rfl, hrun e hbuilt⟩

end Schema

end YangSchema
