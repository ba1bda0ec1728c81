import YangSchema.Proofs.Sites
import YangSchema.Proofs.TypeMemo

/-!
# Cycles of typedefs

One typedef refers to another if its `type` statement names it, or a member type in that, at any
depth (`EffectiveType.TypeRefers`). `typedef_resolution` says of every call that resolves a `type`
statement in the course of instantiating a module, and be it that this fails later on:

* it ends, which is to say that it does not matter what would be done when the depth is used up, and
  leaves the typedefs that are being resolved as they were, whether it succeeds or fails;
* if it succeeds, no typedef to which references lead from the statement lies on a cycle;
* if it reports a cycle, the names that it reports are those of one.

This is said for the case that no submodule is in the families of two modules.
-/

namespace YangSchema

open Relation
open EffectiveType (InType Names TypeRefers)
open TypeResolver (Action Holds)

namespace Expansion

variable {order : Bool} {sources : List Source} {model : DeclaredModel} {e : Expansion} {k : Manner}
  {c : TypeCall} {d x : Declaration} {g h : Definition} {t u : TypeTable}
  {type : EffectiveType} {source : SourceId} {location : Location} {names : List String}

/-- Names are those of typedefs each of which refers to the next one, and the last of which is the
first one again. -/
def IsTypeCycle (model : DeclaredModel) (names : List String) : Prop :=
  ∃ first middle, names = (first :: (middle ++ [first])).map Definition.qualifiedName
    ∧ (first :: (middle ++ [first])).IsChain (TypeRefers model)

/-! ## What has been resolved lies on no cycle -/

/-- Where a `type` statement has been resolved, no references lead back to a typedef to which they
lead from the statement. -/
theorem Resolves.acyclic (once : SeenOnce e)
    (declared : DeclaredModel.ofSources order sources = .ok e.model) (hc : Resolves e c d t)
    (hok : c.run e d t = .ok (type, u)) (hx : InType d x)
    (hnames : Names e.model c.source c.scope x g)
    (hpath : ReflTransGen (TypeRefers e.model) g h) : ¬ TransGen (TypeRefers e.model) h h := by
  obtain ⟨hd, htype⟩ := hc.processed
  have hu : Grounded e u := Grounded.ofDeclaration hd htype _ _ t type u hc.grounded hok
  obtain ⟨hh, known, hknown⟩ :=
    hu.reaches once declared (hc.typedefOf hx hnames) (EffectiveType.known_of_names hok hx hnames)
      hpath
  exact fun hcycle => hu.key_ne_of_transGen once declared hh hknown hcycle rfl

/-! ## What is reported is a cycle -/

/-- What a typedef reports as a cycle is one, if each of the typedefs that are being resolved refers
to the next one. -/
theorem isTypeCycle_of_ofDefinition_error (once : SeenOnce e)
    (declared : DeclaredModel.ofSources order sources = .ok e.model) {depth : Nat}
    {gs : List Definition} (hchain : (gs ++ [g]).IsChain (TypeRefers e.model))
    (htypedefs : ∀ x ∈ gs, TypedefOf e x) (hg : TypedefOf e g)
    (hp : Definition.Stacked e.model .typedef (gs.map entry))
    (hdepth : e.model.countOfKind .typedef ≤ depth + gs.length)
    (herror : EffectiveType.ofDefinition e.model depth (gs.map entry) g t
      = .error (.typeCycle source location names)) : IsTypeCycle e.model names := by
  induction depth using Nat.strongRecOn generalizing gs g t with
  | ind depth ih =>
    obtain ⟨_, ⟨hpending, hcycle⟩ | ⟨hnot, n, rfl, hfails⟩⟩ :=
      EffectiveType.ofDefinition_eq_error herror
    · have hpending : g.isPending (gs.map entry) = true :=
        hpending.elim id fun hzero =>
          hp.isPending_of_full (hg.valid declared) (by rw [List.length_map]; omega)
      obtain ⟨first, middle, hfirst, hkey, hnames, hcycles⟩ :=
        Definition.exists_cycle hchain hpending
      obtain rfl := once.eq declared (htypedefs first hfirst) hg hkey
      cases hcycle
      exact ⟨first, middle, hnames, hcycles⟩
    · rcases hfails with hx | ⟨x, hx, hfails⟩
      · unfold EffectiveType.typeStatement at hx
        split at hx <;> cases hx
      · -- the typedef is entered, and one that its statement names reports the cycle
        obtain ⟨y, h, v, hy, hnames, herror⟩ := EffectiveType.exists_names_of_typeCycle hfails
        have href : TypeRefers e.model g h := ⟨x, y, hx, hy, hnames⟩
        have hmap : gs.map entry ++ [entry g] = (gs ++ [g]).map entry := by
          rw [List.map_append]
          rfl
        change EffectiveType.ofDefinition e.model n (gs.map entry ++ [entry g]) h v = _ at herror
        rw [hmap] at herror
        refine ih n (Nat.lt_succ_self n) ?_ ?_ (hg.refers href) ?_ ?_ herror
        · rw [List.append_assoc, List.singleton_append, List.isChain_append_cons_cons]
          exact ⟨hchain, href, .singleton h⟩
        · exact List.forall_mem_append.2 ⟨htypedefs, List.forall_mem_singleton.2 hg⟩
        · rw [← hmap]
          exact hp.push (hg.valid declared) hnot
        · rw [List.length_append, List.length_singleton]
          omega

/-- What a call reports as a cycle is one. -/
theorem Resolves.isTypeCycle (once : SeenOnce e)
    (declared : DeclaredModel.ofSources order sources = .ok e.model) (hc : Resolves e c d t)
    (herror : c.run e d t = .error (.typeCycle source location names)) :
    IsTypeCycle e.model names := by
  obtain ⟨x, g, v, hx, hg, herror⟩ := EffectiveType.exists_names_of_typeCycle herror
  obtain ⟨gs, hpending, htypedefs, hchain⟩ := hc.exists_trail
  obtain ⟨hstacked, hdepth⟩ := hc.stacked declared
  rw [hpending] at hstacked hdepth herror
  rw [List.length_map] at hdepth
  exact isTypeCycle_of_ofDefinition_error once declared (hchain x g hx hg) htypedefs
    (hc.typedefOf hx hg) hstacked (Nat.le_of_eq hdepth.symm) herror

/-! ## Where a module cannot be instantiated -/

namespace Copies

/-- Expanding a grouping reports a cycle of typedefs at the content of the grouping. -/
theorem content_of_typeCycle (h : Copies e k d t) (huses : IsUses d)
    (hresolve : Definition.resolve e.model k.source .grouping d.label k.scope = .ok g)
    (herror : e.ofGrouping k.depth k.pending ⟨k.source.id, d.label.location, g⟩ t
      = .error (.typeCycle source location names)) :
    ∃ depth c u, k.depth = depth + 1 ∧ Copies e (k.content depth g) c u
      ∧ (k.content depth g).copy e c u = .error (.typeCycle source location names) := by
  have hnot : ¬ g.isPending k.pending = true := by
    intro hpending
    rw [ofGrouping_of_pending hpending] at herror
    cases herror
  cases hdepth : k.depth with
  | zero =>
    rw [hdepth] at herror
    cases herror
  | succ depth =>
    rw [hdepth, ofGrouping_succ hnot] at herror
    obtain ⟨c, u, hcomes, herror⟩ := exists_comes_of_copyAll_error herror
    exact ⟨depth, c, u, rfl, .content h huses hresolve hdepth hnot hcomes, herror⟩

/-- Copying a `uses` reports a cycle of typedefs where it expands the grouping, or at the content of
an `augment`. -/
theorem content_or_added_of_typeCycle (h : Copies e k d t) (huses : IsUses d)
    (herror : k.copy e d t = .error (.typeCycle source location names)) :
    (∃ g depth c u, k.depth = depth + 1 ∧ Copies e (k.content depth g) c u
        ∧ (k.content depth g).copy e c u = .error (.typeCycle source location names))
      ∨ ∃ a ∈ d.children, ∃ c ∈ a.children, ∃ u, Copies e (k.added a) c u
        ∧ (k.added a).copy e c u = .error (.typeCycle source location names) := by
  unfold Manner.copy at herror
  rw [copy_of_uses huses] at herror
  rcases Building.bind_eq_error.1 herror with herror | ⟨g, _, hlift, herror⟩
  · have hunresolved := Building.lift_eq_error.1 herror
    unfold Definition.resolve at hunresolved
    dsimp only at hunresolved
    split at hunresolved <;> cases hunresolved
  obtain ⟨hresolve, rfl⟩ := Building.lift_eq_ok.1 hlift
  rcases Building.bind_eq_error.1 herror with herror | ⟨brought, v, hbrought, herror⟩
  · exact .inl ⟨g, h.content_of_typeCycle huses hresolve herror⟩
  rcases Building.bind_eq_error.1 herror with herror | ⟨refined, _, hlift, herror⟩
  · cases refineAll_failsWith _ _ _ _ (Building.lift_eq_error.1 herror)
  obtain ⟨hrefined, rfl⟩ := Building.lift_eq_ok.1 hlift
  rw [augmentAll_eq] at herror
  obtain ⟨a, changed, w, hfrom, herror⟩ := Building.comesFrom_of_error herror
  rcases Building.bind_eq_error.1 herror with herror | ⟨target, _, hlift, herror⟩
  · cases augmentTarget_failsWith _ _ _ _ (Building.lift_eq_error.1 herror)
  obtain ⟨htarget, rfl⟩ := Building.lift_eq_ok.1 hlift
  rcases Building.bind_eq_error.1 herror with herror | ⟨added, _, _, herror⟩
  · obtain ⟨c, u, hcomes, herror⟩ := exists_comes_of_copyAll_error herror
    exact .inr ⟨a, (List.mem_filter.1 hfrom.mem).1, c, (List.mem_filter.1 hcomes.mem).1, u,
      .added h huses hresolve hbrought hrefined hfrom htarget hcomes, herror⟩
  rcases Building.bind_eq_error.1 herror with herror | ⟨_, _, _, herror⟩
  · cases augment_failsWith _ _ _ _ _ _ (Building.lift_eq_error.1 herror)
  · cases herror

/-- Copying what is no `uses` reports a cycle of typedefs where it resolves a `type` statement, or
at a substatement. -/
theorem call_or_under_of_typeCycle (h : Copies e k d t) (hnot : ¬ IsUses d)
    (herror : k.copy e d t = .error (.typeCycle source location names)) :
    (Resolves e (.outermost e k) d t
        ∧ (TypeCall.outermost e k).run e d t = .error (.typeCycle source location names))
      ∨ ∃ c ∈ d.children, ∃ u, Copies e (k.below d) c u
        ∧ (k.below d).copy e c u = .error (.typeCycle source location names) := by
  unfold Manner.copy at herror
  rw [copy_of_not_uses hnot] at herror
  rcases Building.bind_eq_error.1 herror with herror | ⟨type, v, htype, herror⟩
  · unfold typeOf at herror
    split at herror
    · rename_i htype
      rw [Bool.and_eq_true, Bool.not_eq_true'] at htype
      rcases Building.bind_eq_error.1 herror with herror | ⟨_, _, _, herror⟩
      · exact .inl ⟨.copied h htype.1 htype.2, herror⟩
      · cases herror
    · cases herror
  rcases Building.bind_eq_error.1 herror with herror | ⟨_, _, _, herror⟩
  · obtain ⟨c, u, hcomes, herror⟩ := exists_comes_of_copyAll_error herror
    rw [List.filter_true] at hcomes
    exact .inr ⟨c, hcomes.mem, u, .under h hnot htype hcomes, herror⟩
  · cases herror

/-- A cycle of typedefs for which a statement cannot be copied has been reported by a call. -/
theorem exists_call_of_typeCycle (h : Copies e k d t)
    (herror : k.copy e d t = .error (.typeCycle source location names)) :
    ∃ c x u, Resolves e c x u
      ∧ c.run e x u = .error (.typeCycle source location names) := by
  induction k, d using Manner.induct generalizing t with
  | step k d ihcontent ihbelow ihadded =>
    by_cases huses : IsUses d
    · rcases h.content_or_added_of_typeCycle huses herror with
        ⟨g, n, c, u, hn, hcopies, herror⟩ | ⟨a, ha, c, hc, u, hcopies, herror⟩
      · exact ihcontent n g c hn hcopies herror
      · exact ihadded a ha c hc hcopies herror
    · rcases h.call_or_under_of_typeCycle huses herror with hcall | ⟨c, hc, u, hcopies, herror⟩
      · exact ⟨_, d, t, hcall⟩
      · exact ihbelow c hc hcopies herror

end Copies

/-- A cycle of typedefs for which a module cannot be instantiated has been reported by a call. -/
theorem exists_call_of_nodes_error
    (herror : e.nodes [] = .error (.typeCycle source location names)) :
    ∃ c x u, Resolves e c x u
      ∧ c.run e x u = .error (.typeCycle source location names) := by
  rcases Building.bind_eq_error.1 herror with herror | ⟨_, _, _, herror⟩
  · obtain ⟨s, t, hsource, herror⟩ := Building.comes_of_error herror
    obtain ⟨d, u, hcomes, herror⟩ := exists_comes_of_copyAll_error herror
    exact Copies.exists_call_of_typeCycle (.top hsource hcomes) herror
  · cases herror

/-! ## Resolving typedefs -/

/-- Every call that resolves a `type` statement while a module is instantiated ends and restores the
typedefs that are being resolved; it succeeds only if no typedef that is reached lies on a cycle,
and reports only cycles, as then does the instantiation of the module. -/
theorem typedef_resolution (declared : DeclaredModel.ofSources order sources = .ok model)
    (unshared : model.Unshared) (m : DeclaredSource) :
    (∀ c d t, Resolves ⟨model, m.id⟩ c d t → ∀ (deeper : Definition → Action EffectiveType) depth,
      model.countOfKind .typedef < depth + c.pending.length → ∃ result r,
        (TypeResolver.ofDeclaration model (TypeResolver.typedef model deeper depth) c.source c.scope
          d).outcome ⟨t, c.pending⟩ = (result, r)
        ∧ result = (c.run ⟨model, m.id⟩ d t).map (·.1) ∧ r.inProgress = c.pending
        ∧ (∀ type, result = .ok type → c.run ⟨model, m.id⟩ d t = .ok (type, r.resolved)
          ∧ ∀ x g h, InType d x → Names model c.source c.scope x g →
            ReflTransGen (TypeRefers model) g h → ¬ TransGen (TypeRefers model) h h)
        ∧ ∀ source location names, result = .error (.typeCycle source location names) →
          IsTypeCycle model names)
      ∧ ∀ source location names,
        ModuleTree.ofModule model m = .error (.typeCycle source location names) →
          IsTypeCycle model names := by
  have once := unshared.seenOnce declared m.id
  constructor
  · intro c d t hc deeper depth hdepth
    obtain ⟨hstacked, hcount⟩ := hc.stacked declared
    have hsimulates := TypeResolver.simulates_resolve deeper hstacked hdepth
      (Nat.le_of_eq hcount.symm) fun x g hx hg => (hc.typedefOf hx hg).valid declared
    cases hrun : c.run ⟨model, m.id⟩ d t with
    | ok r =>
      obtain ⟨type, u⟩ := r
      obtain ⟨_, houtcome, rfl⟩ := hsimulates.follows t ⟨t, c.pending⟩ type u rfl hrun
      refine ⟨_, _, houtcome, rfl, rfl, ?_, fun _ _ _ herror => by cases herror⟩
      rintro _ ⟨⟩
      exact ⟨rfl, fun x g h hx hg hpath => hc.acyclic once declared hrun hx hg hpath⟩
    | error error =>
      obtain ⟨r, houtcome, hrestores⟩ := hsimulates.fails t ⟨t, c.pending⟩ error rfl trivial hrun
      refine ⟨_, _, houtcome, rfl, hrestores, fun _ hok => by (cases hok), ?_⟩
      rintro source location names ⟨⟩
      exact hc.isTypeCycle once declared hrun
  · intro source location names herror
    rcases Result.bind_eq_error.1 herror with herror | ⟨_, _, herror⟩
    · obtain ⟨c, x, u, hc, herror⟩ := exists_call_of_nodes_error herror
      exact hc.isTypeCycle once declared herror
    · cases herror

/-! ### Examples -/

/-- Two typedefs one of which has the other as a member type, which is derived from it. -/
def typesInCircle : List Source :=
  [.bareModule "a" [
    .bare "typedef" "t" [.bare "type" "union" [.bare "type" "int8" [], .bare "type" "u" []]],
    .bare "typedef" "u" [.bare "type" "t" []]]]

/-- Their declared model. -/
def circleModel : DeclaredModel := .ofLinkage EffectiveType.chainedLinkage typesInCircle

/-- What is evaluated of it: the sources can be declared, there is one module, and the two typedefs
are what it cannot be instantiated for. -/
theorem evaluated_typesInCircle :
    DeclaredModel.canDeclare EffectiveType.chainedLinkage typesInCircle = true
      ∧ circleModel.modules.length ≤ 1
      ∧ (circleModel.modules.head?.map fun m => match ModuleTree.ofModule circleModel m with
          | .ok _ => none
          | .error error => some error)
        = some (some (.typeCycle ⟨"a", none⟩ (.synthetic "bare") ["a:u", "a:t", "a:u"])) := by
  decide +kernel

theorem ofSources_typesInCircle : DeclaredModel.ofSources true typesInCircle = .ok circleModel :=
  DeclaredModel.ofSources_eq_ofLinkage (by cbv) rfl (by cbv) evaluated_typesInCircle.1

/-- The two are reported. A leaf whose type is a typedef of a submodule has one that does not lead
to itself, and finding this out leaves nothing to be resolved. -/
theorem typedef_resolution_two :
    IsTypeCycle circleModel ["a:u", "a:t", "a:u"]
      ∧ ∃ k x t g, Copies repeatedTypeExpansion k x t
        ∧ Names repeatedTypeExpansion.model k.source k.scope x g
        ∧ ¬ TransGen (TypeRefers repeatedTypeExpansion.model) g g
        ∧ ∀ deeper, ∃ type r, (TypeResolver.ofDeclaration repeatedTypeExpansion.model
            (TypeResolver.typedef repeatedTypeExpansion.model deeper 2) k.source k.scope x).outcome
              ⟨t, []⟩ = (.ok type, r) ∧ r.inProgress = [] := by
  constructor
  · obtain ⟨-, hone, h⟩ := evaluated_typesInCircle
    obtain ⟨m, _, herror⟩ := Option.map_eq_some_iff.1 h
    refine (typedef_resolution ofSources_typesInCircle
      (DeclaredModel.unshared_of_length hone) m).2 ⟨"a", none⟩
      (.synthetic "bare") _ ?_
    split at herror
    · cases herror
    · rename_i err hr
      rw [hr, Option.some.inj herror]
  · obtain ⟨k, x, t, type, g, hcopies, htype, hmember, hnames, hresolve⟩ := exists_repeatedType
    obtain ⟨-, hmodules, hcount, -⟩ := evaluated_repeatedType
    obtain ⟨m, _, hid⟩ := List.map_eq_singleton_iff.1 hmodules
    have hdepth : repeatedTypeExpansion.model.countOfKind .typedef < 2 := by omega
    have hresolution (deeper : Definition → Action EffectiveType) :=
      (typedef_resolution ofSources_repeatedType unshared_repeatedType m).1
        (.outermost repeatedTypeExpansion k) x t
        (by rw [hid]; exact .copied hcopies htype hmember) deeper 2 hdepth
    have hrun : (TypeCall.run ⟨repeatedTypeExpansion.model, m.id⟩
        (.outermost repeatedTypeExpansion k) x t).map (·.1) = .ok type := hresolve
    refine ⟨k, x, t, g, hcopies, hnames, ?_, fun deeper => ?_⟩
    · obtain ⟨result, r, _, hresult, _, hok, _⟩ :=
        hresolution fun g => throw (EffectiveType.cycleError [] g)
      exact (hok type (hresult.trans hrun)).2 x g g (.here x) hnames .refl
    · obtain ⟨result, r, houtcome, hresult, hstack, _⟩ := hresolution deeper
      exact ⟨type, r, hresult.trans hrun ▸ houtcome, hstack⟩

end Expansion

end YangSchema
