import YangSchema.Proofs.Provenance
import YangSchema.Proofs.RefinedDefaults

/-!
# Where copied nodes come from

Copying the statements of a list gives nodes with the origins that these bring
(`Expansion.explains_copyAll`). A `uses` passes on what its grouping brings, with its own conditions
behind those that are there (`Expansion.explains_of_uses`); its `refine` statements change
properties alone (`Expansion.explains_refine`), and each `augment` below it adds its body to the
node to which its path leads (`Expansion.explains_augmentOne`). So the induction is the one on
declarations that copying follows, and over it the one on how deep groupings go.
-/

namespace YangSchema

namespace Expansion

open Node (Leads)

variable {e : Expansion} {order : Bool} {sources : List Source}
  {grouping : Site → Building (List Node)} {s : DeclaredSource} {addedByUses isMember : Bool}
  {scope : Scope} {d a : Declaration} {ds : List Declaration} {n p : Node}
  {nodes nodes' : List Node} {os : List Origin} {above : List String} {t u : TypeTable}

/-! ## Refining -/

/-- A `refine` changes properties of a node alone. -/
theorem explains_restate {T : Kind} {ps : List Node} {o : Origin} {whole : Bool}
    (h : Explains whole e.model above o n) (hname : Node.isSchemaNode n = true)
    (hps : ∀ p ∈ ps, Explains.IsProperty whole e.model p) :
    Explains whole e.model above o ⟨n.label, ps.foldl (restate T) n.children⟩ := by
  induction ps generalizing n with
  | nil =>
    obtain ⟨l, cs⟩ := n
    exact h
  | cons p ps ih =>
    obtain ⟨hp, hps⟩ := List.forall_mem_cons.1 hps
    have hschema : (n.children.filter fun c => !supersedes T p c).filter Node.isSchemaNode
        = n.schemaChildren := by
      rw [List.filter_filter]
      refine List.filter_congr fun c _ => ?_
      cases hc : Node.isSchemaNode c with
      | false => rfl
      | true => rw [not_supersedes_of_isSchemaNode hp.1 hc]; rfl
    exact ih (n := ⟨n.label, _⟩) (h.changeProperties hname List.filter_sublist hschema
      (List.forall_mem_singleton.2 hp)) hname hps

/-- What a `refine` states is properties. -/
theorem isProperty_of_stated (whole : Bool) (hgrammar : d.Grammatical)
    (hd : Declaration.is d .refine = true) (hp : p ∈ e.stated s.id d) :
    Explains.IsProperty whole e.model p := by
  refine ⟨not_isSchemaNode_of_stated hgrammar hd hp, ?_⟩
  obtain ⟨c, hc, rfl⟩ := List.mem_map.1 hp
  have hholds : Declaration.holdsUses d = false := by
    unfold Declaration.holdsUses
    rw [beq_iff_eq.1 hd]
    rfl
  refine ⟨_, [], ⟨rfl, rfl⟩, .ofDeclaration whole e.model s (.top e.module) e.module true ?_ []⟩
  intro x hx huses
  have hnot := hgrammar.not_holdsUses_below hholds (Tree.mem_subtrees_of_mem_child hc hx)
  rw [Declaration.holdsUses_of_binding huses rfl] at hnot
  cases hnot

theorem explains_refine {whole : Bool} (hgrammar : d.Grammatical)
    (hd : Declaration.is d .refine = true)
    (hnodes : List.Forall₂ (Explains whole e.model above) os nodes)
    (h : e.refine s.id nodes d = .ok nodes') :
    List.Forall₂ (Explains whole e.model above) os nodes' := by
  obtain ⟨address, x, T, htargets, _, _, rfl⟩ := exists_of_refine h
  obtain ⟨_, _, hleads⟩ := htargets
  exact Explains.forestReplace hnodes hleads.passes fun front _ o ho =>
    explains_restate ho hleads.target_isSchemaNode fun _ hp =>
      isProperty_of_stated whole hgrammar hd hp

/-! ## Augmenting under a `uses` -/

/-- The names of the path of an `augment` below a `uses` lead to its target. -/
theorem leads_of_augmentTarget {source : SourceId} {label : Declared} {address : List Nat}
    {target : Node} (h : augmentTarget source label nodes = .ok (address, target)) :
    ∃ steps, SchemaPath.steps? false (label.argument.getD "") = some steps
      ∧ Leads (steps.map Step.name) nodes address target := by
  unfold augmentTarget at h
  dsimp only at h
  split at h
  · rename_i address' x haddress hx
    rw [haddress] at hx
    obtain ⟨steps, hsteps, hsome⟩ := Option.bind_eq_some_iff.1 haddress
    split at h
    · cases h
      exact ⟨steps, hsteps, Node.leads_iff.2 ⟨hsome, hx⟩⟩
    · cases h
  · cases h

theorem explains_augmentOne (ha : Lexical e.model s scope a) (haugment : isAugment a = true)
    (hcontent : ∀ t added u, copyAll e grouping s true false (scope.enter s a)
      Node.isAugmentContent a.children t = .ok (added, u) → ∃ content,
        Brings e.model s (scope.enter s a)
          (a.children.filter fun c => Node.isAugmentContent c.label.binding) content
        ∧ ∀ above, List.Forall₂ (Explains true e.model above) content added)
    (hnodes : List.Forall₂ (Explains true e.model above) os nodes)
    (h : augmentOne e grouping s scope nodes a t = .ok (nodes', u)) :
    List.Forall₂ (Explains true e.model above) os nodes' := by
  obtain ⟨address, target, added, htarget, hadded, rfl⟩ := target_of_augmentOne h
  obtain ⟨steps, hsteps, hleads⟩ := leads_of_augmentTarget htarget
  obtain ⟨content, hbrings, hexplains⟩ := hcontent _ _ _ hadded
  refine Explains.forestReplace hnodes hleads.passes fun front hfront o ho => ?_
  have hbody : IsBody e.model (Node.namesBelow front target)
      (content.map (Origin.throughAugment ⟨s.id, a⟩)) :=
    ⟨s, scope, a, ha, haugment, ⟨false, steps, above, hsteps, hfront, fun h => nomatch h⟩,
      content, hbrings, rfl⟩
  exact ho.addChildren hleads.target_isSchemaNode hbody
    (Explains.mapThroughAugment hbrings.augment_eq_none (hexplains _))

/-! ## Copying -/

/-- Copying each declaration of a list gives what these bring. -/
theorem explains_copyAll {P : Binding → Bool}
    (hds : ∀ d ∈ ds, P d.label.binding = true → ∀ t r,
      copy e grouping s addedByUses isMember scope d t = .ok r →
        ∃ os, Brings e.model s scope [d] os
          ∧ ∀ above, List.Forall₂ (Explains true e.model above) os r.1)
    (h : copyAll e grouping s addedByUses isMember scope P ds t = .ok (nodes, u)) :
    ∃ os, Brings e.model s scope (ds.filter fun d => P d.label.binding) os
      ∧ ∀ above, List.Forall₂ (Explains true e.model above) os nodes := by
  induction ds generalizing t nodes with
  | nil =>
    cases h
    exact ⟨[], .nil s scope, fun _ => .nil⟩
  | cons d ds ih =>
    obtain ⟨hd, hds⟩ := List.forall_mem_cons.1 hds
    rw [copyAll] at h
    rw [List.filter_cons]
    split at h
    · rename_i hP
      obtain ⟨first, v, hfirst, h⟩ := Building.bind_eq_ok.1 h
      obtain ⟨rest, w, hrest, hreturn⟩ := Building.bind_eq_ok.1 h
      cases hreturn
      obtain ⟨os, hos, hexplains⟩ := hd hP _ _ hfirst
      obtain ⟨ps, hps, hexplains'⟩ := ih hds hrest
      rw [if_pos hP]
      exact ⟨os ++ ps, hos.append hps, fun above =>
        List.rel_append (hexplains above) (hexplains' above)⟩
    · rename_i hP
      rw [if_neg hP]
      exact ih hds h

/-- What the expansion of groupings has to give: what the content of the grouping brings. -/
def ExplainsGroupings (e : Expansion) (grouping : Site → Building (List Node)) : Prop :=
  ∀ site t r, Lexical e.model site.definition.source site.definition.scope
      site.definition.statement →
    Declaration.is site.definition.statement .grouping = true → grouping site t = .ok r →
    ∃ os, Brings e.model site.definition.source site.definition.inner
        (site.definition.statement.children.filter fun c =>
          Node.isGroupingContent c.label.binding) os
      ∧ ∀ above, List.Forall₂ (Explains true e.model above) os r.1

/-- What is no `uses` becomes one node that has been brought by nothing. -/
theorem explains_of_not_uses (hnot : ¬ IsUses d)
    (hchildren : ∀ c ∈ d.children, ∀ isMember t r,
      copy e grouping s addedByUses isMember (scope.enter s d) c t = .ok r → ∃ os,
        Brings e.model s (scope.enter s d) [c] os
        ∧ ∀ above, List.Forall₂ (Explains true e.model above) os r.1)
    (h : copy e grouping s addedByUses isMember scope d t = .ok (nodes, u)) :
    ∃ n base, nodes = [n] ∧ (Origin.written s scope d).Describes n.label
      ∧ Brings e.model s (scope.enter s d) d.children base
      ∧ ∀ above, List.Forall₂ (Explains true e.model above) base n.children := by
  obtain ⟨type, v, copied, _, hcopied, rfl⟩ := steps_of_not_uses hnot h
  obtain ⟨base, hbase, hexplains⟩ := explains_copyAll (fun c hc _ => hchildren c hc _) hcopied
  rw [List.filter_true] at hbase
  exact ⟨_, base, rfl, ⟨rfl, rfl, rfl, rfl⟩, hbase, hexplains⟩

/-- A `uses` passes on what its grouping brings. -/
theorem explains_of_uses (declared : DeclaredModel.ofSources order sources = .ok e.model)
    (hgrouping : ExplainsGroupings e grouping) (hd : Lexical e.model s scope d) (huses : IsUses d)
    (hbodies : ∀ a ∈ d.children, isAugment a = true → ∀ c ∈ a.children, ∀ t r,
      copy e grouping s true false (scope.enter s a) c t = .ok r → ∃ os,
        Brings e.model s (scope.enter s a) [c] os
        ∧ ∀ above, List.Forall₂ (Explains true e.model above) os r.1)
    (h : copy e grouping s addedByUses isMember scope d t = .ok (nodes, u)) :
    ∃ os, Brings e.model s scope [d] os
      ∧ ∀ above, List.Forall₂ (Explains true e.model above) os nodes := by
  obtain ⟨definition, brought, v, refined, hresolve, hbrought, hrefined, haugments⟩ :=
    steps_of_uses huses h
  have hgrammar := (DeclaredModel.grammatical_of_ofSources declared hd.source).of_mem
    hd.holds.mem_subtrees
  obtain ⟨hdefinition, hkind⟩ :=
    (hd.agrees declared).lexical_of_resolve declared hd.source rfl hresolve
  obtain ⟨content, hcontent, hexplains⟩ := hgrouping _ _ _ hdefinition hkind hbrought
  refine ⟨_, .uses huses hresolve hcontent (.nil s scope), fun above => ?_⟩
  rw [List.append_nil]
  have hadded := Explains.mapThroughUses (u := ⟨s.id, d⟩) hcontent.augment_eq_none
    (hexplains above)
  have hrefinedAll : List.Forall₂ (Explains true e.model above)
      (content.map (Origin.throughUses ⟨s.id, d⟩)) refined := by
    refine Result.foldlM_invariant_of_mem
      (P := List.Forall₂ (Explains true e.model above) _) ?_ hadded hrefined
    intro c hc ns ns' hns hstep
    obtain ⟨hc, hrefine⟩ := List.mem_filter.1 hc
    exact explains_refine (hgrammar.child hc) hrefine hns hstep
  refine Building.foldlM_invariant
    (P := List.Forall₂ (Explains true e.model above) _) ?_ hrefinedAll haugments
  intro ns a ha ns' t u hns hstep
  obtain ⟨ha, haugment⟩ := List.mem_filter.1 ha
  -- the `augment` is seen in the scope of the `uses`, which is not entered
  have hlexical := hd.child declared ha
  rw [Scope.inside_of_uses huses] at hlexical
  exact explains_augmentOne hlexical haugment (fun t added u hadded =>
    explains_copyAll (fun c hc _ => hbodies a ha haugment c hc) hadded) hns hstep

/-- **Copying a declaration** gives nodes with the origins that it brings. -/
theorem explains_copy (declared : DeclaredModel.ofSources order sources = .ok e.model)
    (hgrouping : ExplainsGroupings e grouping) (hd : Lexical e.model s scope d)
    {r : List Node × TypeTable} (h : copy e grouping s addedByUses isMember scope d t = .ok r) :
    ∃ os, Brings e.model s scope [d] os
      ∧ ∀ above, List.Forall₂ (Explains true e.model above) os r.1 := by
  -- the hypothesis is needed two levels below a `uses`, for the bodies of its augments
  induction d using Tree.inductBelow generalizing addedByUses isMember scope t r with
  | step d ih =>
    obtain ⟨nodes, u⟩ := r
    by_cases huses : IsUses d
    · refine explains_of_uses declared hgrouping hd huses (fun a ha haugment c hc t r hcopy => ?_) h
      have hlexical := hd.child declared ha
      rw [Scope.inside_of_uses huses] at hlexical
      have hnot : ¬ IsUses a :=
        not_isUses_of_binding (of_decide_eq_true haugment) fun h => nomatch h
      exact ih a ha c (Tree.mem_subtrees_of_mem_child hc (Tree.mem_subtrees_self c))
        (hlexical.child_of_not_uses declared hnot hc) hcopy
    · obtain ⟨n, base, rfl, describes, hbase, hexplains⟩ :=
        explains_of_not_uses huses (fun c hc _ t r hcopy => ih c hc c (Tree.mem_subtrees_self c)
          (hd.child_of_not_uses declared huses hc) hcopy) h
      refine ⟨[.written s scope d], .written huses (.nil s scope), fun above => .cons ?_ .nil⟩
      exact explains_iff.2 ⟨base, describes, ⟨base, [], hbase,
        fun body hbody => absurd hbody List.not_mem_nil, .of_eq (List.append_nil _).symm,
        hbase.isBare, fun _ => rfl⟩, hexplains _⟩

/-- The groupings of a model, as deep as they go. -/
theorem explains_ofGrouping (declared : DeclaredModel.ofSources order sources = .ok e.model)
    (depth : Nat) (pending : List Definition.Pending) :
    ExplainsGroupings e (e.ofGrouping depth pending) := by
  induction depth generalizing pending with
  | zero =>
    intro site t r _ _ h
    cases h
  | succ depth ih =>
    intro site t r hlexical hkind h
    obtain ⟨_, ⟨⟩, _, h⟩ := steps_of_ofGrouping h
    exact explains_copyAll (fun c hc _ t r hcopy => explains_copy declared (ih _)
      (hlexical.inner declared rfl hkind hc) hcopy) h

/-! ## Modules -/

/-- The statements of a source that a module copies. -/
def bodyOf (module : SourceId) (s : DeclaredSource) : List Declaration :=
  s.root.children.filter fun d => decide (s.id = module) || isBody d.label.binding

/-- The nodes of a module have the origins that its sources bring, one source after the other. -/
theorem explains_nodes (declared : DeclaredModel.ofSources order sources = .ok e.model)
    (h : e.nodes t = .ok (nodes, u)) : ∃ parts,
      List.Forall₂ (fun s part => Brings e.model s (.top e.module) (bodyOf e.module s) part)
        (e.model.family e.module) parts
      ∧ ∀ above, List.Forall₂ (Explains true e.model above) parts.flatten nodes := by
  obtain ⟨copies, v, hcopies, hreturn⟩ := Building.bind_eq_ok.1 h
  cases hreturn
  have hmem : ∀ s ∈ e.model.family e.module, s ∈ e.model.sources :=
    fun s hs => DeclaredModel.mem_of_family hs
  clear h
  generalize e.model.family e.module = family at hcopies hmem ⊢
  induction family generalizing t copies with
  | nil =>
    cases hcopies
    exact ⟨[], .nil, fun _ => .nil⟩
  | cons s family ih =>
    obtain ⟨hs, hfamily⟩ := List.forall_mem_cons.1 hmem
    rw [List.mapM_cons] at hcopies
    obtain ⟨first, w, hfirst, hcopies⟩ := Building.bind_eq_ok.1 hcopies
    obtain ⟨rest, x, hrest, hreturn⟩ := Building.bind_eq_ok.1 hcopies
    cases hreturn
    obtain ⟨part, hpart, hexplains⟩ := explains_copyAll (fun c hc _ t r hcopy =>
      explains_copy declared (explains_ofGrouping declared _ []) (.top declared hs hc) hcopy) hfirst
    obtain ⟨parts, hparts, hexplains'⟩ := ih rest hrest hfamily
    exact ⟨part :: parts, .cons hpart hparts, fun above =>
      List.rel_append (hexplains above) (hexplains' above)⟩

/-- A statement at the top of a module that no grouping can bring, and what stands below it. -/
theorem explains_statement (declared : DeclaredModel.ofSources order sources = .ok e.model)
    (h : e.nodes t = .ok (nodes, u)) (hn : n ∈ nodes)
    (hcontent : Node.isGroupingContent n.label.binding = false) :
    ∃ s d, Lexical e.model s (.top e.module) d
      ∧ (Origin.written s (.top e.module) d).Describes n.label
      ∧ ∃ base, Brings e.model s ((Scope.top e.module).enter s d) d.children base
        ∧ ∀ above, List.Forall₂ (Explains true e.model above) base n.children := by
  obtain ⟨s, hs, d, hd, v, w, part, hcopy, hn⟩ := exists_copy_of_mem_nodes h hn
  have hlexical : Lexical e.model s (.top e.module) d :=
    .top declared (DeclaredModel.mem_of_family hs) hd
  rcases origin_of_copy (fun _ _ _ => isBrought_of_ofGrouping) hcopy hn with
    ⟨_, _, hbrought, _⟩ | ⟨hnot, _⟩
  · rw [hcontent] at hbrought
    cases hbrought
  · obtain ⟨m, base, rfl, describes, hbase, hexplains⟩ := explains_of_not_uses hnot
      (fun c hc _ t r hcopy => explains_copy declared (explains_ofGrouping declared _ [])
        (hlexical.child_of_not_uses declared hnot hc) hcopy) hcopy
    rw [List.mem_singleton.1 hn]
    exact ⟨s, d, hlexical, describes, base, hbase, hexplains⟩

end Expansion

end YangSchema
