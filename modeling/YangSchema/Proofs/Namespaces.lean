import YangSchema.Proofs.CopiedLabels
import YangSchema.Proofs.KnownPaths

/-!
# The namespaces of nodes

Every node lives in the namespace of a module. What is instantiated lives in the module for which it
is; an `augment` copies nodes with their namespaces, and a `deviation` takes its own substatements
for properties of its target. So at every stage of applying augments and deviations the nodes live
in modules of the model (`Forest.Stage.module_mem`).
-/

namespace YangSchema

namespace Tree

variable {α : Type} {P : α → Prop} {t : Tree α} {p : List Nat}

theorem All.remove (h : t.All P) : (Tree.remove p t).All P := by
  induction p generalizing t with
  | nil => exact h
  | cons i p ih =>
    obtain ⟨hlabel, hchildren⟩ := all_iff.1 h
    cases p with
    | nil => exact all_iff.2 ⟨hlabel, fun c hc => hchildren c (List.mem_of_mem_eraseIdx hc)⟩
    | cons j rest =>
      exact all_iff.2 ⟨hlabel, all_of_mem_modify hchildren fun c hc => ih (hchildren c hc)⟩

end Tree

namespace Forest

variable {model : DeclaredModel} {f g : Forest} {P : NodeLabel → Prop} {m : SourceId} {n : Node}
  {change : Node → Node} {t : Target} {source : SourceId} {path : String} {kind : Kind}

/-! ## Conditions on all labels -/

/-- A condition holds of the labels of all nodes. -/
def All (P : NodeLabel → Prop) (f : Forest) : Prop := ∀ t ∈ f, t.root.All P

namespace All

theorem update (h : f.All P) (hchange : ∀ n, n.All P → (change n).All P) :
    (f.update m change).All P := by
  intro t ht
  obtain ⟨u, hu, rfl⟩ := List.mem_map.1 ht
  split
  · exact hchange _ (h u hu)
  · exact h u hu

theorem replace (h : f.All P) (hn : n.All P) : (f.replace t n).All P :=
  h.update fun _ hroot => hroot.replace hn

theorem remove (h : f.All P) : (f.remove t).All P := h.update fun _ hroot => hroot.remove

theorem target (h : f.All P) (ht : locate model f source path = .ok t) : t.node.All P := by
  obtain ⟨r, hr, hsub⟩ := Option.bind_eq_some_iff.1 (node?_of_locate ht)
  obtain ⟨tree, htree, rfl⟩ := Option.map_eq_some_iff.1 hr
  exact (h tree (List.mem_of_find?_eq_some htree)).subtree? hsub

theorem statement (h : f.All P) (hn : n ∈ f.flatMap (·.statements kind)) : n.All P := by
  obtain ⟨t, ht, hn⟩ := List.mem_flatMap.1 hn
  exact (Tree.all_iff.1 (h t ht)).2 n (List.mem_of_mem_filter hn)

end All

end Forest

/-! ## One augment or deviation -/

namespace Deviation

variable {model : DeclaredModel} {f g : Forest} {P : NodeLabel → Prop} {d target property n : Node}
  {deviate : Deviate} {kind : Kind}

theorem all_applyProperty (htarget : target.All P) (hproperty : property.All P)
    (h : applyProperty d deviate kind target property = .ok n) : n.All P := by
  unfold applyProperty at h
  split at h
  · cases h
    exact htarget
  · split at h
    · cases h
    · cases deviate with
      | notSupported =>
        cases h
        exact htarget
      | add =>
        dsimp only [added] at h
        split at h
        · cases h
        · cases h
          exact htarget.addChildren (List.forall_mem_singleton.2 hproperty)
      | replace =>
        dsimp only [replaced] at h
        split at h
        · cases h
          exact htarget.removeChildren.addChildren (List.forall_mem_singleton.2 hproperty)
        · cases h
      | delete =>
        dsimp only [deleted] at h
        split at h
        · cases h
          exact htarget.remove
        · cases h

/-- The properties that a `deviation` states stand in it. -/
theorem all_deviates {ds : List (Deviate × Node)} (hd : d.All P) (h : deviates d = .ok ds) :
    ∀ x ∈ ds, ∀ property ∈ x.2.children, property.All P := by
  intro x hx property hproperty
  obtain ⟨n, hn, hread⟩ := Result.exists_of_mem_mapM h hx
  have hnode : x.2 = n := by
    dsimp only at hread
    split at hread
    · cases hread
      rfl
    · cases hread
  rw [hnode] at hproperty
  exact (Tree.all_iff.1 ((Tree.all_iff.1 hd).2 n (List.mem_of_mem_filter hn))).2 property hproperty

theorem all_apply (hf : f.All P) (hd : d.All P) (h : apply model f d = .ok g) : g.All P := by
  obtain ⟨t, ht, h⟩ := Result.bind_eq_ok.1 h
  split at h
  · cases h
  · obtain ⟨ds, hds, h⟩ := Result.bind_eq_ok.1 h
    split at h
    · split at h
      · cases h
      · cases h
        exact hf.remove
    · obtain ⟨n, hn, hreturn⟩ := Result.bind_eq_ok.1 h
      cases hreturn
      refine hf.replace ?_
      refine Result.foldlM_invariant_of_mem (P := fun n => n.All P) ?_
        (hf.target (target_eq_ok.1 ht)) hn
      intro x hx before after hbefore hafter
      refine Result.foldlM_invariant_of_mem (P := fun n => n.All P) ?_ hbefore hafter
      intro property hproperty before after hbefore hafter
      exact all_applyProperty hbefore (all_deviates hd hds x hx property hproperty) hafter

end Deviation

namespace Augmentation

variable {model : DeclaredModel} {f g : Forest} {P : NodeLabel → Prop} {a : Node}

/-- A condition that the marks of augments do not change holds of all nodes of a tree that has been
augmented with such nodes. -/
theorem all_attempt (hconditions : ∀ l cs, P l → P { l with conditions := cs })
    (haugmenting : ∀ l, P l → P { l with augmenting := true }) (hf : f.All P) (ha : a.All P)
    (h : attempt model f a = .ok (.ok g)) : g.All P := by
  obtain ⟨t, ht, _, rfl⟩ := exists_replace_of_applyOne (applyOne_eq_ok_iff_attempt.2 h)
  refine hf.replace ((hf.target ht).addChildren fun c hc => ?_)
  obtain ⟨n, hn, rfl⟩ := List.mem_map.1 hc
  have hcontent := (Tree.all_iff.1 ha).2 n (List.mem_of_mem_filter hn)
  obtain ⟨hlabel, hchildren⟩ := Tree.all_iff.1 (hcontent.map haugmenting)
  exact Tree.all_iff.2 ⟨hconditions _ _ hlabel, hchildren⟩

end Augmentation

/-! ## Modules of the model -/

namespace Forest

variable {model : DeclaredModel} {f g : Forest}

/-- What is instantiated lives in the module of its tree. -/
theorem all_module_of_ofModel (instantiated : ofModel model = .ok f) :
    ∀ t ∈ f, t.root.All fun l => l.module = t.id := by
  intro t ht
  obtain ⟨m, _, hm⟩ := Result.exists_of_mem_mapM instantiated ht
  obtain ⟨⟨nodes, u⟩, hnodes, hreturn⟩ := Result.bind_eq_ok.1 hm
  cases hreturn
  have himprint : Expansion.Imprint ⟨model, m.id⟩ (fun _ => True) fun l => l.module = m.id := {
    uses := trivial
    copied := fun _ _ _ _ => rfl
    conditions := fun _ h => h
    augmenting := fun h => h }
  exact Tree.all_iff.2 ⟨rfl, himprint.all_nodes (fun _ => trivial) hnodes⟩

/-- At every stage all nodes live in modules of the model. -/
theorem Stage.module_mem (instantiated : ofModel model = .ok f) (hg : Stage model f g) :
    g.All fun l => l.module ∈ model.modules.map (·.id) := by
  have hf : f.All fun l => l.module ∈ model.modules.map (·.id) := by
    intro t ht a ha
    rw [all_module_of_ofModel instantiated t ht a ha,
      ← Augmentation.map_id_of_ofModel instantiated]
    exact List.mem_map_of_mem ht
  induction hg with
  | instantiated => exact hf
  | augment _ ha happly ih =>
    exact Augmentation.all_attempt (fun _ _ h => h) (fun _ h => h) ih (hf.statement ha) happly
  | deviation _ hd happly ih => exact Deviation.all_apply ih (hf.statement hd) happly

end Forest

end YangSchema
