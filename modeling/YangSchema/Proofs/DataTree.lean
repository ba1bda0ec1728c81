import YangSchema.Proofs.Deviating
import YangSchema.Proofs.SiblingNames

/-!
# The data tree and deviations

The nodes of the data tree are those that are reached from the root of a module through schema nodes
alone (`Forest.DataNode`). Deviations take some of them out and add none. As those that are left may
come to stand at other places, `Forest.LeavesData` says of a map on places that it leads every data
node back to where it stood before; it keeps what is below what, and apart what is apart. One
deviation moves the children of one node up where others have been taken out
(`Forest.ChangesAt.exists_leavesData`), so there is such a map for all of them
(`Deviation.exists_leavesData_of_applyAll`).
-/

namespace YangSchema

namespace Place

variable {P Q : Place} {i j : Nat} {q : List Nat}

theorem below_append (P : Place) (p q : List Nat) : (P.below p).below q = P.below (p ++ q) := by
  unfold below
  rw [List.append_assoc]

theorem below_singleton_inj (h : P.below [i] = Q.below [j]) : P = Q ∧ i = j := by
  obtain ⟨m, p⟩ := P
  obtain ⟨m', p'⟩ := Q
  obtain ⟨rfl, haddress⟩ := Place.mk.inj h
  obtain ⟨rfl, hlast⟩ := List.append_inj' haddress rfl
  exact ⟨rfl, (List.cons.inj hlast).1⟩

end Place

namespace Forest

variable {f g h : Forest} {P Q : Place} {m : SourceId} {i : Nat} {q : List Nat}
  {l l' : NodeLabel} {cs ds kept added : List Node} {σ τ : Place → Place}

/-! ## Data nodes -/

/-- A schema node all of whose ancestors below the root of its module are schema nodes. -/
inductive DataNode (f : Forest) : Place → NodeLabel → Prop where
  | top {m : SourceId} {i : Nat} {l : NodeLabel} (hl : f.labelAt? ⟨m, [i]⟩ = some l)
      (hname : l.isSchemaNode = true) : DataNode f ⟨m, [i]⟩ l
  | child {P : Place} {i : Nat} {l l' : NodeLabel} (h : DataNode f P l)
      (hl : f.labelAt? (P.below [i]) = some l') (hname : l'.isSchemaNode = true) :
      DataNode f (P.below [i]) l'

namespace DataNode

theorem labelAt? (h : f.DataNode P l) : f.labelAt? P = some l := by
  cases h with
  | top hl => exact hl
  | child _ hl => exact hl

theorem isSchemaNode (h : f.DataNode P l) : l.isSchemaNode = true := by
  cases h with
  | top _ hname => exact hname
  | child _ _ hname => exact hname

theorem address_ne_nil (h : f.DataNode P l) : P.address ≠ [] := by
  cases h with
  | top => exact List.cons_ne_nil _ _
  | child => exact List.append_ne_nil_of_right_ne_nil _ (List.cons_ne_nil _ _)

/-- The parent of a data node is one, unless it is the root. -/
theorem parent (h : f.DataNode (P.below [i]) l) (hne : P.address ≠ []) :
    ∃ l', f.DataNode P l' := by
  generalize hQ : P.below [i] = Q at h
  cases h with
  | @top m j =>
    have hroot : P.below [i] = (Place.mk m []).below [j] := hQ
    rw [(Place.below_singleton_inj hroot).1] at hne
    exact absurd rfl hne
  | @child P' j l' _ h =>
    rw [(Place.below_singleton_inj hQ).1]
    exact ⟨l', h⟩

/-- So are all nodes above it. -/
theorem above (h : f.DataNode (P.below q) l) (hne : P.address ≠ []) : ∃ l', f.DataNode P l' := by
  induction q using List.reverseRecOn generalizing l with
  | nil =>
    rw [Place.below_nil] at h
    exact ⟨l, h⟩
  | append_singleton q i ih =>
    rw [← Place.below_append] at h
    obtain ⟨_, hq⟩ := h.parent (List.append_ne_nil_of_left_ne_nil hne q)
    exact ih hq

end DataNode

/-! ## What is left of the data tree -/

/-- A map on places leads every data node of `g` back to where it stands in `f`. -/
structure LeavesData (f g : Forest) (σ : Place → Place) : Prop where
  injective : Function.Injective σ
  root : ∀ m, σ ⟨m, []⟩ = ⟨m, []⟩
  child : ∀ P i, ∃ j, σ (P.below [i]) = (σ P).below [j]
  kept : ∀ P l, g.DataNode P l → f.labelAt? (σ P) = some l

namespace LeavesData

theorem refl (f : Forest) : LeavesData f f id where
  injective := Function.injective_id
  root _ := rfl
  child _ i := ⟨i, rfl⟩
  kept _ _ h := h.labelAt?

/-- What is left stands in the tree of its module. -/
theorem module_eq (hσ : LeavesData f g σ) (P : Place) : (σ P).module = P.module := by
  obtain ⟨m, p⟩ := P
  induction p using List.reverseRecOn with
  | nil => rw [hσ.root]
  | append_singleton p i ih =>
    obtain ⟨j, hj⟩ := hσ.child ⟨m, p⟩ i
    show (σ ((Place.mk m p).below [i])).module = m
    rw [hj]
    exact ih

/-- What stands below a node has stood below it. -/
theorem exists_below (hσ : LeavesData f g σ) (P : Place) (q : List Nat) :
    ∃ q', σ (P.below q) = (σ P).below q' := by
  induction q using List.reverseRecOn with
  | nil => exact ⟨[], by rw [Place.below_nil, Place.below_nil]⟩
  | append_singleton q i ih =>
    obtain ⟨q', hq'⟩ := ih
    obtain ⟨j, hj⟩ := hσ.child (P.below q) i
    exact ⟨q' ++ [j], by rw [← Place.below_append, hj, hq', Place.below_append]⟩

/-- A data node that is left was one. -/
theorem dataNode (hσ : LeavesData f g σ) (h : g.DataNode P l) : f.DataNode (σ P) l := by
  induction h with
  | @top m i l hl hname =>
    have hkept := hσ.kept _ _ (.top hl hname)
    obtain ⟨j, hj⟩ := hσ.child ⟨m, []⟩ i
    rw [hσ.root] at hj
    change σ ⟨m, [i]⟩ = ⟨m, [j]⟩ at hj
    rw [hj] at hkept ⊢
    exact .top hkept hname
  | @child P i l l' h hl hname ih =>
    have hkept := hσ.kept _ _ (.child h hl hname)
    obtain ⟨j, hj⟩ := hσ.child P i
    rw [hj] at hkept ⊢
    exact .child ih hkept hname

theorem trans (hσ : LeavesData f g σ) (hτ : LeavesData g h τ) : LeavesData f h (σ ∘ τ) where
  injective := hσ.injective.comp hτ.injective
  root m := by rw [Function.comp_apply, hτ.root, hσ.root]
  child P i := by
    obtain ⟨j, hj⟩ := hτ.child P i
    obtain ⟨k, hk⟩ := hσ.child (τ P) j
    exact ⟨k, by rw [Function.comp_apply, hj, hk, Function.comp_apply]⟩
  kept P l hP := hσ.kept _ _ (hτ.dataNode hP)

end LeavesData

end Forest

/-! ## Moving the children of a node -/

/-- Where an address comes to be when `ρ` moves the children of the node at an address. -/
def moveAt (ρ : Nat → Nat) : List Nat → List Nat → List Nat
  | [], i :: q => ρ i :: q
  | a :: p, b :: q => if a = b then b :: moveAt ρ p q else b :: q
  | _, [] => []

section MoveAt

variable {ρ : Nat → Nat}

theorem moveAt_nil (ρ : Nat → Nat) (p : List Nat) : moveAt ρ p [] = [] := by
  cases p <;> rfl

theorem moveAt_append (ρ : Nat → Nat) (p : List Nat) (i : Nat) (q : List Nat) :
    moveAt ρ p (p ++ i :: q) = p ++ ρ i :: q := by
  induction p with
  | nil => rfl
  | cons a p ih => rw [List.cons_append, moveAt, if_pos rfl, ih, List.cons_append]

/-- Nothing else moves. -/
theorem moveAt_of_not_below {p r : List Nat} (h : ∀ i q, r ≠ p ++ i :: q) : moveAt ρ p r = r := by
  induction p generalizing r with
  | nil =>
    cases r with
    | nil => rfl
    | cons i q => exact absurd rfl (h i q)
  | cons a p ih =>
    cases r with
    | nil => rfl
    | cons b r =>
      rw [moveAt]
      split
      · rename_i hab
        rw [ih fun i q hr => h i q (by rw [hab, hr, List.cons_append])]
      · rfl

theorem moveAt_injective (hρ : Function.Injective ρ) (p : List Nat) :
    Function.Injective (moveAt ρ p) := by
  induction p with
  | nil =>
    intro r s hrs
    cases r <;> cases s <;> simp_all [moveAt, hρ.eq_iff]
  | cons a p ih =>
    intro r s hrs
    cases r with
    | nil =>
      cases s with
      | nil => rfl
      | cons c s =>
        rw [moveAt, moveAt] at hrs
        split at hrs <;> cases hrs
    | cons b r =>
      cases s with
      | nil =>
        rw [moveAt, moveAt] at hrs
        split at hrs <;> cases hrs
      | cons c s =>
        rw [moveAt, moveAt] at hrs
        split at hrs <;> split at hrs <;> obtain ⟨rfl, hrest⟩ := List.cons.inj hrs
        · rw [ih hrest]
        · contradiction
        · contradiction
        · rw [hrest]

/-- The children of a node stay its children. -/
theorem exists_moveAt_concat (ρ : Nat → Nat) (p r : List Nat) (i : Nat) :
    ∃ j, moveAt ρ p (r ++ [i]) = moveAt ρ p r ++ [j] := by
  induction p generalizing r with
  | nil =>
    cases r with
    | nil => exact ⟨ρ i, rfl⟩
    | cons b r => exact ⟨i, rfl⟩
  | cons a p ih =>
    cases r with
    | nil =>
      refine ⟨i, ?_⟩
      rw [List.nil_append, moveAt, moveAt_nil]
      split <;> rfl
    | cons b r =>
      rw [List.cons_append, moveAt, moveAt]
      split
      · obtain ⟨j, hj⟩ := ih r
        exact ⟨j, by rw [hj, List.cons_append]⟩
      · exact ⟨i, rfl⟩

end MoveAt

/-- Where a place comes to be when `ρ` moves the children of the node at a place. -/
def Place.move (ρ : Nat → Nat) (P Q : Place) : Place :=
  if Q.module = P.module then ⟨Q.module, moveAt ρ P.address Q.address⟩ else Q

namespace Place

variable {ρ : Nat → Nat} {P Q : Place} {i : Nat} {q : List Nat}

theorem move_below : move ρ P (P.below (i :: q)) = P.below (ρ i :: q) := by
  have hmodule : (P.below (i :: q)).module = P.module := rfl
  unfold move
  rw [if_pos hmodule]
  exact congrArg (Place.mk P.module) (moveAt_append ρ P.address i q)

theorem move_of_not_below (h : ∀ i q, Q ≠ P.below (i :: q)) : move ρ P Q = Q := by
  unfold move
  split
  · rename_i hmodule
    obtain ⟨m, r⟩ := Q
    change m = P.module at hmodule
    subst hmodule
    exact congrArg (Place.mk P.module)
      (moveAt_of_not_below fun i q hr => h i q (congrArg (Place.mk P.module) hr))
  · rfl

theorem move_injective (hρ : Function.Injective ρ) (P : Place) :
    Function.Injective (move ρ P) := by
  have hmodule (Q : Place) : (move ρ P Q).module = Q.module := by
    unfold move
    split <;> rfl
  intro Q R hQR
  obtain ⟨m, q⟩ := Q
  obtain ⟨m', r⟩ := R
  have hsame := congrArg Place.module hQR
  rw [hmodule, hmodule] at hsame
  change m = m' at hsame
  subst hsame
  unfold move at hQR
  split at hQR
  · exact congrArg (Place.mk m) (moveAt_injective hρ P.address (Place.mk.inj hQR).2)
  · exact hQR

theorem exists_move_below (ρ : Nat → Nat) (P Q : Place) (i : Nat) :
    ∃ j, move ρ P (Q.below [i]) = (move ρ P Q).below [j] := by
  have hmodule : (Q.below [i]).module = Q.module := rfl
  unfold move
  rw [hmodule]
  split
  · obtain ⟨j, hj⟩ := exists_moveAt_concat ρ P.address Q.address i
    exact ⟨j, congrArg (Place.mk Q.module) hj⟩
  · exact ⟨i, rfl⟩

end Place

namespace Forest

variable {f g : Forest} {P : Place} {i : Nat} {q : List Nat} {l : NodeLabel}
  {cs kept added : List Node}

/-- What stands below a node stands in one of its children. -/
theorem labelAt?_below (h : f.node? P = some ⟨l, cs⟩) :
    f.labelAt? (P.below (i :: q)) = cs[i]?.bind (·.labelAt? q) := by
  obtain ⟨r, hr, hsub⟩ := Option.bind_eq_some_iff.1 h
  unfold labelAt? node? Place.below
  rw [hr, Option.bind_some, Tree.subtree?_append, hsub, Option.bind_some, Tree.subtree?_cons,
    Option.map_bind]
  rfl

/-- Where some children of a node are left, in their order, and what comes behind them is no schema
nodes, the data nodes that are left move up. -/
theorem ChangesAt.exists_leavesData (h : ChangesAt f g P cs (kept ++ added))
    (hkept : kept.Sublist cs) (hadded : ∀ c ∈ added, Node.isSchemaNode c = false) :
    ∃ σ, LeavesData f g σ := by
  obtain ⟨ρ, hρ⟩ := List.sublist_iff_exists_orderEmbedding_getElem?_eq.1 hkept
  obtain ⟨l, hf, hg⟩ := h.node
  refine ⟨Place.move ρ P, Place.move_injective ρ.injective P, fun m => ?_,
    Place.exists_move_below ρ P, fun Q l' hQ => ?_⟩
  · refine Place.move_of_not_below fun i q heq => ?_
    exact List.append_ne_nil_of_right_ne_nil P.address (List.cons_ne_nil i q)
      (congrArg Place.address heq).symm
  · by_cases hbelow : ∃ i q, Q = P.below (i :: q)
    · obtain ⟨i, q, rfl⟩ := hbelow
      rw [Place.move_below, labelAt?_below hf]
      have hlabel := hQ.labelAt?
      rw [labelAt?_below hg] at hlabel
      obtain ⟨c, hc, hlabel⟩ := Option.bind_eq_some_iff.1 hlabel
      -- the child that leads there is a schema node, so it was there before
      rw [← Place.below_below] at hQ
      obtain ⟨l'', hi⟩ := hQ.above (List.append_ne_nil_of_right_ne_nil _ (List.cons_ne_nil _ _))
      have hchild := hi.labelAt?
      rw [labelAt?_below hg, hc] at hchild
      have hname : Node.isSchemaNode c = true := by
        rw [Node.isSchemaNode, Option.some.inj hchild]
        exact hi.isSchemaNode
      rw [List.getElem?_append] at hc
      split at hc
      · rw [← hρ, hc]
        exact hlabel
      · rw [hadded c (List.mem_of_getElem? hc)] at hname
        cases hname
    · have hnot : ∀ i q, Q ≠ P.below (i :: q) := fun i q heq => hbelow ⟨i, q, heq⟩
      rw [Place.move_of_not_below hnot, ← h.elsewhere Q hnot]
      exact hQ.labelAt?

end Forest

/-! ## Deviations -/

namespace Deviation

variable {order : Bool} {sources : List Source} {model : DeclaredModel} {f g k : Forest} {d : Node}

/-- One deviation leaves data nodes and adds none. -/
theorem exists_leavesData_of_apply (declared : DeclaredModel.ofSources order sources = .ok model)
    (instantiated : Forest.ofModel model = .ok f) (hd : d ∈ f.flatMap (·.statements .deviation))
    (happly : apply model g d = .ok k) : ∃ σ, Forest.LeavesData g k σ := by
  obtain ⟨t, ht, _⟩ := Result.bind_eq_ok.1 happly
  obtain ⟨T, hT⟩ := exists_kind_of_target ht
  obtain ⟨xs, hxs, ⟨_, rfl⟩ | ⟨_, cs, hedits, rfl⟩⟩ := (apply_eq_ok ht hT).1 happly
  · obtain ⟨P, i, cs, _, _, hchanges⟩ := (detaches_remove ht).parent
    rw [← List.append_nil (cs.eraseIdx i)] at hchanges
    exact hchanges.exists_leavesData (List.eraseIdx_sublist cs i)
      fun _ hc => absurd hc List.not_mem_nil
  · rw [← List.append_nil t.node.children] at hedits
    obtain ⟨kept, added, rfl, hkept, hadded⟩ := hedits.exists_append
    refine (changesAt_replace ht _).exists_leavesData hkept fun c hc => ?_
    obtain ⟨step, hstep, rfl⟩ := List.mem_map.1 (hadded.subset hc)
    obtain ⟨n, hn, hproperty⟩ := exists_deviate_of_mem_properties hxs hstep
    exact not_isSchemaNode_property (followsGrammar_of_instantiated declared instantiated hd) hn
      hproperty

/-- So do all deviations. -/
theorem exists_leavesData_of_applyAll
    (declared : DeclaredModel.ofSources order sources = .ok model)
    (instantiated : Forest.ofModel model = .ok f)
    (haugments : Augmentation.applyAll model f = .ok g) (happly : applyAll model g = .ok k) :
    ∃ σ, Forest.LeavesData g k σ := by
  -- the deviations are those of the instantiated modules
  unfold applyAll at happly
  rw [Augmentation.statements_of_applyAll rfl
    (Augmentation.nodup_of_ofModel declared instantiated) haugments] at happly
  refine Result.foldlM_invariant_of_mem (P := fun h => ∃ σ, Forest.LeavesData g h σ) ?_
    ⟨id, .refl g⟩ happly
  rintro d hd h h' ⟨σ, hσ⟩ hstep
  obtain ⟨τ, hτ⟩ := exists_leavesData_of_apply declared instantiated hd hstep
  exact ⟨σ ∘ τ, hσ.trans hτ⟩

end Deviation

end YangSchema
