import YangSchema.Proofs.CopiedTypes
import YangSchema.Proofs.GroundedTypes

/-!
# The calls that resolve types

`Resolves e c d t`: in the course of instantiating a module, and be it that this fails later on, the
`type` statement `d` comes to be resolved by the call `c` while the table of typedefs is `t`. It is
a statement that is copied, a member type, or the `type` statement of a typedef that is entered.

At every call the typedefs that are being resolved are different ones, as many of which can still be
entered as are left (`Resolves.stacked`); each of them refers to the next one and the last one to
those that the statement names (`Resolves.trail`). The table is grounded (`Resolves.grounded`) and
knows none of them (`Resolves.apart`).
-/

namespace YangSchema

open Building (Comes Keeps)
open EffectiveType (InType Names TypeRefers)

namespace Expansion

/-- A call that resolves a `type` statement: which typedefs are being resolved and how many more can
be entered, and from which source and scope. -/
structure TypeCall where
  depth : Nat
  pending : List Definition.Pending
  source : DeclaredSource
  scope : Scope

namespace TypeCall

/-- Resolves a `type` statement. -/
def run (e : Expansion) (c : TypeCall) : Declaration → Building EffectiveType :=
  EffectiveType.ofDeclaration e.model (EffectiveType.ofDefinition e.model c.depth c.pending)
    c.source c.scope

/-- The call for a statement that is copied. -/
def outermost (e : Expansion) (k : Manner) : TypeCall :=
  ⟨e.model.countOfKind .typedef, [], k.source, k.scope⟩

/-- The call for the `type` statement of a typedef. -/
def inside (c : TypeCall) (depth : Nat) (g : Definition) : TypeCall :=
  ⟨depth, c.pending ++ [entry g], g.source, g.inner⟩

end TypeCall

/-- In the course of instantiating a module a `type` statement comes to be resolved. -/
inductive Resolves (e : Expansion) : TypeCall → Declaration → TypeTable → Prop where
  /-- A `type` statement that is copied is resolved unless it is a member type. -/
  | copied {k : Manner} {d : Declaration} {t : TypeTable} :
    Copies e k d t → d.is .type = true → k.isMember = false → Resolves e (.outermost e k) d t
  /-- Member types are resolved one after the other when the named type is known and fits. -/
  | member {c : TypeCall} {d x : Declaration} {named : EffectiveType × Bool} {type : EffectiveType}
    {t u v : TypeTable} :
    Resolves e c d t →
    EffectiveType.named e.model (EffectiveType.ofDefinition e.model c.depth c.pending) c.source
      c.scope d.label t = .ok (named, u) →
    (TypeUse.mk c.source.id d named.2).restrictValues named.1 = .ok type →
    (TypeUse.mk c.source.id d named.2).checkMembers type = .ok () →
    Comes (c.run e) (d.childrenOfKind .type) u x v → Resolves e c x v
  /-- The `type` statement of a typedef is resolved when the typedef is neither known nor being
  resolved. -/
  | typedef {c : TypeCall} {d x : Declaration} {g : Definition} {depth : Nat} {t : TypeTable} :
    Resolves e c d t → Names e.model c.source c.scope d g → t.lookup g.key = none →
    ¬ g.isPending c.pending = true → c.depth = depth + 1 →
    EffectiveType.typeStatement g = .ok x → Resolves e (c.inside depth g) x t

variable {order : Bool} {sources : List Source} {e : Expansion} {k : Manner} {c : TypeCall}
  {d x : Declaration} {g h : Definition} {t u : TypeTable} {type : EffectiveType}

namespace Resolves

/-- What is resolved is a `type` statement whose name is looked up. -/
theorem processed (hc : Resolves e c d t) :
    Processed e c.source c.scope d ∧ d.is .type = true := by
  induction hc with
  | copied hcopies htype _ => exact ⟨.copied hcopies, htype⟩
  | member _ _ _ _ hcomes ih =>
    obtain ⟨hmem, htype⟩ := List.mem_filter.1 hcomes.mem
    exact ⟨.member ih.1 ih.2 hmem htype, htype⟩
  | typedef _ hnames _ _ _ hx ih =>
    exact ⟨.typedef ih.1 ih.2 hnames.2 hx, is_of_typeStatement hx⟩

/-- The typedefs to which the statement refers are met while the module is instantiated. -/
theorem typedefOf (hc : Resolves e c d t) (hx : InType d x)
    (hnames : Names e.model c.source c.scope x g) : TypedefOf e g :=
  .of_inType hc.processed.1 hc.processed.2 hx hnames

/-- The typedefs that are being resolved are different ones, and all others can be entered. -/
theorem stacked (declared : DeclaredModel.ofSources order sources = .ok e.model)
    (hc : Resolves e c d t) : Definition.Stacked e.model .typedef c.pending
      ∧ c.depth + c.pending.length = e.model.countOfKind .typedef := by
  induction hc with
  | copied => exact ⟨.nil, rfl⟩
  | member _ _ _ _ _ ih => exact ih
  | @typedef c d x g depth t hc hnames _ hnot hdepth _ ih =>
    refine ⟨ih.1.push ((hc.typedefOf (.here d) hnames).valid declared) hnot, ?_⟩
    have hlength : (c.pending ++ [entry g]).length = c.pending.length + 1 := List.length_append
    show depth + (c.pending ++ [entry g]).length = _
    have hcount := ih.2
    omega

end Resolves

/-! ## The table -/

/-- Resolving the statements that are copied keeps the table grounded. -/
theorem grounded_callsKeep (e : Expansion) : e.CallsKeep (Grounded e) :=
  fun _ _ _ hcopies htype _ => Grounded.ofDeclaration (.copied hcopies) htype _ _

theorem Copies.grounded (hcopies : Copies e k d t) : Grounded e t :=
  hcopies.holds_of_calls (grounded_callsKeep e) .nil

namespace Resolves

/-- What the typedefs keep that a statement names holds whenever it comes to a member type. -/
theorem holds_member {Q : TypeTable → Prop} {named : EffectiveType × Bool} {v : TypeTable}
    (hdefined : ∀ x g, InType d x → Names e.model c.source c.scope x g →
      Keeps Q (EffectiveType.ofDefinition e.model c.depth c.pending g))
    (hnamed : EffectiveType.named e.model (EffectiveType.ofDefinition e.model c.depth c.pending)
      c.source c.scope d.label t = .ok (named, u))
    (hcomes : Comes (c.run e) (d.childrenOfKind .type) u x v) (ht : Q t) : Q v := by
  have hu : Q u :=
    EffectiveType.named_keeps_of_names (fun g hg => hdefined d g (.here d) hg) t named u ht hnamed
  refine hcomes.holds (fun y w type w' hcomes hw hok => ?_) hu
  exact EffectiveType.keeps_of_names y
    (fun z g hz hg => hdefined z g (.member hcomes.mem hz) hg) w type w' hw hok

theorem grounded (hc : Resolves e c d t) : Grounded e t := by
  induction hc with
  | copied hcopies _ _ => exact hcopies.grounded
  | member hc hnamed _ _ hcomes ih =>
    exact holds_member (fun x g hx hg => Grounded.ofDefinition (hc.typedefOf hx hg) _ _) hnamed
      hcomes ih
  | typedef _ _ _ _ _ _ ih => exact ih

/-- The typedefs that are being resolved are not known. -/
theorem apart (hc : Resolves e c d t) : ∀ key ∈ c.pending.map (·.1), t.lookup key = none := by
  induction hc with
  | copied => exact fun key hkey => absurd hkey List.not_mem_nil
  | member hc hnamed _ _ hcomes ih =>
    intro key hkey
    refine holds_member (Q := fun t => t.lookup key = none) ?_ hnamed hcomes (ih key hkey)
    exact fun x g _ _ t type u hnone hok => EffectiveType.lookup_of_pending hkey hnone hok
  | @typedef c d x g depth t hc _ hnone _ _ _ ih =>
    intro key hkey
    change key ∈ (c.pending ++ [entry g]).map (·.1) at hkey
    rw [List.map_append] at hkey
    rcases List.mem_append.1 hkey with hkey | hkey
    · exact ih key hkey
    · rw [List.mem_singleton.1 hkey]
      exact hnone

/-! ## The way to a call -/

/-- The typedefs that are being resolved are such as refer each to the next one, and the last one to
all that the statement names. -/
theorem exists_trail (hc : Resolves e c d t) : ∃ gs, c.pending = gs.map entry
    ∧ (∀ g ∈ gs, TypedefOf e g)
    ∧ ∀ x g, InType d x → Names e.model c.source c.scope x g →
      (gs ++ [g]).IsChain (TypeRefers e.model) := by
  induction hc with
  | copied =>
    exact ⟨[], rfl, fun g hg => absurd hg List.not_mem_nil, fun x g _ _ => .singleton g⟩
  | member _ _ _ _ hcomes ih =>
    obtain ⟨gs, hpending, htypedefs, hchain⟩ := ih
    exact ⟨gs, hpending, htypedefs, fun x g hx hg => hchain x g (.member hcomes.mem hx) hg⟩
  | @typedef c d x g depth t hc hnames _ _ _ hx ih =>
    obtain ⟨gs, hpending, htypedefs, hchain⟩ := ih
    refine ⟨gs ++ [g], ?_, ?_, ?_⟩
    · show c.pending ++ [entry g] = _
      rw [List.map_append, hpending]
      rfl
    · intro h hh
      rcases List.mem_append.1 hh with hh | hh
      · exact htypedefs h hh
      · rw [List.mem_singleton.1 hh]
        exact hc.typedefOf (.here d) hnames
    · intro y h hy hh
      rw [List.append_assoc, List.singleton_append, List.isChain_append_cons_cons]
      exact ⟨hchain d g (.here d) hnames, ⟨x, y, hx, hy, hh⟩, .singleton h⟩

end Resolves

end Expansion

end YangSchema
