import YangSchema.Proofs.Lexical
import YangSchema.Proofs.Refining

/-!
# Where nodes come from

A node of a schema is a copy of a statement. It stands under its parent because the statement stands
there in the sources; or because a `uses` has brought it, perhaps one in the grouping of another
`uses`; or because it belongs to the body of an `augment`. All this is the origin of the node
(`Origin`), and its conditions are those of the statements that have brought it: of the `uses`, from
the innermost to the outermost one, and then of the `augment` (`Origin.conditions`).

`Brings` says which origins the statements of a list give where they are copied to. It looks up
groupings as the program does, and follows them as deep as they go, but knows nothing of nodes.
`Explains` says of a node and all that is below it that they have the origins that they should have:
at every node, what its statement brings comes first, and then what the bodies of augments bring
whose paths lead there, each node once and in order.
-/

namespace YangSchema

/-- A `uses` or an `augment`, with the source in which it is written. -/
structure Carrier where
  source : SourceId
  statement : Declaration

namespace Carrier

/-- The conditions that a `uses` or an `augment` states for what it brings. -/
def conditions (c : Carrier) : List Condition :=
  Node.conditionsOfDeclarations c.source c.statement.children

/-- The path of an `augment` leads to a node which is reached by these names. An absolute path
states all of them, any other one the last ones. -/
def LeadsTo (a : Carrier) (names : List String) : Prop :=
  ∃ absolute steps above,
    SchemaPath.steps? absolute (a.statement.label.argument.getD "") = some steps
      ∧ names = above ++ steps.map Step.name ∧ (absolute = true → above = [])

end Carrier

/-- How a node has come to stand under its parent. -/
structure Origin where
  /-- The source in which the statement is written of which the node is a copy. -/
  source : DeclaredSource
  /-- The scope of the statement. -/
  scope : Scope
  statement : Declaration
  /-- The `uses` that have brought the node, from the innermost to the outermost one. -/
  uses : List Carrier
  /-- The `augment` to whose body the node belongs. -/
  augment : Option Carrier

namespace Origin

/-- The origin of a node whose statement stands under that of the parent. -/
def written (s : DeclaredSource) (scope : Scope) (d : Declaration) : Origin :=
  ⟨s, scope, d, [], none⟩

/-- The conditions of a node: those of the innermost `uses` come first, those of the `augment` to
whose body it belongs last. -/
def conditions (o : Origin) : List Condition :=
  o.uses.flatMap Carrier.conditions ++ (o.augment.map Carrier.conditions).getD []

def binding (o : Origin) : Binding := o.statement.label.binding

/-- Whether a node of this origin has a name in schema paths. -/
def isSchemaNode (o : Origin) : Bool := o.binding.kind?.any (·.isSchemaNode)

/-- The origin of what one more `uses` has brought. -/
def throughUses (u : Carrier) (o : Origin) : Origin := { o with uses := o.uses ++ [u] }

/-- The origin of what belongs to the body of an `augment`. -/
def throughAugment (a : Carrier) (o : Origin) : Origin := { o with augment := some a }

/-- Neither a `uses` nor an `augment` has brought the node. -/
def IsBare (o : Origin) : Prop := o.uses = [] ∧ o.augment = none

/-- A label says of a node what its origin says. -/
structure Describes (o : Origin) (l : NodeLabel) : Prop where
  head : l.toHead = o.statement.label.toHead
  binding : l.binding = o.binding
  source : l.source = o.source.id
  conditions : l.conditions = o.conditions

end Origin

/-- The origins that the statements of a list have where they are copied to. A `uses` is not copied:
what its grouping brings takes its place, and has come through one more `uses`. -/
inductive Brings (model : DeclaredModel) :
    DeclaredSource → Scope → List Declaration → List Origin → Prop where
  | nil (s : DeclaredSource) (scope : Scope) : Brings model s scope [] []
  | written {s : DeclaredSource} {scope : Scope} {d : Declaration} {ds : List Declaration}
      {os : List Origin} (hnot : ¬ IsUses d) (rest : Brings model s scope ds os) :
      Brings model s scope (d :: ds) (.written s scope d :: os)
  | uses {s : DeclaredSource} {scope : Scope} {d : Declaration} {ds : List Declaration}
      {g : Definition} {content os : List Origin} (huses : IsUses d)
      (refers : Definition.resolve model s .grouping d.label scope = .ok g)
      (inside : Brings model g.source g.inner
        (g.statement.children.filter fun c => Node.isGroupingContent c.label.binding) content)
      (rest : Brings model s scope ds os) :
      Brings model s scope (d :: ds) (content.map (Origin.throughUses ⟨s.id, d⟩) ++ os)

/-- The names by which the children of a node are reached, where the node itself stands below nodes
of the names `above`. No name leads through what has none. -/
def Node.namesBelow (above : List String) (n : Node) : List String :=
  if isSchemaNode n = true then above ++ [schemaName n] else []

/-- The origins that the body of an `augment` gives to what it adds to the node which is reached by
these names. -/
def IsBody (model : DeclaredModel) (names : List String) (os : List Origin) : Prop :=
  ∃ s scope a, Lexical model s scope a ∧ Expansion.isAugment a = true
    ∧ (Carrier.mk s.id a).LeadsTo names
    ∧ ∃ content, Brings model s (scope.enter s a)
        (a.children.filter fun c => Node.isAugmentContent c.label.binding) content
      ∧ os = content.map (Origin.throughAugment ⟨s.id, a⟩)

/-- Whether origins are all those that are expected, or what deviations have left of them. -/
def Kept : (whole : Bool) → (os expected : List Origin) → Prop
  | true, os, expected => os = expected
  | false, os, expected => os.Sublist expected

/-- The children of a node that is reached by these names have the origins `os`, as its own origin
has it: the schema nodes among them are what its statement brings, followed by the bodies of
augments, and what is no schema node has been brought by nothing. Under what is no schema node
itself, all children are as written. -/
def Origin.AccountsFor (whole : Bool) (model : DeclaredModel) (names : List String) (o : Origin)
    (os : List Origin) : Prop :=
  ∃ (base : List Origin) (bodies : List (List Origin)),
    Brings model o.source (o.scope.enter o.source o.statement) o.statement.children base
    ∧ (∀ body ∈ bodies, IsBody model names body)
    ∧ Kept whole (os.filter Origin.isSchemaNode)
        (base.filter Origin.isSchemaNode ++ bodies.flatten)
    ∧ (∀ x ∈ os, x.isSchemaNode = false → x.IsBare)
    ∧ (o.isSchemaNode = false → os = base)

/-- A node below nodes of the names `above` has an origin, and everything below it has the origin
that it should have. -/
inductive Explains (whole : Bool) (model : DeclaredModel) :
    (above : List String) → Origin → Node → Prop where
  | intro {above : List String} {o : Origin} {n : Node} {os : List Origin}
      (describes : o.Describes n.label)
      (accounts : o.AccountsFor whole model (Node.namesBelow above n) os)
      (length_eq : os.length = n.children.length)
      (children : ∀ x ∈ os.zip n.children,
        Explains whole model (Node.namesBelow above n) x.1 x.2) :
      Explains whole model above o n

/-! ## What statements bring -/

namespace Brings

variable {model : DeclaredModel} {s : DeclaredSource} {scope : Scope} {ds es : List Declaration}
  {os ps : List Origin}

theorem append (h : Brings model s scope ds os) (h' : Brings model s scope es ps) :
    Brings model s scope (ds ++ es) (os ++ ps) := by
  induction h with
  | nil => exact h'
  | written hnot _ ih => exact .written hnot (ih h')
  | uses huses refers inside _ _ ih =>
    rw [List.append_assoc]
    exact .uses huses refers inside (ih h')

/-- Statements that are no `uses` bring themselves. -/
theorem of_not_uses (hds : ∀ d ∈ ds, ¬ IsUses d) :
    Brings model s scope ds (ds.map (.written s scope)) := by
  induction ds with
  | nil => exact .nil s scope
  | cons d ds ih =>
    obtain ⟨hd, hds⟩ := List.forall_mem_cons.1 hds
    exact .written hd (ih hds)

/-- No body of an `augment` is among what statements bring. -/
theorem augment_eq_none (h : Brings model s scope ds os) : ∀ o ∈ os, o.augment = none := by
  induction h with
  | nil => exact fun o ho => absurd ho List.not_mem_nil
  | written _ _ ih => exact List.forall_mem_cons.2 ⟨rfl, ih⟩
  | uses _ _ _ _ ihinside ih =>
    refine List.forall_mem_append.2 ⟨?_, ih⟩
    intro o ho
    obtain ⟨x, hx, rfl⟩ := List.mem_map.1 ho
    exact ihinside x hx

/-- Content brings content, and no `uses`. -/
theorem binding_of_content {p : Binding → Bool}
    (hp : ∀ b, Node.isGroupingContent b = true → p b = true)
    (h : Brings model s scope ds os) (hds : ∀ d ∈ ds, p d.label.binding = true) :
    ∀ o ∈ os, p o.binding = true ∧ o.binding ≠ .builtin .uses := by
  induction h generalizing p with
  | nil => exact fun o ho => absurd ho List.not_mem_nil
  | written hnot _ ih =>
    obtain ⟨hd, hds⟩ := List.forall_mem_cons.1 hds
    exact List.forall_mem_cons.2 ⟨⟨hd, hnot⟩, ih hp hds⟩
  | uses _ _ _ _ ihinside ih =>
    refine List.forall_mem_append.2 ⟨?_, ih hp (List.forall_mem_cons.1 hds).2⟩
    intro o ho
    obtain ⟨x, hx, rfl⟩ := List.mem_map.1 ho
    have hcontent := ihinside (p := Node.isGroupingContent) (fun _ hb => hb)
      (fun d hd => (List.mem_filter.1 hd).2) x hx
    exact ⟨hp _ hcontent.1, hcontent.2⟩

/-- What has been brought by a `uses` is content of groupings. -/
theorem isBare_or_content (h : Brings model s scope ds os) : ∀ o ∈ os, o.IsBare
    ∨ Node.isGroupingContent o.binding = true ∧ o.binding ≠ .builtin .uses := by
  induction h with
  | nil => exact fun o ho => absurd ho List.not_mem_nil
  | written _ _ ih => exact List.forall_mem_cons.2 ⟨.inl ⟨rfl, rfl⟩, ih⟩
  | uses _ _ inside _ _ ih =>
    refine List.forall_mem_append.2 ⟨?_, ih⟩
    intro o ho
    obtain ⟨x, hx, rfl⟩ := List.mem_map.1 ho
    exact .inr (inside.binding_of_content (fun _ hb => hb)
      (fun d hd => (List.mem_filter.1 hd).2) x hx)

end Brings

namespace Origin

variable {o : Origin}

/-- Content that is no `uses` has a name in schema paths. -/
theorem isSchemaNode_of_content (h : Node.isAugmentContent o.binding = true)
    (hne : o.binding ≠ .builtin .uses) : o.isSchemaNode = true :=
  Augmentation.isSchemaNode_of_isAugmentContent
    (n := ⟨NodeLabel.ofDeclared o.source.id o.source.id false o.statement.label, []⟩) h hne

end Origin

/-- What a grouping brings states no condition. -/
theorem Node.conditionOf?_of_content {source : SourceId} {b : Binding} {head : Head}
    (h : isGroupingContent b = true) : conditionOf? source b head = none := by
  cases b with
  | builtin kind => cases kind <;> first | rfl | cases h
  | extension module name => rfl
  | uninterpreted => rfl

theorem isAugmentContent_of_isGroupingContent (b : Binding) (h : Node.isGroupingContent b = true) :
    Node.isAugmentContent b = true := Bool.or_eq_true_iff.2 (.inl h)

namespace Brings

variable {model : DeclaredModel} {s : DeclaredSource} {scope : Scope} {ds : List Declaration}
  {os : List Origin} {source : SourceId}

/-- What has no name has been brought by no `uses`. -/
theorem isBare (h : Brings model s scope ds os) : ∀ o ∈ os, o.isSchemaNode = false → o.IsBare := by
  intro o ho hnot
  rcases h.isBare_or_content o ho with hbare | ⟨hcontent, hne⟩
  · exact hbare
  · rw [o.isSchemaNode_of_content (isAugmentContent_of_isGroupingContent _ hcontent) hne] at hnot
    cases hnot

/-- The content of an `augment` brings those of its origins that are content. -/
theorem filter_content (h : Brings model s scope ds os) :
    Brings model s scope (ds.filter fun d => Node.isAugmentContent d.label.binding)
      (os.filter fun o => Node.isAugmentContent o.binding) := by
  induction h with
  | nil => exact .nil _ _
  | @written s scope d ds os hnot _ ih =>
    have hsame : Node.isAugmentContent (Origin.written s scope d).binding
        = Node.isAugmentContent d.label.binding := rfl
    rw [List.filter_cons, List.filter_cons, hsame]
    split
    · exact .written hnot ih
    · exact ih
  | @uses s scope d ds g content os huses refers inside _ _ ih =>
    have hd : Node.isAugmentContent d.label.binding = true := by
      rw [show d.label.binding = .builtin .uses from huses]
      rfl
    have hcontent : (content.map (Origin.throughUses ⟨s.id, d⟩)).filter
          (fun o => Node.isAugmentContent o.binding)
        = content.map (Origin.throughUses ⟨s.id, d⟩) := by
      refine List.filter_eq_self.2 fun o ho => ?_
      obtain ⟨x, hx, rfl⟩ := List.mem_map.1 ho
      exact isAugmentContent_of_isGroupingContent _ (inside.binding_of_content (fun _ hb => hb)
        (fun d hd => (List.mem_filter.1 hd).2) x hx).1
    rw [List.filter_cons, if_pos hd, List.filter_append, hcontent]
    exact .uses huses refers inside ih

/-- The conditions that statements state can be read off what they bring: none of them is brought by
a `uses`. -/
theorem filterMap_conditionOf? (h : Brings model s scope ds os) :
    (os.filterMap fun o => Node.conditionOf? source o.binding o.statement.label.toHead)
      = Node.conditionsOfDeclarations source ds := by
  induction h with
  | nil => rfl
  | @written s scope d ds os hnot _ ih =>
    rw [Node.conditionsOfDeclarations, List.filterMap_cons, List.filterMap_cons, ih]
    rfl
  | @uses s scope d ds g content os huses refers inside _ _ ih =>
    have hcontent : (content.map (Origin.throughUses ⟨s.id, d⟩)).filterMap
        (fun o => Node.conditionOf? source o.binding o.statement.label.toHead) = [] := by
      refine List.filterMap_eq_nil_iff.2 fun o ho => ?_
      obtain ⟨x, hx, rfl⟩ := List.mem_map.1 ho
      exact Node.conditionOf?_of_content (inside.binding_of_content (fun _ hb => hb)
        (fun d hd => (List.mem_filter.1 hd).2) x hx).1
    have huse : Node.conditionOf? source d.label.binding d.label.toHead = none := by
      rw [show d.label.binding = .builtin .uses from huses]
      rfl
    rw [List.filterMap_append, hcontent, List.nil_append, ih, Node.conditionsOfDeclarations,
      Node.conditionsOfDeclarations, List.filterMap_cons, huse]

end Brings

/-! ## Lists of explained nodes -/

section Lists

variable {α β γ : Type} {R : α → β → Prop} {S : α → γ → Prop} {as : List α} {bs : List β}

/-- Changing the second list, where the first one stays. -/
theorem forall₂_map_right_of_mem {f : β → γ} (h : List.Forall₂ R as bs)
    (hf : ∀ b ∈ bs, ∀ a, R a b → S a (f b)) : List.Forall₂ S as (bs.map f) := by
  induction h with
  | nil => exact .nil
  | cons hab _ ih =>
    obtain ⟨hb, hbs⟩ := List.forall_mem_cons.1 hf
    exact .cons (hb _ hab) (ih hbs)

theorem forall₂_modify {f : β → β} {i : Nat} (h : List.Forall₂ R as bs)
    (hf : ∀ b, bs[i]? = some b → ∀ a, R a b → R a (f b)) : List.Forall₂ R as (bs.modify i f) := by
  induction h generalizing i with
  | nil =>
    rw [List.modify_nil]
    exact .nil
  | cons hab hrest ih =>
    cases i with
    | zero =>
      rw [List.modify_zero_cons]
      exact .cons (hf _ rfl _ hab) hrest
    | succ i =>
      rw [List.modify_succ_cons]
      exact .cons hab (ih fun b hb => hf b hb)

end Lists

theorem Kept.of_eq {whole : Bool} {os expected : List Origin} (h : os = expected) :
    Kept whole os expected := by
  cases whole with
  | true => exact h
  | false => exact h ▸ List.Sublist.refl os

theorem Kept.append {whole : Bool} {os expected : List Origin} (h : Kept whole os expected)
    (ps : List Origin) : Kept whole (os ++ ps) (expected ++ ps) := by
  cases whole with
  | true => exact congrArg (· ++ ps) h
  | false => exact List.Sublist.append h (List.Sublist.refl ps)

/-- What belongs to the body of an `augment` has a name. -/
theorem IsBody.isSchemaNode {model : DeclaredModel} {names : List String} {os : List Origin}
    (h : IsBody model names os) : ∀ o ∈ os, o.isSchemaNode = true := by
  obtain ⟨s, scope, a, _, _, _, content, hcontent, rfl⟩ := h
  intro o ho
  obtain ⟨x, hx, rfl⟩ := List.mem_map.1 ho
  obtain ⟨hbinding, hne⟩ := hcontent.binding_of_content isAugmentContent_of_isGroupingContent
    (fun d hd => (List.mem_filter.1 hd).2) x hx
  exact x.isSchemaNode_of_content hbinding hne

/-! ## Ways through a tree -/

namespace Node

variable {names : List String} {ns : List Node} {n x : Node} {p : List Nat}

theorem namesBelow_of_isCalled {name : String} (above : List String)
    (h : isCalled name n = true) : namesBelow above n = above ++ [name] := by
  obtain ⟨hname, hcalled⟩ := Bool.and_eq_true_iff.1 h
  rw [namesBelow, if_pos hname, beq_iff_eq.1 hcalled]

theorem isCalled_of_findIdx? {k : Name} {i : Nat} (hi : ns.findIdx? (hasName k) = some i)
    (hn : ns[i]? = some n) : isCalled k.2 n = true := by
  obtain ⟨_, hfound, _⟩ := List.findIdx?_eq_some_iff_getElem.1 hi
  obtain ⟨_, rfl⟩ := List.getElem?_eq_some_iff.1 hn
  obtain ⟨hname, hsame⟩ := Bool.and_eq_true_iff.1 hfound
  exact Bool.and_eq_true_iff.2 ⟨hname, beq_iff_eq.2 (congrArg Prod.snd (of_decide_eq_true hsame))⟩

/-- A way ends at a node of the list or at a child of a node to which a shorter way leads. -/
theorem Passes.exists_parent (h : Passes names ns p x) :
    (∃ i, p = [i] ∧ ns[i]? = some x)
      ∨ ∃ front q y i, Passes front ns q y ∧ p = q ++ [i] ∧ y.children[i]? = some x := by
  induction h with
  | here at_place _ => exact .inl ⟨_, rfl, at_place⟩
  | child at_place called _ ih =>
    rcases ih with ⟨j, rfl, hx⟩ | ⟨front, q, y, j, hfront, rfl, hx⟩
    · exact .inr ⟨_, [_], _, j, .here at_place called, rfl, hx⟩
    · exact .inr ⟨_, _ :: q, y, j, .child at_place called hfront, rfl, hx⟩

end Node

/-- A path passes through nodes of the names of its steps. -/
theorem Forest.passes_of_follow {model : DeclaredModel} {source : SourceId} {n x : Node}
    {step : Step} {steps : List Step} {p : List Nat}
    (h : follow model source n (step :: steps) = .ok (p, x)) :
    Node.Passes ((step :: steps).map Step.name) n.children p x := by
  induction steps generalizing n step p with
  | nil =>
    obtain ⟨m, i, c, q, _, hi, hc, hrest, rfl⟩ := follow_cons_eq_ok.1 h
    cases hrest
    exact .here hc (Node.isCalled_of_findIdx? hi hc)
  | cons next steps ih =>
    obtain ⟨m, i, c, q, _, hi, hc, hrest, rfl⟩ := follow_cons_eq_ok.1 h
    exact .child hc (Node.isCalled_of_findIdx? hi hc) (ih hrest)

/-! ## Explained nodes -/

section

variable {whole : Bool} {model : DeclaredModel} {above : List String} {o : Origin} {n : Node}

theorem explains_iff : Explains whole model above o n ↔ ∃ os, o.Describes n.label
    ∧ o.AccountsFor whole model (Node.namesBelow above n) os
    ∧ List.Forall₂ (Explains whole model (Node.namesBelow above n)) os n.children := by
  constructor
  · rintro ⟨describes, accounts, length_eq, children⟩
    exact ⟨_, describes, accounts,
      List.forall₂_iff_zip.2 ⟨length_eq, fun hmem => children _ hmem⟩⟩
  · rintro ⟨os, describes, accounts, children⟩
    exact .intro describes accounts children.length_eq
      fun x hx => (List.forall₂_iff_zip.1 children).2 hx

end

namespace Explains

variable {whole : Bool} {model : DeclaredModel} {above names : List String} {o : Origin}
  {n x x' : Node} {os : List Origin} {ns added : List Node} {p : List Nat} {u a : Carrier}

theorem describes (h : Explains whole model above o n) : o.Describes n.label := by
  obtain ⟨_, describes, _⟩ := explains_iff.1 h
  exact describes

theorem isSchemaNode (h : Explains whole model above o n) :
    Node.isSchemaNode n = o.isSchemaNode := by
  unfold Node.isSchemaNode NodeLabel.isSchemaNode NodeLabel.kind? Origin.isSchemaNode
  rw [h.describes.binding]

/-- The mark of an `augment` does not change where nodes come from. -/
theorem markAugmenting (h : Explains whole model above o n) :
    Explains whole model above o (Node.markAugmenting n) := by
  induction n using Tree.induct generalizing above o with
  | step n ih =>
    obtain ⟨os, describes, accounts, children⟩ := explains_iff.1 h
    obtain ⟨l, cs⟩ := n
    refine explains_iff.2 ⟨os, ⟨describes.head, describes.binding, describes.source,
      describes.conditions⟩, accounts, ?_⟩
    rw [Node.markAugmenting, Tree.map, Tree.mapForest_eq]
    exact forall₂_map_right_of_mem children fun c hc _ h => ih c hc h

/-- The conditions of one more `uses` come behind those of the `uses` inside it. -/
theorem throughUses (h : Explains whole model above o n) (hnone : o.augment = none) :
    Explains whole model above (o.throughUses u) (n.addConditions u.conditions) := by
  obtain ⟨os, describes, accounts, children⟩ := explains_iff.1 h
  refine explains_iff.2 ⟨os, ⟨describes.head, describes.binding, describes.source, ?_⟩, accounts,
    children⟩
  show n.label.conditions ++ u.conditions = _
  rw [describes.conditions, Origin.conditions, Origin.conditions, Origin.throughUses, hnone]
  simp only [Option.map_none, Option.getD_none, List.append_nil, List.flatMap_append,
    List.flatMap_singleton]

/-- The conditions of an `augment` come behind those of all `uses`. -/
theorem throughAugment (h : Explains whole model above o n) (hnone : o.augment = none) :
    Explains whole model above (o.throughAugment a) (n.addConditions a.conditions) := by
  obtain ⟨os, describes, accounts, children⟩ := explains_iff.1 h
  refine explains_iff.2 ⟨os, ⟨describes.head, describes.binding, describes.source, ?_⟩, accounts,
    children⟩
  show n.label.conditions ++ a.conditions = _
  rw [describes.conditions, Origin.conditions, Origin.conditions, Origin.throughAugment, hnone]
  simp only [Option.map_none, Option.getD_none, List.append_nil, Option.map_some,
    Option.getD_some]

/-- The conditions of a `uses` are added to all that its grouping brings. -/
theorem mapThroughUses (hnone : ∀ o ∈ os, o.augment = none)
    (h : List.Forall₂ (Explains whole model above) os ns) :
    List.Forall₂ (Explains whole model above) (os.map (Origin.throughUses u))
      (ns.map (Node.addConditions u.conditions)) := by
  induction h with
  | nil => exact .nil
  | cons hon _ ih =>
    obtain ⟨ho, hos⟩ := List.forall_mem_cons.1 hnone
    exact .cons (hon.throughUses ho) (ih hos)

/-- The conditions of an `augment` are added to all nodes of its body, which are marked. -/
theorem mapThroughAugment (hnone : ∀ o ∈ os, o.augment = none)
    (h : List.Forall₂ (Explains whole model above) os ns) :
    List.Forall₂ (Explains whole model above) (os.map (Origin.throughAugment a))
      (ns.map fun n => (n.addConditions a.conditions).markAugmenting) := by
  induction h with
  | nil => exact .nil
  | cons hon _ ih =>
    obtain ⟨ho, hos⟩ := List.forall_mem_cons.1 hnone
    exact .cons (hon.throughAugment ho).markAugmenting (ih hos)

/-- The conditions that nodes state are those that their statements state. -/
theorem filterMap_conditionOf? (h : List.Forall₂ (Explains whole model above) os ns)
    (source : SourceId) :
    (ns.filterMap fun n => Node.conditionOf? source n.label.binding n.label.toHead)
      = os.filterMap fun o => Node.conditionOf? source o.binding o.statement.label.toHead := by
  induction h with
  | nil => rfl
  | cons hon _ ih =>
    rw [List.filterMap_cons, List.filterMap_cons, ih, hon.describes.binding, hon.describes.head]

/-- Where something stands that has no name does not matter for where it comes from. -/
theorem of_not_isSchemaNode (h : Explains whole model above o n)
    (hnot : Node.isSchemaNode n = false) (other : List String) :
    Explains whole model other o n := by
  have hbelow (above : List String) : Node.namesBelow above n = [] := by
    rw [Node.namesBelow, hnot, if_neg Bool.false_ne_true]
  rw [explains_iff, hbelow] at h ⊢
  exact h

/-! ### Changing a node below -/

/-- A node may be replaced by one that has all origins that it can have there. -/
theorem forestReplace (h : List.Forall₂ (Explains whole model above) os ns)
    (hx : Node.Passes names ns p x)
    (hreplaces : ∀ front, Node.namesBelow front x = above ++ names →
      ∀ o, Explains whole model front o x → Explains whole model front o x') :
    List.Forall₂ (Explains whole model above) os (Tree.forestReplace x' ns p) := by
  induction hx generalizing above os with
  | @here name ns i x hplace hcalled =>
    refine forall₂_modify h fun d hd o hod => ?_
    cases hplace.symm.trans hd
    exact hreplaces above (Node.namesBelow_of_isCalled above hcalled) o hod
  | @child name names ns i n x p hplace hcalled hrest ih =>
    refine forall₂_modify h fun d hd o hod => ?_
    cases hplace.symm.trans hd
    obtain ⟨qs, describes, accounts, children⟩ := explains_iff.1 hod
    rw [Node.namesBelow_of_isCalled above hcalled] at children
    have hbelow := ih children fun front hfront => hreplaces front (by
      rw [hfront, List.append_assoc, List.singleton_append])
    rw [← Node.namesBelow_of_isCalled above hcalled] at hbelow
    rw [hrest.replace_eq]
    exact explains_iff.2 ⟨qs, describes, accounts, hbelow⟩

/-- A schema node may grow by the body of an `augment` whose path leads to it. -/
theorem addChildren (h : Explains whole model above o n) (hname : Node.isSchemaNode n = true)
    (hbody : IsBody model (Node.namesBelow above n) os)
    (hadded : List.Forall₂ (Explains whole model (Node.namesBelow above n)) os added) :
    Explains whole model above o (n.addChildren added) := by
  rw [h.isSchemaNode] at hname
  obtain ⟨ps, describes, accounts, children⟩ := explains_iff.1 h
  obtain ⟨base, bodies, hbase, hbodies, hkept, hbare, _⟩ := accounts
  refine explains_iff.2 ⟨ps ++ os, describes,
    ⟨base, bodies ++ [os], hbase, ?_, ?_, ?_, fun hnot => ?_⟩, List.rel_append children hadded⟩
  · exact List.forall_mem_append.2 ⟨hbodies, List.forall_mem_singleton.2 hbody⟩
  · rw [List.filter_append, List.filter_eq_self.2 hbody.isSchemaNode, List.flatten_append,
      List.flatten_singleton, ← List.append_assoc]
    exact hkept.append os
  · refine List.forall_mem_append.2 ⟨hbare, fun x hx hnot => ?_⟩
    rw [hbody.isSchemaNode x hx] at hnot
    cases hnot
  · rw [hname] at hnot
    cases hnot

/-! ### What is left -/

/-- Where everything is there, so is what is left. -/
theorem toPart (h : Explains true model above o n) : Explains false model above o n := by
  induction n using Tree.induct generalizing above o with
  | step n ih =>
    obtain ⟨os, describes, ⟨base, bodies, hbase, hbodies, hkept, hbare, hwritten⟩, children⟩ :=
      explains_iff.1 h
    refine explains_iff.2 ⟨os, describes,
      ⟨base, bodies, hbase, hbodies, .of_eq hkept, hbare, hwritten⟩, ?_⟩
    rw [← List.map_id n.children]
    exact forall₂_map_right_of_mem children fun c hc _ hoc => ih c hc hoc

/-- A schema node may lose children where not everything has to be there. -/
theorem dropChildren {left : List Node} (h : Explains false model above o n)
    (hname : Node.isSchemaNode n = true) (hleft : left.Sublist n.children) :
    Explains false model above o ⟨n.label, left⟩ := by
  rw [h.isSchemaNode] at hname
  obtain ⟨os, describes, ⟨base, bodies, hbase, hbodies, hkept, hbare, _⟩, children⟩ :=
    explains_iff.1 h
  obtain ⟨os', hsub, hos'⟩ := exists_sublist_of_forall₂ children hleft
  refine explains_iff.2 ⟨os', describes, ⟨base, bodies, hbase, hbodies,
    (hsub.filter _).trans hkept, fun x hx => hbare x (hsub.subset hx), fun hnot => ?_⟩, hos'⟩
  rw [hname] at hnot
  cases hnot

/-- Everything in an explained tree has an origin. -/
theorem exists_describes (h : Explains whole model above o n) :
    ∀ l ∈ n.preorder, ∃ o, Origin.Describes o l := by
  induction n using Tree.induct generalizing above o with
  | step n ih =>
    obtain ⟨os, describes, _, children⟩ := explains_iff.1 h
    rw [Tree.preorder_eq]
    refine List.forall_mem_cons.2 ⟨⟨o, describes⟩, fun l hl => ?_⟩
    obtain ⟨c, hc, hl⟩ := Tree.mem_forestPreorder.1 hl
    obtain ⟨_, _, hoc⟩ := exists_mem_of_forall₂ children hc
    exact ih c hc hoc l hl

/-! ### Properties -/

theorem filter_isSchemaNode (h : List.Forall₂ (Explains whole model above) os ns) :
    List.Forall₂ (Explains whole model above) (os.filter Origin.isSchemaNode)
      (ns.filter Node.isSchemaNode) :=
  List.rel_filter (fun _ _ h => Bool.eq_iff_iff.1 h.isSchemaNode.symm) h

/-- A property of a node: it has no name, and its statement stands under that of the node. -/
def IsProperty (whole : Bool) (model : DeclaredModel) (n : Node) : Prop :=
  Node.isSchemaNode n = false ∧ ∃ o above, o.IsBare ∧ Explains whole model above o n

/-- Properties have origins wherever they stand. -/
theorem exists_origins_of_properties (hadded : ∀ c ∈ added, IsProperty whole model c)
    (above : List String) : ∃ ps, List.Forall₂ (Explains whole model above) ps added
      ∧ ∀ x ∈ ps, x.IsBare ∧ x.isSchemaNode = false := by
  induction added with
  | nil => exact ⟨[], .nil, fun x hx => absurd hx List.not_mem_nil⟩
  | cons c cs ih =>
    obtain ⟨⟨hc, x, _, hbare, hx⟩, hcs⟩ := List.forall_mem_cons.1 hadded
    obtain ⟨ps, hps, hnot⟩ := ih hcs
    refine ⟨x :: ps, .cons (hx.of_not_isSchemaNode hc above) hps, ?_⟩
    rw [hx.isSchemaNode] at hc
    exact List.forall_mem_cons.2 ⟨⟨hbare, hc⟩, hnot⟩

/-- A schema node may lose properties and be given others. -/
theorem changeProperties {left : List Node} (h : Explains whole model above o n)
    (hname : Node.isSchemaNode n = true) (hleft : left.Sublist n.children)
    (hschema : left.filter Node.isSchemaNode = n.schemaChildren)
    (hadded : ∀ c ∈ added, IsProperty whole model c) :
    Explains whole model above o ⟨n.label, left ++ added⟩ := by
  rw [h.isSchemaNode] at hname
  obtain ⟨os, describes, accounts, children⟩ := explains_iff.1 h
  obtain ⟨base, bodies, hbase, hbodies, hkept, hbare, _⟩ := accounts
  obtain ⟨os', hsub, hos'⟩ := exists_sublist_of_forall₂ children hleft
  obtain ⟨ps, hps, hnot⟩ := exists_origins_of_properties hadded (Node.namesBelow above n)
  -- no schema node is missing, so these are the same origins
  have hsame : os'.filter Origin.isSchemaNode = os.filter Origin.isSchemaNode := by
    refine (hsub.filter _).eq_of_length ?_
    rw [(filter_isSchemaNode hos').length_eq, hschema, Node.schemaChildren,
      (filter_isSchemaNode children).length_eq]
  have hnone : ps.filter Origin.isSchemaNode = [] :=
    List.filter_eq_nil_iff.2 fun x hx => Bool.eq_false_iff.1 (hnot x hx).2
  refine explains_iff.2 ⟨os' ++ ps, describes, ⟨base, bodies, hbase, hbodies, ?_, ?_, fun h => ?_⟩,
    List.rel_append hos' hps⟩
  · rw [List.filter_append, hnone, List.append_nil, hsame]
    exact hkept
  · exact List.forall_mem_append.2
      ⟨fun x hx => hbare x (hsub.subset hx), fun x hx _ => (hnot x hx).1⟩
  · rw [hname] at h
    cases h

/-- A statement without a `uses` below it is copied as it is. -/
theorem ofDeclaration (whole : Bool) (model : DeclaredModel) (s : DeclaredSource) (scope : Scope)
    (module : SourceId) (addedByUses : Bool) {d : Declaration}
    (hnot : ∀ x ∈ d.subtrees, ¬ IsUses x) (above : List String) :
    Explains whole model above (.written s scope d)
      (Node.ofDeclaration module s.id addedByUses d) := by
  induction d using Tree.induct generalizing scope above with
  | step d ih =>
    have hchildren : Brings model s (scope.enter s d) d.children
        (d.children.map (.written s (scope.enter s d))) :=
      .of_not_uses fun c hc => hnot c (Tree.mem_subtrees_of_mem_child hc (Tree.mem_subtrees_self c))
    refine explains_iff.2 ⟨_, ?_, ⟨_, [], hchildren,
      fun body hbody => absurd hbody List.not_mem_nil, .of_eq (List.append_nil _).symm,
      hchildren.isBare, fun _ => rfl⟩, ?_⟩
    · obtain ⟨label, children⟩ := d
      exact ⟨rfl, rfl, rfl, rfl⟩
    · have hcopied : (Node.ofDeclaration module s.id addedByUses d).children
          = d.children.map (Node.ofDeclaration module s.id addedByUses) := by
        obtain ⟨label, children⟩ := d
        rw [Node.ofDeclaration, Tree.map, Tree.mapForest_eq]
        rfl
      rw [hcopied, List.forall₂_map_left_iff, List.forall₂_map_right_iff, List.forall₂_same]
      exact fun c hc => ih c hc (scope.enter s d) (fun x hx =>
        hnot x (Tree.mem_subtrees_of_mem_child hc hx)) _

end Explains

end YangSchema
