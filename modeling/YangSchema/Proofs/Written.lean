import YangSchema.Proofs.Addresses
import YangSchema.Proofs.Binding

/-!
# What is declared and what is written

A declaration is a statement with its binding, so the statement can be read off it
(`Declaration.written`). Below a built-in statement, the declarations of a kind are the statements
that have its keyword without a prefix (`Declaration.childrenNamed_written`). So whatever is read
from the statements of a source, as its header is, can be read from its declarations.

The sources of a declared model are those that have been registered, each with its header and its
statements (`DeclaredModel.exists_declared`).
-/

namespace YangSchema

namespace Tree

variable {α : Type}

/-- Every subtree but the tree itself is a child of a subtree. -/
theorem exists_parent_of_mem {t x : Tree α} (hx : x ∈ t.subtrees) :
    x = t ∨ ∃ p ∈ t.subtrees, x ∈ p.children := by
  induction t using induct with
  | step t ih =>
    rcases mem_subtrees.1 hx with rfl | ⟨c, hc, hx⟩
    · exact .inl rfl
    · right
      rcases ih c hc hx with rfl | ⟨p, hp, hx⟩
      · exact ⟨t, mem_subtrees_self t, hc⟩
      · exact ⟨p, mem_subtrees_of_mem_child hc hp, hx⟩

end Tree

namespace Declaration

variable {extensions : Extensions} {s : LinkedSource} {root : Statement} {d x c : Declaration}
  {kind : Kind}

/-! ## Statements -/

/-- The statement of a declaration, as it is written. -/
def written (d : Declaration) : Statement := d.map Declared.toHead

@[simp] theorem argument_written (d : Declaration) : d.written.argument = d.label.argument := by
  obtain ⟨label, children⟩ := d
  rfl

@[simp] theorem children_written (d : Declaration) :
    d.written.children = d.children.map written := by
  obtain ⟨label, children⟩ := d
  exact Tree.mapForest_eq _ children

theorem isNamed_written (d : Declaration) (name : String) :
    d.written.isNamed name = (d.label.keyword.qualifier.isNone
      && d.label.keyword.identifier == name) := by
  obtain ⟨label, children⟩ := d
  rfl

/-- A statement that is looked at is of a kind exactly if it has its keyword. -/
theorem BindsTo.is_iff (h : BindsTo extensions s d.label.toHead d.label.binding) :
    d.is kind = d.written.isNamed kind.keyword := by
  rw [Bool.eq_iff_iff, Declaration.is_iff, isNamed_written, Bool.and_eq_true, beq_iff_eq,
    Option.isNone_iff_eq_none]
  generalize d.label.binding = b at h
  cases h with
  | builtin k hplain hkeyword =>
    rw [← hkeyword]
    constructor
    · intro heq
      cases heq
      exact ⟨hplain, rfl⟩
    · rintro ⟨_, heq⟩
      rw [List.inj_on_of_nodup_map Kind.nodup_keyword (Kind.mem_all k) (Kind.mem_all kind) heq]
  | extension p module hqualifier =>
    rw [hqualifier]
    simp

section

variable (hbound : ofStatement extensions s root = .ok d) (hx : x ∈ d.subtrees)
  (hbuiltin : x.kind?.isSome = true)

include hbound hx hbuiltin

/-- Below a built-in statement, those of a kind are those that have its keyword. -/
theorem is_child_eq (hc : c ∈ x.children) : c.is kind = c.written.isNamed kind.keyword := by
  have hbinding := binding_of_child hbound hx hc
  obtain ⟨k, hk⟩ := Option.isSome_iff_exists.1 hbuiltin
  rw [kind?_eq_some_iff.1 hk] at hbinding
  exact hbinding.is_iff

theorem childrenNamed_written (kind : Kind) :
    x.written.childrenNamed kind.keyword = (x.childrenOfKind kind).map written := by
  unfold Statement.childrenNamed childrenOfKind
  rw [children_written, List.filter_map]
  congr 1
  apply List.filter_congr
  intro c hc
  exact (is_child_eq hbound hx hbuiltin hc).symm

theorem firstChild?_written (kind : Kind) :
    x.written.firstChild? kind.keyword = (x.firstChild? kind).map written := by
  have hnamed := childrenNamed_written hbound hx hbuiltin kind
  unfold Statement.childrenNamed childrenOfKind at hnamed
  unfold Statement.firstChild? firstChild?
  rw [← List.head?_filter, ← List.head?_filter, hnamed, List.head?_map]

/-- The argument of the first substatement of a kind. -/
theorem childArgument?_eq (kind : Kind) :
    x.childArgument? kind = (x.written.firstChild? kind.keyword).bind (·.argument) := by
  rw [firstChild?_written hbound hx hbuiltin, childArgument?]
  cases x.firstChild? kind <;> simp

end

end Declaration

/-! ## Sources -/

namespace DeclaredModel

variable {order : Bool} {sources : List Source} {model : DeclaredModel} {s : DeclaredSource}

/-- A source is declared: its header has been read, and its statements have been bound. -/
structure Declares (source : Source) (s : DeclaredSource) : Prop where
  header : Header.ofSource source = .ok s.header
  bound : ∃ extensions, Declaration.ofStatement extensions s.toLinkedSource source.root = .ok s.root

theorem Declares.written {source : Source} (h : Declares source s) :
    s.root.written = source.root := by
  obtain ⟨_, hbound⟩ := h.bound
  exact Declaration.map_toHead hbound

theorem forall₂_declare {linked : List (LinkedSource × Statement)}
    {declared : List DeclaredSource} (h : declare order linked = .ok declared) :
    List.Forall₂ (fun l s => s.toLinkedSource = l.1
      ∧ Declaration.ofStatement (.ofSources linked) l.1 l.2 = .ok s.root) linked declared := by
  obtain ⟨bound, hbound, h⟩ := Result.bind_eq_ok.1 h
  obtain ⟨_, _, h⟩ := Result.bind_eq_ok.1 h
  rw [← Except.ok.inj h, List.forall₂_map_right_iff]
  apply (Result.mapM_eq_ok.1 hbound).imp
  intro l b hb
  obtain ⟨root, hroot, hreturn⟩ := Result.bind_eq_ok.1 hb
  cases hreturn
  exact ⟨rfl, hroot⟩

/-- What has been read, in identifier order, goes with what has been linked. -/
theorem map_linked {pairs : List (Header × Statement)} {linkage : Linkage}
    (hlinkage : Linkage.ofHeaders (pairs.map (·.1)) = .ok linkage) :
    (linkage.sources.zip (pairs.map (·.2))).map (fun l => (l.1.header, l.2)) = pairs := by
  have hmap : (linkage.sources.map (·.header)).zip ((pairs.map (·.2)).map id)
      = (linkage.sources.zip (pairs.map (·.2))).map (Prod.map (·.header) id) := List.zip_map
  rw [(Linkage.ofHeaders_eq_ok hlinkage).2, List.map_id, List.zip_map', List.map_id''] at hmap
  · exact hmap.symm
  · intro p
    rfl

/-- The sources of a declared model are those that have been registered, in identifier order. -/
theorem exists_declared (declared : ofSources order sources = .ok model) :
    ∃ sorted, sources.Perm sorted ∧ List.Forall₂ Declares sorted model.sources := by
  obtain ⟨pairs, linkage, hpairs, hlinkage, hdeclare, _⟩ := ofSources_eq_ok.1 declared
  have hread : List.Forall₂ (fun p s => s.header = p.1 ∧ ∃ extensions,
      Declaration.ofStatement extensions s.toLinkedSource p.2 = .ok s.root) pairs
      model.sources := by
    rw [← map_linked hlinkage, List.forall₂_map_left_iff]
    apply (forall₂_declare hdeclare).imp
    rintro l s ⟨hl, hroot⟩
    exact ⟨congrArg LinkedSource.header hl, _, hl ▸ hroot⟩
  obtain ⟨unsorted, hunsorted, rfl⟩ := readHeaders_eq_ok.1 hpairs
  obtain ⟨sorted, hsorted, hperm⟩ := List.perm_comp_forall₂
    (List.mergeSort_perm unsorted fun a b => a.1.id.le b.1.id) hunsorted.flip
  refine ⟨sorted, hperm.symm, ?_⟩
  generalize model.sources = declared at hread
  generalize unsorted.mergeSort _ = pairs at hsorted hread
  clear hperm
  induction hsorted generalizing declared with
  | nil =>
    cases hread
    exact .nil
  | cons hreads _ ih =>
    cases hread with
    | cons hdeclared hrest =>
      obtain ⟨hheader, extensions, hroot⟩ := hdeclared
      exact .cons ⟨hheader ▸ hreads.1, extensions, hreads.2 ▸ hroot⟩ (ih _ hrest)

theorem exists_mem_of_declares {sorted : List Source} {declared : List DeclaredSource}
    {source : Source} (h : List.Forall₂ Declares sorted declared) (hsource : source ∈ sorted) :
    ∃ s ∈ declared, Declares source s :=
  exists_mem_of_forall₂ h.flip hsource

/-- The headers of a declared model are those that have been read, in identifier order. -/
theorem perm_headers (declared : ofSources order sources = .ok model) {headers : List Header}
    (hread : sources.mapM Header.ofSource = .ok headers) :
    headers.Perm (model.sources.map (·.header)) := by
  obtain ⟨sorted, hperm, hdeclares⟩ := exists_declared declared
  have hsorted : List.Forall₂ (fun source h => Header.ofSource source = .ok h) sorted
      (model.sources.map (·.header)) := by
    rw [List.forall₂_map_right_iff]
    exact hdeclares.imp fun _ _ hdeclared => hdeclared.header
  obtain ⟨read, hread', hheaders⟩ := List.perm_comp_forall₂ hperm hsorted
  have hsame : headers = read := Except.ok.inj (hread.symm.trans (Result.mapM_eq_ok.2 hread'))
  exact hsame ▸ hheaders

end DeclaredModel

end YangSchema
