import YangSchema.Proofs.Declared
import YangSchema.Schema.Node

/-!
# Declared sources follow the grammar

In a declared source every built-in statement stands under a built-in statement that may have it:
the check sees to this below built-in statements, and below all others nothing is bound
(`grammatical_of_ofSources`). No two statements of a source have the same place
(`eq_of_place_eq`).

Groupings and references to groupings stand only below statements of certain kinds, those with
`Kind.holdsUses`; this follows from the table of substatements alone (`not_holdsUses_below`).
-/

namespace YangSchema

namespace Declaration

/-! ## Statements that are not bound -/

/-- Binding a list of statements binds each of them. -/
theorem bindAll_eq_ok {binding : Head → Result Binding} {hidden : Bool} {ss : List Statement}
    {ts : List (Tree (Head × Binding))} :
    bindAll binding hidden ss = .ok ts
      ↔ List.Forall₂ (fun s t => bind binding hidden s = .ok t) ss ts := by
  induction ss generalizing ts with
  | nil =>
    rw [bindAll, List.forall₂_nil_left_iff]
    exact ⟨fun h => (Except.ok.inj h).symm, fun h => by rw [h]⟩
  | cons s ss ih =>
    rw [bindAll, Result.bind_eq_ok]
    constructor
    · rintro ⟨t, ht, h⟩
      obtain ⟨us, hus, h⟩ := Result.bind_eq_ok.1 h
      rw [← Except.ok.inj h]
      exact .cons ht (ih.1 hus)
    · rintro (_ | ⟨ht, hus⟩)
      exact ⟨_, ht, Result.bind_eq_ok.2 ⟨_, ih.2 hus, rfl⟩⟩

/-- A bound statement has the binding of its keyword, and its substatements are hidden where that
binding says so. -/
theorem bind_eq_ok {binding : Head → Result Binding} {hidden : Bool} {s : Statement}
    {t : Tree (Head × Binding)} (h : bind binding hidden s = .ok t) :
    (hidden = true → t.label.2 = .uninterpreted)
      ∧ List.Forall₂ (fun c u => bind binding (hidesContent t.label.2) c = .ok u)
          s.children t.children := by
  obtain ⟨head, children⟩ := s
  rw [bind] at h
  split at h
  · obtain ⟨b, hb, h⟩ := Result.bind_eq_ok.1 h
    obtain ⟨ts, hts, h⟩ := Result.bind_eq_ok.1 h
    rw [← Except.ok.inj h]
    exact ⟨fun _ => (Except.ok.inj hb).symm, bindAll_eq_ok.1 hts⟩
  · rename_i hhidden
    obtain ⟨b, _, h⟩ := Result.bind_eq_ok.1 h
    obtain ⟨ts, hts, h⟩ := Result.bind_eq_ok.1 h
    rw [← Except.ok.inj h]
    exact ⟨fun h => absurd h hhidden, bindAll_eq_ok.1 hts⟩

/-- Below a statement that is not built in, no statement is. -/
theorem kind?_of_bind {binding : Head → Result Binding} {hidden : Bool} {s : Statement}
    {t u c : Tree (Head × Binding)} (h : bind binding hidden s = .ok t) (hu : u ∈ t.subtrees)
    (hnone : u.label.2.kind? = none) (hc : c ∈ u.children) : c.label.2.kind? = none := by
  induction s using Tree.induct generalizing t hidden with
  | step s ih =>
    obtain ⟨_, hchildren⟩ := bind_eq_ok h
    rcases Tree.mem_subtrees.1 hu with rfl | ⟨d, hd, hu⟩
    -- what is not built in hides its content, and what is hidden is not bound
    · have hhides : hidesContent u.label.2 = true := by
        cases hlabel : u.label.2 with
        | builtin k => rw [hlabel] at hnone; cases hnone
        | extension module name => rfl
        | uninterpreted => rfl
      obtain ⟨x, _, hx⟩ := Result.exists_of_mem_mapM (Result.mapM_eq_ok.2 hchildren) hc
      rw [(bind_eq_ok hx).1 hhides]
      rfl
    · obtain ⟨x, hmem, hx⟩ := Result.exists_of_mem_mapM (Result.mapM_eq_ok.2 hchildren) hd
      exact ih x hmem hx hu

/-- The same of the statements of a source. -/
theorem kind?_of_ofStatement {extensions : Extensions} {s : LinkedSource} {root : Statement}
    {d x c : Declaration} (h : ofStatement extensions s root = .ok d) (hx : x ∈ d.subtrees)
    (hnone : x.kind? = none) (hc : c ∈ x.children) : c.kind? = none := by
  obtain ⟨bound, hbound, h⟩ := Result.bind_eq_ok.1 h
  rw [← Except.ok.inj h] at hx
  obtain ⟨u, hu, n, rfl⟩ := Tree.mem_subtrees_indexed hx
  obtain ⟨label, children⟩ := u
  rw [Tree.indexed] at hc
  obtain ⟨v, hv, m, rfl⟩ := Tree.mem_indexedForest hc
  obtain ⟨label', children'⟩ := v
  exact kind?_of_bind hbound hu hnone hv

/-- The statements of a source have different places. -/
theorem nodup_places_of_ofStatement {extensions : Extensions} {s : LinkedSource} {root : Statement}
    {d : Declaration} (h : ofStatement extensions s root = .ok d) :
    (d.subtrees.map fun x => x.label.place).Nodup := by
  obtain ⟨bound, _, h⟩ := Result.bind_eq_ok.1 h
  rw [← Except.ok.inj h]
  exact Tree.nodup_number (fun _ _ => rfl) bound 0

/-! ## Statements that are allowed -/

/-- Every built-in statement below a statement stands under a built-in one that may have it. -/
def Grammatical (d : Declaration) : Prop :=
  ∀ x ∈ d.subtrees, ∀ c ∈ x.children, ∀ kind, kind? c = some kind →
    ∃ parent, kind? x = some parent ∧ (parent.substatement? kind).isSome

theorem Grammatical.of_mem {d x : Declaration} (h : d.Grammatical) (hx : x ∈ d.subtrees) :
    x.Grammatical := fun _ hy => h _ (Tree.mem_subtrees_trans hy hx)

theorem Grammatical.child {d c : Declaration} (h : d.Grammatical) (hc : c ∈ d.children) :
    c.Grammatical := h.of_mem (Tree.mem_subtrees_of_mem_child hc (Tree.mem_subtrees_self c))

theorem checkOne_of_check {s : LinkedSource} {order : Bool} {root x : Declaration}
    (h : check s order root = .ok ()) (hx : x ∈ root.subtrees) : checkOne s x = .ok () := by
  obtain ⟨_, hroot, h⟩ := Result.bind_eq_ok.1 h
  have hbelow : (Tree.forestSubtrees root.children).forM (checkOne s) = .ok () := by
    dsimp only at h
    split at h
    · exact (Result.bind_eq_ok.1 h).choose_spec.2
    · exact h
  rcases Tree.mem_subtrees.1 hx with rfl | ⟨c, hc, hx⟩
  · exact hroot
  · exact Result.forM_eq_ok.1 hbelow x (Tree.mem_forestSubtrees.2 ⟨c, hc, hx⟩)

/-- The check lets pass only substatements that are allowed. -/
theorem isSome_substatement?_of_checkOne {s : LinkedSource} {x c : Declaration} {parent kind : Kind}
    (h : checkOne s x = .ok ()) (hx : x.kind? = some parent) (hc : c ∈ x.children)
    (hkind : c.kind? = some kind) : (parent.substatement? kind).isSome := by
  unfold checkOne at h
  rw [hx] at h
  obtain ⟨_, _, h⟩ := Result.bind_eq_ok.1 h
  obtain ⟨_, hallowed, _⟩ := Result.bind_eq_ok.1 h
  have hchild := Result.forM_eq_ok.1 hallowed c hc
  simp only [hkind] at hchild
  by_contra hnot
  rw [if_neg hnot] at hchild
  cases hchild

end Declaration

namespace DeclaredModel

variable {order : Bool} {sources : List Source} {model : DeclaredModel}

/-- Every source of a declared model has been bound and has passed the check. -/
theorem checked_of_ofSources (h : ofSources order sources = .ok model) {s : DeclaredSource}
    (hs : s ∈ model.sources) : Declaration.check s.toLinkedSource order s.root = .ok ()
      ∧ ∃ extensions root,
          Declaration.ofStatement extensions s.toLinkedSource root = .ok s.root := by
  obtain ⟨_, _, _, _, hdeclared, _⟩ := ofSources_eq_ok.1 h
  obtain ⟨hcheck, root, hroot⟩ := (declare_eq_ok hdeclared).2 s hs
  exact ⟨hcheck, _, root, hroot⟩

/-- The sources of a declared model follow the grammar. -/
theorem grammatical_of_ofSources (h : ofSources order sources = .ok model) {s : DeclaredSource}
    (hs : s ∈ model.sources) : s.root.Grammatical := by
  obtain ⟨hcheck, extensions, root, hroot⟩ := checked_of_ofSources h hs
  intro x hx c hc kind hkind
  cases hparent : Declaration.kind? x with
  | none =>
    rw [Declaration.kind?_of_ofStatement hroot hx hparent hc] at hkind
    cases hkind
  | some parent =>
    have hone := Declaration.checkOne_of_check hcheck hx
    exact ⟨parent, rfl, Declaration.isSome_substatement?_of_checkOne hone hparent hc hkind⟩

/-- The statements of a source have different places. -/
theorem nodup_places (h : ofSources order sources = .ok model) {s : DeclaredSource}
    (hs : s ∈ model.sources) : (s.root.subtrees.map fun x => x.label.place).Nodup := by
  obtain ⟨_, extensions, root, hroot⟩ := checked_of_ofSources h hs
  exact Declaration.nodup_places_of_ofStatement hroot

/-- Statements of a source with one place are one statement. -/
theorem eq_of_place_eq (h : ofSources order sources = .ok model) {s : DeclaredSource}
    (hs : s ∈ model.sources) {x y : Declaration} (hx : x ∈ s.root.subtrees)
    (hy : y ∈ s.root.subtrees) (hplace : x.label.place = y.label.place) : x = y :=
  List.inj_on_of_nodup_map (nodup_places h hs) hx hy hplace

/-- Sources with one identifier are one source. -/
theorem eq_of_id_eq (h : ofSources order sources = .ok model) {s t : DeclaredSource}
    (hs : s ∈ model.sources) (ht : t ∈ model.sources) (hid : s.id = t.id) : s = t :=
  List.inj_on_of_nodup_map (nodup_ids h) hs ht hid

end DeclaredModel

/-! ## Where groupings are declared and used -/

namespace Kind

/-- The kinds of statements below which there can be a grouping or a `uses`, these included. -/
def holdsUses : Kind → Bool
  | .module | .submodule | .container | .list | .choice | .case | .grouping | .augment | .uses
  | .notification | .rpc | .action | .input | .output => true
  | _ => false

/-- What holds of a table of kinds holds of all kinds. -/
theorem forall_iff {p : Kind → Kind → Bool} :
    (∀ k c, p k c = true) ↔ (all.all fun k => all.all (p k)) = true := by
  simp only [List.all_eq_true]
  exact ⟨fun h k _ c _ => h k c, fun h k c => h k (mem_all k) c (mem_all c)⟩

/-- A statement that holds no `uses` has substatements of the same sort. -/
theorem not_holdsUses_substatement {k c : Kind} (hk : k.holdsUses = false)
    (hc : (k.substatement? c).isSome) : c.holdsUses = false := by
  have h : ∀ k c : Kind, (k.holdsUses || !(k.substatement? c).isSome || !c.holdsUses) = true :=
    forall_iff.2 (by decide +kernel)
  simpa [hk, hc] using h k c

/-- Among the substatements of a `uses`, only `augment` holds further ones, and among those of an
`augment` only its content does. What does belongs to the body of a module. -/
theorem forall_holdsUses : ∀ c ∈ all, c.holdsUses →
    ((Kind.uses.substatement? c).isSome → c = .augment)
      ∧ ((Kind.augment.substatement? c).isSome → Node.isAugmentContent (.builtin c))
      ∧ Section.ofKind c = .body := by decide +kernel

theorem eq_augment_of_uses {c : Kind} (hc : (Kind.uses.substatement? c).isSome)
    (hholds : c.holdsUses) : c = .augment :=
  (forall_holdsUses c (mem_all c) hholds).1 hc

theorem isAugmentContent_of_augment {c : Kind} (hc : (Kind.augment.substatement? c).isSome)
    (hholds : c.holdsUses) : Node.isAugmentContent (.builtin c) :=
  (forall_holdsUses c (mem_all c) hholds).2.1 hc

theorem body_of_holdsUses {c : Kind} (hholds : c.holdsUses) : Section.ofKind c = .body :=
  (forall_holdsUses c (mem_all c) hholds).2.2

end Kind

theorem Binding.kind?_eq_some_iff {b : Binding} {kind : Kind} :
    b.kind? = some kind ↔ b = .builtin kind := by
  cases b with
  | builtin k => simp [kind?]
  | extension module name => simp [kind?]
  | uninterpreted => simp [kind?]

namespace Declaration

theorem kind?_eq_some_iff {d : Declaration} {kind : Kind} :
    d.kind? = some kind ↔ d.label.binding = .builtin kind := Binding.kind?_eq_some_iff

theorem is_iff {d : Declaration} {kind : Kind} :
    d.is kind = true ↔ d.label.binding = .builtin kind := by
  rw [← kind?_eq_some_iff]
  unfold is
  exact beq_iff_eq

/-- A built-in substatement is one that its statement may have. -/
theorem Grammatical.isSome_substatement? {d c : Declaration} {parent kind : Kind}
    (h : d.Grammatical) (hd : d.label.binding = .builtin parent) (hc : c ∈ d.children)
    (hkind : c.kind? = some kind) : (parent.substatement? kind).isSome := by
  obtain ⟨k, hk, hallowed⟩ := h d (Tree.mem_subtrees_self d) c hc kind hkind
  cases hk.symm.trans (kind?_eq_some_iff.2 hd)
  exact hallowed

section Closed

variable {holds : Kind → Bool} {d c x : Declaration}

/-- What substatements of a kind cannot be is nothing that stands under a statement of the kind. -/
theorem Grammatical.not_any_child
    (hclosed : ∀ {k c : Kind}, holds k = false → (k.substatement? c).isSome → holds c = false)
    (h : d.Grammatical) (hd : d.kind?.any holds = false) (hc : c ∈ d.children) :
    c.kind?.any holds = false := by
  cases hkind : c.kind? with
  | none => rfl
  | some kind =>
    obtain ⟨parent, hparent, hallowed⟩ := h d (Tree.mem_subtrees_self d) c hc kind hkind
    rw [hparent] at hd
    exact hclosed hd hallowed

/-- Nor does it stand further below. -/
theorem Grammatical.not_any_below
    (hclosed : ∀ {k c : Kind}, holds k = false → (k.substatement? c).isSome → holds c = false)
    (h : d.Grammatical) (hd : d.kind?.any holds = false) (hx : x ∈ d.subtrees) :
    x.kind?.any holds = false := by
  induction d using Tree.induct with
  | step d ih =>
    rcases Tree.mem_subtrees.1 hx with rfl | ⟨c, hc, hx⟩
    · exact hd
    · exact ih c hc (h.child hc) (h.not_any_child hclosed hd hc) hx

end Closed

/-- Whether there can be a grouping or a `uses` below a statement. -/
def holdsUses (d : Declaration) : Bool := d.kind?.any Kind.holdsUses

/-- Where a statement holds no `uses`, none of its substatements does. -/
theorem Grammatical.not_holdsUses_child {d c : Declaration} (h : d.Grammatical)
    (hd : d.holdsUses = false) (hc : c ∈ d.children) : c.holdsUses = false :=
  h.not_any_child Kind.not_holdsUses_substatement hd hc

/-- There is nothing to be used below a statement that holds no `uses`. -/
theorem Grammatical.not_holdsUses_below {d x : Declaration} (h : d.Grammatical)
    (hd : d.holdsUses = false) (hx : x ∈ d.subtrees) : x.holdsUses = false :=
  h.not_any_below Kind.not_holdsUses_substatement hd hx

theorem holdsUses_of_binding {d : Declaration} {kind : Kind}
    (h : d.label.binding = .builtin kind) (hkind : kind.holdsUses) : d.holdsUses = true := by
  rw [holdsUses, kind?_eq_some_iff.2 h]
  exact hkind

theorem exists_kind_of_holdsUses {d : Declaration} (h : d.holdsUses = true) :
    ∃ kind, d.kind? = some kind ∧ kind.holdsUses = true := by
  unfold holdsUses at h
  cases hkind : d.kind? with
  | none => rw [hkind] at h; cases h
  | some kind => rw [hkind] at h; exact ⟨kind, rfl, h⟩

/-- What stands under a `uses` and holds further ones is an `augment`. -/
theorem Grammatical.augment_of_uses {d c : Declaration} (h : d.Grammatical)
    (hd : d.label.binding = .builtin .uses) (hc : c ∈ d.children) (hholds : c.holdsUses = true) :
    c.label.binding = .builtin .augment := by
  obtain ⟨kind, hkind, hholds⟩ := exists_kind_of_holdsUses hholds
  rw [Kind.eq_augment_of_uses (h.isSome_substatement? hd hc hkind) hholds] at hkind
  exact kind?_eq_some_iff.1 hkind

/-- What stands under an `augment` and holds a `uses` is copied to where it leads. -/
theorem Grammatical.content_of_augment {d c : Declaration} (h : d.Grammatical)
    (hd : d.label.binding = .builtin .augment) (hc : c ∈ d.children)
    (hholds : c.holdsUses = true) : Node.isAugmentContent c.label.binding = true := by
  obtain ⟨kind, hkind, hholds⟩ := exists_kind_of_holdsUses hholds
  rw [kind?_eq_some_iff.1 hkind]
  exact Kind.isAugmentContent_of_augment (h.isSome_substatement? hd hc hkind) hholds

end Declaration

end YangSchema
