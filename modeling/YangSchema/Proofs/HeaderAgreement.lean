import YangSchema.Proofs.Checking
import YangSchema.Proofs.Written
import YangSchema.Session

/-!
# Headers and statements

A header is read before anything is checked: of several substatements with one keyword it takes the
first, and a revision without a date it passes over. The check comes later and goes over the bound
statements. What has passed it has no second substatement where the header took the first, and no
missing argument where the header passed it over, so that in a declared model every header says what
the statements of its source say (`Header.AgreesWith`, `Session.headers_agree`).

Imports and includes can only stand at the top of a source, where the header is read
(`Declaration.filter_subtrees_eq`).
-/

namespace YangSchema

namespace Tree

variable {α : Type}

/-- What stands below a tree is a child of a subtree. -/
theorem exists_parent_of_below {t x : Tree α} (hx : x ∈ forestSubtrees t.children) :
    ∃ p ∈ t.subtrees, x ∈ p.children := by
  obtain ⟨c, hc, hx⟩ := mem_forestSubtrees.1 hx
  rcases exists_parent_of_mem hx with rfl | ⟨p, hp, hx⟩
  · exact ⟨t, mem_subtrees_self t, hc⟩
  · exact ⟨p, mem_subtrees_of_mem_child hc hp, hx⟩

/-- Where nothing below the trees of a list passes a filter, what passes is in the list. -/
theorem filter_forestSubtrees {p : Tree α → Bool} {ts : List (Tree α)}
    (hbelow : ∀ t ∈ ts, ∀ x ∈ forestSubtrees t.children, p x = false) :
    (forestSubtrees ts).filter p = ts.filter p := by
  induction ts with
  | nil => rfl
  | cons t ts ih =>
    obtain ⟨ht, hts⟩ := List.forall_mem_cons.1 hbelow
    have hnone : (forestSubtrees t.children).filter p = [] :=
      List.filter_eq_nil_iff.2 fun x hx => by simp [ht x hx]
    rw [forestSubtrees, subtrees_eq, List.filter_append, List.filter_cons, hnone, ih hts,
      List.filter_cons]
    split <;> rfl

end Tree

namespace Kind

/-- Imports and includes stand in modules and submodules. -/
theorem parent_of_linkage {parent kind : Kind} (hkind : kind = .importStmt ∨ kind = .includeStmt)
    (h : (parent.substatement? kind).isSome) : parent = .module ∨ parent = .submodule := by
  have hall : ∀ k ∈ all, ((k.substatement? .importStmt).isSome → k = .module ∨ k = .submodule)
      ∧ ((k.substatement? .includeStmt).isSome → k = .module ∨ k = .submodule) := by decide +kernel
  rcases hkind with rfl | rfl
  · exact (hall parent (mem_all parent)).1 h
  · exact (hall parent (mem_all parent)).2 h

/-- Modules and submodules stand nowhere. -/
theorem substatement?_root {parent kind : Kind} (h : kind = .module ∨ kind = .submodule) :
    (parent.substatement? kind).isSome = false := by
  have hall : ∀ k ∈ all, (k.substatement? .module).isSome = false
      ∧ (k.substatement? .submodule).isSome = false := by decide +kernel
  rcases h with rfl | rfl
  · exact (hall parent (mem_all parent)).1
  · exact (hall parent (mem_all parent)).2

end Kind

/-! ## Reading headers -/

namespace Header

variable {source : Source} {h : Header} {id : SourceId} {stmt : Statement} {i : Import}

theorem argument_eq_ok {a : String} : argument id stmt = .ok a ↔ stmt.argument = some a := by
  unfold argument
  cases stmt.argument <;> simp

theorem revision_eq_ok {text : String} {r : Revision} :
    revision text = .ok r ↔ Revision.ofString? text = some r := by
  unfold revision
  cases Revision.ofString? text <;> simp

/-- The argument of a substatement is that of the first one of the name. -/
theorem childArgument_eq_ok {name a : String} :
    childArgument id stmt name = .ok a ↔ (stmt.firstChild? name).bind (·.argument) = some a := by
  unfold childArgument child
  cases stmt.firstChild? name with
  | none => simp [bind, Except.bind]
  | some c =>
    rw [Option.bind_some, ← @argument_eq_ok id]
    rfl

theorem revisionDate_eq_ok {wanted : Option Revision} : revisionDate stmt = .ok wanted
    ↔ ((stmt.firstChild? "revision-date").bind (·.argument)).map Revision.ofString?
      = wanted.map some := by
  unfold revisionDate
  cases (stmt.firstChild? "revision-date").bind (·.argument) with
  | none => cases wanted <;> simp
  | some text =>
    unfold revision
    cases htext : Revision.ofString? text <;> cases wanted <;> simp [htext, Except.map]

theorem readImport_eq_ok : readImport id stmt = .ok i
    ↔ argument id stmt = .ok i.module ∧ childArgument id stmt "prefix" = .ok i.boundPrefix
      ∧ revisionDate stmt = .ok i.revision ∧ stmt.location = i.location := by
  unfold readImport
  constructor
  · intro h
    obtain ⟨module, hmodule, h⟩ := Result.bind_eq_ok.1 h
    obtain ⟨boundPrefix, hprefix, h⟩ := Result.bind_eq_ok.1 h
    obtain ⟨revision, hrevision, h⟩ := Result.bind_eq_ok.1 h
    cases h
    exact ⟨hmodule, hprefix, hrevision, rfl⟩
  · rintro ⟨hmodule, hprefix, hrevision, hlocation⟩
    refine Result.bind_eq_ok.2 ⟨_, hmodule, Result.bind_eq_ok.2 ⟨_, hprefix,
      Result.bind_eq_ok.2 ⟨_, hrevision, ?_⟩⟩⟩
    rw [hlocation]
    rfl

theorem readInclude_eq_ok {i : Include} : readInclude id stmt = .ok i
    ↔ argument id stmt = .ok i.submodule ∧ revisionDate stmt = .ok i.revision
      ∧ stmt.location = i.location := by
  unfold readInclude
  constructor
  · intro h
    obtain ⟨submodule, hsubmodule, h⟩ := Result.bind_eq_ok.1 h
    obtain ⟨revision, hrevision, h⟩ := Result.bind_eq_ok.1 h
    cases h
    exact ⟨hsubmodule, hrevision, rfl⟩
  · rintro ⟨hsubmodule, hrevision, hlocation⟩
    refine Result.bind_eq_ok.2 ⟨_, hsubmodule, Result.bind_eq_ok.2 ⟨_, hrevision, ?_⟩⟩
    rw [hlocation]
    rfl

/-- A header is read from the root statement of a source: the keyword says whether it is a module,
the argument is the name, and everything else stands in substatements. -/
structure ReadFrom (root : Statement) (isModule : Bool) (h : Header) : Prop where
  keyword : root.isNamed (if isModule then "module" else "submodule") = true
  name : root.argument = some h.id.name
  revision : latestRevision root = .ok h.id.revision
  version : root.declaredVersion? = some h.version
  role : roleAndPrefix h.id root isModule = .ok (h.role, h.ownPrefix)
  imports : (root.childrenNamed "import").mapM (readImport h.id) = .ok h.imports
  includes : (root.childrenNamed "include").mapM (readInclude h.id) = .ok h.includes
  location : root.location = h.location

theorem readFrom_of_ofSource (hread : ofSource source = .ok h) :
    ∃ isModule, ReadFrom source.root isModule h := by
  -- what follows does not depend on the keyword by which the role has been settled
  have settled : ∀ {root : Statement} {e : Error} {f : Bool → Result Header},
      (if root.isNamed "module" = true then Except.ok true >>= f
        else if root.isNamed "submodule" = true then Except.ok false >>= f
        else Except.error e >>= f) = .ok h →
      ∃ isModule, root.isNamed (if isModule then "module" else "submodule") = true
        ∧ f isModule = .ok h := by
    intro root e f hf
    split at hf
    · rename_i hmodule
      exact ⟨true, hmodule, hf⟩
    · split at hf
      · rename_i hsubmodule
        exact ⟨false, hsubmodule, hf⟩
      · cases hf
  unfold ofSource at hread
  dsimp only at hread
  obtain ⟨isModule, hkeyword, hread⟩ := settled hread
  refine ⟨isModule, ?_⟩
  split at hread
  · rename_i name hname
    obtain ⟨_, hreturn, hread⟩ := Result.bind_eq_ok.1 hread
    cases hreturn
    obtain ⟨revision, hrevision, hread⟩ := Result.bind_eq_ok.1 hread
    split at hread
    · rename_i version hversion
      obtain ⟨_, hreturn, hread⟩ := Result.bind_eq_ok.1 hread
      cases hreturn
      obtain ⟨⟨role, ownPrefix⟩, hrole, hread⟩ := Result.bind_eq_ok.1 hread
      obtain ⟨imports, himports, hread⟩ := Result.bind_eq_ok.1 hread
      obtain ⟨includes, hincludes, hread⟩ := Result.bind_eq_ok.1 hread
      cases hread
      exact ⟨hkeyword, hname, hrevision, hversion, hrole, himports, hincludes, rfl⟩
    · cases hread
  · cases hread

/-! ### The latest revision -/

/-- None of some dates is later than a revision that is one of them; without a revision there are no
dates. -/
def IsLatest (dates : List Revision) : Option Revision → Prop
  | none => dates = []
  | some r => r ∈ dates ∧ ∀ date ∈ dates, date.number ≤ r.number

theorem laterRevision_some (a b : Revision) :
    laterRevision (some a) (some b) = some (if a.number < b.number then b else a) := by
  have hlater : compareRevisions (some a) (some b) = .lt ↔ a.number < b.number :=
    Nat.compare_eq_lt
  unfold laterRevision
  simp only [hlater]
  split <;> rfl

/-- Going on from a date, the latest of it and the others is left. -/
theorem isLatest_foldl_cons (r : Revision) (dates : List Revision) : IsLatest (r :: dates)
    (dates.foldl (fun latest date => laterRevision latest (some date)) (some r)) := by
  induction dates generalizing r with
  | nil => exact ⟨List.mem_cons_self, by simp⟩
  | cons date dates ih =>
    have hrest := ih (if r.number < date.number then date else r)
    rw [List.foldl_cons, laterRevision_some]
    generalize dates.foldl _ _ = latest at hrest ⊢
    cases latest with
    | none => cases hrest
    | some latest =>
      obtain ⟨hmem, hleast⟩ := hrest
      obtain ⟨hfirst, hdates⟩ := List.forall_mem_cons.1 hleast
      constructor
      · have hone : (if r.number < date.number then date else r) ∈ [r, date] := by split <;> simp
        rcases List.mem_cons.1 hmem with rfl | hmem
        · exact List.mem_append_left dates hone
        · exact List.mem_append_right [r, date] hmem
      · have hboth : r.number ≤ latest.number ∧ date.number ≤ latest.number := by
          split at hfirst <;> omega
        exact List.forall_mem_cons.2 ⟨hboth.1, List.forall_mem_cons.2 ⟨hboth.2, hdates⟩⟩

theorem isLatest_foldl (dates : List Revision) : IsLatest dates
    (dates.foldl (fun latest date => laterRevision latest (some date)) none) := by
  cases dates with
  | nil => rfl
  | cons date dates => exact isLatest_foldl_cons date dates

end Header

/-! ## Reading declarations -/

namespace Declaration

variable {extensions : Extensions} {s : LinkedSource} {stmt : Statement} {root d c x : Declaration}
  {kind parent : Kind}

/-- The arguments of the substatements of a kind, in their order. -/
def argumentsOf (d : Declaration) (kind : Kind) : List (Option String) :=
  (d.childrenOfKind kind).map (·.label.argument)

/-- The dates of the substatements of a kind, in their order. -/
def datesOf (d : Declaration) (kind : Kind) : List (Option Revision) :=
  (d.childrenOfKind kind).map fun c => c.label.argument.bind Revision.ofString?

@[simp] theorem location_written (d : Declaration) : d.written.location = d.label.location := by
  obtain ⟨label, children⟩ := d
  rfl

theorem firstChild?_eq_head? (d : Declaration) (kind : Kind) :
    d.firstChild? kind = (d.childrenOfKind kind).head? := by
  unfold firstChild? childrenOfKind
  rw [List.head?_filter]

theorem childArgument?_eq_head? (d : Declaration) (kind : Kind) :
    d.childArgument? kind = (d.argumentsOf kind).head?.join := by
  rw [childArgument?, firstChild?_eq_head?, argumentsOf, List.head?_map]
  cases (d.childrenOfKind kind).head? <;> rfl

theorem mem_childrenOfKind : c ∈ d.childrenOfKind kind ↔ c ∈ d.children ∧ c.kind? = some kind := by
  unfold childrenOfKind
  rw [List.mem_filter, is, beq_iff_eq]

/-! ### Where imports stand -/

/-- No module is a substatement, so a kind that stands in modules and submodules alone is found at
the top. -/
theorem filter_subtrees_eq (hgrammar : root.Grammatical)
    (htop : ∀ parent : Kind, (parent.substatement? kind).isSome →
      parent = .module ∨ parent = .submodule)
    (hroot : root.is kind = false) :
    root.subtrees.filter (is · kind) = root.childrenOfKind kind := by
  rw [Tree.subtrees_eq, List.filter_cons_of_neg (by simpa using hroot)]
  refine Tree.filter_forestSubtrees fun c hc x hx => ?_
  by_contra hnot
  have hkind : kind? x = some kind := by simpa [is] using hnot
  obtain ⟨p, hp, hx⟩ := Tree.exists_parent_of_below hx
  have hlower : p ∈ Tree.forestSubtrees root.children := Tree.mem_forestSubtrees.2 ⟨c, hc, hp⟩
  obtain ⟨q, hq, hchild⟩ := Tree.exists_parent_of_below hlower
  -- the parent is no root, but only roots may have such a substatement
  obtain ⟨parent, hparent, hallowed⟩ :=
    hgrammar p (Tree.child_mem_subtrees hq hchild) x hx kind hkind
  obtain ⟨_, _, hnested⟩ := hgrammar q hq p hchild parent hparent
  rw [Kind.substatement?_root (htop parent hallowed)] at hnested
  cases hnested

/-! ### What the check has seen to -/

/-- Every built-in statement follows the rules for its kind. -/
def AllConform (s : LinkedSource) (root : Declaration) : Prop :=
  ∀ d ∈ root.subtrees, ∀ kind, kind? d = some kind → Conforms s kind d

section

variable (hbound : ofStatement extensions s stmt = .ok root) (hconforms : AllConform s root)
  (hx : x ∈ root.subtrees) (hparent : x.kind? = some parent)

include hconforms hx

theorem exists_argument (htakes : kind.takesArgument = true) (hc : c ∈ x.childrenOfKind kind) :
    ∃ text, c.label.argument = some text := by
  obtain ⟨hmem, hkind⟩ := mem_childrenOfKind.1 hc
  rw [← Option.isSome_iff_exists,
    (hconforms c (Tree.child_mem_subtrees hx hmem) kind hkind).hasArgument, htakes]

include hparent

theorem allows_length {bound : Cardinality} (hkind : parent.substatement? kind = some bound) :
    bound.allows (x.childrenOfKind kind).length = true := by
  have hallows := (hconforms x hx parent hparent).bounded kind bound hkind
  rwa [count_childKinds] at hallows

theorem exists_childrenOfKind_eq (hkind : parent.substatement? kind = some .one) :
    ∃ c, x.childrenOfKind kind = [c] := by
  have hlength := allows_length hconforms hx hparent hkind
  exact List.length_eq_one_iff.1 (beq_iff_eq.1 hlength)

theorem childrenOfKind_eq_nil_or (hkind : parent.substatement? kind = some .optional) :
    x.childrenOfKind kind = [] ∨ ∃ c, x.childrenOfKind kind = [c] := by
  have hlength := of_decide_eq_true (allows_length hconforms hx hparent hkind)
  rcases Nat.le_one_iff_eq_zero_or_eq_one.1 hlength with hzero | hone
  · exact .inl (List.eq_nil_of_length_eq_zero hzero)
  · exact .inr (List.length_eq_one_iff.1 hone)

include hbound

/-- Of a substatement that must be there, the header has read the only one. -/
theorem argumentsOf_eq_singleton {id : SourceId} {a : String}
    (hkind : parent.substatement? kind = some .one)
    (hread : Header.childArgument id x.written kind.keyword = .ok a) :
    x.argumentsOf kind = [some a] := by
  have hbuiltin := Option.isSome_of_eq_some hparent
  obtain ⟨c, hc⟩ := exists_childrenOfKind_eq hconforms hx hparent hkind
  have hfirst := Header.childArgument_eq_ok.1 hread
  rw [← childArgument?_eq hbound hx hbuiltin, childArgument?_eq_head?, argumentsOf, hc] at hfirst
  rw [argumentsOf, hc]
  exact congrArg (fun argument => [argument]) hfirst

/-- The revision that is asked for is that of the only substatement that asks for one. -/
theorem datesOf_eq {wanted : Option Revision}
    (hkind : parent.substatement? .revisionDate = some .optional)
    (hread : Header.revisionDate x.written = .ok wanted) :
    x.datesOf .revisionDate = wanted.toList.map some := by
  have hbuiltin := Option.isSome_of_eq_some hparent
  have hfirst := Header.revisionDate_eq_ok.1 hread
  rw [show "revision-date" = Kind.revisionDate.keyword from rfl,
    ← childArgument?_eq hbound hx hbuiltin, childArgument?_eq_head?] at hfirst
  rcases childrenOfKind_eq_nil_or hconforms hx hparent hkind with hnone | ⟨c, hc⟩
  · rw [argumentsOf, hnone] at hfirst
    rw [datesOf, hnone]
    cases wanted with
    | none => rfl
    | some r => cases hfirst
  · obtain ⟨text, htext⟩ := exists_argument hconforms hx rfl (hc ▸ List.mem_singleton_self c)
    rw [argumentsOf, hc, List.map_singleton, htext] at hfirst
    rw [datesOf, hc, List.map_singleton, htext]
    cases wanted with
    | none => cases hfirst
    | some r => exact congrArg (fun date => [date]) (Option.some.inj hfirst)

end

end Declaration

/-! ## Agreement -/

/-- An import is what a statement says. -/
structure Import.Restates (i : Import) (d : Declaration) : Prop where
  name : d.label.argument = some i.module
  /-- There is one prefix, and it is the one of the import. -/
  boundPrefix : d.argumentsOf .prefixStmt = [some i.boundPrefix]
  /-- There is a date exactly if the import has one, and it is this one. -/
  revision : d.datesOf .revisionDate = i.revision.toList.map some
  location : d.label.location = i.location

/-- An include is what a statement says. -/
structure Include.Restates (i : Include) (d : Declaration) : Prop where
  name : d.label.argument = some i.submodule
  revision : d.datesOf .revisionDate = i.revision.toList.map some
  location : d.label.location = i.location

/-- The statements of a source give it its role and its own prefix, and they do so only once. -/
def Role.IsGivenBy (root : Declaration) (ownPrefix : String) : Role → Prop
  | .module uri => root.kind? = some .module ∧ root.argumentsOf .namespaceStmt = [some uri]
    ∧ root.argumentsOf .prefixStmt = [some ownPrefix]
  | .submodule owner => root.kind? = some .submodule ∧ ∃ belongs,
    root.childrenOfKind .belongsTo = [belongs] ∧ belongs.label.argument = some owner
      ∧ belongs.argumentsOf .prefixStmt = [some ownPrefix]

/-- A header says what the statements of a source say. -/
structure Header.AgreesWith (h : Header) (root : Declaration) : Prop where
  name : root.label.argument = some h.id.name
  /-- The revision is the latest of the dates, of which every revision statement has one. -/
  revision : ∃ dates, root.datesOf .revision = dates.map some ∧ IsLatest dates h.id.revision
  version : root.argumentsOf .yangVersion = [] ∧ h.version = .v1
    ∨ ∃ text, root.argumentsOf .yangVersion = [some text]
      ∧ Version.ofString? text = some h.version
  role : h.role.IsGivenBy root h.ownPrefix
  imports : List.Forall₂ Import.Restates h.imports
    (root.subtrees.filter (Declaration.is · .importStmt))
  includes : List.Forall₂ Include.Restates h.includes
    (root.subtrees.filter (Declaration.is · .includeStmt))
  location : root.label.location = h.location

namespace Header

variable {extensions : Extensions} {s : LinkedSource} {root d : Declaration} {h : Header}
  {isModule : Bool} {id : SourceId} {role : Role} {own : String} {stmt : Statement}

/-- Where no statement lacks its argument, all arguments are read as dates. -/
theorem map_date_of_mapM {cs : List Declaration} {dates : List Revision}
    (hargument : ∀ c ∈ cs, ∃ text, c.label.argument = some text)
    (hread : ((cs.map Declaration.written).filterMap (·.argument)).mapM revision = .ok dates) :
    cs.map (fun c => c.label.argument.bind Revision.ofString?) = dates.map some := by
  induction cs generalizing dates with
  | nil =>
    cases hread
    rfl
  | cons c cs ih =>
    obtain ⟨⟨text, htext⟩, hrest⟩ := List.forall_mem_cons.1 hargument
    rw [List.map_cons, List.filterMap_cons_some ((Declaration.argument_written c).trans htext),
      List.mapM_cons] at hread
    obtain ⟨date, hdate, hread⟩ := Result.bind_eq_ok.1 hread
    obtain ⟨later, hlater, hreturn⟩ := Result.bind_eq_ok.1 hread
    cases hreturn
    rw [List.map_cons, List.map_cons, ih hrest hlater, htext, Option.bind_some,
      revision_eq_ok.1 hdate]

theorem roleAndPrefix_true (hread : roleAndPrefix id stmt true = .ok (role, own)) :
    ∃ uri, role = .module uri ∧ childArgument id stmt "namespace" = .ok uri
      ∧ childArgument id stmt "prefix" = .ok own := by
  obtain ⟨uri, huri, hread⟩ := Result.bind_eq_ok.1 hread
  obtain ⟨_, hprefix, hread⟩ := Result.bind_eq_ok.1 hread
  cases hread
  exact ⟨uri, rfl, huri, hprefix⟩

theorem roleAndPrefix_false (hread : roleAndPrefix id stmt false = .ok (role, own)) :
    ∃ owner belongs, role = .submodule owner ∧ stmt.firstChild? "belongs-to" = some belongs
      ∧ belongs.argument = some owner ∧ childArgument id belongs "prefix" = .ok own := by
  obtain ⟨belongs, hbelongs, hread⟩ := Result.bind_eq_ok.1 hread
  obtain ⟨owner, howner, hread⟩ := Result.bind_eq_ok.1 hread
  obtain ⟨_, hprefix, hread⟩ := Result.bind_eq_ok.1 hread
  cases hread
  have hfirst : stmt.firstChild? "belongs-to" = some belongs := by
    unfold child at hbelongs
    cases hchild : stmt.firstChild? "belongs-to" with
    | none =>
      rw [hchild] at hbelongs
      cases hbelongs
    | some c =>
      rw [hchild] at hbelongs
      exact congrArg some (Except.ok.inj hbelongs)
  exact ⟨owner, belongs, rfl, hfirst, argument_eq_ok.1 howner, hprefix⟩

section

variable (hbound : Declaration.ofStatement extensions s stmt = .ok root)
  (hconforms : Declaration.AllConform s root)
  (hd : d ∈ root.subtrees)

include hbound hconforms hd

theorem restates_of_readImport {i : Import} (hkind : d.kind? = some .importStmt)
    (hread : readImport id d.written = .ok i) : i.Restates d := by
  obtain ⟨hname, hprefix, hrevision, hlocation⟩ := readImport_eq_ok.1 hread
  have hargument := argument_eq_ok.1 hname
  rw [Declaration.argument_written] at hargument
  rw [Declaration.location_written] at hlocation
  exact ⟨hargument,
    Declaration.argumentsOf_eq_singleton hbound hconforms hd hkind (by decide) hprefix,
    Declaration.datesOf_eq hbound hconforms hd hkind (by decide) hrevision, hlocation⟩

theorem restates_of_readInclude {i : Include} (hkind : d.kind? = some .includeStmt)
    (hread : readInclude id d.written = .ok i) : i.Restates d := by
  obtain ⟨hname, hrevision, hlocation⟩ := readInclude_eq_ok.1 hread
  have hargument := argument_eq_ok.1 hname
  rw [Declaration.argument_written] at hargument
  rw [Declaration.location_written] at hlocation
  exact ⟨hargument, Declaration.datesOf_eq hbound hconforms hd hkind (by decide) hrevision,
    hlocation⟩

end

section

variable (hbound : Declaration.ofStatement extensions s stmt = .ok root)
  (hconforms : Declaration.AllConform s root)
  (hkind : root.kind? = some (if isModule then .module else .submodule))

include hbound hconforms hkind

/-- Every revision statement has a date, and the revision is the latest of them. -/
theorem exists_dates {latest : Option Revision} (hread : latestRevision stmt = .ok latest) :
    ∃ dates, root.datesOf .revision = dates.map some ∧ IsLatest dates latest := by
  have hbuiltin := Option.isSome_of_eq_some hkind
  obtain ⟨dates, hdates, hreturn⟩ := Result.bind_eq_ok.1 hread
  cases hreturn
  refine ⟨dates, ?_, isLatest_foldl dates⟩
  have hnamed := Declaration.childrenNamed_written hbound (Tree.mem_subtrees_self _) hbuiltin
    .revision
  rw [show root.written = stmt from Declaration.map_toHead hbound] at hnamed
  rw [show stmt.childrenNamed "revision" = _ from hnamed] at hdates
  exact map_date_of_mapM (fun c hc => Declaration.exists_argument hconforms
    (Tree.mem_subtrees_self root) rfl hc) hdates

/-- The version is that of the only statement of one. -/
theorem version_of_declaredVersion? {version : Version}
    (hread : stmt.declaredVersion? = some version) :
    root.argumentsOf .yangVersion = [] ∧ version = .v1
      ∨ ∃ text, root.argumentsOf .yangVersion = [some text]
        ∧ Version.ofString? text = some version := by
  have hself := Tree.mem_subtrees_self root
  have hbuiltin := Option.isSome_of_eq_some hkind
  have hfirst := Declaration.firstChild?_written hbound hself hbuiltin .yangVersion
  rw [show root.written = stmt from Declaration.map_toHead hbound,
    Declaration.firstChild?_eq_head?] at hfirst
  unfold Statement.declaredVersion? at hread
  rw [show stmt.firstChild? "yang-version" = _ from hfirst] at hread
  have hoptional : (if isModule then Kind.module else .submodule).substatement? .yangVersion
      = some .optional := by cases isModule <;> decide
  rcases Declaration.childrenOfKind_eq_nil_or hconforms hself hkind hoptional with hnone | ⟨c, hc⟩
  · rw [hnone] at hread
    exact .inl ⟨by rw [Declaration.argumentsOf, hnone]; rfl, (Option.some.inj hread).symm⟩
  · rw [hc] at hread
    dsimp only [List.head?_cons, Option.map_some] at hread
    rw [Declaration.argument_written] at hread
    obtain ⟨text, htext, hversion⟩ := Option.bind_eq_some_iff.1 hread
    exact .inr ⟨text, by rw [Declaration.argumentsOf, hc, List.map_singleton, htext], hversion⟩

theorem isGivenBy_of_roleAndPrefix (hread : roleAndPrefix id stmt isModule = .ok (role, own)) :
    role.IsGivenBy root own := by
  have hself := Tree.mem_subtrees_self root
  have hwritten : root.written = stmt := Declaration.map_toHead hbound
  cases isModule with
  | true =>
    obtain ⟨uri, rfl, huri, hprefix⟩ := roleAndPrefix_true hread
    rw [← hwritten] at huri hprefix
    exact ⟨hkind,
      Declaration.argumentsOf_eq_singleton hbound hconforms hself hkind (by decide) huri,
      Declaration.argumentsOf_eq_singleton hbound hconforms hself hkind (by decide) hprefix⟩
  | false =>
    obtain ⟨owner, _, rfl, hfirst, howner, hprefix⟩ := roleAndPrefix_false hread
    obtain ⟨belongs, hbelongs⟩ := Declaration.exists_childrenOfKind_eq hconforms hself hkind
      (show Kind.submodule.substatement? .belongsTo = some .one by decide)
    have hbuiltin := Option.isSome_of_eq_some hkind
    have hchild := Declaration.firstChild?_written hbound hself hbuiltin .belongsTo
    rw [hwritten, Declaration.firstChild?_eq_head?, hbelongs] at hchild
    cases hfirst.symm.trans hchild
    rw [Declaration.argument_written] at howner
    obtain ⟨hmem, hbelongsKind⟩ :=
      Declaration.mem_childrenOfKind.1 (hbelongs ▸ List.mem_singleton_self belongs)
    have hbelow := Tree.child_mem_subtrees hself hmem
    exact ⟨hkind, belongs, hbelongs, howner,
      Declaration.argumentsOf_eq_singleton hbound hconforms hbelow hbelongsKind (by decide) hprefix⟩

omit hconforms in
/-- Where the statements of a kind are read one by one, what is read goes with all of them. -/
theorem forall₂_subtrees {α : Type} {R : α → Declaration → Prop} {kind : Kind}
    {read : Statement → Result α} {as : List α} (hgrammar : root.Grammatical)
    (hlinkage : kind = .importStmt ∨ kind = .includeStmt)
    (hread : (stmt.childrenNamed kind.keyword).mapM read = .ok as)
    (hrestates : ∀ d ∈ root.subtrees, Declaration.kind? d = some kind → ∀ a,
      read (Declaration.written d) = .ok a → R a d) :
    List.Forall₂ R as (root.subtrees.filter (Declaration.is · kind)) := by
  have hself := Tree.mem_subtrees_self root
  have hbuiltin := Option.isSome_of_eq_some hkind
  have hroot : root.is kind = false := by
    rw [Declaration.is, hkind]
    rcases hlinkage with rfl | rfl <;> cases isModule <;> decide
  have hnamed := Declaration.childrenNamed_written hbound hself hbuiltin kind
  rw [show root.written = stmt from Declaration.map_toHead hbound] at hnamed
  rw [hnamed, Result.mapM_eq_ok, List.forall₂_map_left_iff, List.forall₂_iff_zip] at hread
  rw [Declaration.filter_subtrees_eq hgrammar (fun _ => Kind.parent_of_linkage hlinkage) hroot]
  refine List.Forall₂.flip (List.forall₂_iff_zip.2 ⟨hread.1, fun {d a} hmem => ?_⟩)
  obtain ⟨hd, hdkind⟩ := Declaration.mem_childrenOfKind.1 (List.of_mem_zip hmem).1
  exact hrestates d (Tree.child_mem_subtrees hself hd) hdkind a (hread.2 hmem)

end

/-- What has been read of a source agrees with its statements when these have passed the check. -/
theorem agreesWith_of_readFrom (hbound : Declaration.ofStatement extensions s stmt = .ok root)
    (hconforms : Declaration.AllConform s root) (hgrammar : root.Grammatical)
    (hread : ReadFrom stmt isModule h) : h.AgreesWith root := by
  have hwritten : root.written = stmt := Declaration.map_toHead hbound
  have hself := Tree.mem_subtrees_self root
  have hkind : root.kind? = some (if isModule then .module else .submodule) := by
    rw [← beq_iff_eq, ← Declaration.is, (Declaration.bindsTo_root hbound).is_iff, hwritten]
    cases isModule <;> exact hread.keyword
  have hname := hread.name
  have hlocation := hread.location
  rw [← hwritten, Declaration.argument_written] at hname
  rw [← hwritten, Declaration.location_written] at hlocation
  exact
    { name := hname
      revision := exists_dates hbound hconforms hkind hread.revision
      version := version_of_declaredVersion? hbound hconforms hkind hread.version
      role := isGivenBy_of_roleAndPrefix hbound hconforms hkind hread.role
      imports := forall₂_subtrees hbound hkind hgrammar (.inl rfl) hread.imports
        fun _ hd hdkind _ => restates_of_readImport hbound hconforms hd hdkind
      includes := forall₂_subtrees hbound hkind hgrammar (.inr rfl) hread.includes
        fun _ hd hdkind _ => restates_of_readInclude hbound hconforms hd hdkind
      location := hlocation }

end Header

/-! ## Declared models -/

namespace DeclaredModel

variable {order : Bool} {sources : List Source} {model : DeclaredModel} {source : Source}
  {s : DeclaredSource}

theorem agreesWith_of_declares (declared : ofSources order sources = .ok model)
    (hs : s ∈ model.sources) (hsource : Declares source s) : s.header.AgreesWith s.root := by
  obtain ⟨extensions, hbound⟩ := hsource.bound
  obtain ⟨hcheck, -⟩ := checked_of_ofSources declared hs
  obtain ⟨isModule, hread⟩ := Header.readFrom_of_ofSource hsource.header
  have hconforms : Declaration.AllConform s.toLinkedSource s.root :=
    fun d hd => Declaration.checkOne_eq_ok.1 (Declaration.checkOne_of_check hcheck hd)
  exact Header.agreesWith_of_readFrom hbound hconforms (grammatical_of_ofSources declared hs) hread

end DeclaredModel

namespace Session

/-- **Headers agree with the checked statements.** Every source of a declared model has the header
that has been read of a registered source before any check, and the statements of this source; and
after the checks the header still says what the statements say. -/
theorem headers_agree {session : Session} {model : DeclaredModel}
    (declared : session.declare = .ok model) : ∀ s ∈ model.sources,
      (∃ source ∈ session.sources, Header.ofSource source = .ok s.header
        ∧ s.root.written = source.root)
      ∧ s.header.AgreesWith s.root := by
  intro s hs
  obtain ⟨sorted, hperm, hdeclares⟩ := DeclaredModel.exists_declared declared
  obtain ⟨source, hsource, hdeclared⟩ := exists_mem_of_forall₂ hdeclares hs
  exact ⟨⟨source, hperm.mem_iff.2 hsource, hdeclared.header, hdeclared.written⟩,
    DeclaredModel.agreesWith_of_declares declared hs hdeclared⟩

/-- A module of two revisions with a submodule, and a module that it imports by its revision. -/
def dividedModule : List Source :=
  [.bareModule "b" [.bare "revision" "2019-01-01" []],
    .bareModule "m" [.bare "yang-version" "1.1" [],
      .bare "import" "b" [.bare "prefix" "p" [], .bare "revision-date" "2019-01-01" []],
      .bare "include" "s" [],
      .bare "revision" "2020-01-01" [], .bare "revision" "2021-01-01" []],
    ⟨"s", .bare "submodule" "s" [.bare "yang-version" "1.1" [],
      .bare "belongs-to" "m" [.bare "prefix" "own" []]]⟩]

/-- How they are linked. -/
def dividedLinkage : Linkage :=
  let wanted : Option Revision := Revision.ofNumbers? 2019 1 1
  let b : SourceId := ⟨"b", wanted⟩
  let m : SourceId := ⟨"m", Revision.ofNumbers? 2021 1 1⟩
  let s : SourceId := ⟨"s", none⟩
  let l : Location := .synthetic "bare"
  { sources := [
      ⟨⟨b, .module "b", .v1, "b", [], [], l⟩, b, [("b", b)]⟩,
      ⟨⟨m, .module "m", .v1_1, "m", [⟨"b", "p", wanted, l⟩], [⟨"s", none, l⟩], l⟩, m,
        [("m", m), ("p", b)]⟩,
      ⟨⟨s, .submodule "m", .v1_1, "own", [], [], l⟩, m, [("own", m)]⟩]
    families := [(b, [b]), (m, [m, s])]
    graph := ⟨[b, m, s], [⟨m, b, .imports⟩, ⟨m, s, .includes⟩, ⟨s, m, .belongsTo⟩]⟩ }

theorem headers_agree_dividedModule : ∃ model, declare ⟨{}, dividedModule⟩ = .ok model
    ∧ model.sources.map (·.id.text) = ["b@2019-01-01", "m@2021-01-01", "s"]
    ∧ ∀ s ∈ model.sources, s.header.AgreesWith s.root := by
  have hdeclared : declare ⟨{}, dividedModule⟩ = .ok (.ofLinkage dividedLinkage dividedModule) :=
    DeclaredModel.ofSources_eq_ofLinkage (by cbv) rfl (by cbv) (by decide +kernel)
  exact ⟨_, hdeclared, by decide +kernel, fun s hs => (headers_agree hdeclared s hs).2⟩

end Session

end YangSchema
