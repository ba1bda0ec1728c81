import YangSchema.Proofs.Checking
import YangSchema.Proofs.Rows

/-!
# What binding makes of a source

A keyword binds to a built-in statement of the language version, or to an extension of the module
of its prefix (`Declaration.BindsTo`). The statements below an instance of an extension are not
looked at. Binding fails with the first statement in preorder that is looked at and binds to
nothing, and otherwise gives the statements with their bindings: as a table, in which every row has
the head of the statement at its place in preorder, and from which the statements can be read back
(`Declaration.binding_encodes`).

A table can also be built as the statements are met, each row before those of its substatements and
without the children that are still to come (`Declaration.bindInto_eq`).
-/

namespace YangSchema

/-- The error of a computation that fails. -/
def Result.error? {α : Type} : Result α → Option Error
  | .ok _ => none
  | .error e => some e

theorem Result.error?_eq_some {α : Type} {x : Result α} {e : Error} :
    x.error? = some e ↔ x = .error e := by
  cases x with
  | ok a => exact iff_of_false (fun h => nomatch h) (fun h => nomatch h)
  | error e' => exact ⟨fun h => congrArg _ (Option.some.inj h), fun h => congrArg error? h⟩

theorem Result.error?_eq_none {α : Type} {x : Result α} : x.error? = none ↔ ∃ a, x = .ok a := by
  cases x with
  | ok a => exact iff_of_true rfl ⟨a, rfl⟩
  | error e => exact iff_of_false (fun h => nomatch h) (fun ⟨_, h⟩ => nomatch h)

/-- A sequence that starts with a step that fails has its error, and otherwise that of the rest. -/
theorem Result.error?_bind_pure {α β : Type} {x : Result α} {f : α → β} :
    (x >>= fun a => pure (f a)).error? = x.error? := by
  cases x <;> rfl

namespace Tree

variable {α : Type}

mutual

/-- Every node with what stands above it, the nearest first, in preorder; `above` stands above the
root. -/
def lineagesFrom (above : List α) : Tree α → List (List α × α)
  | ⟨a, cs⟩ => (above, a) :: forestLineagesFrom (a :: above) cs

/-- The nodes of a list of trees with what stands above them. -/
def forestLineagesFrom (above : List α) : List (Tree α) → List (List α × α)
  | [] => []
  | t :: ts => t.lineagesFrom above ++ forestLineagesFrom above ts

end

/-- Every node with what stands above it, in preorder. -/
def lineages (t : Tree α) : List (List α × α) := t.lineagesFrom []

end Tree

theorem Kind.ofKeyword?_eq_some {version : Version} {keyword : String} {kind : Kind} :
    Kind.ofKeyword? version keyword = some kind
      ↔ kind.keyword = keyword ∧ version.includes kind.since = true := by
  unfold ofKeyword?
  rw [Option.filter_eq_some_iff]
  refine and_congr_left fun _ => ?_
  have hfound : ∀ k, (all.find? fun k => k.keyword == keyword) = some k → k.keyword = keyword :=
    fun k hk => beq_iff_eq.1 (List.find?_some (p := fun k : Kind => k.keyword == keyword) hk)
  refine ⟨hfound kind, fun hkind => ?_⟩
  have hsome : (all.find? fun k => k.keyword == keyword).isSome :=
    List.find?_isSome.2 ⟨kind, mem_all kind, beq_iff_eq.2 hkind⟩
  obtain ⟨k, hk⟩ := Option.isSome_iff_exists.1 hsome
  rw [hk, List.inj_on_of_nodup_map nodup_keyword (mem_all k) (mem_all kind)
    ((hfound k hk).trans hkind.symm)]

/-! ## Extensions -/

/-- A source declares an extension at its top. -/
def Statement.DeclaresExtension (root : Statement) (name : String) : Prop :=
  ∃ c ∈ root.childrenNamed "extension", c.argument = some name

instance (root : Statement) (name : String) : Decidable (root.DeclaresExtension name) :=
  inferInstanceAs (Decidable (∃ c ∈ root.childrenNamed "extension", c.argument = some name))

/-- The extensions of a module are those that the sources declare which it owns. -/
theorem Extensions.mem_ofSources_iff {linked : List (LinkedSource × Statement)}
    {module : SourceId} {name : String} : (module, name) ∈ Extensions.ofSources linked
    ↔ ∃ d ∈ linked, d.1.owner = module ∧ d.2.DeclaresExtension name := by
  simp only [ofSources, ofSource, List.mem_flatMap, List.mem_map, List.mem_filterMap,
    Prod.mk.injEq, Statement.DeclaresExtension]
  constructor
  · rintro ⟨d, hd, _, hdeclares, howner, rfl⟩
    exact ⟨d, hd, howner, hdeclares⟩
  · rintro ⟨d, hd, howner, hdeclares⟩
    exact ⟨d, hd, name, hdeclares, howner, rfl⟩

namespace Declaration

variable {extensions : Extensions} {s : LinkedSource} {head : Head} {b : Binding} {e : Error}
  {root : Statement} {d : Declaration}

/-! ## Keywords -/

/-- What a keyword of a source stands for, among the extensions that there are. -/
inductive BindsTo (extensions : Extensions) (s : LinkedSource) (head : Head) : Binding → Prop
  | builtin (kind : Kind) (hplain : head.keyword.qualifier = none)
      (hkeyword : kind.keyword = head.keyword.identifier)
      (hsince : s.header.version.includes kind.since = true) :
      BindsTo extensions s head (.builtin kind)
  | extension (p : String) (module : SourceId) (hqualifier : head.keyword.qualifier = some p)
      (hmodule : s.prefixes.lookup p = some module)
      (hdeclared : (module, head.keyword.identifier) ∈ extensions) :
      BindsTo extensions s head (.extension module head.keyword.identifier)

/-- A keyword that stands for something is bound to it. -/
theorem bindKeyword_eq_ok :
    bindKeyword extensions s head = .ok b ↔ BindsTo extensions s head b := by
  unfold bindKeyword
  constructor
  · intro h
    split at h
    · rename_i hplain
      split at h
      · rename_i kind hkind
        obtain ⟨hkeyword, hsince⟩ := Kind.ofKeyword?_eq_some.1 hkind
        rw [← Except.ok.inj h]
        exact .builtin kind hplain hkeyword hsince
      · cases h
    · rename_i p hqualifier
      split at h
      · cases h
      · rename_i module hmodule
        split at h
        · rename_i hdeclared
          rw [← Except.ok.inj h]
          exact .extension p module hqualifier hmodule hdeclared
        · cases h
  · rintro (⟨kind, hplain, hkeyword, hsince⟩ | ⟨p, module, hqualifier, hmodule, hdeclared⟩)
    · simp only [hplain, Kind.ofKeyword?_eq_some.2 ⟨hkeyword, hsince⟩]
    · simp only [hqualifier, hmodule, if_pos hdeclared]

/-- All other keywords are unknown. -/
theorem bindKeyword_eq_error : bindKeyword extensions s head = .error e
    ↔ (¬ ∃ b, BindsTo extensions s head b)
      ∧ e = .unknownStatement s.header.id head.keyword head.location := by
  have hunknown : ∀ e, bindKeyword extensions s head = .error e →
      e = .unknownStatement s.header.id head.keyword head.location := by
    intro e h
    unfold bindKeyword at h
    split at h <;> split at h <;> first | split at h | skip
    all_goals first | exact (Except.error.inj h).symm | cases h
  constructor
  · refine fun h => ⟨?_, hunknown e h⟩
    rintro ⟨b, hb⟩
    cases h.symm.trans (bindKeyword_eq_ok.2 hb)
  · rintro ⟨hnot, rfl⟩
    cases h : bindKeyword extensions s head with
    | ok b => exact absurd ⟨b, bindKeyword_eq_ok.1 h⟩ hnot
    | error e => rw [hunknown e h]

/-- The keyword stands for an extension. -/
def IsInstance (extensions : Extensions) (s : LinkedSource) (head : Head) : Prop :=
  ∃ module name, BindsTo extensions s head (.extension module name)

/-! ## Where binding fails -/

/-- A statement is looked at, no instance of an extension being above it, and its keyword stands for
nothing. -/
def Offends (extensions : Extensions) (s : LinkedSource) (l : List Head × Head) : Prop :=
  (∀ a ∈ l.1, ¬ IsInstance extensions s a) ∧ ¬ ∃ b, BindsTo extensions s l.2 b

/-- The error of a statement, if it is looked at. -/
def offence? (binding : Head → Result Binding) (l : List Head × Head) : Option Error :=
  if l.1.any fun a => (binding a).toOption.any hidesContent then none else (binding l.2).error?

mutual

/-- Binding fails with the error of the first statement that has one. -/
theorem error?_bind (binding : Head → Result Binding) : ∀ (hidden : Bool) (above : List Head)
    (s : Statement), (above.any fun a => (binding a).toOption.any hidesContent) = hidden →
    (bind binding hidden s).error? = (s.lineagesFrom above).findSome? (offence? binding)
  | hidden, above, ⟨head, children⟩, habove => by
    rw [bind, Tree.lineagesFrom, List.findSome?_cons]
    unfold offence?
    simp only [habove]
    cases hidden with
    | true =>
      have hbelow := error?_bindAll binding true (head :: above) children
        (by rw [List.any_cons, habove, Bool.or_true])
      exact Result.error?_bind_pure.trans hbelow
    | false =>
      cases hhead : binding head with
      | error e => rfl
      | ok b =>
        have hbelow := error?_bindAll binding (hidesContent b) (head :: above) children
          (by rw [List.any_cons, habove, hhead, Bool.or_false]; rfl)
        exact Result.error?_bind_pure.trans hbelow

theorem error?_bindAll (binding : Head → Result Binding) : ∀ (hidden : Bool) (above : List Head)
    (ss : List Statement), (above.any fun a => (binding a).toOption.any hidesContent) = hidden →
    (bindAll binding hidden ss).error?
      = (Tree.forestLineagesFrom above ss).findSome? (offence? binding)
  | _, _, [], _ => rfl
  | hidden, above, s :: ss, habove => by
    rw [bindAll, Tree.forestLineagesFrom, List.findSome?_append,
      ← error?_bind binding hidden above s habove, ← error?_bindAll binding hidden above ss habove]
    cases bind binding hidden s with
    | error e => rfl
    | ok t => exact Result.error?_bind_pure

end

theorem any_hidesContent_iff : (bindKeyword extensions s head).toOption.any hidesContent = true
    ↔ IsInstance extensions s head := by
  constructor
  · intro h
    cases hb : bindKeyword extensions s head with
    | error e => rw [hb] at h; cases h
    | ok b =>
      rw [hb] at h
      cases bindKeyword_eq_ok.1 hb with
      | builtin => cases h
      | extension p module hqualifier hmodule hdeclared =>
        exact ⟨_, _, .extension p module hqualifier hmodule hdeclared⟩
  · rintro ⟨module, name, hb⟩
    rw [bindKeyword_eq_ok.2 hb]
    rfl

theorem offence?_eq_some {l : List Head × Head} : offence? (bindKeyword extensions s) l = some e
    ↔ Offends extensions s l ∧ e = .unknownStatement s.header.id l.2.keyword l.2.location := by
  unfold offence? Offends
  rw [Option.ite_none_left_eq_some, Result.error?_eq_some, bindKeyword_eq_error, and_assoc]
  refine and_congr_left fun _ => ?_
  rw [List.any_eq_true]
  simp only [any_hidesContent_iff, not_exists, not_and]

theorem offence?_eq_none {l : List Head × Head} :
    offence? (bindKeyword extensions s) l = none ↔ ¬ Offends extensions s l := by
  rw [← Option.not_isSome_iff_eq_none, Option.isSome_iff_exists]
  simp only [offence?_eq_some, exists_and_left, exists_eq, and_true]

theorem error?_ofStatement : (ofStatement extensions s root).error?
    = root.lineages.findSome? (offence? (bindKeyword extensions s)) :=
  Result.error?_bind_pure.trans (error?_bind _ false [] root rfl)

/-! ## Bindings -/

/-- A statement that is bound keeps its head. -/
theorem label_of_bind {binding : Head → Result Binding} {hidden : Bool} {stmt : Statement}
    {t : Tree (Head × Binding)} (h : bind binding hidden stmt = .ok t) : t.label.1 = stmt.label
      ∧ (if hidden then .ok .uninterpreted else binding t.label.1) = .ok t.label.2 := by
  obtain ⟨head, children⟩ := stmt
  rw [bind] at h
  cases hidden with
  | true =>
    obtain ⟨b, hb, h⟩ := Result.bind_eq_ok.1 h
    obtain ⟨ts, _, h⟩ := Result.bind_eq_ok.1 h
    rw [← Except.ok.inj h]
    exact ⟨rfl, hb⟩
  | false =>
    obtain ⟨b, hb, h⟩ := Result.bind_eq_ok.1 h
    obtain ⟨ts, _, h⟩ := Result.bind_eq_ok.1 h
    rw [← Except.ok.inj h]
    exact ⟨rfl, hb⟩

theorem map_fst_of_bind {binding : Head → Result Binding} {hidden : Bool} {stmt : Statement}
    {t : Tree (Head × Binding)} (h : bind binding hidden stmt = .ok t) : t.map Prod.fst = stmt := by
  induction stmt using Tree.induct generalizing t hidden with
  | step stmt ih =>
    have forest : ∀ {hidden : Bool} {ss : List Statement} {ts : List (Tree (Head × Binding))},
        (∀ c ∈ ss, ∀ {hidden t}, bind binding hidden c = .ok t → t.map Prod.fst = c) →
        List.Forall₂ (fun c u => bind binding hidden c = .ok u) ss ts →
        Tree.mapForest Prod.fst ts = ss := by
      intro hidden ss ts hss hall
      induction hall with
      | nil => rfl
      | cons hc _ ihall =>
        rw [Tree.mapForest, hss _ List.mem_cons_self hc,
          ihall fun d hd => hss d (List.mem_cons_of_mem _ hd)]
    have hchildren := forest ih (bind_eq_ok h).2
    have hlabel := (label_of_bind h).1
    obtain ⟨a, ts⟩ := t
    obtain ⟨head, children⟩ := stmt
    rw [Tree.map, hchildren, hlabel]

/-- A statement below another one has been bound, hidden if that one hides its content. -/
theorem exists_bind_of_child {binding : Head → Result Binding} {hidden : Bool} {stmt : Statement}
    {t u v : Tree (Head × Binding)} (h : bind binding hidden stmt = .ok t) (hu : u ∈ t.subtrees)
    (hv : v ∈ u.children) : ∃ w, bind binding (hidesContent u.label.2) w = .ok v := by
  induction stmt using Tree.induct generalizing t hidden with
  | step stmt ih =>
    have hchildren := Result.mapM_eq_ok.2 (bind_eq_ok h).2
    rcases Tree.mem_subtrees.1 hu with rfl | ⟨c, hc, hu⟩
    · obtain ⟨w, _, hw⟩ := Result.exists_of_mem_mapM hchildren hv
      exact ⟨w, hw⟩
    · obtain ⟨w, hmem, hw⟩ := Result.exists_of_mem_mapM hchildren hc
      exact ih w hmem hw hu

/-- The root of a source is looked at. -/
theorem bindsTo_root (h : ofStatement extensions s root = .ok d) :
    BindsTo extensions s d.label.toHead d.label.binding := by
  obtain ⟨t, ht, h⟩ := Result.bind_eq_ok.1 h
  rw [← Except.ok.inj h]
  obtain ⟨a, ts⟩ := t
  exact bindKeyword_eq_ok.1 (label_of_bind ht).2

/-- Whether a statement is looked at depends on what is directly above it. -/
theorem binding_of_child {x c : Declaration} (h : ofStatement extensions s root = .ok d)
    (hx : x ∈ d.subtrees) (hc : c ∈ x.children) :
    if hidesContent x.label.binding then c.label.binding = .uninterpreted
    else BindsTo extensions s c.label.toHead c.label.binding := by
  obtain ⟨t, ht, h⟩ := Result.bind_eq_ok.1 h
  rw [← Except.ok.inj h] at hx
  obtain ⟨⟨a, ts⟩, hu, n, rfl⟩ := Tree.mem_subtrees_indexed hx
  obtain ⟨⟨a', ts'⟩, hv, m, rfl⟩ := Tree.mem_indexedForest hc
  obtain ⟨w, hw⟩ := exists_bind_of_child ht hu hv
  have hlabel := (label_of_bind hw).2
  show if hidesContent a.2 then a'.2 = .uninterpreted else BindsTo extensions s a'.1 a'.2
  split
  · rename_i hhides
    rw [if_pos hhides] at hlabel
    exact (Except.ok.inj hlabel).symm
  · rename_i hhides
    rw [if_neg hhides] at hlabel
    exact bindKeyword_eq_ok.1 hlabel

/-! ## The table of a source -/

/-- A table has the statements of a source with their bindings. -/
structure Encodes (extensions : Extensions) (s : LinkedSource) (root : Statement)
    (rows : List (Tree.Row Declared)) : Prop where
  table : Tree.IsTable rows
  length : rows.length = root.size
  /-- There is one row for each statement, in preorder. -/
  heads : rows.map (·.label.toHead) = root.preorder
  place : ∀ r ∈ rows, r.label.place = r.id
  /-- The statements can be read back. -/
  rebuilt : (Tree.rebuild? rows root.size 0).map (Tree.map Declared.toHead) = some root
  bound : ∀ r ∈ rows, r.label.binding ≠ .uninterpreted →
    BindsTo extensions s r.label.toHead r.label.binding
  /-- What is not interpreted stands below an instance of an extension, and nothing else does. -/
  hidden : ∀ r ∈ rows, r.label.binding = .uninterpreted
    ↔ ∃ q module name, Relation.TransGen (Tree.IsParentRow rows) q r
      ∧ q.label.binding = .extension module name
  /-- What stands above a built-in statement is built in. -/
  above : ∀ q r, Relation.TransGen (Tree.IsParentRow rows) q r →
    r.label.binding.kind?.isSome = true → q.label.binding.kind?.isSome = true

theorem map_toHead (h : ofStatement extensions s root = .ok d) :
    d.map Declared.toHead = root := by
  obtain ⟨t, ht, h⟩ := Result.bind_eq_ok.1 h
  have hheads : (t.indexed placed 0).map Declared.toHead = t.map Prod.fst :=
    Tree.map_indexed (f := placed) (fun _ _ => rfl) 0 t
  rw [← Except.ok.inj h, hheads, map_fst_of_bind ht]

theorem size_of_ofStatement (h : ofStatement extensions s root = .ok d) : d.size = root.size := by
  rw [← Tree.length_preorder, ← Tree.length_preorder, ← map_toHead h, Tree.preorder_map,
    List.length_map]

theorem place_of_mem_rows (h : ofStatement extensions s root = .ok d) {r : Tree.Row Declared}
    (hr : r ∈ d.rows) : r.label.place = r.id := by
  obtain ⟨t, _, h⟩ := Result.bind_eq_ok.1 h
  rw [← Except.ok.inj h, Tree.rows, Tree.rowsFrom_indexed] at hr
  obtain ⟨r, _, rfl⟩ := List.mem_map.1 hr
  rfl

/-- Whether a row is looked at depends on its parent. -/
theorem binding_of_row (h : ofStatement extensions s root = .ok d) {q r : Tree.Row Declared}
    (hq : Tree.IsParentRow d.rows q r) :
    if hidesContent q.label.binding then r.label.binding = .uninterpreted
    else BindsTo extensions s r.label.toHead r.label.binding := by
  obtain ⟨x, c, hc, hlabel, hlabel', hx⟩ := Tree.exists_child_of_parent hq
  rw [hlabel, hlabel']
  exact binding_of_child h (Tree.mem_subtrees_of_ite hx) hc

theorem BindsTo.ne_uninterpreted (h : BindsTo extensions s head b) : b ≠ .uninterpreted := by
  rintro rfl
  cases h

theorem bindsTo_first (h : ofStatement extensions s root = .ok d) {r : Tree.Row Declared}
    (hr : r ∈ d.rows) (hid : r.id = 0) : BindsTo extensions s r.label.toHead r.label.binding := by
  have hfirst := (Tree.hasAt_rows d).getElem?
  rw [← hid, Tree.getElem?_rows hr] at hfirst
  rw [Option.some.inj hfirst]
  exact bindsTo_root h

/-- Below an instance of an extension nothing is interpreted, at any depth. -/
theorem uninterpreted_of_below (h : ofStatement extensions s root = .ok d)
    {q r : Tree.Row Declared} (hbelow : Relation.TransGen (Tree.IsParentRow d.rows) q r)
    (hq : hidesContent q.label.binding = true) : r.label.binding = .uninterpreted := by
  induction hbelow with
  | single hr =>
    have hbinding := binding_of_row h hr
    rwa [if_pos hq] at hbinding
  | tail _ hr ih =>
    have hbinding := binding_of_row h hr
    rwa [if_pos (by rw [ih]; rfl)] at hbinding

theorem exists_instance_above (h : ofStatement extensions s root = .ok d) (n : Nat)
    {r : Tree.Row Declared} (hr : r ∈ d.rows) (hn : r.id = n)
    (huninterpreted : r.label.binding = .uninterpreted) :
    ∃ q module name, Relation.TransGen (Tree.IsParentRow d.rows) q r
      ∧ q.label.binding = .extension module name := by
  -- upwards, parent by parent, until one is bound
  induction n using Nat.strong_induction_on generalizing r with
  | _ n ih =>
    rcases (Tree.isTable_rows d).parent_cases hr with hfirst | ⟨q, hq, hlt⟩
    · exact absurd huninterpreted (bindsTo_first h hr hfirst).ne_uninterpreted
    · have hbinding := binding_of_row h hq
      cases hparent : q.label.binding with
      | builtin kind =>
        rw [hparent] at hbinding
        exact absurd huninterpreted (BindsTo.ne_uninterpreted hbinding)
      | extension module name => exact ⟨q, module, name, .single hq, hparent⟩
      | uninterpreted =>
        obtain ⟨p, module, name, hp, hext⟩ := ih q.id (hn ▸ hlt) hq.1 rfl hparent
        exact ⟨p, module, name, hp.tail hq, hext⟩

/-- Binding gives a table of the statements of a source. -/
theorem encodes_of_ofStatement (h : ofStatement extensions s root = .ok d) :
    Encodes extensions s root d.rows where
  table := Tree.isTable_rows d
  length := (Tree.length_rowsFrom 0 none d).trans (size_of_ofStatement h)
  heads := by
    rw [← map_toHead h, Tree.preorder_map, ← Tree.map_label_rowsFrom 0 none, List.map_map]
    rfl
  place _ hr := place_of_mem_rows h hr
  rebuilt := by
    rw [(Tree.hasAt_rows d).rebuild? (Nat.le_of_eq (size_of_ofStatement h)), Option.map_some,
      map_toHead h]
  bound r hr hne := by
    rcases (Tree.isTable_rows d).parent_cases hr with hfirst | ⟨q, hq, _⟩
    · exact bindsTo_first h hr hfirst
    · have hbinding := binding_of_row h hq
      split at hbinding
      · exact absurd hbinding hne
      · exact hbinding
  hidden r hr := by
    refine ⟨exists_instance_above h r.id hr rfl, ?_⟩
    rintro ⟨q, module, name, hbelow, hext⟩
    exact uninterpreted_of_below h hbelow (by rw [hext]; rfl)
  above q r hbelow hr := by
    cases hq : q.label.binding with
    | builtin kind => rfl
    | extension module name =>
      rw [uninterpreted_of_below h hbelow (by rw [hq]; rfl)] at hr
      cases hr
    | uninterpreted =>
      rw [uninterpreted_of_below h hbelow (by rw [hq]; rfl)] at hr
      cases hr

/-! ## Building the table -/

mutual

/-- Binds a statement and puts it and its substatements behind the rows that there are. The row of
a statement comes first; it gets its children as their rows are complete. -/
def bindInto (binding : Head → Result Binding) (hidden : Bool) (parent : Option Nat)
    (out : List (Tree.Row (Head × Binding))) : Statement → Result (List (Tree.Row (Head × Binding)))
  | ⟨head, children⟩ => do
    let b ← if hidden then .ok .uninterpreted else binding head
    bindBelow binding (hidesContent b) out.length (out ++ [⟨out.length, parent, [], (head, b)⟩])
      children

/-- Binds a list of substatements and adds them to the row of their parent. -/
def bindBelow (binding : Head → Result Binding) (hidden : Bool) (id : Nat)
    (out : List (Tree.Row (Head × Binding))) :
    List Statement → Result (List (Tree.Row (Head × Binding)))
  | [] => .ok out
  | s :: ss => do
    let next ← bindInto binding hidden (some id) out s
    bindBelow binding hidden id (next.modify id (Tree.Row.addChild out.length)) ss

end

mutual

/-- Building the table gives the rows of the bound statements. -/
theorem bindInto_eq (binding : Head → Result Binding) : ∀ (hidden : Bool) (parent : Option Nat)
    (out : List (Tree.Row (Head × Binding))) (s : Statement),
    bindInto binding hidden parent out s
      = (bind binding hidden s).map fun t => out ++ t.rowsFrom out.length parent
  | hidden, parent, out, ⟨head, children⟩ => by
    have hbound (b : Binding) : bindBelow binding (hidesContent b) out.length
          (out ++ [⟨out.length, parent, [], (head, b)⟩]) children
        = (do return Tree.mk (head, b) (← bindAll binding (hidesContent b) children) :
            Result (Tree (Head × Binding))).map fun t => out ++ t.rowsFrom out.length parent := by
      rw [← Tree.rowsFrom_leaf, Tree.leaf,
        bindBelow_eq binding (hidesContent b) out parent (head, b) [] children]
      cases bindAll binding (hidesContent b) children <;> rfl
    rw [bindInto, bind]
    cases hidden with
    | true => exact hbound .uninterpreted
    | false =>
      cases binding head with
      | error e => rfl
      | ok b => exact hbound b

/-- Substatements are added to the row of their parent, which has the children `ts`. -/
theorem bindBelow_eq (binding : Head → Result Binding) : ∀ (hidden : Bool)
    (out : List (Tree.Row (Head × Binding))) (parent : Option Nat) (a : Head × Binding)
    (ts : List (Tree (Head × Binding))) (ss : List Statement),
    bindBelow binding hidden out.length (out ++ (Tree.mk a ts).rowsFrom out.length parent) ss
      = (bindAll binding hidden ss).map fun us =>
        out ++ (Tree.mk a (ts ++ us)).rowsFrom out.length parent
  | hidden, out, parent, a, ts, [] => by
    rw [bindBelow, bindAll]
    refine congrArg Except.ok ?_
    dsimp only
    rw [List.append_nil]
  | hidden, out, parent, a, ts, s :: ss => by
    rw [bindBelow, bindAll, bindInto_eq binding hidden _ _ s]
    cases bind binding hidden s with
    | error e => rfl
    | ok t =>
      show bindBelow binding hidden out.length (List.modify _ _ _) ss = _
      rw [Tree.modify_addChild out parent a ts t rfl,
        bindBelow_eq binding hidden out parent a (ts ++ [t]) ss]
      cases bindAll binding hidden ss with
      | error e => rfl
      | ok us =>
        refine congrArg Except.ok ?_
        dsimp only
        rw [List.append_assoc, List.singleton_append]

end

/-- **Binding encodes a source as a table.** It succeeds exactly if no statement that is looked at
has a keyword that stands for nothing, and fails with the first one in preorder that has. When it
succeeds, the table of its result, which can be built row by row as the statements are met, has the
statements with their bindings. -/
theorem binding_encodes (extensions : Extensions) (s : LinkedSource) (root : Statement) :
    ((∃ d, ofStatement extensions s root = .ok d)
      ↔ ∀ l ∈ root.lineages, ¬ Offends extensions s l)
    ∧ (∀ e, ofStatement extensions s root = .error e
      ↔ ∃ before l after, root.lineages = before ++ l :: after
        ∧ (∀ l' ∈ before, ¬ Offends extensions s l') ∧ Offends extensions s l
        ∧ e = .unknownStatement s.header.id l.2.keyword l.2.location)
    ∧ (∀ d, ofStatement extensions s root = .ok d → Encodes extensions s root d.rows)
    ∧ (bindInto (bindKeyword extensions s) false none [] root).map
        (List.map (Tree.Row.relabel placed)) = (ofStatement extensions s root).map Tree.rows := by
  refine ⟨?_, fun e => ?_, fun d => encodes_of_ofStatement, ?_⟩
  · rw [← Result.error?_eq_none, error?_ofStatement, List.findSome?_eq_none_iff]
    exact forall₂_congr fun l _ => offence?_eq_none
  · rw [← Result.error?_eq_some, error?_ofStatement, List.findSome?_eq_some_iff]
    simp only [offence?_eq_some, offence?_eq_none]
    exact exists₃_congr fun _ _ _ => and_congr_right fun _ => and_comm
  · rw [bindInto_eq]
    unfold ofStatement
    cases bind (bindKeyword extensions s) false root with
    | error e => rfl
    | ok t => exact congrArg Except.ok (Tree.rowsFrom_indexed placed 0 none t).symm

/-- A module with an instance of one of its extensions, which has content, and a leaf. -/
def annotatedModule : Statement :=
  let written (keyword : String) (children : List Statement) : Statement :=
    ⟨⟨.ofString keyword, some "x", .synthetic "annotated"⟩, children⟩
  written "module" [written "m:note" [written "leaf" [written "m:note" []]], written "leaf" []]

/-- What stands below the instance is not interpreted, whatever its keywords; the leaf behind it
is. -/
theorem binding_encodes_annotatedModule :
    ∃ d, ofStatement [(⟨"m", none⟩, "note")] leafSource annotatedModule = .ok d
      ∧ Encodes [(⟨"m", none⟩, "note")] leafSource annotatedModule d.rows
      ∧ d.rows.map (·.label.binding) = [.builtin .module, .extension ⟨"m", none⟩ "note",
          .uninterpreted, .uninterpreted, .builtin .leaf] := by
  obtain ⟨_, _, hencodes, _⟩ :=
    binding_encodes [(⟨"m", none⟩, "note")] leafSource annotatedModule
  have hbound : ((ofStatement [(⟨"m", none⟩, "note")] leafSource annotatedModule).toOption.map
      fun d => d.rows.map (·.label.binding)) = some [.builtin .module,
        .extension ⟨"m", none⟩ "note", .uninterpreted, .uninterpreted, .builtin .leaf] := by
    decide +kernel
  obtain ⟨d, hd, hbindings⟩ := Option.map_eq_some_iff.1 hbound
  have hok := Result.eq_ok_of_toOption hd
  exact ⟨d, hok, hencodes d hok, hbindings⟩

end Declaration

end YangSchema
