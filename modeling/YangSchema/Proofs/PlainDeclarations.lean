import YangSchema.Declaration.Model
import YangSchema.Proofs.PlainLinkage

/-!
# Declaring without locations

Binding keywords, checking statements and putting the declared model together do not depend on where
statements were written: errors apart, locations are only handed on.
-/

namespace YangSchema

/-- A bound statement without its location. -/
def Declared.plain (d : Declared) : Declared := { d with toHead := d.toHead.plain }

/-! ## Declarations -/

namespace Declaration

variable (d : Declaration) (kind : Kind)

@[simp] theorem kind?_plain : kind? (d.map Declared.plain) = d.kind? := by
  rw [kind?, Tree.label_map]
  rfl

@[simp] theorem is_plain : is (d.map Declared.plain) kind = d.is kind := by
  rw [is, is, kind?_plain]

@[simp] theorem argumentText_plain : argumentText (d.map Declared.plain) = d.argumentText := by
  rw [argumentText, Tree.label_map]
  rfl

theorem filter_is_plain (ds : List Declaration) :
    (ds.map (Tree.map Declared.plain)).filter (is · kind)
      = (ds.filter (is · kind)).map (Tree.map Declared.plain) := by
  rw [List.filter_map]
  simp only [Function.comp_def, is_plain]

@[simp] theorem childrenOfKind_plain : childrenOfKind (d.map Declared.plain) kind
    = (d.childrenOfKind kind).map (Tree.map Declared.plain) := by
  rw [childrenOfKind, childrenOfKind, Tree.children_map, filter_is_plain]

@[simp] theorem firstChild?_plain : firstChild? (d.map Declared.plain) kind
    = (d.firstChild? kind).map (Tree.map Declared.plain) := by
  rw [firstChild?, firstChild?, Tree.children_map, List.find?_map]
  simp only [Function.comp_def, is_plain]

@[simp] theorem childArgument?_plain :
    childArgument? (d.map Declared.plain) kind = d.childArgument? kind := by
  rw [childArgument?, childArgument?, firstChild?_plain, Option.bind_map]
  simp only [Function.comp_def, Tree.label_map]
  rfl

@[simp] theorem count_plain : count (d.map Declared.plain) kind = d.count kind := by
  rw [count, count, childrenOfKind_plain, List.length_map]

end Declaration

/-! ## Binding keywords -/

namespace Extensions

theorem ofSources_plain (sources : List (LinkedSource × Statement)) :
    ofSources (sources.map fun s => (s.1.plain, s.2.map Head.plain)) = ofSources sources := by
  unfold ofSources
  rw [List.flatMap_map]
  congr 1
  funext s
  rw [ofSource, ofSource, Statement.childrenNamed_plain, Statement.filterMap_argument_plain]
  rfl

end Extensions

namespace Declaration

/-- What binding gives, without locations. -/
def plainBound (b : Head × Binding) : Head × Binding := (b.1.plain, b.2)

theorem bindKeyword_plain (extensions : Extensions) (s : LinkedSource) (head : Head) :
    bindKeyword extensions s.plain head.plain = .plainError (bindKeyword extensions s head) := by
  unfold bindKeyword
  dsimp only [Head.plain, LinkedSource.plain, Header.plain]
  cases head.keyword.qualifier with
  | none =>
    dsimp only
    cases Kind.ofKeyword? s.header.version head.keyword.identifier <;> rfl
  | some p =>
    dsimp only
    cases s.prefixes.lookup p with
    | none => rfl
    | some module => exact Result.plain_ite rfl rfl

mutual

theorem bind_plain {binding binding' : Head → Result Binding}
    (h : ∀ head, binding' head.plain = .plainError (binding head)) (hidden : Bool) :
    ∀ s : Statement, bind binding' hidden (s.map Head.plain)
      = .plain (Tree.map plainBound) (bind binding hidden s)
  | ⟨head, children⟩ => by
    rw [Tree.map, bind, bind]
    have hrest (b : Binding) :
        (bindAll binding' (hidesContent b) (Tree.mapForest Head.plain children)
          >>= fun cs => pure ⟨(head.plain, b), cs⟩) = Result.plain (Tree.map plainBound)
            (bindAll binding (hidesContent b) children >>= fun cs => pure ⟨(head, b), cs⟩) :=
      Result.plain_bind (bindAll_plain h (hidesContent b) children) fun _ => rfl
    cases hidden with
    | true => exact hrest .uninterpreted
    | false => exact Result.plain_bind (h head) hrest

theorem bindAll_plain {binding binding' : Head → Result Binding}
    (h : ∀ head, binding' head.plain = .plainError (binding head)) (hidden : Bool) :
    ∀ ss : List Statement, bindAll binding' hidden (Tree.mapForest Head.plain ss)
      = .plain (Tree.mapForest plainBound) (bindAll binding hidden ss)
  | [] => rfl
  | s :: ss => by
    rw [Tree.mapForest, bindAll, bindAll]
    apply Result.plain_bind (bind_plain h hidden s)
    intro t
    exact Result.plain_bind (bindAll_plain h hidden ss) fun _ => rfl

end

mutual

theorem indexed_plain : ∀ (n : Nat) (t : Tree (Head × Binding)),
    (t.map plainBound).indexed placed n = (t.indexed placed n).map Declared.plain
  | n, ⟨b, cs⟩ => by
    rw [Tree.map, Tree.indexed, Tree.indexed, Tree.map, indexedForest_plain (n + 1) cs]
    rfl

theorem indexedForest_plain : ∀ (n : Nat) (ts : List (Tree (Head × Binding))),
    Tree.indexedForest placed n (Tree.mapForest plainBound ts)
      = Tree.mapForest Declared.plain (Tree.indexedForest placed n ts)
  | _, [] => rfl
  | n, t :: ts => by
    rw [Tree.mapForest, Tree.indexedForest, Tree.indexedForest, Tree.mapForest, Tree.size_map,
      indexed_plain n t, indexedForest_plain (n + t.size) ts]

end

theorem ofStatement_plain (extensions : Extensions) (s : LinkedSource) (root : Statement) :
    ofStatement extensions s.plain (root.map Head.plain)
      = .plain (Tree.map Declared.plain) (ofStatement extensions s root) := by
  apply Result.plain_bind (bind_plain (bindKeyword_plain extensions s) false root)
  intro bound
  rw [indexed_plain]
  rfl

/-! ## Checking -/

section Checking

variable (s : LinkedSource) (d : Declaration) (kind : Kind)

theorem fault_plain {α β : Type} (h : α → β) (id : SourceId) (f : GrammarFault) :
    (fault id (d.map Declared.plain) f : Result β) = .plain h (fault id d f) := by
  unfold fault
  rw [Tree.label_map]
  rfl

theorem checkPrefix_plain (name : String) :
    checkPrefix s.plain (d.map Declared.plain) name = .plainError (checkPrefix s d name) := by
  unfold checkPrefix
  rw [Tree.label_map]
  cases Text.splitOnce? ':' name with
  | none => rfl
  | some parts =>
    exact Result.plain_ite rfl rfl

theorem checkArgumentText_plain (argument : String) :
    checkArgumentText s.plain (d.map Declared.plain) kind argument
      = .plainError (checkArgumentText s d kind argument) := by
  have hpath := Result.plainError_forM (checkPrefix_plain s d) (pathSteps argument)
  unfold checkArgumentText
  split
  · exact Result.plain_ite rfl rfl
  · exact Result.plain_ite rfl rfl
  · exact checkPrefix_plain s d argument
  · exact checkPrefix_plain s d argument
  · exact checkPrefix_plain s d argument
  · exact hpath
  · exact hpath
  · exact hpath
  · exact Result.plain_ite rfl (fault_plain d _ _ _)

theorem checkArgument_plain : checkArgument s.plain (d.map Declared.plain) kind
    = .plainError (checkArgument s d kind) := by
  have hargument : d.label.plain.argument = d.label.argument := rfl
  unfold checkArgument
  rw [Tree.label_map, hargument]
  cases kind.takesArgument with
  | true =>
    cases d.label.argument with
    | some argument => exact checkArgumentText_plain s d kind argument
    | none => exact fault_plain d _ s.header.id _
  | false =>
    cases d.label.argument with
    | some argument => exact fault_plain d _ s.header.id _
    | none => rfl

theorem checkSubstatements_plain (id : SourceId) : checkSubstatements id kind (d.map Declared.plain)
    = .plainError (checkSubstatements id kind d) := by
  have hallowed : checkAllowed id kind (d.map Declared.plain)
      = .plainError (checkAllowed id kind d) := by
    unfold checkAllowed
    rw [Tree.children_map]
    apply Result.plain_forM
    intro c
    rw [kind?_plain]
    cases kind? c with
    | none => rfl
    | some k => exact Result.plain_ite rfl (fault_plain c _ id _)
  have hcounts : checkCounts id kind (d.map Declared.plain)
      = .plainError (checkCounts id kind d) := by
    apply Result.plainError_forM
    intro k
    rw [count_plain]
    cases kind.substatement? k with
    | none => rfl
    | some c => exact Result.plain_ite (fault_plain d _ id _) rfl
  have hrequired : checkRequired id kind (d.map Declared.plain)
      = .plainError (checkRequired id kind d) := by
    apply Result.plainError_forM
    intro k
    rw [count_plain]
    exact Result.plain_ite (fault_plain d _ id _) rfl
  apply Result.plain_bind hallowed
  intro _
  exact Result.plain_bind hcounts fun _ => hrequired

theorem checkSections_plain (id : SourceId) (current : Section) (ds : List Declaration) :
    checkSections id current (ds.map (Tree.map Declared.plain))
      = .plainError (checkSections id current ds) := by
  induction ds generalizing current with
  | nil => rfl
  | cons d ds ih =>
    rw [List.map_cons, checkSections, checkSections, kind?_plain]
    cases kind? d with
    | none => exact ih current
    | some k => exact Result.plain_ite (fault_plain d _ id _) (ih _)

theorem checkOne_plain : checkOne s.plain (d.map Declared.plain) = .plainError (checkOne s d) := by
  unfold checkOne
  rw [kind?_plain]
  cases kind? d with
  | none => rfl
  | some kind =>
    apply Result.plain_bind (checkArgument_plain s d kind)
    intro _
    exact checkSubstatements_plain d kind s.header.id

theorem check_plain (enforceOrder : Bool) (root : Declaration) :
    check s.plain enforceOrder (root.map Declared.plain)
      = .plainError (check s enforceOrder root) := by
  unfold check
  rw [kind?_plain, Tree.children_map, Tree.forestSubtrees_map]
  apply Result.plain_bind (checkOne_plain s root)
  intro _
  have hbody := Result.plain_forM (checkOne_plain s) (Tree.forestSubtrees root.children)
  apply Result.plain_ite
  · apply Result.plain_bind (checkSections_plain s.header.id .header root.children)
    intro _
    exact hbody
  · exact hbody

end Checking

end Declaration

/-! ## The model -/

/-- A declared source without locations. -/
def DeclaredSource.plain (s : DeclaredSource) : DeclaredSource :=
  ⟨s.toLinkedSource.plain, s.root.map Declared.plain⟩

namespace DeclaredModel

/-- A declared model without locations. -/
def plain (m : DeclaredModel) : DeclaredModel :=
  { m with sources := m.sources.map DeclaredSource.plain }

variable (m : DeclaredModel)

theorem readHeaders_plain (sources : List Source) : readHeaders (sources.map Source.plain)
    = .plain (List.map (Prod.map Header.plain (Tree.map Head.plain))) (readHeaders sources) := by
  unfold readHeaders
  apply Result.plain_bind (Result.plain_mapM Header.ofSource_plain sources)
  intro headers
  have hroots : (sources.map Source.plain).map (·.root)
      = (sources.map (·.root)).map (Tree.map Head.plain) := by
    rw [List.map_map, List.map_map]
    rfl
  rw [hroots, List.zip_map]
  have hsorted := List.map_mergeSort (f := Prod.map Header.plain (Tree.map Head.plain))
    (r := fun a b => a.1.le b.1) (s := fun a b => a.1.le b.1)
    (l := headers.zip (sources.map (·.root))) fun _ _ _ _ => rfl
  rw [← hsorted]
  rfl

theorem declare_plain (enforceOrder : Bool) (linked : List (LinkedSource × Statement)) :
    declare enforceOrder (linked.map (Prod.map LinkedSource.plain (Tree.map Head.plain)))
      = .plain (List.map DeclaredSource.plain) (declare enforceOrder linked) := by
  unfold declare
  have hextensions : Extensions.ofSources (linked.map (Prod.map LinkedSource.plain _))
      = Extensions.ofSources linked := Extensions.ofSources_plain linked
  rw [hextensions]
  have hbound (s : LinkedSource × Statement) :
      (Declaration.ofStatement (Extensions.ofSources linked) s.1.plain (s.2.map Head.plain)
        >>= fun root => pure (s.1.plain, root))
        = Result.plain (Prod.map LinkedSource.plain (Tree.map Declared.plain))
          (Declaration.ofStatement (Extensions.ofSources linked) s.1 s.2
            >>= fun root => pure (s.1, root)) :=
    Result.plain_bind (Declaration.ofStatement_plain _ s.1 s.2) fun _ => rfl
  apply Result.plain_bind (Result.plain_mapM hbound linked)
  intro bound
  have hchecked (s : LinkedSource × Declaration) :=
    Declaration.check_plain s.1 enforceOrder s.2
  apply Result.plain_bind (Result.plain_forM hchecked bound)
  intro _
  show Except.ok _ = Except.ok _
  rw [List.map_map, List.map_map]
  rfl

theorem ofSources_plain (enforceOrder : Bool) (sources : List Source) :
    ofSources enforceOrder (sources.map Source.plain)
      = .plain plain (ofSources enforceOrder sources) := by
  unfold ofSources
  apply Result.plain_bind (readHeaders_plain sources)
  intro pairs
  have hheaders : (pairs.map (Prod.map Header.plain (Tree.map Head.plain))).map (·.1)
      = (pairs.map (·.1)).map Header.plain := by
    rw [List.map_map, List.map_map]
    rfl
  have hroots : (pairs.map (Prod.map Header.plain (Tree.map Head.plain))).map (·.2)
      = (pairs.map (·.2)).map (Tree.map Head.plain) := by
    rw [List.map_map, List.map_map]
    rfl
  rw [hheaders, hroots]
  apply Result.plain_bind (Linkage.ofHeaders_plain (pairs.map (·.1)))
  intro linkage
  have hlinked : linkage.plain.sources.zip ((pairs.map (·.2)).map (Tree.map Head.plain))
      = (linkage.sources.zip (pairs.map (·.2))).map
        (Prod.map LinkedSource.plain (Tree.map Head.plain)) := List.zip_map
  rw [hlinked]
  exact Result.plain_bind (declare_plain enforceOrder _) fun _ => rfl

@[simp] theorem source?_plain (id : SourceId) :
    m.plain.source? id = (m.source? id).map DeclaredSource.plain := List.find?_map

@[simp] theorem family_plain (module : SourceId) :
    m.plain.family module = (m.family module).map DeclaredSource.plain := by
  unfold family
  rw [List.map_filterMap]
  congr 1
  funext id
  exact source?_plain m id

@[simp] theorem modules_plain : m.plain.modules = m.modules.map DeclaredSource.plain :=
  List.filter_map

end DeclaredModel

end YangSchema
