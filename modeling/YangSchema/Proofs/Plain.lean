import YangSchema.Proofs.Addresses
import YangSchema.Proofs.Outcome
import YangSchema.Proofs.Rows

/-!
# Leaving out locations

Statements remember where they were written, and so does what is made of them. The *plain* form of
data is what is left when all locations are replaced by one (`Location.nowhere`), and the labels of
texts with them. Every step of a build commutes with taking the plain form; here are the rules for
the combinations of which the steps consist, for trees, and for statements.

A result is plain if its value is, or the error that it is instead (`Result.plain`); the same holds
of a computation that keeps the types of typedefs, which have no locations (`Building.plain`).
-/

namespace YangSchema

/-- The location that stands for all others. -/
def Location.nowhere : Location := .synthetic ""

/-! ## Errors -/

/-- A fault without locations. -/
def LinkFault.plain : LinkFault → LinkFault
  | .registeredTwice _ _ => .registeredTwice .nowhere .nowhere
  | .importNotFound module _ => .importNotFound module .nowhere
  | .includeNotFound submodule _ => .includeNotFound submodule .nowhere
  | .foreignSubmodule submodule owner including _ =>
    .foreignSubmodule submodule owner including .nowhere
  | .unknownPrefix name reference _ => .unknownPrefix name reference .nowhere
  | f => f

/-- A fault without the label of the text. -/
def IdentityFault.plain : IdentityFault → IdentityFault
  | .notAModule _ found => .notAModule "" found
  | .unnamed _ keyword => .unnamed "" keyword
  | f => f

/-- An error without locations. -/
def Error.plain : Error → Error
  | .identity fault => .identity fault.plain
  | .statementSyntax failure => .statementSyntax ⟨.nowhere, failure.fault⟩
  | .linkage source fault => .linkage source fault.plain
  | .unknownStatement source keyword _ => .unknownStatement source keyword .nowhere
  | .grammar source keyword _ fault => .grammar source keyword .nowhere fault
  | .groupingCycle source _ cycle => .groupingCycle source .nowhere cycle
  | .unresolved source _ kind name => .unresolved source .nowhere kind name
  | .refineTarget source _ target => .refineTarget source .nowhere target
  | .augment source _ target fault => .augment source .nowhere target fault
  | .deviation source _ target fault => .deviation source .nowhere target fault
  | .typeCycle source _ cycle => .typeCycle source .nowhere cycle
  | .restriction source _ type fault => .restriction source .nowhere type fault
  | e => e

/-- The sorts of errors. -/
inductive ErrorKind where
  | format | dateFormat | syntaxError | linkage | unknownStatement | cardinality | groupingCycle
  | unresolvedReference | refineTarget | augmentTarget | deviation | typeCycle | restriction
  | unresolvableDependency | effectiveModel | io
  deriving Repr, DecidableEq

/-- The sort of an error. -/
def Error.kind : Error → ErrorKind
  | .identity _ => .format
  | .date _ => .dateFormat
  | .statementSyntax _ => .syntaxError
  | .linkage _ _ => .linkage
  | .unknownStatement _ _ _ => .unknownStatement
  | .grammar _ _ _ _ => .cardinality
  | .groupingCycle _ _ _ => .groupingCycle
  | .unresolved _ _ _ _ => .unresolvedReference
  | .refineTarget _ _ _ => .refineTarget
  | .augment _ _ _ _ => .augmentTarget
  | .deviation _ _ _ _ => .deviation
  | .typeCycle _ _ _ => .typeCycle
  | .restriction _ _ _ _ => .restriction
  | .noProgress _ => .unresolvableDependency
  | .mutualAugments _ => .effectiveModel
  | .unreadableText => .io

/-- Where something is wrong does not tell what is. -/
theorem Error.kind_plain (e : Error) : e.plain.kind = e.kind := by cases e <;> rfl

/-! ## Results -/

namespace Result

variable {α β α' β' : Type} {k : α → α'} {h : β → β'}

/-- The plain form of a result, given that of values. -/
def plain (h : β → β') : Result β → Result β'
  | .ok b => .ok (h b)
  | .error e => .error e.plain

/-- The plain form of a result whose values have no locations. -/
abbrev plainError (x : Result α) : Result α := plain (fun a => a) x

theorem plain_bind {x : Result α} {x' : Result α'} {f : α → Result β} {f' : α' → Result β'}
    (hx : x' = plain k x) (hf : ∀ a, f' (k a) = plain h (f a)) :
    (x' >>= f') = plain h (x >>= f) := by
  rw [hx]
  cases x with
  | error e => rfl
  | ok a => exact hf a

theorem plain_ite {c : Prop} [Decidable c] {x y : Result β} {x' y' : Result β'}
    (hx : x' = plain h x) (hy : y' = plain h y) :
    (if c then x' else y') = plain h (if c then x else y) := by
  split
  · exact hx
  · exact hy

theorem plain_mapM {f : α → Result β} {f' : α' → Result β'} (hf : ∀ a, f' (k a) = plain h (f a))
    (as : List α) : (as.map k).mapM f' = plain (List.map h) (as.mapM f) := by
  induction as with
  | nil => rfl
  | cons a as ih =>
    rw [List.map_cons, List.mapM_cons, List.mapM_cons]
    apply plain_bind (hf a)
    intro b
    exact plain_bind ih fun _ => rfl

theorem plain_foldlM {f : β → α → Result β} {f' : β' → α' → Result β'}
    (hf : ∀ b a, f' (h b) (k a) = plain h (f b a)) (as : List α) (b : β) :
    (as.map k).foldlM f' (h b) = plain h (as.foldlM f b) := by
  induction as generalizing b with
  | nil => rfl
  | cons a as ih =>
    rw [List.map_cons, List.foldlM_cons, List.foldlM_cons]
    exact plain_bind (hf b a) ih

theorem plain_forM {f : α → Result Unit} {f' : α' → Result Unit}
    (hf : ∀ a, f' (k a) = plainError (f a)) (as : List α) :
    (as.map k).forM f' = plainError (as.forM f) := by
  induction as with
  | nil => rfl
  | cons a as ih => exact plain_bind (hf a) fun _ => ih

/-- The case of a list without locations. -/
theorem plainError_forM {f f' : α → Result Unit} (hf : ∀ a, f' a = plainError (f a)) (as : List α) :
    as.forM f' = plainError (as.forM f) := by
  have hforM := plain_forM hf as
  rwa [List.map_id'] at hforM

/-- The case of a list without locations. -/
theorem plainError_mapM {f f' : α → Result β} (hf : ∀ a, f' a = plainError (f a)) (as : List α) :
    as.mapM f' = plainError (as.mapM f) := by
  have hmapM := plain_mapM hf as
  simp only [List.map_id_fun'] at hmapM
  exact hmapM

end Result

/-! ## Computations with a table of types -/

namespace Building

variable {α β α' β' : Type} {k : α → α'} {h : β → β'}

/-- The plain form of a computation, given that of values. -/
def plain (h : β → β') (x : Building β) : Building β' :=
  fun table => Result.plain (Prod.map h id) (x table)

/-- The plain form of a computation whose values have no locations. -/
abbrev plainError (x : Building α) : Building α := plain (fun a => a) x

theorem plain_pure (b : β) : (pure (h b) : Building β') = plain h (pure b) := rfl

theorem plain_lift {x : Result β} {x' : Result β'} (hx : x' = Result.plain h x) :
    (liftM x' : Building β') = plain h (liftM x : Building β) := by
  rw [hx]
  cases x <;> rfl

theorem plain_bind {x : Building α} {x' : Building α'} {f : α → Building β}
    {f' : α' → Building β'} (hx : x' = plain k x) (hf : ∀ a, f' (k a) = plain h (f a)) :
    (x' >>= f') = plain h (x >>= f) := by
  funext table
  show (x' table >>= fun r => f' r.1 r.2) = Result.plain _ (x table >>= fun r => f r.1 r.2)
  apply Result.plain_bind (congrFun hx table)
  rintro ⟨a, table⟩
  exact congrFun (hf a) table

theorem plain_mapM {f : α → Building β} {f' : α' → Building β'}
    (hf : ∀ a, f' (k a) = plain h (f a)) (as : List α) :
    (as.map k).mapM f' = plain (List.map h) (as.mapM f) := by
  induction as with
  | nil => rfl
  | cons a as ih =>
    rw [List.map_cons, List.mapM_cons, List.mapM_cons]
    apply plain_bind (hf a)
    intro b
    exact plain_bind ih fun _ => rfl

end Building

/-! ## Trees -/

namespace Tree

variable {α β γ : Type}

@[simp] theorem label_map (f : α → β) (t : Tree α) : (t.map f).label = f t.label := by
  cases t
  rfl

@[simp] theorem children_map (f : α → β) (t : Tree α) :
    (t.map f).children = t.children.map (map f) := by
  cases t
  exact mapForest_eq f _

mutual

theorem subtrees_map (f : α → β) : ∀ t : Tree α, (t.map f).subtrees = t.subtrees.map (map f)
  | ⟨a, cs⟩ => by
    rw [map, subtrees, subtrees, List.map_cons, forestSubtrees_mapForest f cs]
    rfl

theorem forestSubtrees_mapForest (f : α → β) : ∀ ts : List (Tree α),
    forestSubtrees (mapForest f ts) = (forestSubtrees ts).map (map f)
  | [] => rfl
  | t :: ts => by
    rw [mapForest, forestSubtrees, forestSubtrees, List.map_append, subtrees_map f t,
      forestSubtrees_mapForest f ts]

end

theorem forestSubtrees_map (f : α → β) (ts : List (Tree α)) :
    forestSubtrees (ts.map (map f)) = (forestSubtrees ts).map (map f) := by
  rw [← mapForest_eq, forestSubtrees_mapForest]

end Tree

/-! ## Statements -/

/-- What a statement says, without its location. -/
def Head.plain (h : Head) : Head := { h with location := .nowhere }

namespace Statement

variable (s : Statement) (name : String)

@[simp] theorem keyword_plain : keyword (s.map Head.plain) = s.keyword := by
  rw [keyword, Tree.label_map]
  rfl

@[simp] theorem argument_plain : argument (s.map Head.plain) = s.argument := by
  rw [argument, Tree.label_map]
  rfl

@[simp] theorem location_plain : location (s.map Head.plain) = .nowhere := by
  rw [location, Tree.label_map]
  rfl

@[simp] theorem isNamed_plain : isNamed name (s.map Head.plain) = s.isNamed name := by
  rw [isNamed, isNamed, keyword_plain]

@[simp] theorem childrenNamed_plain :
    childrenNamed (s.map Head.plain) name = (s.childrenNamed name).map (Tree.map Head.plain) := by
  rw [childrenNamed, childrenNamed, Tree.children_map, List.filter_map]
  simp only [Function.comp_def, isNamed_plain]

@[simp] theorem firstChild?_plain :
    firstChild? (s.map Head.plain) name = (s.firstChild? name).map (Tree.map Head.plain) := by
  rw [firstChild?, firstChild?, Tree.children_map, List.find?_map]
  simp only [Function.comp_def, isNamed_plain]

/-- The argument of the first substatement of a name, if there is one. -/
theorem bind_argument_firstChild?_plain : (firstChild? (s.map Head.plain) name).bind argument
    = (s.firstChild? name).bind argument := by
  rw [firstChild?_plain, Option.bind_map]
  simp only [Function.comp_def, argument_plain]

@[simp] theorem declaredVersion?_plain :
    declaredVersion? (s.map Head.plain) = s.declaredVersion? := by
  unfold declaredVersion?
  rw [firstChild?_plain]
  cases s.firstChild? "yang-version" with
  | none => rfl
  | some v =>
    show (argument (v.map Head.plain)).bind Version.ofString? = _
    rw [argument_plain]

theorem filterMap_argument_plain (ss : List Statement) :
    (ss.map (Tree.map Head.plain)).filterMap argument = ss.filterMap argument := by
  rw [List.filterMap_map]
  simp only [Function.comp_def, argument_plain]

end Statement

end YangSchema
