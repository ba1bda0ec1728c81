import YangSchema.Proofs.Pending
import YangSchema.Proofs.TypeSteps

/-!
# A resolver with a stack

`EffectiveType.ofDefinition` is handed the typedefs that are being resolved. A `TypeResolver` keeps
them in its state, beside the table of those that have been resolved: it pushes a typedef before it
resolves the `type` statement of the typedef, and pops it behind that, whether it has succeeded or
failed. `TypeResolver.simulates_resolve` says that this comes to the same, that the depth is never
used up, and that every call leaves the stack as it was.

An action *simulates* a computation if it succeeds and fails with it, from every state that an
invariant relates to the table (`Simulates`). Resolving a `type` statement simulates another way of
resolving it as far as the typedefs do that the statement names (`Simulates.ofDeclaration`).
-/

namespace YangSchema

/-- What a resolver of types keeps: the typedefs that have been resolved, and those that are being
resolved, from the outermost to the innermost one. -/
structure TypeResolver where
  resolved : TypeTable
  inProgress : List Definition.Pending

namespace TypeResolver

open EffectiveType (InType Names TypeRefers)
open Expansion (entry)

/-- A computation of a resolver. What it has changed stays also where it fails. -/
abbrev Action := ExceptT Error (StateM TypeResolver)

variable {α β : Type}

/-- What comes of an action, and the resolver that it leaves. -/
def Action.outcome (x : Action α) (r : TypeResolver) : Result α × TypeResolver :=
  StateT.run (ExceptT.run x) r

/-! ## Resolving -/

/-- The type that a `type` statement names, and whether it is a typedef. -/
def named (model : DeclaredModel) (typedef : Definition → Action EffectiveType)
    (source : DeclaredSource) (scope : Scope) (reference : Declared) :
    Action (EffectiveType × Bool) :=
  let name := reference.argument.getD ""
  match Builtin.ofName? name with
  | some base => return ({ EffectiveType.ofBuiltin base with name := name }, false)
  | none => do
    let d ← Definition.resolve model source .typedef reference scope
    return ({ ← typedef d with name := name }, true)

mutual

/-- Resolves a `type` statement; `typedef` resolves typedefs. -/
def ofDeclaration (model : DeclaredModel) (typedef : Definition → Action EffectiveType)
    (source : DeclaredSource) (scope : Scope) : Declaration → Action EffectiveType
  | ⟨label, children⟩ => do
    let (t, derived) ← named model typedef source scope label
    let u : TypeUse := ⟨source.id, ⟨label, children⟩, derived⟩
    let t ← u.restrictValues t
    u.checkMembers t
    let members ← membersOf model typedef source scope children
    u.restrictReferences (t.addMembers members)

/-- Resolves the `type` statements of a list. -/
def membersOf (model : DeclaredModel) (typedef : Definition → Action EffectiveType)
    (source : DeclaredSource) (scope : Scope) : List Declaration → Action (List EffectiveType)
  | [] => return []
  | d :: ds => do
    if Declaration.is d .type then
      let t ← ofDeclaration model typedef source scope d
      return t :: (← membersOf model typedef source scope ds)
    else membersOf model typedef source scope ds

end

/-- The resolver with a typedef pushed. -/
def push (r : TypeResolver) (g : Definition) : TypeResolver :=
  { r with inProgress := r.inProgress ++ [entry g] }

/-- The resolver with the typedef popped that was pushed last. -/
def pop (r : TypeResolver) : TypeResolver := { r with inProgress := r.inProgress.dropLast }

/-- Does something while a typedef is pushed. If it fails, this is passed on behind the pop. -/
def during (g : Definition) (x : Action α) : Action α := do
  modify (push · g)
  let result ← ExceptT.lift x.run
  modify pop
  result

/-- Resolves a typedef. At most `depth` typedefs are entered one in another; `deeper` says what is
done beyond. -/
def typedef (model : DeclaredModel) (deeper : Definition → Action EffectiveType) :
    (depth : Nat) → Definition → Action EffectiveType
  | 0, g => deeper g
  | depth + 1, g => do
    let r ← get
    match r.resolved.lookup g.key with
    | some t => return t
    | none =>
      if g.isPending r.inProgress then throw (EffectiveType.cycleError r.inProgress g)
      let statement ← EffectiveType.typeStatement g
      let base ← during g
        (ofDeclaration model (typedef model deeper depth) g.source g.inner statement)
      let t := EffectiveType.derive g base
      modify fun r => { r with resolved := (g.key, t) :: r.resolved }
      return t

/-! ## Outcomes -/

section Outcomes

variable {x : Action α} {f : α → Action β} {a : α} {e : Error} {r s : TypeResolver}

theorem outcome_bind : (x >>= f).outcome r = match x.outcome r with
    | (.ok a, s) => (f a).outcome s
    | (.error e, s) => (.error e, s) := by
  show StateT.run (ExceptT.run (x >>= f)) r = _
  rw [ExceptT.run_bind, StateT.run_bind]
  unfold Action.outcome
  generalize StateT.run (ExceptT.run x) r = p
  obtain ⟨_ | _, _⟩ := p <;> rfl

theorem outcome_bind_of_ok (h : x.outcome r = (.ok a, s)) :
    (x >>= f).outcome r = (f a).outcome s := by
  rw [outcome_bind, h]

theorem outcome_bind_of_error (h : x.outcome r = (.error e, s)) :
    (x >>= f).outcome r = (.error e, s) := by
  rw [outcome_bind, h]

theorem outcome_get_bind {f : TypeResolver → Action β} :
    (get >>= f).outcome r = (f r).outcome r := rfl

theorem outcome_lift_bind : (liftM (.ok a : Result α) >>= f).outcome r = (f a).outcome r := rfl

/-- What is done while a typedef is pushed is done from there, and the typedef is popped. -/
theorem outcome_during {g : Definition} :
    (during g x).outcome r = ((x.outcome (r.push g)).1, (x.outcome (r.push g)).2.pop) := rfl

end Outcomes

/-! ## Simulation -/

/-- From every state that an invariant `I` relates to the table, an action succeeds with a
computation and keeps the invariant; and it fails with it if the error is among `E`, in a state that
satisfies `J`. -/
structure Simulates (I : TypeTable → TypeResolver → Prop) (E : Error → Prop)
    (J : TypeResolver → Prop) (x : Building α) (y : Action α) : Prop where
  follows : ∀ t r a u, I t r → x t = .ok (a, u) → ∃ s, y.outcome r = (.ok a, s) ∧ I u s
  fails : ∀ t r e, I t r → E e → x t = .error e → ∃ s, y.outcome r = (.error e, s) ∧ J s

namespace Simulates

variable {I : TypeTable → TypeResolver → Prop} {E : Error → Prop} {J : TypeResolver → Prop}

theorem pure (a : α) : Simulates I E J (Pure.pure a) (Pure.pure a) where
  follows t r b u hI h := by
    cases h
    exact ⟨r, rfl, hI⟩
  fails _ _ _ _ _ h := by cases h

theorem lift (hJ : ∀ t r, I t r → J r) (x : Result α) : Simulates I E J (liftM x) (liftM x) where
  follows t r a u hI h := by
    obtain ⟨rfl, rfl⟩ := Building.lift_eq_ok.1 h
    exact ⟨r, rfl, hI⟩
  fails t r e hI _ h := by
    rw [Building.lift_eq_error.1 h]
    exact ⟨r, rfl, hJ t r hI⟩

theorem bind {x : Building α} {y : Action α} {f : α → Building β} {g : α → Action β}
    (hx : Simulates I E J x y) (hf : ∀ a, Simulates I E J (f a) (g a)) :
    Simulates I E J (x >>= f) (y >>= g) where
  follows t r b v hI h := by
    obtain ⟨a, u, hxt, hfu⟩ := Building.bind_eq_ok.1 h
    obtain ⟨s, hy, hI'⟩ := hx.follows t r a u hI hxt
    rw [outcome_bind_of_ok hy]
    exact (hf a).follows u s b v hI' hfu
  fails t r e hI hE h := by
    rcases Building.bind_eq_error.1 h with h | ⟨a, u, hxt, h⟩
    · obtain ⟨s, hy, hJ⟩ := hx.fails t r e hI hE h
      exact ⟨s, outcome_bind_of_error hy, hJ⟩
    · obtain ⟨s, hy, hI'⟩ := hx.follows t r a u hI hxt
      rw [outcome_bind_of_ok hy]
      exact (hf a).fails u s e hI' hE h

/-- Behind a step that can only fail, only what it gives matters. -/
theorem bind_lift {f : α → Building β} {g : α → Action β} (hJ : ∀ t r, I t r → J r)
    (x : Result α) (hf : ∀ a, x = .ok a → Simulates I E J (f a) (g a)) :
    Simulates I E J (liftM x >>= f) (liftM x >>= g) := by
  cases x with
  | ok a => exact hf a rfl
  | error e =>
    constructor
    · intro t r b u _ h
      cases h
    · intro t r e' hI _ h
      cases h
      exact ⟨r, rfl, hJ t r hI⟩

theorem mapM {f : α → Building β} {g : α → Action β} {as : List α}
    (h : ∀ a ∈ as, Simulates I E J (f a) (g a)) : Simulates I E J (as.mapM f) (as.mapM g) := by
  induction as with
  | nil => exact .pure []
  | cons a as ih =>
    rw [List.mapM_cons, List.mapM_cons]
    refine (h a List.mem_cons_self).bind fun b => ?_
    refine (ih fun c hc => h c (List.mem_cons_of_mem a hc)).bind fun bs => ?_
    exact .pure (b :: bs)

/-- Where all errors matter, the action has the result of the computation. -/
theorem result_eq {x : Building α} {y : Action α} {t : TypeTable} {r : TypeResolver}
    (h : Simulates I (fun _ => True) J x y) (hI : I t r) :
    (y.outcome r).1 = (x t).map (·.1) := by
  cases hx : x t with
  | ok p =>
    obtain ⟨s, hs, _⟩ := h.follows t r p.1 p.2 hI hx
    rw [hs]
    rfl
  | error e =>
    obtain ⟨s, hs, _⟩ := h.fails t r e hI trivial hx
    rw [hs]
    rfl

end Simulates

section Statements

variable {model : DeclaredModel} {defined : Definition → Building EffectiveType}
  {typedef : Definition → Action EffectiveType} {source : DeclaredSource} {scope : Scope}
  {I : TypeTable → TypeResolver → Prop} {E : Error → Prop} {J : TypeResolver → Prop}

theorem membersOf_eq (ds : List Declaration) : membersOf model typedef source scope ds
    = (ds.filter (Declaration.is · .type)).mapM (ofDeclaration model typedef source scope) := by
  induction ds with
  | nil => rw [membersOf]; rfl
  | cons d ds ih =>
    rw [membersOf, ih]
    by_cases hd : Declaration.is d .type = true
    · rw [if_pos hd, List.filter_cons_of_pos (p := (Declaration.is · .type)) hd, List.mapM_cons]
    · rw [if_neg hd, List.filter_cons_of_neg (p := (Declaration.is · .type)) hd]

theorem ofDeclaration_eq (d : Declaration) :
    ofDeclaration model typedef source scope d = (do
      let named ← named model typedef source scope d.label
      let use : TypeUse := ⟨source.id, d, named.2⟩
      let type ← (liftM (use.restrictValues named.1) : Action EffectiveType)
      (liftM (use.checkMembers type) : Action Unit)
      let members ← (d.childrenOfKind .type).mapM (ofDeclaration model typedef source scope)
      liftM (use.restrictReferences (type.addMembers members))) := by
  obtain ⟨label, children⟩ := d
  rw [ofDeclaration, membersOf_eq]
  rfl

theorem Simulates.named {d : Declaration} (hJ : ∀ t r, I t r → J r)
    (htypedef : ∀ g, Names model source scope d g → Simulates I E J (defined g) (typedef g)) :
    Simulates I E J (EffectiveType.named model defined source scope d.label)
      (TypeResolver.named model typedef source scope d.label) := by
  unfold EffectiveType.named TypeResolver.named
  dsimp only
  cases hbase : Builtin.ofName? (d.label.argument.getD "") with
  | some base => exact .pure _
  | none =>
    refine Simulates.bind_lift hJ _ fun g hg => ?_
    exact (htypedef g ⟨hbase, hg⟩).bind fun type => .pure _

/-- Resolving a `type` statement simulates another way of resolving it if the typedefs do that the
statement names. -/
theorem Simulates.ofDeclaration (hJ : ∀ t r, I t r → J r) (d : Declaration)
    (htypedef : ∀ x g, InType d x → Names model source scope x g →
      Simulates I E J (defined g) (typedef g)) :
    Simulates I E J (EffectiveType.ofDeclaration model defined source scope d)
      (TypeResolver.ofDeclaration model typedef source scope d) := by
  induction d using Tree.induct with
  | step d ih =>
    rw [EffectiveType.ofDeclaration_eq, ofDeclaration_eq]
    refine (Simulates.named hJ fun g hg => htypedef d g (.here d) hg).bind fun named => ?_
    refine (Simulates.lift hJ _).bind fun type => (Simulates.lift hJ _).bind fun _ => ?_
    refine (Simulates.mapM fun c hc => ?_).bind fun members => .lift hJ _
    exact ih c (List.mem_filter.1 hc).1 fun x g hx hg => htypedef x g (.member hc hx) hg

end Statements

/-! ## Typedefs -/

section Typedefs

variable {model : DeclaredModel} {deeper : Definition → Action EffectiveType} {depth : Nat}
  {g : Definition} {x : Declaration} {type base : EffectiveType} {e : Error} {r s : TypeResolver}

theorem typedef_of_lookup (h : r.resolved.lookup g.key = some type) :
    (typedef model deeper (depth + 1) g).outcome r = (.ok type, r) := by
  rw [typedef, outcome_get_bind, h]
  rfl

theorem typedef_of_pending (h : r.resolved.lookup g.key = none)
    (hp : g.isPending r.inProgress = true) :
    (typedef model deeper (depth + 1) g).outcome r
      = (.error (EffectiveType.cycleError r.inProgress g), r) := by
  rw [typedef, outcome_get_bind, h]
  simp only [if_pos hp]
  rfl

/-- A typedef that is neither known nor being resolved is resolved from its `type` statement. -/
theorem typedef_succ (h : r.resolved.lookup g.key = none)
    (hp : ¬ g.isPending r.inProgress = true) :
    (typedef model deeper (depth + 1) g).outcome r = (do
      let statement ← (liftM (EffectiveType.typeStatement g) : Action Declaration)
      let base ← during g
        (ofDeclaration model (typedef model deeper depth) g.source g.inner statement)
      modify fun r => { r with resolved := (g.key, EffectiveType.derive g base) :: r.resolved }
      return EffectiveType.derive g base : Action EffectiveType).outcome r := by
  rw [typedef, outcome_get_bind, h]
  simp only [if_neg hp]

theorem typedef_of_no_statement (h : r.resolved.lookup g.key = none)
    (hp : ¬ g.isPending r.inProgress = true) (hx : EffectiveType.typeStatement g = .error e) :
    (typedef model deeper (depth + 1) g).outcome r = (.error e, r) := by
  rw [typedef_succ h hp, hx]
  rfl

theorem typedef_of_ok (h : r.resolved.lookup g.key = none)
    (hp : ¬ g.isPending r.inProgress = true) (hx : EffectiveType.typeStatement g = .ok x)
    (hbase : (ofDeclaration model (typedef model deeper depth) g.source g.inner x).outcome
      (r.push g) = (.ok base, s)) :
    (typedef model deeper (depth + 1) g).outcome r
      = (.ok (EffectiveType.derive g base),
        { s.pop with resolved := (g.key, EffectiveType.derive g base) :: s.resolved }) := by
  rw [typedef_succ h hp, hx, outcome_lift_bind]
  have hduring : (during g (ofDeclaration model (typedef model deeper depth) g.source g.inner
      x)).outcome r = (.ok base, s.pop) := by
    rw [outcome_during, hbase]
  rw [outcome_bind_of_ok hduring]
  rfl

theorem typedef_of_error (h : r.resolved.lookup g.key = none)
    (hp : ¬ g.isPending r.inProgress = true) (hx : EffectiveType.typeStatement g = .ok x)
    (hbase : (ofDeclaration model (typedef model deeper depth) g.source g.inner x).outcome
      (r.push g) = (.error e, s)) :
    (typedef model deeper (depth + 1) g).outcome r = (.error e, s.pop) := by
  rw [typedef_succ h hp, hx, outcome_lift_bind]
  refine outcome_bind_of_error ?_
  rw [outcome_during, hbase]

/-! ## Keeping up -/

variable {scope : Scope} {source : DeclaredSource} {depth' : Nat}
  {pending : List Definition.Pending} {P : Definition → Prop}
  {I : List Definition.Pending → TypeTable → TypeResolver → Prop}

/-- The typedefs that are being resolved are as given. -/
def Restores (pending : List Definition.Pending) (r : TypeResolver) : Prop :=
  r.inProgress = pending

/-- A relation of resolvers to tables and typedefs that are being resolved with which a resolver
keeps up, as far as the typedefs `P` go: it may know less than the table, but finds out as much. -/
structure Tracks (model : DeclaredModel) (deeper : Definition → Action EffectiveType)
    (P : Definition → Prop) (I : List Definition.Pending → TypeTable → TypeResolver → Prop) :
    Prop where
  valid {g : Definition} : P g → g.Valid model .typedef
  refers {g h : Definition} : P g → TypeRefers model g h → P h
  stack {p : List Definition.Pending} {t : TypeTable} {r : TypeResolver} : I p t r → Restores p r
  unknown {p : List Definition.Pending} {t : TypeTable} {r : TypeResolver}
    {key : SourceId × Nat} : I p t r → t.lookup key = none → r.resolved.lookup key = none
  known {p : List Definition.Pending} {t : TypeTable} {r : TypeResolver} {g : Definition}
    {type : EffectiveType} {depth : Nat} : I p t r → P g → Definition.Stacked model .typedef p →
    model.countOfKind .typedef < depth + p.length → t.lookup g.key = some type →
    ∃ s, (typedef model deeper depth g).outcome r = (.ok type, s) ∧ I p t s
  entered {p : List Definition.Pending} {t : TypeTable} {r : TypeResolver} {g : Definition} :
    I p t r → P g → t.lookup g.key = none → I (p ++ [entry g]) t (r.push g)
  left {p : List Definition.Pending} {t v : TypeTable} {r s : TypeResolver} {g : Definition}
    {type : EffectiveType} {n : Nat} : I p t r → P g → I (p ++ [entry g]) v s →
    EffectiveType.ofDefinition model n p g t = .ok (type, (g.key, type) :: v) →
    I p ((g.key, type) :: v) { s.pop with resolved := (g.key, type) :: s.resolved }

namespace Tracks

/-- A resolver keeps up at a typedef if it does at the `type` statement of the typedef. -/
theorem simulates_of_statement (h : Tracks model deeper P I) (hg : P g)
    (hp : Definition.Stacked model .typedef pending)
    (hdepth : model.countOfKind .typedef < (depth + 1) + pending.length)
    (hfull : depth' = 0 → g.isPending pending = true)
    (hstatement : ∀ n x, depth' = n + 1 → ¬ g.isPending pending = true →
      EffectiveType.typeStatement g = .ok x →
      Simulates (I (pending ++ [entry g])) (fun _ => True) (Restores (pending ++ [entry g]))
        (EffectiveType.ofDeclaration model
          (EffectiveType.ofDefinition model n (pending ++ [entry g])) g.source g.inner x)
        (ofDeclaration model (typedef model deeper depth) g.source g.inner x)) :
    Simulates (I pending) (fun _ => True) (Restores pending)
      (EffectiveType.ofDefinition model depth' pending g) (typedef model deeper (depth + 1) g) where
  follows := by
    rintro t r type u hI hok
    rcases EffectiveType.ofDefinition_eq_ok hok with ⟨hlookup, rfl⟩
      | ⟨hnone, hnot, n, x, base, v, hn, hx, hbase, rfl, rfl⟩
    · exact h.known hI hg hp hdepth hlookup
    · have hnot : ¬ g.isPending r.inProgress = true := by
        rw [h.stack hI]
        exact fun hpending => hnot (Definition.isPending_iff.1 hpending)
      obtain ⟨s, hs, hI'⟩ := (hstatement n x hn (h.stack hI ▸ hnot) hx).follows t _ base v
        (h.entered hI hg hnone) hbase
      exact ⟨_, typedef_of_ok (h.unknown hI hnone) hnot hx hs, h.left hI hg hI' hok⟩
  fails := by
    rintro t r e hI _ herror
    obtain ⟨hnone, hcases⟩ := EffectiveType.ofDefinition_eq_error herror
    have hunknown := h.unknown hI hnone
    have hstack := h.stack hI
    unfold Restores at hstack
    rcases hcases with ⟨hpending, rfl⟩ | ⟨hnot, n, hn, hcases⟩
    · rw [← hstack]
      exact ⟨r, typedef_of_pending hunknown (hstack ▸ hpending.elim id hfull), rfl⟩
    · rcases hcases with hx | ⟨x, hx, hbase⟩
      · exact ⟨r, typedef_of_no_statement hunknown (hstack ▸ hnot) hx, hstack⟩
      · obtain ⟨s, hs, hrestores⟩ := (hstatement n x hn hnot hx).fails t _ e
          (h.entered hI hg hnone) trivial hbase
        refine ⟨s.pop, typedef_of_error hunknown (hstack ▸ hnot) hx hs, ?_⟩
        unfold Restores pop at *
        rw [hrestores, List.dropLast_concat]

/-- A resolver keeps up at all typedefs, if the depth allows to enter one more than there are. -/
theorem simulates_typedef (h : Tracks model deeper P I) (hg : P g)
    (hp : Definition.Stacked model .typedef pending)
    (hdepth : model.countOfKind .typedef < depth + pending.length)
    (hdepth' : model.countOfKind .typedef ≤ depth' + pending.length) :
    Simulates (I pending) (fun _ => True) (Restores pending)
      (EffectiveType.ofDefinition model depth' pending g) (typedef model deeper depth g) := by
  have hlength := hp.length_le
  induction depth' generalizing depth pending g with
  | zero =>
    obtain ⟨n, rfl⟩ : ∃ n, depth = n + 1 := ⟨depth - 1, by omega⟩
    refine h.simulates_of_statement hg hp hdepth ?_ fun n x hn => by cases hn
    exact fun _ => hp.isPending_of_full (h.valid hg) (by omega)
  | succ depth' ih =>
    obtain ⟨n, rfl⟩ : ∃ n, depth = n + 1 := ⟨depth - 1, by omega⟩
    refine h.simulates_of_statement hg hp hdepth (fun hzero => by cases hzero) ?_
    rintro m x hm hnot hx
    cases hm
    have hpush := hp.push (h.valid hg) hnot
    have hlen : (pending ++ [entry g]).length = pending.length + 1 := List.length_append
    refine Simulates.ofDeclaration (fun _ _ hI => h.stack hI) x fun c g' hc hnames => ?_
    exact ih (h.refers hg ⟨x, c, hx, hc, hnames⟩) hpush (by omega) (by omega) hpush.length_le

/-- A resolver keeps up at a `type` statement that names typedefs among those. -/
theorem simulates_ofDeclaration (h : Tracks model deeper P I)
    (hp : Definition.Stacked model .typedef pending)
    (hdepth : model.countOfKind .typedef < depth + pending.length)
    (hdepth' : model.countOfKind .typedef ≤ depth' + pending.length) {d : Declaration}
    (hnames : ∀ c g, InType d c → Names model source scope c g → P g) :
    Simulates (I pending) (fun _ => True) (Restores pending)
      (EffectiveType.ofDeclaration model (EffectiveType.ofDefinition model depth' pending) source
        scope d)
      (ofDeclaration model (typedef model deeper depth) source scope d) :=
  Simulates.ofDeclaration (fun _ _ hI => h.stack hI) d fun c g hc hg =>
    h.simulates_typedef (hnames c g hc hg) hp hdepth hdepth'

end Tracks

/-! ## The stack as an argument -/

/-- A resolver has the table and the typedefs that are being resolved. -/
def Holds (pending : List Definition.Pending) (t : TypeTable) (r : TypeResolver) : Prop :=
  r = ⟨t, pending⟩

theorem tracks_holds (deeper : Definition → Action EffectiveType) :
    Tracks model deeper (Definition.Valid model .typedef) Holds where
  valid := id
  refers := fun hg href => href.valid hg
  stack := by rintro _ _ _ rfl; rfl
  unknown := by rintro _ _ _ _ rfl hnone; exact hnone
  known := by
    rintro p t _ g type depth rfl hg hp hdepth hlookup
    obtain ⟨n, rfl⟩ : ∃ n, depth = n + 1 := ⟨depth - 1, by have := hp.length_le; omega⟩
    exact ⟨_, typedef_of_lookup hlookup, rfl⟩
  entered := by rintro _ _ _ _ rfl _ _; rfl
  left := by
    rintro _ _ _ _ _ _ _ _ rfl _ rfl _
    unfold Holds pop
    rw [List.dropLast_concat]

/-- With the stack in its state a resolver does what is done with the stack as an argument, whatever
it does when the depth is used up; it leaves the same table where it succeeds, and the same stack in
any case. -/
theorem simulates_resolve (deeper : Definition → Action EffectiveType)
    (hp : Definition.Stacked model .typedef pending)
    (hdepth : model.countOfKind .typedef < depth + pending.length)
    (hdepth' : model.countOfKind .typedef ≤ depth' + pending.length) {d : Declaration}
    (hnames : ∀ c g, InType d c → Names model source scope c g → g.Valid model .typedef) :
    Simulates (Holds pending) (fun _ => True) (Restores pending)
      (EffectiveType.ofDeclaration model (EffectiveType.ofDefinition model depth' pending) source
        scope d)
      (ofDeclaration model (typedef model deeper depth) source scope d) :=
  (tracks_holds deeper).simulates_ofDeclaration hp hdepth hdepth' hnames

end Typedefs

end TypeResolver

end YangSchema
