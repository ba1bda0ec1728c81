import YangSchema.Proofs.Hygiene
import YangSchema.Proofs.Pending
import YangSchema.Proofs.TypeSteps

/-!
# Tables of types without circles

`TypedefOf e g`: in the course of instantiating a module, the typedef `g` is one to which a `type`
statement refers. The table of resolved typedefs grows by one such typedef after the other, each of
which refers only to typedefs that the table knows already (`Grounded`). So no references lead from
a typedef that is known back to it (`Grounded.key_ne_of_transGen`).

The table tells typedefs apart by their statements, though what one refers to depends on the module
in which it is seen. All this is therefore said for the case that no statement is seen in two
modules (`SeenOnce`).
-/

namespace YangSchema

open Relation
open Building (Keeps)
open EffectiveType (InType Names TypeRefers)

namespace Expansion

variable {order : Bool} {sources : List Source} {e : Expansion} {s : DeclaredSource}
  {scope : Scope} {d x c : Declaration} {g h : Definition} {t u : TypeTable} {type : EffectiveType}

/-! ## Typedefs to which one refers -/

/-- A typedef to which a `type` statement refers that is processed while a module is
instantiated. -/
def TypedefOf (e : Expansion) (g : Definition) : Prop :=
  ∃ s scope d, Processed e s scope d ∧ d.is .type = true ∧ Names e.model s scope d g

/-- No typedef is seen in two modules while a module is instantiated. -/
def SeenOnce (e : Expansion) : Prop :=
  ∀ g h, TypedefOf e g → TypedefOf e h → g.key = h.key → g.scope.module = h.scope.module

/-- Member types are processed with the statement in which they stand. -/
theorem Processed.inType (hd : Processed e s scope d) (htype : d.is .type = true)
    (hx : InType d x) : Processed e s scope x ∧ x.is .type = true := by
  induction hx with
  | here => exact ⟨hd, htype⟩
  | member hc _ ih =>
    obtain ⟨hmem, hctype⟩ := List.mem_filter.1 hc
    exact ih (.member hd htype hmem hctype) hctype

theorem is_of_typeStatement (hx : EffectiveType.typeStatement g = .ok x) : x.is .type = true := by
  unfold EffectiveType.typeStatement at hx
  split at hx
  · rename_i y hy
    cases hx
    exact List.find?_some (p := (Declaration.is · .type)) hy
  · cases hx

namespace TypedefOf

theorem of_inType (hd : Processed e s scope d) (htype : d.is .type = true) (hx : InType d x)
    (hnames : Names e.model s scope x g) : TypedefOf e g := by
  obtain ⟨hprocessed, hxtype⟩ := hd.inType htype hx
  exact ⟨s, scope, x, hprocessed, hxtype, hnames⟩

/-- The `type` statement of the typedef is processed, too. -/
theorem processed (hg : TypedefOf e g) (hx : EffectiveType.typeStatement g = .ok x) :
    Processed e g.source g.inner x := by
  obtain ⟨s, scope, d, hd, htype, _, hresolve⟩ := hg
  exact .typedef hd htype hresolve hx

/-- And so do those to which it refers. -/
theorem refers (hg : TypedefOf e g) (href : TypeRefers e.model g h) : TypedefOf e h := by
  obtain ⟨x, c, hx, hc, hnames⟩ := href
  exact of_inType (hg.processed hx) (is_of_typeStatement hx) hc hnames

/-- It is seen in the scope of its own place. -/
theorem lexical (declared : DeclaredModel.ofSources order sources = .ok e.model)
    (hg : TypedefOf e g) :
    Lexical e.model g.source g.scope g.statement ∧ Declaration.is g.statement .typedef = true := by
  obtain ⟨s, scope, d, hd, _, _, hresolve⟩ := hg
  obtain ⟨hs, _, hagrees⟩ := hd.agrees declared
  exact hagrees.lexical_of_resolve declared hs rfl hresolve

theorem valid (declared : DeclaredModel.ofSources order sources = .ok e.model)
    (hg : TypedefOf e g) : g.Valid e.model .typedef := by
  obtain ⟨hlexical, hkind⟩ := hg.lexical declared
  exact hlexical.valid hkind

end TypedefOf

/-- Where no typedef is seen in two modules, the key tells a typedef with its scope. -/
theorem SeenOnce.eq (once : SeenOnce e)
    (declared : DeclaredModel.ofSources order sources = .ok e.model) (hg : TypedefOf e g)
    (hh : TypedefOf e h) (hkey : g.key = h.key) : g = h := by
  obtain ⟨hsource, hstatement⟩ :=
    (hg.valid declared).eq_of_key_eq declared (hh.valid declared) hkey
  exact (hh.lexical declared).1.definition_eq (hg.lexical declared).1 hsource hstatement
    (once g h hg hh hkey)

/-! ## Tables -/

/-- Looks typedefs up in the table, and resolves none. -/
def known (e : Expansion) : Definition → Building EffectiveType :=
  EffectiveType.ofDefinition e.model 0 []

theorem known_eq_ok (h : known e g t = .ok (type, u)) : t.lookup g.key = some type ∧ u = t := by
  rcases EffectiveType.ofDefinition_eq_ok h with h | ⟨_, _, n, _, _, _, hn, _⟩
  · exact h
  · cases hn

/-- A table that has grown by typedefs each of which refers to those before it. -/
inductive Grounded (e : Expansion) : TypeTable → Prop where
  | nil : Grounded e []
  | cons {t : TypeTable} {g : Definition} {x : Declaration} {base : EffectiveType} :
    Grounded e t → t.lookup g.key = none → TypedefOf e g →
    EffectiveType.typeStatement g = .ok x →
    EffectiveType.ofDeclaration e.model (known e) g.source g.inner x t = .ok (base, t) →
    Grounded e ((g.key, EffectiveType.derive g base) :: t)

/-- Resolving a typedef keeps the table grounded. -/
theorem Grounded.ofDefinition (hg : TypedefOf e g) (depth : Nat)
    (pending : List Definition.Pending) :
    Keeps (Grounded e) (EffectiveType.ofDefinition e.model depth pending g) := by
  induction depth generalizing pending g with
  | zero =>
    intro t type u ht h
    rcases EffectiveType.ofDefinition_eq_ok h with ⟨_, rfl⟩ | ⟨_, _, n, _, _, _, hn, _⟩
    · exact ht
    · cases hn
  | succ depth ih =>
    intro t type u ht h
    rcases EffectiveType.ofDefinition_eq_ok h with ⟨_, rfl⟩
      | ⟨hnone, _, n, x, base, v, hn, hx, hbase, rfl, rfl⟩
    · exact ht
    · cases hn
      have hv : Grounded e v :=
        EffectiveType.keeps_of_names x
          (fun c h hc hnames => ih (hg.refers ⟨x, c, hx, hc, hnames⟩) _)
          t base v ht hbase
      -- the typedef itself is pending meanwhile, so that it has not become known
      have hnew : v.lookup g.key = none := by
        refine EffectiveType.keeps_of_names (Q := fun t => t.lookup g.key = none) x ?_ t base v
          hnone
          hbase
        intro c h _ _ t type u hnone hok
        exact EffectiveType.lookup_of_pending (by simp) hnone hok
      have hreplays := EffectiveType.ofDeclaration_replays
        (fun h => EffectiveType.ofDefinition_replays _ _ 0 [] h) x t base v hbase
      exact .cons hv hnew hg hx (hreplays.2 v (.refl v))

/-- Resolving a `type` statement that is processed keeps the table grounded. -/
theorem Grounded.ofDeclaration (hd : Processed e s scope d) (htype : d.is .type = true)
    (depth : Nat) (pending : List Definition.Pending) :
    Keeps (Grounded e) (EffectiveType.ofDeclaration e.model
      (EffectiveType.ofDefinition e.model depth pending) s scope d) :=
  EffectiveType.keeps_of_names d fun _ _ hx hnames =>
    Grounded.ofDefinition (.of_inType hd htype hx hnames) depth pending

/-! ## No circles -/

namespace Grounded

open TypeTable (Extends)

/-- A typedef that is known has been resolved from what was known before. -/
theorem exists_entry (ht : Grounded e t) (once : SeenOnce e)
    (declared : DeclaredModel.ofSources order sources = .ok e.model) (hg : TypedefOf e g)
    (hlookup : t.lookup g.key = some type) :
    ∃ before x base, Grounded e before ∧ before.length < t.length ∧ Extends before t
      ∧ before.lookup g.key = none ∧ EffectiveType.typeStatement g = .ok x
      ∧ EffectiveType.ofDeclaration e.model (known e) g.source g.inner x before
        = .ok (base, before)
      ∧ type = EffectiveType.derive g base := by
  induction ht with
  | nil => cases hlookup
  | @cons t h x base ht hnone hh hx hbase ih =>
    have hextends : Extends t ((h.key, EffectiveType.derive h base) :: t) :=
      (Extends.refl t).cons hnone
    rw [List.lookup_cons] at hlookup
    by_cases hkey : g.key = h.key
    · obtain rfl := once.eq declared hg hh hkey
      rw [beq_self_eq_true] at hlookup
      cases hlookup
      exact ⟨t, x, base, ht, Nat.lt_succ_self _, hextends, hnone, hx, hbase, rfl⟩
    · rw [beq_false_of_ne hkey] at hlookup
      obtain ⟨before, x', base', hbefore, hlength, hsub, hrest⟩ := ih hlookup
      exact ⟨before, x', base', hbefore, Nat.lt_succ_of_lt hlength, hsub.trans hextends, hrest⟩

/-- What a known typedef refers to was known before. -/
theorem refers_before (once : SeenOnce e)
    (declared : DeclaredModel.ofSources order sources = .ok e.model) (ht : Grounded e t)
    (hg : TypedefOf e g) (hlookup : t.lookup g.key = some type) :
    ∃ before, Grounded e before ∧ Extends before t ∧ before.lookup g.key = none
      ∧ ∀ h, TypeRefers e.model g h → ∃ type, before.lookup h.key = some type := by
  obtain ⟨before, x, base, hbefore, _, hextends, hnone, hx, hbase, _⟩ :=
    ht.exists_entry once declared hg hlookup
  refine ⟨before, hbefore, hextends, hnone, ?_⟩
  rintro h ⟨x', c, hx', hc, hnames⟩
  cases hx.symm.trans hx'
  exact EffectiveType.known_of_names hbase hc hnames

/-- All to which references lead from a known typedef is known. -/
theorem reaches (once : SeenOnce e)
    (declared : DeclaredModel.ofSources order sources = .ok e.model) (ht : Grounded e t)
    (hg : TypedefOf e g) (hknown : ∃ type, t.lookup g.key = some type)
    (hpath : ReflTransGen (TypeRefers e.model) g h) :
    TypedefOf e h ∧ ∃ type, t.lookup h.key = some type := by
  induction hpath with
  | refl => exact ⟨hg, hknown⟩
  | tail _ href ih =>
    obtain ⟨hx, type, hlookup⟩ := ih
    obtain ⟨before, _, hextends, _, hrefers⟩ := refers_before once declared ht hx hlookup
    obtain ⟨type', hbefore⟩ := hrefers _ href
    exact ⟨hx.refers href, type', hextends _ _ hbefore⟩

/-- No references lead from a known typedef back to its statement. -/
theorem key_ne_of_transGen (once : SeenOnce e)
    (declared : DeclaredModel.ofSources order sources = .ok e.model) (ht : Grounded e t)
    (hg : TypedefOf e g) (hlookup : t.lookup g.key = some type)
    (hpath : TransGen (TypeRefers e.model) g h) : h.key ≠ g.key := by
  obtain ⟨x, href, hpath⟩ := TransGen.head'_iff.1 hpath
  obtain ⟨before, hbefore, _, hnone, hrefers⟩ := refers_before once declared ht hg hlookup
  -- all that is reached was known when the typedef itself was not
  obtain ⟨_, type', hh⟩ := reaches once declared hbefore (hg.refers href) (hrefers x href) hpath
  intro hkey
  rw [hkey, hnone] at hh
  cases hh

end Grounded

end Expansion

end YangSchema
