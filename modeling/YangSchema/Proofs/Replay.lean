import YangSchema.Proofs.Congruence

/-!
# Repeating a computation with more types resolved

The table of resolved typedefs only grows, and what it holds is what resolving again would give. So
what has been computed once comes out again, unchanged, from any table that keeps what was known at
the end (`Building.Replays`): a typedef that was resolved on the way is then looked up. This holds
of resolving types, of copying and of the expansion of groupings, where the depth and the groupings
that are being expanded may even differ (`Expansion.ofGrouping_replays`). -/

namespace YangSchema

namespace TypeTable

/-- A table keeps all types of another one. -/
def Extends (t u : TypeTable) : Prop :=
  ∀ key type, t.lookup key = some type → u.lookup key = some type

theorem Extends.refl (t : TypeTable) : Extends t t := fun _ _ h => h

theorem Extends.trans {t u w : TypeTable} (h : Extends t u) (h' : Extends u w) : Extends t w :=
  fun key type hlookup => h' key type (h key type hlookup)

/-- A type that was not known can be added, also behind what has become known since. -/
theorem Extends.cons {t u : TypeTable} {key : SourceId × Nat} {type : EffectiveType}
    (h : Extends t u) (hnone : t.lookup key = none) : Extends t ((key, type) :: u) := by
  intro k type' hlookup
  rw [List.lookup_cons]
  by_cases hk : k = key
  · rw [hk, hnone] at hlookup
    cases hlookup
  · rw [beq_false_of_ne hk]
    exact h k type' hlookup

end TypeTable

namespace Building

open TypeTable (Extends)

variable {α β : Type}

/-- What `x` computes is what `y` computes once everything is known that `x` has found out; and `x`
only adds to what is known. -/
def Replays (x y : Building α) : Prop :=
  ∀ t a u, x t = .ok (a, u) → Extends t u ∧ ∀ w, Extends u w → y w = .ok (a, w)

namespace Replays

theorem pure (a : α) : Replays (Pure.pure a) (Pure.pure a) := by
  intro t b u h
  obtain ⟨rfl, rfl⟩ := Prod.mk.inj (Except.ok.inj h)
  exact ⟨.refl _, fun w _ => rfl⟩

theorem lift (x : Result α) : Replays (liftM x : Building α) (liftM x) := by
  intro t a u h
  obtain ⟨hx, rfl⟩ := lift_eq_ok.1 h
  exact ⟨.refl _, fun w _ => lift_eq_ok.2 ⟨hx, rfl⟩⟩

theorem bind {x y : Building α} {f g : α → Building β} (hx : Replays x y)
    (hf : ∀ a, Replays (f a) (g a)) : Replays (x >>= f) (y >>= g) := by
  intro t b v h
  obtain ⟨a, u, hxt, hfu⟩ := bind_eq_ok.1 h
  obtain ⟨htu, hy⟩ := hx t a u hxt
  obtain ⟨huv, hg⟩ := hf a u b v hfu
  refine ⟨htu.trans huv, fun w hw => ?_⟩
  exact bind_eq_ok.2 ⟨a, w, hy w (huv.trans hw), hg w hw⟩

theorem congruence : Congruence fun _ => Replays := ⟨pure, lift, bind⟩

theorem mapM {f g : α → Building β} {as : List α} (h : ∀ a ∈ as, Replays (f a) (g a)) :
    Replays (as.mapM f) (as.mapM g) := congruence.mapM h

theorem foldlM {f g : β → α → Building β} {as : List α}
    (h : ∀ a ∈ as, ∀ b, Replays (f b a) (g b a)) (b : β) :
    Replays (as.foldlM f b) (as.foldlM g b) := congruence.foldlM h b

/-- Two computations that both come out as a third one does give the same, if what they found out is
known at one time. -/
theorem eq {x x' y : Building α} {t t' u u' w : TypeTable} {a a' : α} (hx : Replays x y)
    (hx' : Replays x' y) (h : x t = .ok (a, u)) (h' : x' t' = .ok (a', u')) (hu : Extends u w)
    (hu' : Extends u' w) : a = a' := by
  have hy := (hx t a u h).2 w hu
  have hy' := (hx' t' a' u' h').2 w hu'
  exact (Prod.mk.inj (Except.ok.inj (hy.symm.trans hy'))).1

end Replays

end Building

open Building (Replays)
open TypeTable (Extends)

/-! ## Types -/

namespace EffectiveType

variable {model : DeclaredModel} {defined defined' : Definition → Building EffectiveType}
  {source : DeclaredSource} {scope : Scope}

/-- Where typedefs come out again, so does a `type` statement. -/
theorem ofDeclaration_replays (hdefined : ∀ d, Replays (defined d) (defined' d)) (d : Declaration) :
    Replays (ofDeclaration model defined source scope d)
      (ofDeclaration model defined' source scope d) :=
  Replays.congruence.ofDeclaration (fun _ => .lift _) hdefined d

section Known

variable {depth : Nat} {pending : List Definition.Pending} {d : Definition} {type : EffectiveType}
  {t u : TypeTable}

theorem known_of_lookup {known : EffectiveType} (hlookup : t.lookup d.key = some known)
    (h : ofDefinition model depth pending d t = .ok (type, u)) :
    Extends t u ∧ u.lookup d.key = some type := by
  rw [ofDefinition_of_lookup hlookup] at h
  obtain ⟨rfl, rfl⟩ := Prod.mk.inj (Except.ok.inj h)
  exact ⟨.refl _, hlookup⟩

/-- Resolving the type of a typedef that was not known makes it known, behind what its `type`
statement has made known. -/
theorem known_of_statement (hlookup : t.lookup d.key = none)
    (hnested : ∀ pending d,
      Replays (ofDefinition model depth pending d) (ofDefinition model depth pending d))
    (h : ofDefinition model (depth + 1) pending d t = .ok (type, u)) :
    Extends t u ∧ u.lookup d.key = some type := by
  by_cases hpending : d.isPending pending = true
  · rw [ofDefinition_of_pending hlookup hpending] at h
    cases h
  · rw [ofDefinition_succ hlookup hpending] at h
    obtain ⟨statement, _, hlift, h⟩ := Building.bind_eq_ok.1 h
    obtain ⟨_, rfl⟩ := Building.lift_eq_ok.1 hlift
    obtain ⟨base, v, hbase, h⟩ := Building.bind_eq_ok.1 h
    obtain ⟨rfl, rfl⟩ := Prod.mk.inj (Except.ok.inj h)
    have hgrows := (ofDeclaration_replays (hnested _) statement _ base v hbase).1
    refine ⟨hgrows.cons hlookup, ?_⟩
    rw [List.lookup_cons, beq_self_eq_true]

/-- A typedef that has been resolved is known from then on, with all that was known before. -/
theorem known_of_ofDefinition_ok (h : ofDefinition model depth pending d t = .ok (type, u)) :
    Extends t u ∧ u.lookup d.key = some type := by
  induction depth generalizing pending d type t u with
  | zero =>
    cases hlookup : t.lookup d.key with
    | some known => exact known_of_lookup hlookup h
    | none =>
      rw [ofDefinition_zero hlookup] at h
      cases h
  | succ depth ih =>
    cases hlookup : t.lookup d.key with
    | some known => exact known_of_lookup hlookup h
    | none =>
      -- the typedefs on the way come out again by induction, since they are known then
      have hnested (pending : List Definition.Pending) (d : Definition) :
          Replays (ofDefinition model depth pending d) (ofDefinition model depth pending d) := by
        intro t type u h
        obtain ⟨hgrows, hknown⟩ := ih h
        exact ⟨hgrows, fun w hw => ofDefinition_of_lookup (hw _ _ hknown)⟩
      exact known_of_statement hlookup hnested h

end Known

/-- A typedef comes out again, since its type is known then; how it was come by does not matter. -/
theorem ofDefinition_replays (depth : Nat) (pending : List Definition.Pending)
    (depth' : Nat) (pending' : List Definition.Pending) (d : Definition) :
    Replays (ofDefinition model depth pending d) (ofDefinition model depth' pending' d) := by
  intro t type u h
  obtain ⟨hgrows, hknown⟩ := known_of_ofDefinition_ok h
  exact ⟨hgrows, fun w hw => ofDefinition_of_lookup (hw _ _ hknown)⟩

theorem resolve_replays (statement : Declaration) :
    Replays (resolve model source scope statement) (resolve model source scope statement) :=
  ofDeclaration_replays (fun d => ofDefinition_replays _ _ _ _ d) statement

end EffectiveType

/-! ## Copying -/

namespace Expansion

variable {e : Expansion} {grouping grouping' : Site → Building (List Node)} {s : DeclaredSource}
  {addedByUses isMember : Bool} {scope : Scope}

theorem typeOf_replays (d : Declaration) :
    Replays (e.typeOf s scope isMember d) (e.typeOf s scope isMember d) := by
  unfold typeOf
  split
  · exact (EffectiveType.resolve_replays d).bind fun type => .pure _
  · exact .pure none

/-- Copying the declarations of a list comes out again if copying each of them does. -/
theorem copyAll_replays {p : Binding → Bool} {ds : List Declaration}
    (h : ∀ d ∈ ds, Replays (copy e grouping s addedByUses isMember scope d)
      (copy e grouping' s addedByUses isMember scope d)) :
    Replays (copyAll e grouping s addedByUses isMember scope p ds)
      (copyAll e grouping' s addedByUses isMember scope p ds) := Replays.congruence.copyAll h

/-- Applying an `augment` statement comes out again if copying its content does. -/
theorem augmentOne_replays {a : Declaration}
    (h : ∀ c ∈ a.children, Replays (copy e grouping s true false (scope.enter s a) c)
      (copy e grouping' s true false (scope.enter s a) c)) (nodes : List Node) :
    Replays (augmentOne e grouping s scope nodes a) (augmentOne e grouping' s scope nodes a) :=
  Replays.congruence.augmentOne h nodes

/-- Where the expansion of groupings comes out again, so does copying. -/
theorem copy_replays (hgrouping : ∀ site, Replays (grouping site) (grouping' site))
    (d : Declaration) : Replays (copy e grouping s addedByUses isMember scope d)
      (copy e grouping' s addedByUses isMember scope d) :=
  Replays.congruence.copy (fun _ _ => .lift _) (fun _ _ => typeOf_replays) hgrouping d

/-- Expanding a grouping comes out again wherever it is used, with no less depth and with no other
groupings being expanded. -/
theorem ofGrouping_replays {depth depth' : Nat} {pending pending' : List Definition.Pending}
    {site site' : Site} (hdepth : depth ≤ depth')
    (hpending : pending'.map (·.1) ⊆ pending.map (·.1))
    (hsite : site'.definition = site.definition) :
    Replays (e.ofGrouping depth pending site) (e.ofGrouping depth' pending' site') := by
  induction depth generalizing depth' pending pending' site site' with
  | zero =>
    intro t nodes u h
    cases h
  | succ depth ih =>
    obtain ⟨n, rfl⟩ : ∃ n, depth' = n + 1 := ⟨depth' - 1, by omega⟩
    by_cases hp : site.definition.isPending pending = true
    · intro t nodes u h
      rw [ofGrouping_of_pending hp] at h
      cases h
    -- fewer groupings are pending in the other run, and all that are entered are added to both
    · have hp' : ¬ site'.definition.isPending pending' = true := by
        rw [Definition.isPending_iff] at hp ⊢
        intro hmem
        exact hp (hpending (hsite ▸ hmem))
      rw [ofGrouping_succ hp, ofGrouping_succ hp', hsite]
      refine copyAll_replays fun d _ => copy_replays (fun inner => ?_) d
      refine ih (by omega) ?_ rfl
      rw [List.map_append, List.map_append]
      exact List.append_subset.2 ⟨List.Subset.trans hpending (List.subset_append_left _ _),
        List.subset_append_right _ _⟩

/-- Expanding groupings only adds to what is known, and so does all copying. -/
theorem ofGrouping_replays_self (depth : Nat) (pending : List Definition.Pending) (site : Site) :
    Replays (e.ofGrouping depth pending site) (e.ofGrouping depth pending site) :=
  ofGrouping_replays (Nat.le_refl _) (List.Subset.refl _) rfl

theorem ofSource_replays_self (s : DeclaredSource) : Replays (e.ofSource s) (e.ofSource s) :=
  copyAll_replays fun d _ => copy_replays (fun site => ofGrouping_replays_self _ _ site) d

end Expansion

end YangSchema
