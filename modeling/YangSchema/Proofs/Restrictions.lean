import YangSchema.Proofs.Outcome

/-!
# Restrictions narrow

What the substatements of a `type` statement make of the type that it names allows no more than
this type. `EffectiveType.WellFormed` says what holds of every type on its own, that its intervals
ascend and stay within the built-in type; `EffectiveType.Narrows` compares a type with the one that
it is derived from. Every restriction keeps the first, and the second where the statement names a
typedef (`EffectiveType.Restricts`): one lemma for each, put together in
`TypeUse.restricts_restrictValues` and `TypeUse.restricts_restrictReferences`.
-/

namespace YangSchema

/-! ## Intervals -/

namespace Interval

/-- Intervals that are not empty, each of which lies above those before it. -/
structure Ascending (is : List Interval) : Prop where
  nonempty : ∀ i ∈ is, i.min ≤ i.max
  apart : is.Pairwise fun i j => i.max < j.min

theorem ascending_iff {is : List Interval} : ascending is = true ↔ Ascending is := by
  fun_induction ascending is with
  | case1 => exact ⟨fun _ => ⟨fun i hi => absurd hi List.not_mem_nil, .nil⟩, fun _ => rfl⟩
  | case2 i =>
    rw [decide_eq_true_iff]
    constructor
    · intro h
      exact ⟨List.forall_mem_singleton.2 h, List.pairwise_singleton _ i⟩
    · intro h
      exact h.nonempty i List.mem_cons_self
  | case3 i j rest ih =>
    rw [Bool.and_eq_true, Bool.and_eq_true, decide_eq_true_iff, decide_eq_true_iff, ih]
    constructor
    · rintro ⟨⟨hi, hij⟩, hrest⟩
      refine ⟨List.forall_mem_cons.2 ⟨hi, hrest.nonempty⟩, List.pairwise_cons.2 ⟨?_, hrest.apart⟩⟩
      intro k hk
      rcases List.mem_cons.1 hk with rfl | hk
      · exact hij
      · -- what lies above `j` lies above what is below it
        have hj := hrest.nonempty j List.mem_cons_self
        have hjk := (List.pairwise_cons.1 hrest.apart).1 k hk
        omega
    · intro h
      obtain ⟨hi, hnonempty⟩ := List.forall_mem_cons.1 h.nonempty
      obtain ⟨habove, hapart⟩ := List.pairwise_cons.1 h.apart
      exact ⟨⟨hi, habove j List.mem_cons_self⟩, hnonempty, hapart⟩

/-- A list of intervals that is read ascends. -/
theorem ascending_of_listOfString? {text : String} {parent is : List Interval}
    {scale : Option Nat} (h : listOfString? text parent scale = some is) : Ascending is := by
  unfold listOfString? at h
  split at h
  · exact ascending_iff.1 (Option.filter_eq_some_iff.1 h).2
  · cases h

/-- What lies in a list of intervals lies in every list of which it is a part. -/
theorem anyContains_of_isSubset {child parent : List Interval} {n : Int}
    (hsubset : isSubset child parent = true) (hn : anyContains child n = true) :
    anyContains parent n = true := by
  unfold isSubset at hsubset
  unfold anyContains at hn ⊢
  rw [List.any_eq_true] at hn ⊢
  obtain ⟨c, hc, hcn⟩ := hn
  obtain ⟨p, hp, hcp⟩ := List.any_eq_true.1 (List.all_eq_true.1 hsubset c hc)
  refine ⟨p, hp, ?_⟩
  simp only [contains, Bool.and_eq_true, decide_eq_true_iff] at hcn hcp ⊢
  omega

end Interval

/-! ## Types -/

namespace EffectiveType

/-- `t` is of the same kind as `u` and allows no more. -/
structure Narrows (t u : EffectiveType) : Prop where
  base : t.base = u.base
  fractionDigits : t.fractionDigits = u.fractionDigits
  ranges : ∀ n, t.rangeContains n = true → u.rangeContains n = true
  lengths : ∀ n, t.lengthAllows n = true → u.lengthAllows n = true
  enums : t.enums ⊆ u.enums
  bits : t.bits ⊆ u.bits
  patterns : u.patterns <+: t.patterns
  members : t.members = u.members
  path : t.path = u.path
  bases : t.bases = u.bases

/-- The intervals of a type ascend and lie within those of its built-in type, and no name of an
enumeration or of bits is repeated. -/
structure WellFormed (t : EffectiveType) : Prop where
  ranges : Interval.Ascending t.ranges
  lengths : Interval.Ascending t.lengths
  enums : t.enums.Nodup
  bits : t.bits.Nodup
  rangesWithin : ∀ n, t.rangeContains n = true → (ofBuiltin t.base).rangeContains n = true
  lengthsWithin : ∀ n, t.lengthAllows n = true → (ofBuiltin t.base).lengthAllows n = true

variable {t u v : EffectiveType}

theorem Narrows.refl (t : EffectiveType) : Narrows t t :=
  ⟨rfl, rfl, fun _ h => h, fun _ h => h, List.Subset.refl _, List.Subset.refl _,
    List.prefix_refl _, rfl, rfl, rfl⟩

theorem Narrows.trans (h : Narrows t u) (h' : Narrows u v) : Narrows t v where
  base := h.base.trans h'.base
  fractionDigits := h.fractionDigits.trans h'.fractionDigits
  ranges := fun n hn => h'.ranges n (h.ranges n hn)
  lengths := fun n hn => h'.lengths n (h.lengths n hn)
  enums := List.Subset.trans h.enums h'.enums
  bits := List.Subset.trans h.bits h'.bits
  patterns := h'.patterns.trans h.patterns
  members := h.members.trans h'.members
  path := h.path.trans h'.path
  bases := h.bases.trans h'.bases

theorem wellFormed_ofBuiltin (base : Builtin) : (ofBuiltin base).WellFormed where
  ranges := Interval.ascending_iff.1 (by cases base <;> decide)
  lengths := Interval.ascending_iff.1 (by cases base <;> decide)
  enums := .nil
  bits := .nil
  rangesWithin := fun _ h => h
  lengthsWithin := fun _ h => h

/-- What restrictions make of a type: what holds of it on its own still does, and where it is that
of a typedef, the new type narrows it. -/
structure Restricts (derived : Bool) (t u : EffectiveType) : Prop where
  base : u.base = t.base
  typedefs : u.typedefs = t.typedefs
  wellFormed : t.WellFormed → u.WellFormed
  narrows : derived = true → u.Narrows t

variable {derived : Bool}

theorem Restricts.refl (t : EffectiveType) : Restricts derived t t :=
  ⟨rfl, rfl, id, fun _ => .refl t⟩

theorem Restricts.trans (h : Restricts derived t u) (h' : Restricts derived u v) :
    Restricts derived t v :=
  ⟨h'.base.trans h.base, h'.typedefs.trans h.typedefs, fun ht => h'.wellFormed (h.wellFormed ht),
    fun hd => (h'.narrows hd).trans (h.narrows hd)⟩

/-- Members are added to a built-in type only. -/
theorem restricts_addMembers {members : List EffectiveType} (h : derived = true → members = []) :
    Restricts derived t (t.addMembers members) := by
  refine ⟨rfl, rfl, fun ht => { ht with }, fun hd => ?_⟩
  exact { Narrows.refl t with members := by rw [addMembers, h hd, List.append_nil] }

end EffectiveType

/-! ## Restrictions -/

namespace TypeUse

open EffectiveType

variable {u : TypeUse} {t t' : EffectiveType}

theorem restricts_fractionDigits (h : u.fractionDigits t = .ok t') : Restricts u.derived t t' := by
  unfold fractionDigits at h
  split at h
  · split at h
    · cases h
    · rename_i hallowed
      split at h
      · cases h
        refine ⟨rfl, rfl, fun ht => { ht with }, fun hd => ?_⟩
        exact absurd (.inr hd) hallowed
      · cases h
  · split at h
    · cases h
    · cases h
      exact .refl t

/-- A restriction of numbers states intervals that ascend, within those that are allowed. -/
theorem narrow_eq_ok {kind : Kind} {allowed is : List Interval} {scale : Option Nat}
    {text : String} (h : u.narrow kind allowed scale text = .ok is) :
    Interval.Ascending is ∧ Interval.isSubset is allowed = true := by
  unfold narrow at h
  split at h
  · cases h
  · rename_i stated hstated
    split at h
    · rename_i hsubset
      cases h
      exact ⟨Interval.ascending_of_listOfString? hstated, hsubset⟩
    · cases h

theorem restricts_range (h : u.range t = .ok t') : Restricts u.derived t t' := by
  unfold range at h
  split at h
  · cases h
    exact .refl t
  · split at h
    · obtain ⟨ranges, hranges, hreturn⟩ := Result.bind_eq_ok.1 h
      cases hreturn
      obtain ⟨hascending, hsubset⟩ := narrow_eq_ok hranges
      have hwithin : ∀ n, Interval.anyContains ranges n = true → t.rangeContains n = true :=
        fun n hn => Interval.anyContains_of_isSubset hsubset hn
      exact ⟨rfl, rfl,
        fun ht => { ht with
          ranges := hascending
          rangesWithin := fun n hn => ht.rangesWithin n (hwithin n hn) },
        fun _ => { Narrows.refl t with ranges := hwithin }⟩
    · cases h

theorem restricts_length (h : u.length t = .ok t') : Restricts u.derived t t' := by
  unfold length at h
  split at h
  · cases h
    exact .refl t
  · split at h
    · obtain ⟨lengths, hlengths, hreturn⟩ := Result.bind_eq_ok.1 h
      cases hreturn
      obtain ⟨hascending, hsubset⟩ := narrow_eq_ok hlengths
      have hwithin : ∀ n : Nat, Interval.anyContains lengths n = true → t.lengthAllows n = true :=
        fun n hn => Interval.anyContains_of_isSubset hsubset hn
      exact ⟨rfl, rfl,
        fun ht => { ht with
          lengths := hascending
          lengthsWithin := fun n hn => ht.lengthsWithin n (hwithin n hn) },
        fun _ => { Narrows.refl t with lengths := hwithin }⟩
    · cases h

theorem restricts_patterns (h : u.patterns t = .ok t') : Restricts u.derived t t' := by
  obtain ⟨added, _, hreturn⟩ := Result.bind_eq_ok.1 h
  cases hreturn
  exact ⟨rfl, rfl, fun ht => { ht with },
    fun _ => { Narrows.refl t with patterns := List.prefix_append _ _ }⟩

/-- Names without a fault are not repeated, and a derived type finds them among those it
inherits. -/
theorem nameFault?_eq_none {kind : Kind} {inherited before names : List String}
    (h : u.nameFault? kind inherited before names = none) (hbefore : before.Nodup) :
    (before ++ names).Nodup ∧ (u.derived = true → names ⊆ inherited) := by
  induction names generalizing before with
  | nil =>
    rw [List.append_nil]
    exact ⟨hbefore, fun _ => List.nil_subset _⟩
  | cons name rest ih =>
    rw [nameFault?] at h
    split at h
    · cases h
    · rename_i hnew
      split at h
      · cases h
      · rename_i hinherited
        have hnodup : (before ++ [name]).Nodup :=
          (List.perm_append_singleton name before).nodup_iff.2 (List.nodup_cons.2 ⟨hnew, hbefore⟩)
        obtain ⟨hall, hsubset⟩ := ih h hnodup
        rw [List.append_assoc, List.singleton_append] at hall
        refine ⟨hall, fun hd => List.cons_subset.2 ⟨?_, hsubset hd⟩⟩
        simpa [hd] using hinherited

/-- The names of a type are those that it inherits, or names that are not repeated; a derived type
has no others than those it inherits. -/
theorem names_eq_ok {kind : Kind} {base : Builtin} {inherited names : List String}
    (h : u.names kind base t inherited = .ok names) :
    (inherited.Nodup → names.Nodup) ∧ (u.derived = true → names ⊆ inherited) := by
  unfold TypeUse.names at h
  dsimp only at h
  split at h
  · split at h
    · cases h
    · cases h
      exact ⟨id, fun _ => List.Subset.refl _⟩
  · split at h
    · cases h
    · split at h
      · cases h
      · rename_i hfault
        cases h
        obtain ⟨hnodup, hsubset⟩ := nameFault?_eq_none hfault .nil
        exact ⟨fun _ => hnodup, hsubset⟩

theorem restricts_enums (h : u.enums t = .ok t') : Restricts u.derived t t' := by
  obtain ⟨enums, henums, hreturn⟩ := Result.bind_eq_ok.1 h
  cases hreturn
  obtain ⟨hnodup, hsubset⟩ := names_eq_ok henums
  exact ⟨rfl, rfl, fun ht => { ht with enums := hnodup ht.enums },
    fun hd => { Narrows.refl t with enums := hsubset hd }⟩

theorem restricts_bits (h : u.bits t = .ok t') : Restricts u.derived t t' := by
  obtain ⟨bits, hbits, hreturn⟩ := Result.bind_eq_ok.1 h
  cases hreturn
  obtain ⟨hnodup, hsubset⟩ := names_eq_ok hbits
  exact ⟨rfl, rfl, fun ht => { ht with bits := hnodup ht.bits },
    fun hd => { Narrows.refl t with bits := hsubset hd }⟩

theorem restricts_restrictValues (h : u.restrictValues t = .ok t') :
    Restricts u.derived t t' := by
  obtain ⟨t₁, h₁, h⟩ := Result.bind_eq_ok.1 h
  obtain ⟨t₂, h₂, h⟩ := Result.bind_eq_ok.1 h
  obtain ⟨t₃, h₃, h⟩ := Result.bind_eq_ok.1 h
  obtain ⟨t₄, h₄, h⟩ := Result.bind_eq_ok.1 h
  obtain ⟨t₅, h₅, h⟩ := Result.bind_eq_ok.1 h
  have hnumbers := (restricts_fractionDigits h₁).trans (restricts_range h₂)
  have htexts := (restricts_length h₃).trans (restricts_patterns h₄)
  have hnames := (restricts_enums h₅).trans (restricts_bits h)
  exact (hnumbers.trans htexts).trans hnames

/-- A type that is derived from a typedef has no member types of its own. -/
theorem firstChild?_of_checkMembers (h : u.checkMembers t = .ok ()) (hd : u.derived = true) :
    u.statement.firstChild? .type = none := by
  unfold checkMembers at h
  cases hchild : u.statement.firstChild? .type with
  | none => rfl
  | some d =>
    rw [hchild, hd] at h
    simp only [Bool.not_true, Bool.and_false, Option.isSome_some, Bool.not_false, Bool.and_true,
      if_true] at h
    cases h

theorem restricts_path (h : u.path t = .ok t') : Restricts u.derived t t' := by
  unfold path at h
  dsimp only at h
  split at h
  · split at h
    · rename_i htakes
      cases h
      refine ⟨rfl, rfl, fun ht => { ht with }, fun hd => ?_⟩
      rw [hd, Bool.not_true, Bool.and_false] at htakes
      cases htakes
    · cases h
  · split at h
    · cases h
    · cases h
      exact .refl t

theorem restricts_bases (h : u.bases t = .ok t') : Restricts u.derived t t' := by
  unfold bases at h
  dsimp only at h
  split at h
  · split at h
    · cases h
    · cases h
      exact .refl t
  · split at h
    · rename_i htakes
      cases h
      refine ⟨rfl, rfl, fun ht => { ht with }, fun hd => ?_⟩
      rw [hd, Bool.not_true, Bool.and_false] at htakes
      cases htakes
    · cases h

theorem restricts_requireInstance (h : u.requireInstance t = .ok t') :
    Restricts u.derived t t' := by
  unfold requireInstance at h
  split at h
  · cases h
    exact .refl t
  · split at h
    · cases h
      exact ⟨rfl, rfl, fun ht => { ht with }, fun _ => { Narrows.refl t with }⟩
    · cases h

theorem restricts_restrictReferences (h : u.restrictReferences t = .ok t') :
    Restricts u.derived t t' := by
  obtain ⟨t₁, h₁, h⟩ := Result.bind_eq_ok.1 h
  obtain ⟨t₂, h₂, h⟩ := Result.bind_eq_ok.1 h
  exact ((restricts_path h₁).trans (restricts_bases h₂)).trans (restricts_requireInstance h)

end TypeUse

end YangSchema
