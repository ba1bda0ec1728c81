import Mathlib.Data.List.Pairwise
import YangSchema.Proofs.Restrictions

/-!
# Inclusion of intervals

A restriction has to stay within what it restricts. This is decided interval by interval
(`Interval.isSubset`): each interval that is stated has to lie in one interval that is allowed. All
numbers may be allowed without that. Intervals that are allowed may touch, as in `1..5 | 6..10`, and
an interval that is stated may reach across the seam between them, as `3..8` does
(`Interval.Straddles`).

There is no other difference (`Interval.isSubset_iff`): where an interval that is stated goes beyond
the one in which it begins, the next number is not allowed or begins an interval that touches. So a
restriction is refused exactly if it allows a number that its base does not or reaches across a seam
(`Interval.inclusion_decided_unless_straddling`), and where no intervals touch, the numbers alone
decide.
-/

namespace YangSchema

namespace Interval

variable {c p q : Interval} {child parent is : List Interval} {n : Int}

/-! ## Numbers and seams -/

/-- All numbers that `child` allows are allowed by `parent`. -/
def Within (child parent : List Interval) : Prop :=
  ∀ n, anyContains child n = true → anyContains parent n = true

/-- One interval begins right above the end of the other. -/
def Touches (p q : Interval) : Prop := p.max + 1 = q.min

/-- An interval reaches across the seam between two intervals of a list that touch. -/
def Straddles (c : Interval) (parent : List Interval) : Prop :=
  ∃ p ∈ parent, ∃ q ∈ parent, Touches p q ∧ c.min ≤ p.max ∧ q.min ≤ c.max

instance (p q : Interval) : Decidable (Touches p q) := inferInstanceAs (Decidable (_ = _))

instance (c : Interval) (parent : List Interval) : Decidable (c.Straddles parent) :=
  inferInstanceAs (Decidable (∃ p ∈ parent, ∃ q ∈ parent, _))

theorem anyContains_iff : anyContains is n = true ↔ ∃ i ∈ is, i.min ≤ n ∧ n ≤ i.max := by
  simp [anyContains, contains]

theorem isSubset_eq_true :
    isSubset child parent = true ↔ ∀ c ∈ child, ∃ p ∈ parent, p.min ≤ c.min ∧ c.max ≤ p.max := by
  simp [isSubset]

/-- Two intervals of an ascending list have no number in common. -/
theorem Ascending.apart_of_ne (h : Ascending parent) (hp : p ∈ parent) (hq : q ∈ parent)
    (hne : p ≠ q) : p.max < q.min ∨ q.max < p.min := by
  let Apart (i j : Interval) : Prop := i.max < j.min ∨ j.max < i.min
  have hsymm : Std.Symm Apart := ⟨fun _ _ => Or.symm⟩
  have hapart : parent.Pairwise Apart := h.apart.imp Or.inl
  exact hapart.forall hp hq hne

theorem Ascending.eq_of_mem (h : Ascending parent) (hp : p ∈ parent) (hq : q ∈ parent)
    (hpn : p.min ≤ n ∧ n ≤ p.max) (hqn : q.min ≤ n ∧ n ≤ q.max) : p = q := by
  by_contra hne
  have hapart := h.apart_of_ne hp hq hne
  omega

/-- An interval all of whose numbers are allowed lies in one interval, unless it reaches across a
seam. -/
theorem exists_mem_of_numbers (hparent : Ascending parent) (hc : c.min ≤ c.max)
    (hnumbers : ∀ n, c.min ≤ n → n ≤ c.max → anyContains parent n = true)
    (hseam : ¬ c.Straddles parent) : ∃ p ∈ parent, p.min ≤ c.min ∧ c.max ≤ p.max := by
  obtain ⟨p, hp, hmin, hmax⟩ := anyContains_iff.1 (hnumbers c.min (Int.le_refl _) hc)
  refine ⟨p, hp, hmin, ?_⟩
  by_contra hend
  -- the number above the interval in which `c` begins is allowed by another one
  obtain ⟨q, hq, hqmin, hqmax⟩ := anyContains_iff.1 (hnumbers (p.max + 1) (by omega) (by omega))
  have hne : p ≠ q := by
    rintro rfl
    omega
  have hapart := hparent.apart_of_ne hp hq hne
  have htouches : Touches p q := by
    unfold Touches
    omega
  exact hseam ⟨p, hp, q, hq, htouches, hmax, by omega⟩

/-- There is no seam in one interval. -/
theorem not_straddles (hparent : Ascending parent) (hp : p ∈ parent) (hmin : p.min ≤ c.min)
    (hmax : c.max ≤ p.max) : ¬ c.Straddles parent := by
  rintro ⟨i, hi, j, hj, htouches, hbelow, habove⟩
  unfold Touches at htouches
  have hni := hparent.nonempty i hi
  have hnj := hparent.nonempty j hj
  -- both would be the interval itself
  have hpi : p = i := hparent.eq_of_mem (n := i.max) hp hi (by omega) (by omega)
  have hpj : p = j := hparent.eq_of_mem (n := j.min) hp hj (by omega) (by omega)
  subst hpi hpj
  omega

/-- The decision by intervals is that by numbers, but for seams. -/
theorem isSubset_iff (hchild : Ascending child) (hparent : Ascending parent) :
    isSubset child parent = true ↔ Within child parent ∧ ∀ c ∈ child, ¬ c.Straddles parent := by
  constructor
  · intro h
    refine ⟨fun n => anyContains_of_isSubset h, fun c hc => ?_⟩
    obtain ⟨p, hp, hmin, hmax⟩ := isSubset_eq_true.1 h c hc
    exact not_straddles hparent hp hmin hmax
  · rintro ⟨hwithin, hseam⟩
    refine isSubset_eq_true.2 fun c hc => ?_
    have hnumbers : ∀ n, c.min ≤ n → n ≤ c.max → anyContains parent n = true :=
      fun n hmin hmax => hwithin n (anyContains_iff.2 ⟨c, hc, hmin, hmax⟩)
    exact exists_mem_of_numbers hparent (hchild.nonempty c hc) hnumbers (hseam c hc)

/-! ## What is refused -/

/-- A list of intervals goes beyond another one: it allows a number that the other does not, or one
of its intervals reaches across a seam. -/
def Exceeds (child parent : List Interval) : Prop :=
  (∃ n, anyContains child n = true ∧ anyContains parent n = false)
    ∨ ∃ c ∈ child, c.Straddles parent

theorem isSubset_eq_false (hchild : Ascending child) (hparent : Ascending parent) :
    isSubset child parent = false ↔ Exceeds child parent := by
  rw [← Bool.not_eq_true, isSubset_iff hchild hparent]
  unfold Exceeds Within
  simp only [not_and_or, not_forall, not_not, Bool.not_eq_true, exists_prop]

/-- Where no intervals touch, there is no seam. -/
theorem not_straddles_of_apart (happart : ∀ p ∈ parent, ∀ q ∈ parent, ¬ Touches p q) :
    ¬ c.Straddles parent :=
  fun ⟨p, hp, q, hq, htouches, _⟩ => happart p hp q hq htouches

end Interval

namespace TypeUse

variable {u : TypeUse} {t : EffectiveType} {allowed stated : List Interval} {scale : Option Nat}
  {text : String}

/-- What a substatement of a kind states, where `allowed` is what it restricts. -/
def States (u : TypeUse) (kind : Kind) (allowed : List Interval) (scale : Option Nat)
    (stated : List Interval) : Prop :=
  ∃ d, u.statement.firstChild? kind = some d
    ∧ Interval.listOfString? d.argumentText allowed scale = some stated

/-- A restriction that can be read is refused exactly if it goes beyond what is allowed. -/
theorem narrow_eq_notWithin (kind : Kind) (hallowed : Interval.Ascending allowed)
    (hstated : Interval.listOfString? text allowed scale = some stated) :
    (∃ argument, u.narrow kind allowed scale text = u.fault (.notWithin kind argument allowed))
      ↔ Interval.Exceeds stated allowed := by
  rw [← Interval.isSubset_eq_false (Interval.ascending_of_listOfString? hstated) hallowed]
  unfold narrow
  rw [hstated]
  dsimp only
  cases Interval.isSubset stated allowed with
  | true => exact iff_of_false (fun ⟨_, h⟩ => nomatch h) (fun h => nomatch h)
  | false => exact iff_of_true ⟨text, rfl⟩ rfl

/-- A step that cannot fail adds no faults. -/
theorem bind_pure_eq_fault {α β : Type} {x : Result α} {f : α → β} {e : RestrictionFault} :
    (x >>= fun a => pure (f a)) = u.fault e ↔ x = u.fault e := by
  unfold fault
  rw [Result.bind_eq_error]
  exact or_iff_left fun ⟨_, _, h⟩ => nomatch h

theorem range_eq_notWithin (hnumeric : t.base.isNumeric = true)
    (hranges : Interval.Ascending t.ranges)
    (hstated : u.States .range t.ranges t.fractionDigits stated) :
    (∃ argument, u.range t = u.fault (.notWithin .range argument t.ranges))
      ↔ Interval.Exceeds stated t.ranges := by
  obtain ⟨d, hd, hread⟩ := hstated
  rw [← narrow_eq_notWithin (u := u) .range hranges hread]
  unfold range
  rw [hd]
  dsimp only
  rw [if_pos hnumeric]
  exact exists_congr fun _ => bind_pure_eq_fault

theorem length_eq_notWithin (hlength : t.base.hasLength = true)
    (hlengths : Interval.Ascending t.lengths)
    (hstated : u.States .length t.lengths none stated) :
    (∃ argument, u.length t = u.fault (.notWithin .length argument t.lengths))
      ↔ Interval.Exceeds stated t.lengths := by
  obtain ⟨d, hd, hread⟩ := hstated
  rw [← narrow_eq_notWithin (u := u) .length hlengths hread]
  unfold length
  rw [hd]
  dsimp only
  rw [if_pos hlength]
  exact exists_congr fun _ => bind_pure_eq_fault

end TypeUse

namespace Interval

/-- **Inclusion is decided by intervals.** Of two ascending lists, the first passes for a part of
the second exactly if the second allows all its numbers and none of its intervals reaches across a
seam; so where no intervals touch, exactly if all its numbers are allowed. A range or a length is
refused as not within its base in the other cases, and only in these. -/
theorem inclusion_decided_unless_straddling {child parent : List Interval}
    (hchild : Ascending child) (hparent : Ascending parent) :
    (isSubset child parent = true ↔ Within child parent ∧ ∀ c ∈ child, ¬ c.Straddles parent)
    ∧ ((∀ p ∈ parent, ∀ q ∈ parent, ¬ Touches p q) →
        (isSubset child parent = true ↔ Within child parent))
    ∧ (∀ (u : TypeUse) (t : EffectiveType), t.base.isNumeric = true → t.ranges = parent →
        u.States .range parent t.fractionDigits child →
        ((∃ argument, u.range t = u.fault (.notWithin .range argument parent))
          ↔ Exceeds child parent))
    ∧ (∀ (u : TypeUse) (t : EffectiveType), t.base.hasLength = true → t.lengths = parent →
        u.States .length parent none child →
        ((∃ argument, u.length t = u.fault (.notWithin .length argument parent))
          ↔ Exceeds child parent)) := by
  have hdecides := isSubset_iff hchild hparent
  refine ⟨hdecides, fun happart => ?_, ?_, ?_⟩
  · rw [hdecides]
    exact and_iff_left fun c _ => not_straddles_of_apart happart
  · rintro u t hnumeric rfl hstates
    exact TypeUse.range_eq_notWithin hnumeric hparent hstates
  · rintro u t hlength rfl hstates
    exact TypeUse.length_eq_notWithin hlength hparent hstates

/-- Two intervals that touch allow all numbers of one that reaches across their seam, which is
refused all the same. -/
theorem isSubset_misses_touching : Ascending [⟨3, 8⟩] ∧ Ascending [⟨1, 5⟩, ⟨6, 10⟩]
    ∧ Within [⟨3, 8⟩] [⟨1, 5⟩, ⟨6, 10⟩] ∧ isSubset [⟨3, 8⟩] [⟨1, 5⟩, ⟨6, 10⟩] = false := by
  refine ⟨ascending_iff.1 (by decide), ascending_iff.1 (by decide), fun n hn => ?_, by decide⟩
  simp only [anyContains, contains, List.any_cons, List.any_nil, Bool.or_false, Bool.or_eq_true,
    Bool.and_eq_true, decide_eq_true_eq] at hn ⊢
  omega

/-- A `type` statement with one restriction. -/
def restating (kind : Kind) (argument : String) : TypeUse :=
  let written (k : Kind) (a : String) (children : List Declaration) : Declaration :=
    ⟨⟨⟨.ofString k.keyword, some a, .synthetic "t"⟩, 0, .builtin k⟩, children⟩
  ⟨⟨"m", none⟩, written .type "t" [written kind argument []], true⟩

/-- The range `3..5 | 6..8` of the same numbers is not refused. -/
theorem inclusion_decided_unless_straddling_touching :
    let t : EffectiveType := { EffectiveType.ofBuiltin .int8 with ranges := [⟨1, 5⟩, ⟨6, 10⟩] }
    (∃ argument, (restating .range "3..8").range t
        = (restating .range "3..8").fault (.notWithin .range argument t.ranges))
      ∧ ¬ (∃ argument, (restating .range "3..5 | 6..8").range t
        = (restating .range "3..5 | 6..8").fault (.notWithin .range argument t.ranges)) := by
  intro t
  have hparent : Ascending t.ranges := ascending_iff.1 (by decide)
  have hwhole : Ascending [⟨3, 8⟩] := ascending_iff.1 (by decide)
  have hparts : Ascending [⟨3, 5⟩, ⟨6, 8⟩] := ascending_iff.1 (by decide)
  have hstates : (restating .range "3..8").States .range t.ranges t.fractionDigits [⟨3, 8⟩] :=
    ⟨_, rfl, by decide +kernel⟩
  have hstates' : (restating .range "3..5 | 6..8").States .range t.ranges t.fractionDigits
      [⟨3, 5⟩, ⟨6, 8⟩] := ⟨_, rfl, by decide +kernel⟩
  obtain ⟨-, -, hrange, -⟩ := inclusion_decided_unless_straddling hwhole hparent
  obtain ⟨-, -, hrange', -⟩ := inclusion_decided_unless_straddling hparts hparent
  refine ⟨(hrange _ t rfl rfl hstates).2 (.inr ⟨⟨3, 8⟩, List.mem_cons_self, by decide⟩), ?_⟩
  rw [hrange' _ t rfl rfl hstates', ← isSubset_eq_false hparts hparent]
  decide

end Interval

end YangSchema
