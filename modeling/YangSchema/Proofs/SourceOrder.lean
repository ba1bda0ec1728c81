import Mathlib.Data.List.Nodup
import YangSchema.SourceId

/-!
# The order of identifiers

Identifiers are linearly ordered. So a list of things with identifiers that are pairwise distinct
has one arrangement in identifier order: sorting forgets how the list was arranged before.
-/

namespace YangSchema

namespace Revision

/-- Month and day have two digits each. -/
theorem two_digits (r : Revision) : r.month < 100 ∧ r.day < 100 := by
  obtain ⟨_, _, hmonth, _, hday⟩ := r.isDate
  have hdays : daysInMonth r.year r.month ≤ 31 := by
    unfold daysInMonth
    split
    · split <;> omega
    · split <;> omega
  omega

/-- Two dates with the same number are the same date. -/
theorem number_injective {a b : Revision} (h : a.number = b.number) : a = b := by
  have ha := a.two_digits
  have hb := b.two_digits
  have hfields : a.year = b.year ∧ a.month = b.month ∧ a.day = b.day := by
    unfold number at h
    omega
  obtain ⟨y, m, d, _⟩ := a
  obtain ⟨y', m', d', _⟩ := b
  obtain ⟨rfl, rfl, rfl⟩ := hfields
  rfl

end Revision

namespace SourceId

/-- Identifiers are compared by name and then by the number of the revision, none first. -/
theorem compare_eq_compareLex :
    compare
      = compareLex (compareOn name) (compareOn fun id => id.revision.map Revision.number) := by
  funext a b
  obtain ⟨n, r⟩ := a
  obtain ⟨n', r'⟩ := b
  cases r <;> cases r' <;> rfl

instance : Std.TransCmp compare := by
  rw [compare_eq_compareLex]
  infer_instance

instance : Std.LawfulEqCmp compare where
  eq_of_compare {a b} h := by
    rw [compare_eq_compareLex, compareLex_eq_eq] at h
    have hname : a.name = b.name := Std.LawfulEqOrd.eq_of_compare h.1
    have hnumber : a.revision.map Revision.number = b.revision.map Revision.number :=
      Std.LawfulEqOrd.eq_of_compare h.2
    have hrevision := Option.map_injective (fun _ _ => Revision.number_injective) hnumber
    obtain ⟨n, r⟩ := a
    obtain ⟨n', r'⟩ := b
    exact congrArg₂ SourceId.mk hname hrevision

theorem le_trans {a b c : SourceId} (hab : a.le b) (hbc : b.le c) : a.le c :=
  Std.TransCmp.isLE_trans hab hbc

theorem le_total (a b : SourceId) : (a.le b || b.le a) = true := by
  rw [Bool.or_eq_true]
  by_cases h : a.le b
  · exact .inl h
  · exact .inr (Ordering.isLE_of_eq_lt (Std.OrientedCmp.lt_of_not_isLE h))

theorem le_refl (a : SourceId) : a.le a = true := by
  simpa using le_total a a

theorem le_antisymm {a b : SourceId} (hab : a.le b) (hba : b.le a) : a = b :=
  Std.LawfulEqCmp.eq_of_compare (Std.OrientedCmp.isLE_antisymm hab hba)

/-! ## Sorting by identifier -/

variable {α : Type}

/-- A list that is sorted by identifier is in order. -/
theorem pairwise_mergeSort (key : α → SourceId) (as : List α) :
    (as.mergeSort fun a b => (key a).le (key b)).Pairwise fun a b => (key a).le (key b) :=
  List.pairwise_mergeSort (fun a b c => le_trans (a := key a) (b := key b) (c := key c))
    (fun a b => le_total (key a) (key b)) as

/-- Where identifiers are distinct, sorting forgets the arrangement. -/
theorem mergeSort_eq_of_perm (key : α → SourceId) {as bs : List α} (h : as.Perm bs)
    (distinct : (as.map key).Nodup) :
    (as.mergeSort fun a b => (key a).le (key b)) = bs.mergeSort fun a b => (key a).le (key b) := by
  refine List.Perm.eq_of_pairwise ?_ (pairwise_mergeSort key as) (pairwise_mergeSort key bs)
    ((List.mergeSort_perm _ _).trans (h.trans (List.mergeSort_perm _ _).symm))
  intro a b ha hb hab hba
  exact List.inj_on_of_nodup_map distinct (List.mem_mergeSort.1 ha)
    (h.mem_iff.2 (List.mem_mergeSort.1 hb)) (le_antisymm hab hba)

end SourceId

end YangSchema
