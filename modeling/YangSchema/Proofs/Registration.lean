import Mathlib.Data.List.Perm.Basic
import YangSchema.Proofs.Declared
import YangSchema.Session
import YangSchema.Schema.Json

/-!
# The order of registration

Sources are put in identifier order before anything is linked. Where identifiers are distinct there
is only one such order, so the order in which sources were added is forgotten as soon as the headers
have been read (`readHeaders_perm`). Where they are not, the build fails however the sources were
added.

So what a session builds does not depend on that order, and neither does the error with which it
fails, as long as the error is not about a header or about sources registered twice: those name the
first one that was added.
-/

namespace YangSchema

variable {sources sources' : List Source}

namespace DeclaredModel

/-- Reading sources in another order gives the same pairs in another order. -/
theorem forall₂_reads_perm {pairs : List (Header × Statement)} (h : sources.Perm sources')
    (hread : List.Forall₂ Reads sources pairs) :
    ∃ pairs', List.Forall₂ Reads sources' pairs' ∧ pairs.Perm pairs' := by
  obtain ⟨pairs', hread', hperm⟩ := List.perm_comp_forall₂ h.symm hread
  exact ⟨pairs', hread', hperm.symm⟩

/-- Where identifiers are distinct, reading the headers forgets the order of the sources. -/
theorem readHeaders_perm {headers : List Header} (h : sources.Perm sources')
    (hread : sources.mapM Header.ofSource = .ok headers)
    (distinct : (headers.map (·.id)).Nodup) :
    readHeaders sources = readHeaders sources' := by
  have hpairs := forall₂_reads hread
  obtain ⟨pairs', hpairs', hperm⟩ := forall₂_reads_perm h hpairs
  have hheaders : (headers.zip (sources.map (·.root))).map (·.1) = headers := by
    have hmap := (mapM_of_forall₂_reads hpairs).1
    rw [hread] at hmap
    exact (Except.ok.inj hmap).symm
  have hsort := SourceId.mergeSort_eq_of_perm (fun p : Header × Statement => p.1.id) hperm
    (by rw [← hheaders, List.map_map] at distinct; exact distinct)
  rw [readHeaders_eq_ok.2 ⟨_, hpairs, rfl⟩, readHeaders_eq_ok.2 ⟨_, hpairs', rfl⟩, hsort]

/-- The identifiers of the headers of sources that have been declared are distinct. -/
theorem nodup_of_ofSources {order : Bool} {model : DeclaredModel}
    (h : ofSources order sources = .ok model) :
    ∃ headers, sources.mapM Header.ofSource = .ok headers ∧ (headers.map (·.id)).Nodup := by
  obtain ⟨sorted, linkage, hsorted, hlinkage, _⟩ := ofSources_eq_ok.1 h
  have hdistinct := (Linkage.ofHeaders_eq_ok hlinkage).1
  have hnodup := Linkage.nodup_of_checkDistinct (pairwise_readHeaders hsorted) hdistinct
  obtain ⟨pairs, hpairs, rfl⟩ := readHeaders_eq_ok.1 hsorted
  refine ⟨pairs.map (·.1), (mapM_of_forall₂_reads hpairs).1, ?_⟩
  rw [List.map_map] at hnodup ⊢
  exact (((List.mergeSort_perm _ _).map _).nodup_iff).1 hnodup

/-- Where identifiers are distinct, declaring forgets the order of the sources. -/
theorem ofSources_eq_of_perm {headers : List Header} (order : Bool) (h : sources.Perm sources')
    (hread : sources.mapM Header.ofSource = .ok headers)
    (distinct : (headers.map (·.id)).Nodup) :
    ofSources order sources = ofSources order sources' := by
  unfold ofSources
  rw [readHeaders_perm h hread distinct]

/-- Sources in another order are declared with the same outcome, if there is one. -/
theorem ofSources_perm (order : Bool) (h : sources.Perm sources') {model : DeclaredModel}
    (hmodel : ofSources order sources = .ok model) : ofSources order sources' = .ok model := by
  obtain ⟨headers, hread, distinct⟩ := nodup_of_ofSources hmodel
  rw [← ofSources_eq_of_perm order h hread distinct, hmodel]

end DeclaredModel

namespace Session

/-- The order in which sources are registered does not matter. Whatever one order declares or
builds, every other order does, down to the fingerprint; and if all headers can be read and the
identifiers in them are distinct, the outcomes are the same also where they are errors. -/
theorem registration_order_irrelevant (settings : BuildSettings) (h : sources.Perm sources') :
    (∀ model, declare ⟨settings, sources⟩ = .ok model ↔ declare ⟨settings, sources'⟩ = .ok model)
      ∧ (∀ schema, build ⟨settings, sources⟩ = .ok schema ↔ build ⟨settings, sources'⟩ = .ok schema)
      ∧ (∀ print, (build ⟨settings, sources⟩).map Schema.fingerprint = .ok print
          ↔ (build ⟨settings, sources'⟩).map Schema.fingerprint = .ok print)
      ∧ ∀ headers, sources.mapM Header.ofSource = .ok headers → (headers.map (·.id)).Nodup →
          declare ⟨settings, sources⟩ = declare ⟨settings, sources'⟩
            ∧ build ⟨settings, sources⟩ = build ⟨settings, sources'⟩ := by
  have declared : ∀ model, declare ⟨settings, sources⟩ = .ok model
      ↔ declare ⟨settings, sources'⟩ = .ok model := fun model =>
    ⟨DeclaredModel.ofSources_perm settings.enforceOrder h,
      DeclaredModel.ofSources_perm settings.enforceOrder h.symm⟩
  have built : ∀ schema, build ⟨settings, sources⟩ = .ok schema
      ↔ build ⟨settings, sources'⟩ = .ok schema := by
    intro schema
    unfold build
    rw [Result.bind_eq_ok, Result.bind_eq_ok]
    exact exists_congr fun model => and_congr_left' (declared model)
  have printed {print : String} (schema : Result Schema) :
      schema.map Schema.fingerprint = .ok print
        ↔ ∃ s, schema = .ok s ∧ s.fingerprint = print := by
    cases schema <;> simp [Except.map]
  refine ⟨declared, built, fun print => ?_, fun headers hread distinct => ?_⟩
  · rw [printed, printed]
    exact exists_congr fun schema => and_congr_left' (built schema)
  -- with distinct identifiers the sorted sources are one list, so that even the errors agree
  · have heq : declare ⟨settings, sources⟩ = declare ⟨settings, sources'⟩ :=
      DeclaredModel.ofSources_eq_of_perm settings.enforceOrder h hread distinct
    refine ⟨heq, ?_⟩
    unfold build
    rw [heq]

/-- A module and one that augments it are built alike in both orders. -/
theorem registration_order_irrelevant_augment :
    let sources := DeclaredModel.augmentedModule
    build ⟨{}, sources⟩ = build ⟨{}, sources.reverse⟩ ∧ (build ⟨{}, sources⟩).toBool := by
  have hread : DeclaredModel.augmentedModule.mapM Header.ofSource
      = .ok (DeclaredModel.augmentedLinkage.sources.map (·.header)) := by decide +kernel
  have distinct :
      ((DeclaredModel.augmentedLinkage.sources.map (·.header)).map (·.id)).Nodup := by
    decide +kernel
  have hperm : DeclaredModel.augmentedModule.Perm DeclaredModel.augmentedModule.reverse :=
    (List.reverse_perm _).symm
  refine ⟨((registration_order_irrelevant {} hperm).2.2.2 _ hread distinct).2, ?_⟩
  have hbuild : build ⟨{}, DeclaredModel.augmentedModule⟩
      = Schema.ofModel DeclaredModel.augmentedModel :=
    Result.bind_eq_of_ok DeclaredModel.ofSources_augmentedModule
  rw [hbuild]
  decide +kernel

end Session

end YangSchema
