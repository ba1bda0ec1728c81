import Mathlib
import YangSchema.Declaration.Model
import YangSchema.Proofs.Outcome
import YangSchema.Proofs.SourceOrder
import YangSchema.Proofs.Trees

/-!
# What a declared model promises

Every later phase relies on what the earlier ones have checked. In a declared model

* no two sources have the same identifier (`nodup_ids`), so an identifier gives one source;
* no two statements of a source have the same place (`DeclaredModel.nodup_places`);
* every built-in statement stands under a built-in statement whose kind allows it
  (`Declaration.Grammatical`).
-/

namespace YangSchema

/-- An unprefixed statement that stands in no file. -/
def Statement.bare (keyword argument : String) (children : List Statement) : Statement :=
  ⟨⟨⟨none, keyword⟩, some argument, .synthetic "bare"⟩, children⟩

/-- A module with a name, which is its prefix and namespace too, and the statements behind them. -/
def Source.bareModule (name : String) (statements : List Statement) : Source :=
  ⟨name, .bare "module" name (.bare "namespace" name [] :: .bare "prefix" name [] :: statements)⟩

/-! ## Distinct identifiers -/

namespace Linkage

/-- Headers in identifier order that pass the check have distinct identifiers: equal ones would
stand side by side. -/
theorem nodup_of_checkDistinct {headers : List Header}
    (sorted : headers.Pairwise fun a b => a.id.le b.id) (h : checkDistinct headers = .ok ()) :
    (headers.map (·.id)).Nodup := by
  induction headers with
  | nil => exact List.nodup_nil
  | cons a headers ih =>
    rw [List.pairwise_cons] at sorted
    cases headers with
    | nil => simp
    | cons b rest =>
      rw [checkDistinct] at h
      split at h
      · cases h
      · rename_i hab
        rw [List.map_cons, List.nodup_cons]
        refine ⟨fun hmem => ?_, ih sorted.2 h⟩
        obtain ⟨c, hc, hca⟩ := List.mem_map.1 hmem
        -- `a` is below `b`, and `b` is not above the later header with the identifier of `a`
        have hba : b.id.le a.id := by
          rcases List.mem_cons.1 hc with rfl | hc
          · exact hca ▸ sorted.1 c List.mem_cons_self
          · exact hca ▸ List.rel_of_pairwise_cons sorted.2 hc
        exact hab (SourceId.le_antisymm (sorted.1 b List.mem_cons_self) hba)

theorem header_of_resolve {headers : List Header} {h : Header} {r : Resolved}
    (hr : resolve headers h = .ok r) : r.header = h := by
  obtain ⟨_, _, hr⟩ := Result.bind_eq_ok.1 hr
  obtain ⟨_, _, hr⟩ := Result.bind_eq_ok.1 hr
  rw [← Except.ok.inj hr]

theorem header_of_linkSource {headers : List Header} {families : Families} {r : Resolved}
    {s : LinkedSource} (hs : linkSource headers families r = .ok s) : s.header = r.header := by
  obtain ⟨_, _, hs⟩ := Result.bind_eq_ok.1 hs
  obtain ⟨_, _, hs⟩ := Result.bind_eq_ok.1 hs
  rw [← Except.ok.inj hs]

/-- Linking takes place only where identifiers are distinct, and keeps every header in its
place. -/
theorem ofHeaders_eq_ok {headers : List Header} {linkage : Linkage}
    (h : ofHeaders headers = .ok linkage) :
    checkDistinct headers = .ok () ∧ linkage.sources.map (·.header) = headers := by
  obtain ⟨_, hdistinct, h⟩ := Result.bind_eq_ok.1 h
  obtain ⟨resolved, hresolved, h⟩ := Result.bind_eq_ok.1 h
  obtain ⟨_, _, h⟩ := Result.bind_eq_ok.1 h
  obtain ⟨sources, hsources, h⟩ := Result.bind_eq_ok.1 h
  refine ⟨hdistinct, ?_⟩
  rw [← Except.ok.inj h]
  have hlinked : sources.map (·.header) = resolved.map (·.header) := by
    rw [← List.forall₂_eq_eq_eq, List.forall₂_map_left_iff, List.forall₂_map_right_iff]
    exact (Result.mapM_eq_ok.1 hsources).flip.imp fun _ _ => header_of_linkSource
  have hheaders : resolved.map (·.header) = headers := by
    rw [← List.forall₂_eq_eq_eq, List.forall₂_map_left_iff]
    exact (Result.mapM_eq_ok.1 hresolved).flip.imp fun _ _ => header_of_resolve
  exact hlinked.trans hheaders

end Linkage

namespace DeclaredModel

/-- A model is declared by reading the headers, linking them, and binding and checking the
statements of every source. -/
theorem ofSources_eq_ok {order : Bool} {sources : List Source} {model : DeclaredModel} :
    ofSources order sources = .ok model ↔
      ∃ pairs linkage, readHeaders sources = .ok pairs
        ∧ Linkage.ofHeaders (pairs.map (·.1)) = .ok linkage
        ∧ declare order (linkage.sources.zip (pairs.map (·.2))) = .ok model.sources
        ∧ linkage.families = model.families ∧ linkage.graph = model.graph := by
  constructor
  · intro h
    obtain ⟨pairs, hpairs, h⟩ := Result.bind_eq_ok.1 h
    obtain ⟨linkage, hlinkage, h⟩ := Result.bind_eq_ok.1 h
    obtain ⟨declared, hdeclared, h⟩ := Result.bind_eq_ok.1 h
    rw [← Except.ok.inj h]
    exact ⟨pairs, linkage, hpairs, hlinkage, hdeclared, rfl, rfl⟩
  · rintro ⟨pairs, linkage, hpairs, hlinkage, hdeclared, hfamilies, hgraph⟩
    refine Result.bind_eq_ok.2 ⟨pairs, hpairs, Result.bind_eq_ok.2 ⟨linkage, hlinkage,
      Result.bind_eq_ok.2 ⟨model.sources, hdeclared, ?_⟩⟩⟩
    rw [hfamilies, hgraph]
    rfl

/-! ### Reading -/

/-- What reading a source gives: its header, and its root statement as it is. -/
def Reads (source : Source) (p : Header × Statement) : Prop :=
  Header.ofSource source = .ok p.1 ∧ p.2 = source.root

/-- The headers, paired with the roots, are what reading the sources gives. -/
theorem forall₂_reads {sources : List Source} {headers : List Header}
    (h : sources.mapM Header.ofSource = .ok headers) :
    List.Forall₂ Reads sources (headers.zip (sources.map (·.root))) := by
  have hall := Result.mapM_eq_ok.1 h
  clear h
  induction hall with
  | nil => exact .nil
  | cons hread _ ih => exact .cons ⟨hread, rfl⟩ ih

theorem mapM_of_forall₂_reads {sources : List Source} {pairs : List (Header × Statement)}
    (h : List.Forall₂ Reads sources pairs) :
    sources.mapM Header.ofSource = .ok (pairs.map (·.1))
      ∧ (pairs.map (·.1)).zip (sources.map (·.root)) = pairs := by
  rw [Result.mapM_eq_ok, List.forall₂_map_right_iff]
  refine ⟨h.imp fun _ _ hread => hread.1, ?_⟩
  induction h with
  | nil => rfl
  | cons hread _ ih => rw [List.map_cons, List.map_cons, List.zip_cons_cons, ih, ← hread.2]

/-- Reading the headers reads every source and puts what it gives in identifier order. -/
theorem readHeaders_eq_ok {sources : List Source} {sorted : List (Header × Statement)} :
    readHeaders sources = .ok sorted ↔ ∃ pairs, List.Forall₂ Reads sources pairs
      ∧ pairs.mergeSort (fun a b => a.1.id.le b.1.id) = sorted := by
  constructor
  · intro h
    obtain ⟨headers, hheaders, h⟩ := Result.bind_eq_ok.1 h
    exact ⟨_, forall₂_reads hheaders, Except.ok.inj h⟩
  · rintro ⟨pairs, hpairs, rfl⟩
    obtain ⟨hread, hzip⟩ := mapM_of_forall₂_reads hpairs
    refine Result.bind_eq_ok.2 ⟨_, hread, ?_⟩
    rw [hzip]
    rfl

theorem pairwise_readHeaders {sources : List Source} {pairs : List (Header × Statement)}
    (h : readHeaders sources = .ok pairs) :
    (pairs.map (·.1)).Pairwise fun a b => a.id.le b.id := by
  obtain ⟨read, _, rfl⟩ := readHeaders_eq_ok.1 h
  rw [List.pairwise_map]
  exact SourceId.pairwise_mergeSort (fun p : Header × Statement => p.1.id) read

/-! ### Binding and checking -/

/-- Declaring keeps what linking has settled, and binds and checks the statements of every
source. -/
theorem declare_eq_ok {order : Bool} {linked : List (LinkedSource × Statement)}
    {declared : List DeclaredSource} (h : declare order linked = .ok declared) :
    declared.map (·.toLinkedSource) = linked.map (·.1)
      ∧ ∀ s ∈ declared, Declaration.check s.toLinkedSource order s.root = .ok ()
          ∧ ∃ root,
              Declaration.ofStatement (.ofSources linked) s.toLinkedSource root = .ok s.root := by
  obtain ⟨bound, hbound, h⟩ := Result.bind_eq_ok.1 h
  obtain ⟨_, hchecked, h⟩ := Result.bind_eq_ok.1 h
  rw [← Except.ok.inj h]
  -- binding one source keeps its links
  have step {s : LinkedSource × Statement} {b : LinkedSource × Declaration}
      (hb : (do return (s.1, ← Declaration.ofStatement (.ofSources linked) s.1 s.2))
        = Except.ok b) :
      b.1 = s.1 ∧ Declaration.ofStatement (.ofSources linked) s.1 s.2 = .ok b.2 := by
    obtain ⟨root, hroot, hb⟩ := Result.bind_eq_ok.1 hb
    rw [← Except.ok.inj hb]
    exact ⟨rfl, hroot⟩
  constructor
  · rw [List.map_map, ← List.forall₂_eq_eq_eq, List.forall₂_map_left_iff,
      List.forall₂_map_right_iff]
    exact (Result.mapM_eq_ok.1 hbound).flip.imp fun _ _ hb => (step hb).1
  · intro s hs
    obtain ⟨b, hb, rfl⟩ := List.mem_map.1 hs
    obtain ⟨l, _, hl⟩ := Result.exists_of_mem_mapM hbound hb
    exact ⟨Result.forM_eq_ok.1 hchecked b hb, l.2, (step hl).1 ▸ (step hl).2⟩

/-- A declared model has its linked sources in identifier order. -/
theorem toLinkedSource_of_ofSources {order : Bool} {sources : List Source} {model : DeclaredModel}
    (h : ofSources order sources = .ok model) :
    ∃ pairs linkage, readHeaders sources = .ok pairs
      ∧ Linkage.ofHeaders (pairs.map (·.1)) = .ok linkage
      ∧ model.sources.map (·.toLinkedSource) = linkage.sources := by
  obtain ⟨pairs, linkage, hpairs, hlinkage, hdeclared, _⟩ := ofSources_eq_ok.1 h
  refine ⟨pairs, linkage, hpairs, hlinkage, ?_⟩
  have hlen := congrArg List.length (Linkage.ofHeaders_eq_ok hlinkage).2
  rw [List.length_map, List.length_map] at hlen
  rw [(declare_eq_ok hdeclared).1, List.map_fst_zip (by simp [hlen])]

/-- The sources of a declared model have distinct identifiers. -/
theorem nodup_ids {order : Bool} {sources : List Source} {model : DeclaredModel}
    (h : ofSources order sources = .ok model) : (model.sources.map (·.id)).Nodup := by
  obtain ⟨pairs, linkage, hpairs, hlinkage, hsources⟩ := toLinkedSource_of_ofSources h
  obtain ⟨hdistinct, hheaders⟩ := Linkage.ofHeaders_eq_ok hlinkage
  have hnodup := Linkage.nodup_of_checkDistinct (pairwise_readHeaders hpairs) hdistinct
  rw [← hheaders, ← hsources, List.map_map, List.map_map] at hnodup
  exact hnodup

/-! ### Examples -/

/-- The declared model of sources in identifier order that are linked in a given way. -/
def ofLinkage (linkage : Linkage) (sources : List Source) : DeclaredModel where
  sources := (declare true (linkage.sources.zip (sources.map (·.root)))).toOption.getD []
  families := linkage.families
  graph := linkage.graph

/-- Whether these sources can be declared. -/
def canDeclare (linkage : Linkage) (sources : List Source) : Bool :=
  (declare true (linkage.sources.zip (sources.map (·.root)))).toBool

theorem ofSources_eq_ofLinkage {linkage : Linkage} {sources : List Source}
    (hread : readHeaders sources
      = .ok ((linkage.sources.map (·.header)).zip (sources.map (·.root))))
    (hlength : linkage.sources.length = sources.length)
    (hlink : Linkage.ofHeaders (linkage.sources.map (·.header)) = .ok linkage)
    (hdeclare : canDeclare linkage sources = true) :
    ofSources true sources = .ok (ofLinkage linkage sources) := by
  have hfst : ((linkage.sources.map (·.header)).zip (sources.map (·.root))).map (·.1)
      = linkage.sources.map (·.header) := List.map_fst_zip (by simp [hlength])
  have hsnd : ((linkage.sources.map (·.header)).zip (sources.map (·.root))).map (·.2)
      = sources.map (·.root) := List.map_snd_zip (by simp [hlength])
  refine ofSources_eq_ok.2 ⟨_, linkage, hread, hfst.symm ▸ hlink, ?_, rfl, rfl⟩
  rw [hsnd]
  unfold canDeclare at hdeclare
  cases h : declare true (linkage.sources.zip (sources.map (·.root))) with
  | error e => rw [h] at hdeclare; cases hdeclare
  | ok declared => rw [ofLinkage, h]; rfl

/-- A module with a container, and one that adds a leaf to it. -/
def augmentedModule : List Source :=
  [.bareModule "a" [.bare "container" "c" []],
    .bareModule "b" [.bare "import" "a" [.bare "prefix" "p" []],
      .bare "augment" "/p:c" [.bare "leaf" "x" [.bare "type" "string" []]]]]

/-- How the two are linked. -/
def augmentedLinkage : Linkage :=
  let a : SourceId := ⟨"a", none⟩
  let b : SourceId := ⟨"b", none⟩
  let l : Location := .synthetic "bare"
  { sources := [
      ⟨⟨a, .module "a", .v1, "a", [], [], l⟩, a, [("a", a)]⟩,
      ⟨⟨b, .module "b", .v1, "b", [⟨"a", "p", none, l⟩], [], l⟩, b, [("b", b), ("p", a)]⟩]
    families := [(a, [a]), (b, [b])]
    graph := ⟨[a, b], [⟨b, a, .imports⟩]⟩ }

/-- Their declared model. -/
def augmentedModel : DeclaredModel := ofLinkage augmentedLinkage augmentedModule

theorem ofSources_augmentedModule : ofSources true augmentedModule = .ok augmentedModel :=
  ofSources_eq_ofLinkage (by cbv) rfl (by cbv) (by decide +kernel)

end DeclaredModel

end YangSchema
