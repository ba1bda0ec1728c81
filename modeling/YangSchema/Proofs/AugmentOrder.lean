import YangSchema.Proofs.Declared
import YangSchema.Proofs.Reachability
import YangSchema.Schema.Augmentation

/-!
# The order in which augments are applied

A module *depends on* another one through which a path of one of its augments passes
(`DependsOn`). Where modules depend on each other in a circle, the circle is reported
(`checkCycles_eq_error_iff`). Where they do not, some module is ready as long as any is waiting
(`ready_ne_nil`), so that the rounds go through all modules (`flatten_rounds_perm`), and every
module comes before those that depend on it (`pairwise_rounds`).
-/

namespace YangSchema

open Relation

namespace Augmentation

/-! ## Dependencies -/

/-- A step of the path of an augment names a node of the module `q`. -/
def PassesThrough (model : DeclaredModel) (a : Node) (q : SourceId) : Prop :=
  ∃ steps, SchemaPath.steps? true (a.label.argument.getD "") = some steps
    ∧ ∃ step ∈ steps, Forest.stepModule? model a.label.source step = some q

/-- An augment at the top of module `p` passes through the nodes of another module `q`. -/
def DependsOn (model : DeclaredModel) (f : Forest) (p q : SourceId) : Prop :=
  p ≠ q ∧ ∃ t ∈ f, t.id = p ∧ ∃ a ∈ t.statements .augment, PassesThrough model a q

/-- Two modules depend on each other, be it directly or through others. -/
def MutualAugments (model : DeclaredModel) (f : Forest) : Prop :=
  ∃ p q, p ≠ q ∧ TransGen (DependsOn model f) p q ∧ TransGen (DependsOn model f) q p

/-- The modules on which the module of an identifier depends. -/
def dependenciesOf (model : DeclaredModel) (f : Forest) (id : SourceId) : List SourceId :=
  (((pendingModules f).find? fun m => m.id = id).map (dependencies model f)).getD []

variable {model : DeclaredModel} {f : Forest}

theorem applyAll_eq :
    applyAll model f = (checkCycles f (dependenciesOf model f) >>= fun _ =>
      applyRounds model (dependenciesOf model f) f (pendingModules f)) := rfl

theorem mem_passesThrough_iff {a : Node} {q : SourceId} :
    q ∈ passesThrough model a ↔ PassesThrough model a q := by
  unfold passesThrough PassesThrough
  rw [List.mem_filterMap]
  cases SchemaPath.steps? true (a.label.argument.getD "") with
  | none => simp
  | some steps => simp

theorem mem_pendingModules_iff {m : PendingModule} :
    m ∈ pendingModules f ↔
      ∃ t ∈ f, m = ⟨t.id, t.statements .augment⟩ ∧ t.statements .augment ≠ [] := by
  unfold pendingModules
  rw [List.mem_filter, List.mem_map]
  constructor
  · rintro ⟨⟨t, ht, rfl⟩, hne⟩
    exact ⟨t, ht, rfl, by simpa using hne⟩
  · rintro ⟨t, ht, rfl, hne⟩
    exact ⟨⟨t, ht, rfl⟩, by simpa using hne⟩

theorem nodup_pendingModules (distinct : (f.map (·.id)).Nodup) :
    ((pendingModules f).map (·.id)).Nodup := by
  refine List.Sublist.nodup (List.Sublist.map _ List.filter_sublist) ?_
  rw [List.map_map]
  exact distinct

/-- The dependencies of a module that is waiting are those of its augments. -/
theorem dependenciesOf_of_mem (distinct : (f.map (·.id)).Nodup) {m : PendingModule}
    (hm : m ∈ pendingModules f) : dependenciesOf model f m.id = dependencies model f m := by
  have hfind : (pendingModules f).find? (fun w => w.id = m.id) = some m := by
    cases h : (pendingModules f).find? fun w => w.id = m.id with
    | none => exact absurd (List.find?_eq_none.1 h m hm) (by simp)
    | some w =>
      have hid : w.id = m.id := by simpa using List.find?_some h
      rw [List.inj_on_of_nodup_map (nodup_pendingModules distinct)
        (List.mem_of_find?_eq_some h) hm hid]
  rw [dependenciesOf, hfind]
  rfl

/-- The computed dependencies are those modules of the forest on which a module depends. -/
theorem mem_dependenciesOf_iff (distinct : (f.map (·.id)).Nodup) {p q : SourceId} :
    q ∈ dependenciesOf model f p ↔ DependsOn model f p q ∧ q ∈ f.map (·.id) := by
  have hmem {m : PendingModule} : q ∈ dependencies model f m ↔
      q ∈ f.map (·.id) ∧ (∃ a ∈ m.augments, PassesThrough model a q) ∧ q ≠ m.id := by
    unfold dependencies
    rw [List.mem_filter, Bool.and_eq_true, decide_eq_true_iff, bne_iff_ne, List.mem_flatMap]
    simp only [mem_passesThrough_iff]
  constructor
  · intro h
    unfold dependenciesOf at h
    -- a module that is not pending has no augments and so depends on nothing
    cases hfind : (pendingModules f).find? fun m => m.id = p with
    | none => rw [hfind] at h; exact absurd h List.not_mem_nil
    | some m =>
      rw [hfind] at h
      obtain ⟨t, ht, rfl, _⟩ := mem_pendingModules_iff.1 (List.mem_of_find?_eq_some hfind)
      have hid : t.id = p := by simpa using List.find?_some hfind
      obtain ⟨hq, ⟨a, ha, hpass⟩, hne⟩ := hmem.1 h
      exact ⟨⟨fun hpq => hne (hpq ▸ hid.symm), t, ht, hid, a, ha, hpass⟩, hq⟩
  · rintro ⟨⟨hne, t, ht, rfl, a, ha, hpass⟩, hq⟩
    have hm := mem_pendingModules_iff.2 ⟨t, ht, rfl, List.ne_nil_of_mem ha⟩
    rw [dependenciesOf_of_mem distinct hm]
    exact hmem.2 ⟨hq, ⟨a, ha, hpass⟩, hne.symm⟩

/-! ## Circles -/

/-- A module on which something depends that itself depends on something is one of the forest. -/
theorem mem_of_transGen_dependsOn {p q : SourceId} (h : TransGen (DependsOn model f) p q) :
    p ∈ f.map (·.id) := by
  obtain ⟨_, ⟨_, t, ht, rfl, _⟩, _⟩ := TransGen.head'_iff.1 h
  exact List.mem_map_of_mem ht

/-- Paths of dependencies that end at a module of the forest are paths of the graph that is
searched for cycles. -/
theorem transGen_dependsOn_iff (distinct : (f.map (·.id)).Nodup) {p q : SourceId}
    (hq : q ∈ f.map (·.id)) :
    TransGen (DependsOn model f) p q
      ↔ TransGen (Digraph.Edge (dependenciesOf model f) (f.map (·.id))) p q := by
  constructor
  · intro h
    induction h using TransGen.head_induction_on with
    | single h => exact .single ⟨(mem_dependenciesOf_iff distinct).2 ⟨h, hq⟩, hq⟩
    | head h rest ih =>
      have hmem := mem_of_transGen_dependsOn rest
      exact .head ⟨(mem_dependenciesOf_iff distinct).2 ⟨h, hmem⟩, hmem⟩ ih
  · exact TransGen.mono (fun _ _ h => ((mem_dependenciesOf_iff distinct).1 h.1).1) p q

/-- There is a circle of several modules exactly if the searched graph has a cycle: no module
depends on itself. -/
theorem mutualAugments_iff (distinct : (f.map (·.id)).Nodup) :
    MutualAugments model f ↔ ∃ v ∈ f.map (·.id),
      TransGen (Digraph.Edge (dependenciesOf model f) (f.map (·.id))) v v := by
  constructor
  · rintro ⟨p, q, _, hpq, hqp⟩
    have hp := mem_of_transGen_dependsOn hpq
    exact ⟨p, hp, (transGen_dependsOn_iff distinct hp).1 (hpq.trans hqp)⟩
  · rintro ⟨v, hv, hcycle⟩
    obtain ⟨w, hvw, hwv⟩ := TransGen.head'_iff.1 ((transGen_dependsOn_iff distinct hv).2 hcycle)
    have hback := (reflTransGen_iff_eq_or_transGen.1 hwv).resolve_left fun h => hvw.1 h
    exact ⟨v, w, hvw.1, .single hvw, hback⟩

/-- The check reports a circle exactly if modules depend on each other. -/
theorem checkCycles_eq_error_iff (distinct : (f.map (·.id)).Nodup) :
    (∃ ids, checkCycles f (dependenciesOf model f) = .error (.mutualAugments ids))
      ↔ MutualAugments model f := by
  rw [mutualAugments_iff distinct]
  have hnone : Digraph.firstCycle? (f.map (·.id)) (dependenciesOf model f) = none ↔ _ :=
    Digraph.firstCycle?_eq_none_iff distinct
  unfold checkCycles
  cases h : Digraph.firstCycle? (f.map (·.id)) (dependenciesOf model f) with
  | none =>
    simp only [reduceCtorEq, exists_false, false_iff]
    rintro ⟨v, hv, hcycle⟩
    exact hnone.1 h v hv hcycle
  | some cycle =>
    simp only [Except.error.injEq, Error.mutualAugments.injEq, exists_eq', true_iff]
    by_contra hall
    push Not at hall
    have hnot := hnone.2 hall
    rw [h] at hnot
    cases hnot

/-- A check that is passed leaves no circle of dependencies. -/
theorem acyclic_of_checkCycles (distinct : (f.map (·.id)).Nodup)
    (h : checkCycles f (dependenciesOf model f) = .ok ()) (v : SourceId) :
    ¬ TransGen (fun a b => b ∈ dependenciesOf model f a) v v := by
  intro hcycle
  have hdepends : TransGen (DependsOn model f) v v :=
    TransGen.mono (fun _ _ h => ((mem_dependenciesOf_iff distinct).1 h).1) v v hcycle
  have hv := mem_of_transGen_dependsOn hdepends
  obtain ⟨ids, herror⟩ := (checkCycles_eq_error_iff distinct).2
    ((mutualAugments_iff distinct).2 ⟨v, hv, (transGen_dependsOn_iff distinct hv).1 hdepends⟩)
  rw [h] at herror
  cases herror

/-! ## Rounds -/

/-- The modules whose augments are applied, round by round. -/
def rounds (next : SourceId → List SourceId) (waiting : List PendingModule) :
    List (List PendingModule) :=
  if _h : ready next waiting = [] then []
  else ready next waiting :: rounds next (blocked next waiting)
termination_by waiting.length
decreasing_by exact length_blocked_lt _h

variable {next : SourceId → List SourceId}

/-- Where dependencies have no circle, a module is ready as long as any is waiting. -/
theorem ready_ne_nil (acyclic : ∀ v, ¬ TransGen (fun a b => b ∈ next a) v v)
    {waiting : List PendingModule} (hne : waiting ≠ []) : ready next waiting ≠ [] := by
  have hids : waiting.map (·.id) ≠ [] := by simpa using hne
  obtain ⟨id, hid, hsink⟩ := exists_sink acyclic hids
  obtain ⟨m, hm, rfl⟩ := List.mem_map.1 hid
  refine List.ne_nil_of_mem (List.mem_filter.2 ⟨hm, ?_⟩)
  rw [isReady, List.all_eq_true]
  intro id hnext
  rw [List.all_eq_true]
  intro w hw
  rw [bne_iff_ne]
  rintro rfl
  exact hsink w.id (List.mem_map_of_mem hw) hnext

/-- There are at most as many rounds as modules. -/
theorem length_rounds_le (waiting : List PendingModule) :
    (rounds next waiting).length ≤ waiting.length := by
  fun_induction rounds next waiting with
  | case1 => exact Nat.zero_le _
  | case2 waiting hne ih =>
    rw [List.length_cons]
    exact Nat.lt_of_le_of_lt ih (length_blocked_lt hne)

/-- Every module has its turn in one round. -/
theorem flatten_rounds_perm (acyclic : ∀ v, ¬ TransGen (fun a b => b ∈ next a) v v)
    (waiting : List PendingModule) : (rounds next waiting).flatten.Perm waiting := by
  fun_induction rounds next waiting with
  | case1 waiting hnil =>
    -- no round left means nothing waiting: what waits without a circle has something ready
    have : waiting = [] := by
      by_contra hne
      exact ready_ne_nil acyclic hne hnil
    rw [this]
    exact .nil
  | case2 waiting hne ih =>
    rw [List.flatten_cons]
    exact (ih.append_left _).trans (List.filter_append_perm _ _)

/-- No module has its turn before one on which it depends. -/
theorem pairwise_rounds (waiting : List PendingModule) :
    (rounds next waiting).flatten.Pairwise fun m later => later.id ∉ next m.id := by
  -- a module that is ready depends on none that is waiting, so on none of its round or after it
  have hready {waiting : List PendingModule} {m w : PendingModule} (hm : m ∈ ready next waiting)
      (hw : w ∈ waiting) : w.id ∉ next m.id := by
    intro hnext
    have hall := List.all_eq_true.1 (List.all_eq_true.1 (List.mem_filter.1 hm).2 w.id hnext) w hw
    simp at hall
  have hsub : ∀ waiting, ∀ m ∈ (rounds next waiting).flatten, m ∈ waiting := by
    intro waiting
    fun_induction rounds next waiting with
    | case1 => exact fun m hm => absurd hm List.not_mem_nil
    | case2 waiting hne ih =>
      intro m hm
      rw [List.flatten_cons, List.mem_append] at hm
      rcases hm with hm | hm
      · exact (List.mem_filter.1 hm).1
      · exact (List.mem_filter.1 (ih m hm)).1
  fun_induction rounds next waiting with
  | case1 => exact .nil
  | case2 waiting hne ih =>
    rw [List.flatten_cons, List.pairwise_append]
    refine ⟨?_, ih, ?_⟩
    · exact List.pairwise_of_forall_mem_list fun m hm w hw => hready hm (List.mem_filter.1 hw).1
    · intro m hm w hw
      exact hready hm (List.mem_filter.1 (hsub _ w hw)).1

/-- Applying augments in rounds is applying them in the order of the rounds. -/
theorem applyRounds_eq (acyclic : ∀ v, ¬ TransGen (fun a b => b ∈ next a) v v) (f : Forest)
    (waiting : List PendingModule) :
    applyRounds model next f waiting
      = (rounds next waiting).flatten.foldlM (fun f m => applyModule model f m.augments) f := by
  fun_induction rounds next waiting generalizing f with
  | case1 waiting hnil =>
    have : waiting = [] := by
      by_contra hne
      exact ready_ne_nil acyclic hne hnil
    rw [applyRounds, if_pos (by rw [this]; rfl)]
    rfl
  | case2 waiting hne ih =>
    have hwaiting : ¬ waiting.isEmpty := by
      intro h
      rw [List.isEmpty_iff.1 h] at hne
      exact hne rfl
    rw [applyRounds, if_neg hwaiting, dif_neg hne, List.flatten_cons, List.foldlM_append]
    exact bind_congr fun f => ih f

/-! ## Errors -/

/-- The errors of applying the augments of a module name an `augment` statement. -/
def IsAugmentError (e : Error) : Prop := ∃ a fault, e = error a fault

theorem isAugmentError_of_attempt {a : Node} {e : Error} (h : attempt model f a = .error e) :
    IsAugmentError e := by
  unfold attempt at h
  split at h
  · cases h
  · rcases Result.bind_eq_error.1 h with h | ⟨n, _, h⟩
    · unfold splice at h
      split at h
      · exact ⟨a, _, (Except.error.inj h).symm⟩
      · split at h
        · exact ⟨a, _, (Except.error.inj h).symm⟩
        · cases h
    · cases h

theorem isAugmentError_of_sweep {as : List Node} {e : Error} (h : sweep model f as = .error e) :
    IsAugmentError e := by
  induction as generalizing f with
  | nil => cases h
  | cons a rest ih =>
    rw [sweep] at h
    rcases Result.bind_eq_error.1 h with h | ⟨tried, _, h⟩
    · exact isAugmentError_of_attempt h
    · cases tried with
      | ok g => exact ih h
      | error fault =>
        rcases Result.bind_eq_error.1 h with h | ⟨_, _, h⟩
        · exact ih h
        · cases h

theorem isAugmentError_of_applyModule {as : List Node} {e : Error}
    (h : applyModule model f as = .error e) : IsAugmentError e := by
  fun_induction applyModule model f as with
  | case1 _ _ _ hsweep => exact Except.error.inj h ▸ isAugmentError_of_sweep hsweep
  | case2 => cases h
  | case3 _ _ _ _ _ _ _ _ ih => exact ih h
  | case4 _ _ _ a fault => exact ⟨a, .path fault, (Except.error.inj h).symm⟩

theorem isAugmentError_of_foldlM {ms : List PendingModule} {e : Error}
    (h : ms.foldlM (fun f m => applyModule model f m.augments) f = .error e) :
    IsAugmentError e := by
  induction ms generalizing f with
  | nil => cases h
  | cons m ms ih =>
    rw [List.foldlM_cons] at h
    rcases Result.bind_eq_error.1 h with h | ⟨g, _, h⟩
    · exact isAugmentError_of_applyModule h
    · exact ih h

/-! ## Progress -/

/-- The trees of a forest are those of the modules of the model. -/
theorem map_id_of_ofModel (h : Forest.ofModel model = .ok f) :
    f.map (·.id) = model.modules.map (·.id) := by
  rw [← List.forall₂_eq_eq_eq, List.forall₂_map_left_iff, List.forall₂_map_right_iff]
  refine (Result.mapM_eq_ok.1 h).flip.imp fun t m ht => ?_
  obtain ⟨_, _, ht⟩ := Result.bind_eq_ok.1 ht
  rw [← Except.ok.inj ht]

/-- The augments of all modules make progress. A circle of dependencies is reported, and only a
circle is. Without one, as long as modules are waiting some are ready; there are at most as many
rounds as modules with augments, which go through each of these once, and no module is waiting
that owns a step of an augment when that augment is applied. The build never gives up for lack of
a module that is ready. -/
theorem augments_make_progress {order : Bool} {sources : List Source} {model : DeclaredModel}
    {f : Forest} (declared : DeclaredModel.ofSources order sources = .ok model)
    (instantiated : Forest.ofModel model = .ok f) :
    ((∃ ids, checkCycles f (dependenciesOf model f) = .error (.mutualAugments ids))
        ↔ MutualAugments model f)
      ∧ (checkCycles f (dependenciesOf model f) = .ok () →
          (∀ n, (blocked (dependenciesOf model f))^[n] (pendingModules f) ≠ [] →
            ready (dependenciesOf model f)
              ((blocked (dependenciesOf model f))^[n] (pendingModules f)) ≠ [])
          ∧ (rounds (dependenciesOf model f) (pendingModules f)).length ≤ (pendingModules f).length
          ∧ (rounds (dependenciesOf model f) (pendingModules f)).flatten.Perm (pendingModules f)
          ∧ (rounds (dependenciesOf model f) (pendingModules f)).flatten.Pairwise
              (fun m later => ∀ a ∈ m.augments, ¬ PassesThrough model a later.id)
          ∧ applyAll model f = (rounds (dependenciesOf model f) (pendingModules f)).flatten.foldlM
              (fun f m => applyModule model f m.augments) f)
      ∧ ∀ ids, applyAll model f ≠ .error (.noProgress ids) := by
  have distinct : (f.map (·.id)).Nodup := by
    rw [map_id_of_ofModel instantiated]
    exact (DeclaredModel.nodup_ids declared).sublist (List.Sublist.map _ List.filter_sublist)
  have applied (h : checkCycles f (dependenciesOf model f) = .ok ()) : applyAll model f
      = (rounds (dependenciesOf model f) (pendingModules f)).flatten.foldlM
          (fun f m => applyModule model f m.augments) f := by
    rw [applyAll_eq, h]
    exact applyRounds_eq (acyclic_of_checkCycles distinct h) f _
  refine ⟨checkCycles_eq_error_iff distinct, fun h => ?_, fun ids hids => ?_⟩
  · have acyclic := acyclic_of_checkCycles distinct h
    have hperm := flatten_rounds_perm acyclic (pendingModules f)
    refine ⟨fun n => ready_ne_nil acyclic, length_rounds_le _, hperm, ?_, applied h⟩
    have hnodup := (hperm.map (·.id)).nodup_iff.2 (nodup_pendingModules distinct)
    rw [List.Nodup, List.pairwise_map] at hnodup
    refine ((pairwise_rounds _).and hnodup).imp_of_mem ?_
    rintro m later hm hlater ⟨hnot, hne⟩ a ha hpass
    -- a module that owns a step is another module of the forest, and so a dependency
    obtain ⟨t, ht, rfl, _⟩ := mem_pendingModules_iff.1 (hperm.mem_iff.1 hm)
    obtain ⟨u, hu, rfl, _⟩ := mem_pendingModules_iff.1 (hperm.mem_iff.1 hlater)
    exact hnot ((mem_dependenciesOf_iff distinct).2
      ⟨⟨hne, t, ht, rfl, a, ha, hpass⟩, List.mem_map_of_mem hu⟩)
  · cases h : checkCycles f (dependenciesOf model f) with
    | ok _ =>
      -- in rounds only augments fail, and with errors of their own
      rw [applied h] at hids
      obtain ⟨_, _, herror⟩ := isAugmentError_of_foldlM hids
      cases herror
    | error e =>
      rw [applyAll_eq, h] at hids
      unfold checkCycles at h
      split at h
      · cases h
      · cases h
        cases hids

/-! ### Examples -/

/-- A module with a container, one that adds a second container to it, and two that add a leaf: one
to the second container and one to the first. -/
def layeredModules : List Source :=
  [.bareModule "a" [.bare "container" "c" []],
    .bareModule "b" [.bare "import" "a" [.bare "prefix" "p" []],
      .bare "augment" "/p:c" [.bare "container" "d" []]],
    .bareModule "e" [.bare "import" "a" [.bare "prefix" "p" []],
      .bare "import" "b" [.bare "prefix" "q" []],
      .bare "augment" "/p:c/q:d" [.bare "leaf" "x" [.bare "type" "string" []]]],
    .bareModule "h" [.bare "import" "a" [.bare "prefix" "p" []],
      .bare "augment" "/p:c" [.bare "leaf" "y" [.bare "type" "string" []]]]]

/-- How the four are linked. -/
def layeredLinkage : Linkage :=
  let a : SourceId := ⟨"a", none⟩
  let b : SourceId := ⟨"b", none⟩
  let e : SourceId := ⟨"e", none⟩
  let h : SourceId := ⟨"h", none⟩
  let l : Location := .synthetic "bare"
  { sources := [
      ⟨⟨a, .module "a", .v1, "a", [], [], l⟩, a, [("a", a)]⟩,
      ⟨⟨b, .module "b", .v1, "b", [⟨"a", "p", none, l⟩], [], l⟩, b, [("b", b), ("p", a)]⟩,
      ⟨⟨e, .module "e", .v1, "e", [⟨"a", "p", none, l⟩, ⟨"b", "q", none, l⟩], [], l⟩, e,
        [("e", e), ("p", a), ("q", b)]⟩,
      ⟨⟨h, .module "h", .v1, "h", [⟨"a", "p", none, l⟩], [], l⟩, h, [("h", h), ("p", a)]⟩]
    families := [(a, [a]), (b, [b]), (e, [e]), (h, [h])]
    graph := ⟨[a, b, e, h],
      [⟨b, a, .imports⟩, ⟨e, a, .imports⟩, ⟨e, b, .imports⟩, ⟨h, a, .imports⟩]⟩ }

/-- Their declared model. -/
def layeredModel : DeclaredModel := .ofLinkage layeredLinkage layeredModules

/-- What is evaluated of them: they can be declared, three of them wait, of which the one in the
middle is not ready, and their augments are applied. -/
theorem evaluated_layeredModules :
    DeclaredModel.canDeclare layeredLinkage layeredModules = true
      ∧ (do
        let f ← Forest.ofModel layeredModel
        let next := dependenciesOf layeredModel f
        checkCycles f next
        let g ← applyAll layeredModel f
        return ((pendingModules f).map fun m => isReady next (pendingModules f) m,
          g.map fun t => (t.statements .container).map fun c =>
            (Node.schemaChildren c).map Node.schemaName)
        : Result (List Bool × List (List (List String))))
        = .ok ([true, false, true], [[["d", "y"]], [], [], []]) := by
  decide +kernel

theorem ofSources_layeredModules :
    DeclaredModel.ofSources true layeredModules = .ok layeredModel :=
  DeclaredModel.ofSources_eq_ofLinkage (by cbv) rfl (by cbv) evaluated_layeredModules.1

/-- Three modules wait, and the second one has its turn behind the third: it adds to what the first
one adds. -/
theorem augments_make_progress_layered : ∃ f b e h g, Forest.ofModel layeredModel = .ok f
    ∧ pendingModules f = [b, e, h]
    ∧ rounds (dependenciesOf layeredModel f) (pendingModules f) = [[b, h], [e]]
    ∧ (∀ a ∈ b.augments ++ h.augments, ¬ PassesThrough layeredModel a e.id)
    ∧ [b, h, e].foldlM (fun f m => applyModule layeredModel f m.augments) f = .ok g
    ∧ g.map (fun t => (t.statements .container).map fun c =>
        (Node.schemaChildren c).map Node.schemaName) = [[["d", "y"]], [], [], []]
    ∧ ¬ MutualAugments layeredModel f := by
  obtain ⟨f, instantiated, heval⟩ := Result.bind_eq_ok.1 evaluated_layeredModules.2
  obtain ⟨_, hcheck, heval⟩ := Result.bind_eq_ok.1 heval
  obtain ⟨g, happly, heval⟩ := Result.bind_eq_ok.1 heval
  obtain ⟨hisReady, hnames⟩ := Prod.mk.inj (Except.ok.inj heval)
  obtain ⟨hcircle, hprogress, _⟩ := augments_make_progress ofSources_layeredModules instantiated
  obtain ⟨hready, _, _, hbehind, happlied⟩ := hprogress hcheck
  obtain ⟨b, _, hpending, hb, hrest⟩ := List.map_eq_cons_iff.1 hisReady
  obtain ⟨e, _, rfl, he, hrest⟩ := List.map_eq_cons_iff.1 hrest
  obtain ⟨h, rfl, hh⟩ := List.map_eq_singleton_iff.1 hrest
  rw [hpending] at hb he hh
  have hfirst : ready (dependenciesOf layeredModel f) [b, e, h] = [b, h] := by
    simp [ready, hb, he, hh]
  have hblocked : blocked (dependenciesOf layeredModel f) [b, e, h] = [e] := by
    simp [blocked, hb, he, hh]
  -- where one is left, it is ready, as some module is
  have hlast : isReady (dependenciesOf layeredModel f) [e] e = true := by
    have hsome := hready 1
    rw [Function.iterate_one, hpending, hblocked] at hsome
    obtain ⟨m, hm⟩ := List.exists_mem_of_ne_nil _ (hsome (List.cons_ne_nil e []))
    obtain ⟨hm, hmready⟩ := List.mem_filter.1 hm
    rwa [List.mem_singleton.1 hm] at hmready
  have hrounds : rounds (dependenciesOf layeredModel f) (pendingModules f) = [[b, h], [e]] := by
    rw [hpending, rounds, hfirst, hblocked, dif_neg (List.cons_ne_nil _ _), rounds, rounds]
    simp [ready, blocked, hlast]
  rw [hrounds] at hbehind happlied
  refine ⟨f, b, e, h, g, instantiated, hpending, hrounds, ?_, happlied ▸ happly, hnames, ?_⟩
  · have hbehind : List.Pairwise _ ([b, h] ++ [e]) := hbehind
    intro a ha hpasses
    obtain ⟨m, hm, ha⟩ : ∃ m ∈ [b, h], a ∈ m.augments := by simpa using ha
    exact (List.pairwise_append.1 hbehind).2.2 m hm e (List.mem_singleton_self e) a ha hpasses
  · intro hmutual
    obtain ⟨ids, herror⟩ := hcircle.2 hmutual
    rw [hcheck] at herror
    cases herror

end Augmentation

end YangSchema
