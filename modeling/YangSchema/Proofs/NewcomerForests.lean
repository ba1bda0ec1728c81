import YangSchema.Proofs.Congruence
import YangSchema.Proofs.Namespaces
import YangSchema.Proofs.NewcomerDeclarations
import YangSchema.Schema.Forest

/-!
# The trees of modules with a newcomer

What a computation gives without a newcomer, it gives with it (`Building.CarriesOver`). The names
that are looked up on the way have been found without the newcomer, and the depth to which typedefs
and groupings can be nested has not become less. So the other modules are instantiated as they are
without the newcomer (`DeclaredModel.Newcomer.filter_ofModel`).

Their trees stand among those with a newcomer as they do without it (`Forest.Hosts`). No path that
is written in another source leads into the newcomer. So an `augment` or a `deviation` of theirs
finds the same target, and makes the same of it, or fails in the same way; and a newcomer that has
neither leaves it at that (`DeclaredModel.Newcomer.applyAugments`,
`DeclaredModel.Newcomer.applyDeviations`).
-/

namespace YangSchema

namespace Building

variable {α β : Type}

/-- What `x` gives, `y` gives too. -/
def CarriesOver (x y : Building α) : Prop := ∀ t r, x t = .ok r → y t = .ok r

namespace CarriesOver

theorem refl (x : Building α) : CarriesOver x x := fun _ _ h => h

theorem lift {x y : Result α} (h : ∀ a, x = .ok a → y = .ok a) :
    CarriesOver (liftM x : Building α) (liftM y) := by
  rintro t ⟨a, u⟩ hlift
  obtain ⟨hx, rfl⟩ := lift_eq_ok.1 hlift
  exact lift_eq_ok.2 ⟨h a hx, rfl⟩

theorem bind {x y : Building α} {f g : α → Building β} (hx : CarriesOver x y)
    (hf : ∀ a, CarriesOver (f a) (g a)) : CarriesOver (x >>= f) (y >>= g) := by
  intro t r h
  obtain ⟨a, u, hxt, hfu⟩ := bind_eq_ok.1 h
  exact bind_eq_ok.2 ⟨a, u, hx t _ hxt, hf a u r hfu⟩

theorem congruence : Congruence fun _ => CarriesOver :=
  ⟨fun a => refl (pure a), fun x => refl (liftM x), bind⟩

end CarriesOver

end Building

namespace DeclaredModel

namespace Newcomer

open Building (CarriesOver)

variable {model model' : DeclaredModel} {u : SourceId} {s : DeclaredSource} {scope : Scope}
  {kind : Kind} {depth depth' : Nat} {pending : List Definition.Pending}
  (hu : Newcomer model u model')

include hu

theorem resolve_carriesOver (reference : Declared) :
    CarriesOver (liftM (Definition.resolve model s kind reference scope) : Building Definition)
      (liftM (Definition.resolve model' s kind reference scope)) :=
  .lift fun _ => hu.resolve_of_ok

/-! ## Types -/

section

open EffectiveType

theorem ofDefinition_carriesOver (hdepth : depth ≤ depth') (g : Definition) :
    CarriesOver (ofDefinition model depth pending g) (ofDefinition model' depth' pending g) := by
  induction depth generalizing depth' pending g with
  | zero =>
    intro t r h
    cases hlookup : t.lookup g.key with
    | some known =>
      rw [ofDefinition_of_lookup hlookup] at h ⊢
      exact h
    | none =>
      rw [ofDefinition_zero hlookup] at h
      cases h
  | succ depth ih =>
    intro t r h
    obtain ⟨n, rfl⟩ : ∃ n, depth' = n + 1 := ⟨depth' - 1, by omega⟩
    cases hlookup : t.lookup g.key with
    | some known =>
      rw [ofDefinition_of_lookup hlookup] at h ⊢
      exact h
    | none =>
      by_cases hpending : g.isPending pending = true
      · rw [ofDefinition_of_pending hlookup hpending] at h
        cases h
      · rw [ofDefinition_succ hlookup hpending] at h ⊢
        refine CarriesOver.bind (.refl _) (fun statement => ?_) t r h
        refine CarriesOver.bind ?_ fun type => .refl _
        exact CarriesOver.congruence.ofDeclaration (fun _ => hu.resolve_carriesOver _)
          (fun g' => ih (by omega) g') statement

theorem typeOf_carriesOver {module : SourceId} {isMember : Bool} (d : Declaration) :
    CarriesOver (Expansion.typeOf ⟨model, module⟩ s scope isMember d)
      (Expansion.typeOf ⟨model', module⟩ s scope isMember d) := by
  unfold Expansion.typeOf EffectiveType.resolve
  split
  · refine CarriesOver.bind ?_ fun type => .refl _
    exact CarriesOver.congruence.ofDeclaration (fun _ => hu.resolve_carriesOver _)
      (hu.ofDefinition_carriesOver hu.countOfKind_le) d
  · exact .refl _

end

/-! ## Copies -/

section

open Expansion

variable {module : SourceId} {addedByUses isMember : Bool}
  {grouping grouping' : Site → Building (List Node)}

theorem copyAll_carriesOver (hgrouping : ∀ site, CarriesOver (grouping site) (grouping' site))
    (p : Binding → Bool) (ds : List Declaration) :
    CarriesOver (copyAll ⟨model, module⟩ grouping s addedByUses isMember scope p ds)
      (copyAll ⟨model', module⟩ grouping' s addedByUses isMember scope p ds) := by
  refine CarriesOver.congruence.copyAll fun d _ => ?_
  exact CarriesOver.congruence.copy (fun _ _ => hu.resolve_carriesOver _)
    (fun _ _ => hu.typeOf_carriesOver) hgrouping d

theorem ofGrouping_carriesOver (hdepth : depth ≤ depth') (site : Site) :
    CarriesOver (ofGrouping ⟨model, module⟩ depth pending site)
      (ofGrouping ⟨model', module⟩ depth' pending site) := by
  induction depth generalizing depth' pending site with
  | zero =>
    intro t r h
    cases h
  | succ depth ih =>
    obtain ⟨n, rfl⟩ : ∃ n, depth' = n + 1 := ⟨depth' - 1, by omega⟩
    by_cases hpending : site.definition.isPending pending = true
    · rw [ofGrouping_of_pending hpending, ofGrouping_of_pending hpending]
      exact .refl _
    · rw [ofGrouping_succ hpending, ofGrouping_succ hpending]
      exact hu.copyAll_carriesOver (fun inner => ih (by omega) inner) _ _

theorem nodes_carriesOver (hmodule : module ≠ u) :
    CarriesOver (nodes ⟨model, module⟩) (nodes ⟨model', module⟩) := by
  unfold nodes
  dsimp only
  rw [hu.family_eq hmodule]
  refine CarriesOver.bind (CarriesOver.congruence.mapM fun s _ => ?_) fun parts => .refl _
  exact hu.copyAll_carriesOver (hu.ofGrouping_carriesOver hu.countOfKind_le) _ _

end

/-- The other modules are instantiated as they are without the newcomer. -/
theorem filter_ofModel {f f' : Forest} (hf : Forest.ofModel model = .ok f)
    (hf' : Forest.ofModel model' = .ok f') : f'.filter (fun t => t.id ≠ u) = f := by
  refine Result.filter_eq_of_mapM hu.modules_others hf hf' ?_ ?_
  · intro m hm t h
    rw [← hu.modules_others] at hm
    have hid := of_decide_eq_true (List.mem_filter.1 hm).2
    obtain ⟨⟨nodes, table⟩, hnodes, h⟩ := Result.bind_eq_ok.1 h
    exact Result.bind_eq_ok.2 ⟨_, hu.nodes_carriesOver hid _ _ hnodes, h⟩
  · intro m _ t h
    obtain ⟨_, _, h⟩ := Result.bind_eq_ok.1 h
    rw [← Except.ok.inj h]

end Newcomer

end DeclaredModel

/-! ## Forests -/

/-- What steps keep between two runs through a list where the first one succeeds, the runs keep. -/
theorem Result.exists_foldlM {α β γ : Type} {R : β → γ → Prop} {f : β → α → Result β}
    {g : γ → α → Result γ} {as : List α} {b b' : β} {c : γ}
    (hstep : ∀ a ∈ as, ∀ b c b', R b c → f b a = .ok b' → ∃ c', g c a = .ok c' ∧ R b' c')
    (hR : R b c) (h : as.foldlM f b = .ok b') : ∃ c', as.foldlM g c = .ok c' ∧ R b' c' := by
  induction as generalizing b c with
  | nil =>
    cases h
    exact ⟨c, rfl, hR⟩
  | cons a as ih =>
    obtain ⟨ha, has⟩ := List.forall_mem_cons.1 hstep
    rw [List.foldlM_cons] at h
    obtain ⟨d, hd, h⟩ := bind_eq_ok.1 h
    obtain ⟨d', hd', hRd⟩ := ha b c d hR hd
    obtain ⟨c', hc', hRc⟩ := ih has hRd h
    exact ⟨c', bind_eq_ok.2 ⟨d', hd', hc'⟩, hRc⟩

namespace Forest

variable {u m : SourceId} {f f' : Forest} {change : Node → Node}

/-- The trees of a forest stand in another one beside that of a newcomer. -/
def Hosts (u : SourceId) (f f' : Forest) : Prop := f'.filter (fun t => t.id ≠ u) = f

namespace Hosts

theorem root?_eq (h : Hosts u f f') (hm : m ≠ u) : f'.root? m = f.root? m := by
  unfold Hosts at h
  subst h
  unfold root?
  rw [List.find?_filter]
  congr 2
  funext t
  by_cases ht : t.id = m
  · simp [ht, hm]
  · simp [ht]

theorem update (h : Hosts u f f') : Hosts u (f.update m change) (f'.update m change) := by
  unfold Hosts at h ⊢
  subst h
  unfold Forest.update
  rw [List.filter_map]
  congr 1
  apply List.filter_congr
  intro t _
  by_cases ht : t.id = m <;> simp [ht]

theorem map_id (h : Hosts u f f') :
    (f'.map (·.id)).filter (fun id => id ≠ u) = f.map (·.id) := by
  unfold Hosts at h
  rw [← h, List.filter_map]
  rfl

/-- Where the newcomer has no statements of a kind, they are those of the others. -/
theorem statements {kind : Kind} (h : Hosts u f f')
    (hquiet : ∀ t ∈ f', t.id = u → t.statements kind = []) :
    f'.flatMap (·.statements kind) = f.flatMap (·.statements kind) := by
  unfold Hosts at h
  rw [← h]
  refine (flatMap_filter_of_nil fun t ht hp => hquiet t ht ?_).symm
  simpa using hp

/-- Where the newcomer has no augments, those that are waiting are those of the others. -/
theorem pendingModules (h : Hosts u f f')
    (hquiet : ∀ t ∈ f', t.id = u → t.statements .augment = []) :
    Augmentation.pendingModules f' = Augmentation.pendingModules f := by
  unfold Hosts at h
  subst h
  unfold Augmentation.pendingModules
  rw [List.filter_map, List.filter_map, List.filter_filter]
  congr 1
  apply List.filter_congr
  intro t ht
  by_cases hid : t.id = u
  · simp [hid, hquiet t ht hid]
  · simp [hid]

end Hosts

end Forest

namespace DeclaredModel

namespace Newcomer

open Forest (Hosts)

variable {order : Bool} {sources : List Source} {model model' : DeclaredModel} {u m : SourceId}
  {s : DeclaredSource} {step : Step} {path : String} {f g f' : Forest} {a d n : Node}
  (hu : Newcomer model u model')

include hu

/-! ## Paths -/

theorem id_ne (hs : s ∈ model.sources) : s.id ≠ u := (hu.mem_iff.1 hs).2

/-- A step that is written in another source names the same module, which is not the newcomer. -/
theorem stepModule?_eq (hs : s ∈ model.sources) :
    Forest.stepModule? model' s.id step = Forest.stepModule? model s.id step := by
  unfold Forest.stepModule?
  rw [hu.source?_eq (hu.id_ne hs)]

theorem stepModule_eq (hs : s ∈ model.sources) :
    Forest.stepModule model' s.id step = Forest.stepModule model s.id step := by
  unfold Forest.stepModule
  rw [hu.stepModule?_eq hs]

theorem ne_of_stepModule? (declared : ofSources order sources = .ok model)
    (hs : s ∈ model.sources) (hm : Forest.stepModule? model s.id step = some m) : m ≠ u := by
  rw [DeclaredModel.stepModule?_eq declared hs] at hm
  obtain ⟨x, hx, rfl⟩ : ∃ x ∈ model.modules, x.id = m := by
    split at hm
    · exact exists_module_of_prefixTarget? declared hs hm
    · exact Option.some.inj hm ▸ exists_module_of_owner declared hs
  exact hu.id_ne (List.mem_of_mem_filter hx)

theorem follow_eq (hs : s ∈ model.sources) (steps : List Step) :
    Forest.follow model' s.id n steps = Forest.follow model s.id n steps := by
  induction steps generalizing n with
  | nil => rfl
  | cons step rest ih => simp only [Forest.follow, hu.stepModule_eq hs, ih]

/-- A path that is written in another source leads to the same node, or is at fault in the same
way. -/
theorem locate_eq (declared : ofSources order sources = .ok model) (hs : s ∈ model.sources)
    (hf : Hosts u f f') : Forest.locate model' f' s.id path = Forest.locate model f s.id path := by
  unfold Forest.locate
  cases SchemaPath.steps? true path with
  | none => rfl
  | some steps =>
    cases steps with
    | nil => rfl
    | cons step rest =>
      dsimp only
      rw [hu.stepModule_eq hs]
      cases hm : Forest.stepModule? model s.id step with
      | none =>
        unfold Forest.stepModule
        rw [hm]
        rfl
      | some m =>
        unfold Forest.stepModule
        rw [hm]
        dsimp only [bind, Except.bind]
        rw [hf.root?_eq (hu.ne_of_stepModule? declared hs hm)]
        simp only [hu.follow_eq hs]

/-! ## Augments -/

section

variable (declared : ofSources order sources = .ok model) (hf : Hosts u f f')

include declared hf

open Augmentation

/-- An `augment` that finds no target finds none with the newcomer. -/
theorem attempt_fault (ha : ∃ s ∈ model.sources, s.id = a.label.source) {fault : PathFault}
    (h : attempt model f a = .ok (.error fault)) : attempt model' f' a = .ok (.error fault) := by
  obtain ⟨s, hs, hsource⟩ := ha
  unfold attempt at h ⊢
  rw [← hsource] at h ⊢
  rw [hu.locate_eq declared hs hf]
  cases hlocate : Forest.locate model f s.id (a.label.argument.getD "") with
  | error e =>
    rw [hlocate] at h
    exact h
  | ok t =>
    rw [hlocate] at h
    obtain ⟨_, _, h⟩ := Result.bind_eq_ok.1 h
    cases h

/-- An `augment` that is applied is applied with the newcomer, to the same target. -/
theorem attempt_ok (ha : ∃ s ∈ model.sources, s.id = a.label.source)
    (h : attempt model f a = .ok (.ok g)) :
    ∃ g', attempt model' f' a = .ok (.ok g') ∧ Hosts u g g' := by
  obtain ⟨s, hs, hsource⟩ := ha
  unfold attempt at h ⊢
  rw [← hsource] at h ⊢
  rw [hu.locate_eq declared hs hf]
  cases hlocate : Forest.locate model f s.id (a.label.argument.getD "") with
  | error e =>
    rw [hlocate] at h
    cases h
  | ok t =>
    rw [hlocate] at h
    obtain ⟨x, hx, h⟩ := Result.bind_eq_ok.1 h
    cases h
    exact ⟨_, Result.bind_eq_ok.2 ⟨x, hx, rfl⟩, hf.update⟩

theorem sweep_ok {as : List Node} {left : List (Node × PathFault)}
    (has : ∀ a ∈ as, ∃ s ∈ model.sources, s.id = a.label.source)
    (h : sweep model f as = .ok (g, left)) :
    ∃ g', sweep model' f' as = .ok (g', left) ∧ Hosts u g g' := by
  induction as generalizing f f' g left with
  | nil =>
    cases h
    exact ⟨f', rfl, hf⟩
  | cons a as ih =>
    obtain ⟨ha, has⟩ := List.forall_mem_cons.1 has
    rw [sweep] at h ⊢
    obtain ⟨tried, htried, h⟩ := Result.bind_eq_ok.1 h
    cases tried with
    | ok f₁ =>
      obtain ⟨f₁', htried', hf₁⟩ := hu.attempt_ok declared hf ha htried
      obtain ⟨g', hsweep, hg⟩ := ih hf₁ has h
      exact ⟨g', Result.bind_eq_ok.2 ⟨_, htried', hsweep⟩, hg⟩
    | error fault =>
      obtain ⟨⟨g₁, left₁⟩, hswept, h⟩ := Result.bind_eq_ok.1 h
      cases h
      obtain ⟨g', hsweep, hg⟩ := ih hf has hswept
      exact ⟨g', Result.bind_eq_ok.2 ⟨_, hu.attempt_fault declared hf ha htried,
        Result.bind_eq_ok.2 ⟨_, hsweep, rfl⟩⟩, hg⟩

theorem applyModule_ok {as : List Node}
    (has : ∀ a ∈ as, ∃ s ∈ model.sources, s.id = a.label.source)
    (h : applyModule model f as = .ok g) :
    ∃ g', applyModule model' f' as = .ok g' ∧ Hosts u g g' := by
  induction hlength : as.length using Nat.strongRecOn generalizing f f' as with
  | ind length ih =>
    rw [applyModule_eq] at h ⊢
    cases hsweep : sweep model f as with
    | error e =>
      rw [hsweep] at h
      cases h
    | ok swept =>
      obtain ⟨f₁, left⟩ := swept
      obtain ⟨f₁', hsweep', hf₁⟩ := hu.sweep_ok declared hf has hsweep
      rw [hsweep] at h
      rw [hsweep']
      cases left with
      | nil =>
        cases h
        exact ⟨f₁', rfl, hf₁⟩
      | cons first rest =>
        obtain ⟨a, fault⟩ := first
        dsimp only at h ⊢
        split at h
        · rename_i hless
          rw [if_pos hless]
          -- those that are left were among those that had to be applied
          obtain ⟨xs, hperm, _⟩ := exists_applyInTurn_of_sweep hsweep
          refine ih (rest.length + 1) (hlength ▸ hless) hf₁ (fun b hb => has b ?_) h (by simp)
          exact hperm.mem_iff.1 (List.mem_append_right xs hb)
        · cases h

theorem applyRounds_ok {next : SourceId → List SourceId} {waiting : List PendingModule}
    (hwaiting : ∀ m ∈ waiting, ∀ a ∈ m.augments, ∃ s ∈ model.sources, s.id = a.label.source)
    (h : applyRounds model next f waiting = .ok g) :
    ∃ g', applyRounds model' next f' waiting = .ok g' ∧ Hosts u g g' := by
  fun_induction applyRounds model next f waiting generalizing f' with
  | case1 f waiting hempty =>
    cases h
    exact ⟨f', by rw [applyRounds, if_pos hempty], hf⟩
  | case2 => cases h
  | case3 f waiting hempty hready ih =>
    obtain ⟨f₁, hround, h⟩ := Result.bind_eq_ok.1 h
    obtain ⟨f₁', hround', hf₁⟩ := Result.exists_foldlM (R := Hosts u)
      (fun m hm _ _ _ hk hstep =>
        hu.applyModule_ok declared hk (hwaiting m (List.mem_of_mem_filter hm)) hstep) hf hround
    obtain ⟨g', hrest, hg⟩ := ih f₁ hf₁ (fun m hm => hwaiting m (List.mem_of_mem_filter hm)) h
    refine ⟨g', ?_, hg⟩
    rw [applyRounds, if_neg hempty, dif_neg hready]
    exact Result.bind_eq_ok.2 ⟨f₁', hround', hrest⟩

omit hf in
theorem passesThrough_eq (ha : ∃ s ∈ model.sources, s.id = a.label.source) :
    passesThrough model' a = passesThrough model a ∧ u ∉ passesThrough model a := by
  obtain ⟨s, hs, hsource⟩ := ha
  constructor
  · unfold passesThrough
    rw [← hsource]
    congr 1
    funext step
    exact hu.stepModule?_eq hs
  · intro hmem
    obtain ⟨_, _, step, _, hstep⟩ := mem_passesThrough_iff.1 hmem
    rw [← hsource] at hstep
    exact hu.ne_of_stepModule? declared hs hstep rfl

theorem dependencies_eq {m : PendingModule}
    (hm : ∀ a ∈ m.augments, ∃ s ∈ model.sources, s.id = a.label.source) :
    dependencies model' f' m = dependencies model f m := by
  have hmet : m.augments.flatMap (passesThrough model')
      = m.augments.flatMap (passesThrough model) :=
    List.flatMap_congr fun a ha => (hu.passesThrough_eq declared (hm a ha)).1
  have hnot : u ∉ m.augments.flatMap (passesThrough model) := by
    intro hmem
    obtain ⟨a, ha, hpasses⟩ := List.mem_flatMap.1 hmem
    exact (hu.passesThrough_eq declared (hm a ha)).2 hpasses
  unfold dependencies
  dsimp only
  rw [hmet, ← hf.map_id, List.filter_filter]
  apply List.filter_congr
  intro id _
  by_cases hid : id = u
  · simp [hid, hnot]
  · simp [hid]

/-- If no augment is the newcomer's, applying all augments gives, besides its tree, the trees that
they give without it. -/
theorem applyAugments {g' : Forest}
    (hwritten : ∀ t ∈ f, ∀ a ∈ t.statements .augment, ∃ s ∈ model.sources, s.id = a.label.source)
    (hquiet : ∀ t ∈ f', t.id = u → t.statements .augment = [])
    (h : applyAll model f = .ok g) (h' : applyAll model' f' = .ok g') : Hosts u g g' := by
  have hpending := hf.pendingModules hquiet
  have hwaiting : ∀ m ∈ pendingModules f, ∀ a ∈ m.augments,
      ∃ s ∈ model.sources, s.id = a.label.source := by
    intro m hm a ha
    obtain ⟨t, ht, rfl, _⟩ := mem_pendingModules_iff.1 hm
    exact hwritten t ht a ha
  have hnext : dependenciesOf model' f' = dependenciesOf model f := by
    funext id
    unfold dependenciesOf
    rw [hpending]
    cases hfound : (pendingModules f).find? fun m => m.id = id with
    | none => rw [Option.map_none, Option.map_none]
    | some m =>
      have hm := hwaiting m (List.mem_of_find?_eq_some hfound)
      exact hu.dependencies_eq declared hf hm
  rw [applyAll_eq] at h h'
  obtain ⟨_, _, h⟩ := Result.bind_eq_ok.1 h
  obtain ⟨_, _, h'⟩ := Result.bind_eq_ok.1 h'
  rw [hpending, hnext] at h'
  obtain ⟨k, hk, hg⟩ := hu.applyRounds_ok declared hf hwaiting h
  cases hk.symm.trans h'
  exact hg

end

/-! ## Deviations -/

section

variable (declared : ofSources order sources = .ok model)

include declared

open Deviation

/-- A deviation is applied with the newcomer as it is without it. -/
theorem applyDeviation_ok (hf : Hosts u f f') (hd : ∃ s ∈ model.sources, s.id = d.label.source)
    (h : apply model f d = .ok g) : ∃ g', apply model' f' d = .ok g' ∧ Hosts u g g' := by
  obtain ⟨s, hs, hsource⟩ := hd
  obtain ⟨t, ht, h⟩ := Result.bind_eq_ok.1 h
  have ht' : target model' f' d = .ok t := by
    rw [target_eq_ok] at ht ⊢
    rw [← hsource, hu.locate_eq declared hs hf, hsource]
    exact ht
  cases hkind : Node.kind? t.node with
  | none =>
    rw [hkind] at h
    cases h
  | some kind =>
    rw [hkind] at h
    obtain ⟨ds, hds, h⟩ := Result.bind_eq_ok.1 h
    -- what becomes of the target does not depend on the trees
    have applied {g' : Forest} (hg' : (if ds.any fun x => x.1 = .notSupported then
          if 1 < ds.length then .error (error d .notSupportedCombined)
          else return f'.remove t
        else return f'.replace t (← applyProperties d kind t.node ds)) = Except.ok g') :
        apply model' f' d = .ok g' := by
      refine Result.bind_eq_ok.2 ⟨t, ht', ?_⟩
      rw [hkind]
      exact Result.bind_eq_ok.2 ⟨ds, hds, hg'⟩
    split at h
    · rename_i hunsupported
      split at h
      · cases h
      · rename_i halone
        cases h
        exact ⟨_, applied (by rw [if_pos hunsupported, if_neg halone]; rfl), hf.update⟩
    · rename_i hsupported
      obtain ⟨n, hn, h⟩ := Result.bind_eq_ok.1 h
      cases h
      exact ⟨_, applied (by rw [if_neg hsupported, hn]; rfl), hf.update⟩

/-- If no deviation is the newcomer's, applying all deviations gives, besides its tree, the trees
that they give without it. -/
theorem applyDeviations {g' : Forest} (hf : Hosts u f f')
    (hwritten : ∀ d ∈ f.flatMap (·.statements .deviation), ∃ s ∈ model.sources,
      s.id = d.label.source)
    (hsame : f'.flatMap (·.statements .deviation) = f.flatMap (·.statements .deviation))
    (h : applyAll model f = .ok g) (h' : applyAll model' f' = .ok g') : Hosts u g g' := by
  unfold applyAll at h h'
  rw [hsame] at h'
  obtain ⟨k, hk, hg⟩ := Result.exists_foldlM (R := Hosts u)
    (fun d hd _ _ _ hk hstep => hu.applyDeviation_ok declared hk (hwritten d hd) hstep) hf h
  cases hk.symm.trans h'
  exact hg

end

end Newcomer

end DeclaredModel

end YangSchema
