import YangSchema.Proofs.Instantiator

/-!
# Following a computation

An action of an instantiator *follows* a computation that gives nodes (`Instantiator.Follows`) if it
fails with it and with the same error, and otherwise succeeds with it, changing nothing but the
arena and the table of types. So it never panics. What the computation gives is related to the arena
by a postcondition, which is passed from step to step.
-/

namespace YangSchema

namespace Instantiator

open Layout (forestCells forestSlots slot)

variable {α β γ δ : Type} {w w' : Instantiator} {a : α} {i q : Nat} {c : Cell} {B : Arena}
  {ts : List Layout}

/-! ## Running -/

theorem bind_of_ok {y : Action α} {g : α → Action β} (h : y w = .ok (a, w')) :
    (y >>= g) w = g a w' := by
  show (y w >>= fun r => g r.1 r.2) = _
  rw [h]
  rfl

theorem bind_of_error {y : Action α} {g : α → Action β} {fault : Fault}
    (h : y w = .error fault) : (y >>= g) w = .error fault := by
  show (y w >>= fun r => g r.1 r.2) = _
  rw [h]
  rfl

theorem get_bind {g : Instantiator → Action β} : (get >>= g) w = g w w := rfl

theorem cell_eq (h : w.tree[i]? = some c) : cell i w = .ok (c, w) := by
  unfold cell
  rw [get_bind, h]
  rfl

theorem relabel_eq {f : NodeLabel → NodeLabel} (h : w.tree[i]? = some c) :
    relabel f i w = .ok ((), { w with tree := w.tree.relabel i f }) := by
  unfold relabel
  rw [bind_of_ok (cell_eq h)]
  rfl

theorem add_eq {label : NodeLabel} (h : w.tree[q]? = some c) :
    add q label w = .ok (w.tree.length, { w with tree := w.tree.add q label }) := by
  unfold add
  rw [bind_of_ok (cell_eq h)]
  rfl

theorem detach_eq {d : Cell} (h : w.tree[i]? = some c) (hparent : c.parent = some q)
    (hq : w.tree[q]? = some d) : detach i w = .ok ((), { w with tree := w.tree.detach i }) := by
  unfold detach
  rw [bind_of_ok (cell_eq h), hparent]
  dsimp only
  rw [bind_of_ok (cell_eq hq)]
  rfl

/-- The labels of nodes that the arena has. -/
theorem labels_eq (h : w.tree.Has (forestCells q ts)) :
    labels (ts.map slot) w = .ok (ts.map Tree.label, w) := by
  unfold labels
  induction ts with
  | nil => rfl
  | cons t ts ih =>
    rw [forestCells] at h
    obtain ⟨ht, hts⟩ := Arena.has_append.1 h
    rw [Layout.cells_eq] at ht
    have hcell := (Arena.has_cons.1 ht).1
    have hlabel : (do return (slot t, (← cell (slot t)).label) : Action (Nat × NodeLabel)) w
        = .ok (t.label, w) := by
      rw [bind_of_ok (cell_eq hcell)]
      rfl
    rw [List.map_cons, List.mapM_cons, bind_of_ok hlabel, bind_of_ok (ih hts)]
    rfl

theorem childrenFrom_eq {slots : List Nat} (h : w.tree[q]? = some c)
    {old : List Nat} (hc : c.children = old ++ slots) :
    childrenFrom q old.length w = .ok (slots, w) := by
  unfold childrenFrom
  rw [bind_of_ok (cell_eq h), hc, if_pos (by rw [List.length_append]; omega), List.drop_left]
  rfl

/-- Relabelling below is a traversal of the arena. -/
theorem relabelBelow_of_forEach {f : NodeLabel → NodeLabel} {fuel : Nat} {stack visited : List Nat}
    (h : Arena.forEach f fuel stack w.tree = some (visited, B)) :
    relabelBelow f fuel stack w = .ok ((), { w with tree := B }) := by
  induction fuel generalizing stack visited w with
  | zero =>
    cases stack with
    | nil => cases h; rfl
    | cons i stack => cases h
  | succ fuel ih =>
    cases stack with
    | nil => cases h; rfl
    | cons i stack =>
      obtain ⟨c, hc, h⟩ := Option.bind_eq_some_iff.1 h
      obtain ⟨⟨rest, _⟩, hrest, hreturn⟩ := Option.bind_eq_some_iff.1 h
      cases hreturn
      have hlt : i < w.tree.length :=
        Arena.length_relabel ▸ (List.getElem?_eq_some_iff.1 hc).1
      have hcell : w.tree[i]? = some w.tree[i] := List.getElem?_eq_getElem hlt
      rw [relabelBelow, bind_of_ok (relabel_eq hcell)]
      show (cell i >>= _) _ = _
      rw [bind_of_ok (cell_eq hc)]
      exact ih hrest

/-- Relabelling below goes through all nodes below once, so that it comes to an end and changes just
their labels. -/
theorem relabelBelow_eq {f : NodeLabel → NodeLabel} {fuel : Nat}
    (hhas : ∀ t ∈ ts, ∃ q, w.tree.Has (t.cells q)) (hdistinct : (forestSlots ts).Nodup)
    (hfuel : (forestSlots ts).length ≤ fuel) : relabelBelow f fuel (ts.map slot) w
      = .ok ((), { w with tree := w.tree.relabelIn f (forestSlots ts) }) := by
  have hkeeps : ∀ t ∈ ts, w.tree.Keeps t := fun t ht => (hhas t ht).elim fun _ h => h.keeps
  obtain ⟨visited, hrun, hvisited⟩ := Arena.forEach_eq (f := f) hkeeps hdistinct hfuel
  rw [relabelBelow_of_forEach hrun, Arena.relabelIn_congr fun j => hvisited.mem_iff]

/-! ## Following a computation -/

/-- From the state `w`, an action fails where a computation does, with the same error. Where the
computation succeeds, so does the action; it leaves the stack and the scope as they were, has
changed the types as the computation does, and `Q` holds of what the computation gives, of the arena
that is left and of what the action gives. -/
structure Follows (w : Instantiator) (Q : α → Arena → β → Prop) (x : Building α) (y : Action β) :
    Prop where
  follows : ∀ a u, x w.types = .ok (a, u) →
    ∃ b B, y w = .ok (b, { w with tree := B, types := u }) ∧ Q a B b
  fails : ∀ e, x w.types = .error e → y w = .error (.error e)

namespace Follows

variable {x : Building α} {y : Action β} {f : α → Building γ} {g : β → Action δ} {b : β}
  {P Q : α → Arena → β → Prop} {R : γ → Arena → δ → Prop} {S : γ → Arena → β → Prop}

theorem pure (h : Q a w.tree b) : Follows w Q (pure a) (pure b) where
  follows a' u ha := by
    cases ha
    exact ⟨b, w.tree, rfl, h⟩
  fails _ he := by cases he

theorem fail (e : Error) : Follows w Q (throw e) (fail e) where
  follows _ _ h := by cases h
  fails _ he := by
    cases he
    rfl

theorem mono (h : Follows w P x y) (hPQ : ∀ a B b, P a B b → Q a B b) : Follows w Q x y where
  follows a u ha := by
    obtain ⟨b, B, hy, hP⟩ := h.follows a u ha
    exact ⟨b, B, hy, hPQ a B b hP⟩
  fails := h.fails

theorem bind (h : Follows w P x y)
    (hnext : ∀ a B b u, P a B b → Follows { w with tree := B, types := u } R (f a) (g b)) :
    Follows w R (x >>= f) (y >>= g) where
  follows c v hc := by
    obtain ⟨a, u, ha, hc⟩ := Building.bind_eq_ok.1 hc
    obtain ⟨b, B, hy, hP⟩ := h.follows a u ha
    rw [bind_of_ok hy]
    exact (hnext a B b u hP).follows c v hc
  fails e he := by
    rcases Building.bind_eq_error.1 he with he | ⟨a, u, ha, he⟩
    · exact bind_of_error (h.fails e he)
    · obtain ⟨b, B, hy, hP⟩ := h.follows a u ha
      rw [bind_of_ok hy]
      exact (hnext a B b u hP).fails e he

/-- A step of the action alone changes at most the arena. -/
theorem step {x : Building γ} (h : y w = .ok (b, { w with tree := B }))
    (hnext : Follows { w with tree := B } R x (g b)) : Follows w R x (y >>= g) where
  follows c v hc := by
    rw [bind_of_ok h]
    exact hnext.follows c v hc
  fails e he := by
    rw [bind_of_ok h]
    exact hnext.fails e he

/-- A step of the action that reads something. -/
theorem read {x : Building γ} (h : y w = .ok (b, w)) (hnext : Follows w R x (g b)) :
    Follows w R x (y >>= g) :=
  step (B := w.tree) h hnext

theorem ofBuilding (x : Building α) :
    Follows w (fun a B b => B = w.tree ∧ b = a) x (ofBuilding x) where
  follows a u ha := by
    refine ⟨a, w.tree, ?_, rfl, rfl⟩
    unfold Instantiator.ofBuilding
    rw [ha]
  fails e he := by
    unfold Instantiator.ofBuilding
    rw [he]

/-- Both depend on the table of types alone. -/
theorem bind_ofBuilding {f : α → Building γ} {g : α → Action δ}
    (hnext : ∀ a u, Follows { w with types := u } R (f a) (g a)) :
    Follows w R (x >>= f) (Instantiator.ofBuilding x >>= g) := by
  refine (ofBuilding x).bind ?_
  rintro _ _ a u ⟨rfl, rfl⟩
  exact hnext a u

/-- What stands inside a statement is done in its scope, which is left afterwards. -/
theorem inside {s : DeclaredSource} {d : Declaration}
    (h : Follows { w with scope := w.scope.enter s d } Q x y) : Follows w Q x (inside s d y) where
  follows a u ha := by
    obtain ⟨b, B, hy, hQ⟩ := h.follows a u ha
    refine ⟨b, B, ?_, hQ⟩
    unfold Instantiator.inside
    exact (bind_of_ok rfl).trans ((bind_of_ok hy).trans ((bind_of_ok rfl).trans rfl))
  fails e he := by
    unfold Instantiator.inside
    exact (bind_of_ok rfl).trans (bind_of_error (h.fails e he))

/-- A grouping is expanded with its own scope, and is on the stack meanwhile. -/
theorem expanding {d : Definition}
    (h : Follows { w with
      usesStack := w.usesStack ++ [Expansion.entry d], scope := d.inner } Q x y) :
    Follows w Q x (expanding d y) where
  follows a u ha := by
    obtain ⟨b, B, hy, hQ⟩ := h.follows a u ha
    refine ⟨b, B, ?_, hQ⟩
    unfold Instantiator.expanding
    rw [get_bind]
    refine (bind_of_ok rfl).trans ((bind_of_ok hy).trans ((bind_of_ok rfl).trans ?_))
    dsimp only
    rw [List.dropLast_concat]
    rfl
  fails e he := by
    unfold Instantiator.expanding
    rw [get_bind]
    exact (bind_of_ok rfl).trans (bind_of_error (h.fails e he))

theorem of_eq (h : y w = .ok (b, { w with tree := B })) (hQ : Q a B b) :
    Follows w Q (Pure.pure a) y where
  follows a' u ha := by
    cases ha
    exact ⟨b, B, h, hQ⟩
  fails _ he := by cases he

theorem of_error {e : Error} (h : y w = .error (.error e)) : Follows w Q (throw e) y where
  follows _ _ ha := by cases ha
  fails _ he := by
    cases he
    exact h

/-- What is made of the outcome of a computation is made of it behind the action. -/
theorem map_left {f : α → γ} {R : γ → Arena → β → Prop} (h : Follows w Q x y)
    (hf : ∀ a B b, Q a B b → R (f a) B b) :
    Follows w R (x >>= fun a => Pure.pure (f a)) y where
  follows c v hc := by
    obtain ⟨a, u, ha, hc⟩ := Building.bind_eq_ok.1 hc
    cases hc
    obtain ⟨b, B, hy, hQ⟩ := h.follows a v ha
    exact ⟨b, B, hy, hf a B b hQ⟩
  fails e he := by
    rcases Building.bind_eq_error.1 he with he | ⟨_, _, _, he⟩
    · exact h.fails e he
    · cases he

/-- Going through a list follows a fold if each step does. -/
theorem foldlM {f : α → δ → Building α} {g : δ → Action Unit} {I : α → Arena → Prop}
    {ds : List δ}
    (hstep : ∀ d ∈ ds, ∀ a B u, I a B →
      Follows { w with tree := B, types := u } (fun a' B' _ => I a' B') (f a d) (g d))
    (ha : I a w.tree) : Follows w (fun a' B' _ => I a' B') (ds.foldlM f a) (ds.forM g) := by
  induction ds generalizing a w with
  | nil => exact pure ha
  | cons d ds ih =>
    rw [List.foldlM_cons]
    show Follows w _ _ (g d >>= fun _ => ds.forM g)
    refine (hstep d List.mem_cons_self a w.tree w.types ha).bind fun a' B' _ u hI => ?_
    exact ih (fun d hd a B v => hstep d (List.mem_cons_of_mem _ hd) a B v) hI

end Follows

end Instantiator

end YangSchema
