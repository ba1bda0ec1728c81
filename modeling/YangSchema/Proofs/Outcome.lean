import Mathlib.Data.List.Forall2
import Mathlib.Data.List.Induction
import YangSchema.Types.Resolution

/-!
# Opening computations that can fail

Facts with which later modules take a computation apart: when a sequence of steps succeeds, when it
fails, and what the same says of computations that also keep the table of resolved typedefs.
-/

namespace YangSchema

/-- What is in the second of two lists goes with something in the first one. -/
theorem exists_mem_of_forall₂ {α β : Type} {R : α → β → Prop} {as : List α} {bs : List β} {b : β}
    (h : List.Forall₂ R as bs) (hb : b ∈ bs) : ∃ a ∈ as, R a b := by
  induction h with
  | nil => exact absurd hb List.not_mem_nil
  | cons hab _ ih =>
    rcases List.mem_cons.1 hb with rfl | hb
    · exact ⟨_, List.mem_cons_self, hab⟩
    · obtain ⟨a, ha, hR⟩ := ih hb
      exact ⟨a, List.mem_cons_of_mem _ ha, hR⟩

/-- What is left of the second list goes with a part of the first one. -/
theorem exists_sublist_of_forall₂ {α β : Type} {R : α → β → Prop} {as : List α} {bs bs' : List β}
    (h : List.Forall₂ R as bs) (hsub : bs'.Sublist bs) :
    ∃ as', as'.Sublist as ∧ List.Forall₂ R as' bs' := by
  induction hsub generalizing as with
  | slnil =>
    cases h
    exact ⟨[], .slnil, .nil⟩
  | cons b _ ih =>
    cases h with
    | cons _ hrest =>
      obtain ⟨as', hsub, has'⟩ := ih hrest
      exact ⟨as', hsub.cons _, has'⟩
  | cons_cons b _ ih =>
    cases h with
    | cons hab hrest =>
      obtain ⟨as', hsub, has'⟩ := ih hrest
      exact ⟨_ :: as', hsub.cons_cons _, .cons hab has'⟩

/-- What goes with what goes with something goes with it, too. -/
theorem forall₂_trans {α β γ : Type} {R : α → β → Prop} {S : β → γ → Prop} {T : α → γ → Prop}
    {as : List α} {bs : List β} {cs : List γ} (h : List.Forall₂ R as bs)
    (h' : List.Forall₂ S bs cs) (htrans : ∀ a b c, R a b → S b c → T a c) :
    List.Forall₂ T as cs := by
  induction h generalizing cs with
  | nil =>
    cases h'
    exact .nil
  | cons hab _ ih =>
    cases h' with
    | cons hbc hrest => exact .cons (htrans _ _ _ hab hbc) (ih hrest)

namespace Result

variable {α β : Type}

/-- A sequence succeeds exactly if both of its steps do. -/
theorem bind_eq_ok {x : Result α} {f : α → Result β} {b : β} :
    (x >>= f) = .ok b ↔ ∃ a, x = .ok a ∧ f a = .ok b := by
  cases x <;> simp [bind, Except.bind]

/-- Behind a step that succeeds, a sequence goes on with what the step gives. -/
theorem bind_eq_of_ok {x : Result α} {f : α → Result β} {a : α} (h : x = .ok a) :
    (x >>= f) = f a := by
  rw [h]
  rfl

theorem eq_ok_of_toOption {x : Result α} {a : α} (h : x.toOption = some a) : x = .ok a := by
  cases x with
  | error e => cases h
  | ok b => rw [Option.some.inj h]

/-- A sequence fails with the error of the step that fails first. -/
theorem bind_eq_error {x : Result α} {f : α → Result β} {e : Error} :
    (x >>= f) = .error e ↔ x = .error e ∨ ∃ a, x = .ok a ∧ f a = .error e := by
  cases x <;> simp [bind, Except.bind]

/-- A list of computations succeeds exactly if each of them does. -/
theorem mapM_eq_ok {f : α → Result β} {as : List α} {bs : List β} :
    as.mapM f = .ok bs ↔ List.Forall₂ (fun a b => f a = .ok b) as bs := by
  induction as generalizing bs with
  | nil =>
    rw [List.mapM_nil, List.forall₂_nil_left_iff]
    exact ⟨fun h => (Except.ok.inj h).symm, fun h => by rw [h]; rfl⟩
  | cons a as ih =>
    rw [List.mapM_cons, bind_eq_ok]
    constructor
    · rintro ⟨b, hb, h⟩
      obtain ⟨cs, hcs, h⟩ := bind_eq_ok.1 h
      rw [← Except.ok.inj h]
      exact .cons hb (ih.1 hcs)
    · rintro (_ | ⟨hb, hcs⟩)
      exact ⟨_, hb, bind_eq_ok.2 ⟨_, ih.2 hcs, rfl⟩⟩

/-- Every result of a list of computations comes from one of them. -/
theorem exists_of_mem_mapM {f : α → Result β} {as : List α} {bs : List β} {b : β}
    (h : as.mapM f = .ok bs) (hb : b ∈ bs) : ∃ a ∈ as, f a = .ok b := by
  obtain ⟨a, ha, hf⟩ := exists_mem_of_forall₂ (mapM_eq_ok.1 h) hb
  exact ⟨a, ha, hf⟩

/-- Whatever comes of one of the computations of a list is among the results. -/
theorem exists_mem_of_mapM {f : α → Result β} {as : List α} {bs : List β} {a : α}
    (h : as.mapM f = .ok bs) (ha : a ∈ as) : ∃ b ∈ bs, f a = .ok b := by
  obtain ⟨b, hb, hf⟩ := exists_mem_of_forall₂ (mapM_eq_ok.1 h).flip ha
  exact ⟨b, hb, hf⟩

/-- A list of computations succeeds if each of them does, and only then. -/
theorem exists_mapM_eq_ok {f : α → Result β} {as : List α} :
    (∃ bs, as.mapM f = .ok bs) ↔ ∀ a ∈ as, ∃ b, f a = .ok b := by
  constructor
  · rintro ⟨bs, h⟩ a ha
    obtain ⟨b, _, hb⟩ := exists_mem_of_mapM h ha
    exact ⟨b, hb⟩
  · intro h
    induction as with
    | nil => exact ⟨[], rfl⟩
    | cons a as ih =>
      obtain ⟨b, hb⟩ := h a List.mem_cons_self
      obtain ⟨bs, hbs⟩ := ih fun a ha => h a (List.mem_cons_of_mem _ ha)
      exact ⟨b :: bs, mapM_eq_ok.2 (.cons hb (mapM_eq_ok.1 hbs))⟩

/-- What the steps for all elements of a list keep is kept by going through the list. -/
theorem foldlM_invariant_of_mem {f : β → α → Result β} {P : β → Prop} {as : List α} {b c : β}
    (hstep : ∀ a ∈ as, ∀ b b', P b → f b a = .ok b' → P b') (hb : P b)
    (h : as.foldlM f b = .ok c) : P c := by
  induction as generalizing b with
  | nil =>
    cases h
    exact hb
  | cons a as ih =>
    obtain ⟨ha, has⟩ := List.forall_mem_cons.1 hstep
    rw [List.foldlM_cons] at h
    obtain ⟨b', hb', h⟩ := bind_eq_ok.1 h
    exact ih has (ha b b' hb hb') h

/-- What every step keeps is kept by going through a list. -/
theorem foldlM_invariant {f : β → α → Result β} {P : β → Prop}
    (hstep : ∀ b a b', P b → f b a = .ok b' → P b') {as : List α} {b c : β} (hb : P b)
    (h : as.foldlM f b = .ok c) : P c :=
  foldlM_invariant_of_mem (fun a _ b b' => hstep b a b') hb h

/-- A list of checks is passed exactly if each of them is. -/
theorem forM_eq_ok {f : α → Result Unit} {as : List α} :
    as.forM f = .ok () ↔ ∀ a ∈ as, f a = .ok () := by
  induction as with
  | nil => exact ⟨fun _ a ha => absurd ha List.not_mem_nil, fun _ => rfl⟩
  | cons a as ih =>
    show (f a >>= fun _ => as.forM f) = .ok () ↔ _
    rw [bind_eq_ok, List.forall_mem_cons, ← ih]
    exact ⟨fun ⟨_, ha, h⟩ => ⟨ha, h⟩, fun ⟨ha, h⟩ => ⟨(), ha, h⟩⟩

/-! ### Errors -/

/-- All errors of a computation satisfy a condition. -/
def FailsWith (P : Error → Prop) (x : Result α) : Prop := ∀ e, x = .error e → P e

variable {P : Error → Prop}

theorem FailsWith.ok (a : α) : FailsWith P (.ok a) := fun _ h => by cases h

theorem FailsWith.error {e : Error} (he : P e) : FailsWith P (.error e : Result α) :=
  fun _ h => Except.error.inj h ▸ he

theorem FailsWith.mono {Q : Error → Prop} {x : Result α} (h : FailsWith P x)
    (hPQ : ∀ {e}, P e → Q e) : FailsWith Q x := fun e he => hPQ (h e he)

theorem FailsWith.bind_of_ok {x : Result α} {f : α → Result β} (hx : FailsWith P x)
    (hf : ∀ a, x = .ok a → FailsWith P (f a)) : FailsWith P (x >>= f) := by
  intro e h
  rcases bind_eq_error.1 h with h | ⟨a, ha, h⟩
  · exact hx e h
  · exact hf a ha e h

theorem FailsWith.bind {x : Result α} {f : α → Result β} (hx : FailsWith P x)
    (hf : ∀ a, FailsWith P (f a)) : FailsWith P (x >>= f) := hx.bind_of_ok fun a _ => hf a

theorem FailsWith.mapM {f : α → Result β} (hf : ∀ a, FailsWith P (f a)) (as : List α) :
    FailsWith P (as.mapM f) := by
  induction as with
  | nil => exact .ok []
  | cons a as ih =>
    rw [List.mapM_cons]
    exact (hf a).bind fun b => ih.bind fun bs => .ok (b :: bs)

/-- Where every step keeps a condition, the errors are those of steps where it holds. -/
theorem FailsWith.foldlM_of_invariant {f : β → α → Result β} {Q : β → Prop} {as : List α} {b : β}
    (hf : ∀ a ∈ as, ∀ b, Q b → FailsWith P (f b a) ∧ ∀ c, f b a = .ok c → Q c) (hb : Q b) :
    FailsWith P (as.foldlM f b) := by
  induction as generalizing b with
  | nil => exact .ok b
  | cons a as ih =>
    rw [List.foldlM_cons]
    obtain ⟨hfails, hkeeps⟩ := hf a List.mem_cons_self b hb
    exact hfails.bind_of_ok fun c hc =>
      ih (fun x hx => hf x (List.mem_cons_of_mem a hx)) (hkeeps c hc)

theorem FailsWith.foldlM {f : β → α → Result β} (hf : ∀ b a, FailsWith P (f b a)) (as : List α)
    (b : β) : FailsWith P (as.foldlM f b) :=
  .foldlM_of_invariant (Q := fun _ => True) (fun a _ b _ => ⟨hf b a, fun _ _ => trivial⟩) trivial

end Result

/-! ## Computations with a table -/

namespace Building

variable {α β : Type}

/-- What only can fail leaves the table as it is. -/
theorem lift_eq_ok {x : Result α} {t u : TypeTable} {a : α} :
    (liftM x : Building α) t = .ok (a, u) ↔ x = .ok a ∧ t = u := by
  cases x with
  | error e => simp [liftM, monadLift, MonadLift.monadLift, StateT.lift, bind, Except.bind]
  | ok b =>
    simp [liftM, monadLift, MonadLift.monadLift, StateT.lift, bind, Except.bind, pure,
      Except.pure]

theorem lift_eq_error {x : Result α} {t : TypeTable} {e : Error} :
    (liftM x : Building α) t = .error e ↔ x = .error e := by
  cases x <;>
    simp [liftM, monadLift, MonadLift.monadLift, StateT.lift, bind, Except.bind, pure,
      Except.pure]

theorem lift_bind (x : Result α) (f : α → Result β) :
    (liftM (x >>= f) : Building β) = liftM x >>= fun a => liftM (f a) := by
  cases x <;> rfl

theorem lift_foldlM (f : β → α → Result β) (as : List α) (b : β) :
    (liftM (as.foldlM f b) : Building β) = as.foldlM (fun b a => liftM (f b a)) b := by
  induction as generalizing b with
  | nil => rfl
  | cons a as ih =>
    rw [List.foldlM_cons, List.foldlM_cons, lift_bind]
    exact bind_congr ih

/-- A sequence succeeds exactly if its first step does and the second one does from the table
that the first one leaves. -/
theorem bind_eq_ok {x : Building α} {f : α → Building β} {t : TypeTable} {r : β × TypeTable} :
    (x >>= f) t = .ok r ↔ ∃ a u, x t = .ok (a, u) ∧ f a u = .ok r := by
  show (x t >>= fun p => f p.1 p.2) = .ok r ↔ _
  rw [Result.bind_eq_ok, Prod.exists]

theorem bind_eq_error {x : Building α} {f : α → Building β} {t : TypeTable} {e : Error} :
    (x >>= f) t = .error e ↔ x t = .error e ∨ ∃ a u, x t = .ok (a, u) ∧ f a u = .error e := by
  show (x t >>= fun p => f p.1 p.2) = .error e ↔ _
  rw [Result.bind_eq_error, Prod.exists]

/-- All errors of a computation satisfy a condition, whatever the table. -/
def FailsWith (P : Error → Prop) (x : Building α) : Prop := ∀ t, (x t).FailsWith P

variable {P : Error → Prop}

theorem FailsWith.pure (a : α) : FailsWith P (Pure.pure a) := fun _ => .ok _

theorem FailsWith.lift {x : Result α} (hx : x.FailsWith P) : FailsWith P (liftM x : Building α) :=
  fun _ e h => hx e (lift_eq_error.1 h)

theorem FailsWith.bind_of_ok {x : Building α} {f : α → Building β} (hx : FailsWith P x)
    (hf : ∀ a t u, x t = .ok (a, u) → FailsWith P (f a)) : FailsWith P (x >>= f) := by
  intro t e h
  rcases bind_eq_error.1 h with h | ⟨a, u, ha, h⟩
  · exact hx t e h
  · exact hf a t u ha u e h

theorem FailsWith.bind {x : Building α} {f : α → Building β} (hx : FailsWith P x)
    (hf : ∀ a, FailsWith P (f a)) : FailsWith P (x >>= f) := hx.bind_of_ok fun a _ _ _ => hf a

/-! ### Going through a list -/

/-- Going through `as` from the table `t` comes to the element `a` with the table `u`: all elements
before have been done. -/
def Comes (f : α → Building β) (as : List α) (t : TypeTable) (a : α) (u : TypeTable) : Prop :=
  ∃ before after bs, as = before ++ a :: after ∧ before.mapM f t = .ok (bs, u)

variable {f : α → Building β} {as : List α} {t u : TypeTable} {a : α}

/-- If all of a list can be done, then so can each element to which it comes, and what is left. -/
theorem Comes.of_ok {bs : List β} {v : TypeTable} (h : Comes f as t a u)
    (hok : as.mapM f t = .ok (bs, v)) :
    ∃ (b : β) (w : TypeTable) (after : List α) (cs : List β),
      f a u = .ok (b, w) ∧ after.mapM f w = .ok (cs, v) := by
  obtain ⟨before, after, ds, rfl, hbefore⟩ := h
  rw [List.mapM_append, List.mapM_cons] at hok
  obtain ⟨_, _, h₁, hok⟩ := bind_eq_ok.1 hok
  obtain ⟨rfl, rfl⟩ := Prod.mk.inj (Except.ok.inj (hbefore.symm.trans h₁))
  obtain ⟨_, _, h₂, hok⟩ := bind_eq_ok.1 hok
  obtain ⟨_, rfl⟩ := Prod.mk.inj (Except.ok.inj hok)
  obtain ⟨b, w, ha, h₂⟩ := bind_eq_ok.1 h₂
  obtain ⟨cs, _, hafter, h₂⟩ := bind_eq_ok.1 h₂
  obtain ⟨_, rfl⟩ := Prod.mk.inj (Except.ok.inj h₂)
  exact ⟨b, w, after, cs, ha, hafter⟩

theorem Comes.mem (h : Comes f as t a u) : a ∈ as := by
  obtain ⟨before, after, _, rfl, _⟩ := h
  exact List.mem_append_right _ List.mem_cons_self

/-- If all of a list can be done, it comes to each of its elements. -/
theorem exists_comes {r : List β × TypeTable} (hok : as.mapM f t = .ok r) (ha : a ∈ as) :
    ∃ u, Comes f as t a u := by
  obtain ⟨before, after, rfl⟩ := List.append_of_mem ha
  rw [List.mapM_append] at hok
  obtain ⟨bs, u, hbefore, _⟩ := bind_eq_ok.1 hok
  exact ⟨u, before, after, bs, rfl, hbefore⟩

/-- Every result of a list comes from one of its elements. -/
theorem exists_of_mem_mapM {bs : List β} {b : β} (hok : as.mapM f t = .ok (bs, u)) (hb : b ∈ bs) :
    ∃ a ∈ as, ∃ v w, f a v = .ok (b, w) := by
  induction as generalizing t bs with
  | nil =>
    cases hok
    exact absurd hb List.not_mem_nil
  | cons a as ih =>
    rw [List.mapM_cons] at hok
    obtain ⟨c, v, hc, hok⟩ := bind_eq_ok.1 hok
    obtain ⟨cs, w, hcs, hreturn⟩ := bind_eq_ok.1 hok
    cases hreturn
    rcases List.mem_cons.1 hb with rfl | hb
    · exact ⟨a, List.mem_cons_self, t, v, hc⟩
    · obtain ⟨d, hd, hfd⟩ := ih hcs hb
      exact ⟨d, List.mem_cons_of_mem a hd, hfd⟩

/-- Whatever comes of an element of a list is among the results. -/
theorem exists_mem_of_mapM {bs : List β} (hok : as.mapM f t = .ok (bs, u)) (ha : a ∈ as) :
    ∃ b ∈ bs, ∃ v w, f a v = .ok (b, w) := by
  induction as generalizing t bs with
  | nil => exact absurd ha List.not_mem_nil
  | cons c as ih =>
    rw [List.mapM_cons] at hok
    obtain ⟨b, v, hc, hok⟩ := bind_eq_ok.1 hok
    obtain ⟨cs, w, hcs, hreturn⟩ := bind_eq_ok.1 hok
    cases hreturn
    rcases List.mem_cons.1 ha with rfl | ha
    · exact ⟨b, List.mem_cons_self, t, v, hc⟩
    · obtain ⟨b', hb', hfb⟩ := ih hcs ha
      exact ⟨b', List.mem_cons_of_mem b hb', hfb⟩

/-- A list can be done in two ways alike if each of its elements can. -/
theorem mapM_congr {f' : α → Building β} (h : ∀ a ∈ as, f a = f' a) : as.mapM f = as.mapM f' := by
  induction as with
  | nil => rfl
  | cons a as ih =>
    rw [List.mapM_cons, List.mapM_cons, h a List.mem_cons_self,
      ih fun b hb => h b (List.mem_cons_of_mem a hb)]

/-- If a list cannot be done, it comes to an element that cannot. -/
theorem comes_of_error {e : Error} (h : as.mapM f t = .error e) :
    ∃ a u, Comes f as t a u ∧ f a u = .error e := by
  induction as generalizing t with
  | nil => cases h
  | cons a as ih =>
    rw [List.mapM_cons] at h
    rcases bind_eq_error.1 h with h | ⟨b, u, ha, h⟩
    · exact ⟨a, t, ⟨[], as, [], rfl, rfl⟩, h⟩
    · rcases bind_eq_error.1 h with h | ⟨bs, v, _, h⟩
      · obtain ⟨c, v, ⟨before, after, bs, rfl, hbefore⟩, herror⟩ := ih h
        refine ⟨c, v, ⟨a :: before, after, b :: bs, rfl, ?_⟩, herror⟩
        rw [List.mapM_cons]
        exact bind_eq_ok.2 ⟨b, u, ha, bind_eq_ok.2 ⟨bs, v, hbefore, rfl⟩⟩
      · cases h

/-- Going through `as` from the value `b` and the table `t` comes to the element `a` with the value
`c` and the table `u`. -/
def ComesFrom (f : β → α → Building β) (as : List α) (b : β) (t : TypeTable) (a : α) (c : β)
    (u : TypeTable) : Prop :=
  ∃ before after, as = before ++ a :: after ∧ before.foldlM f b t = .ok (c, u)

variable {g : β → α → Building β} {b c : β}

theorem ComesFrom.of_ok {d : β} {v : TypeTable} (h : ComesFrom g as b t a c u)
    (hok : as.foldlM g b t = .ok (d, v)) :
    ∃ (b' : β) (w : TypeTable) (after : List α),
      g c a u = .ok (b', w) ∧ after.foldlM g b' w = .ok (d, v) := by
  obtain ⟨before, after, rfl, hbefore⟩ := h
  rw [List.foldlM_append] at hok
  obtain ⟨_, _, h₁, hok⟩ := bind_eq_ok.1 hok
  obtain ⟨rfl, rfl⟩ := Prod.mk.inj (Except.ok.inj (hbefore.symm.trans h₁))
  rw [List.foldlM_cons] at hok
  obtain ⟨b', w, ha, hafter⟩ := bind_eq_ok.1 hok
  exact ⟨b', w, after, ha, hafter⟩

theorem ComesFrom.mem (h : ComesFrom g as b t a c u) : a ∈ as := by
  obtain ⟨before, after, rfl, _⟩ := h
  exact List.mem_append_right _ List.mem_cons_self

theorem exists_comesFrom {r : β × TypeTable} (hok : as.foldlM g b t = .ok r) (ha : a ∈ as) :
    ∃ c u, ComesFrom g as b t a c u := by
  obtain ⟨before, after, rfl⟩ := List.append_of_mem ha
  rw [List.foldlM_append] at hok
  obtain ⟨c, u, hbefore, _⟩ := bind_eq_ok.1 hok
  exact ⟨c, u, before, after, rfl, hbefore⟩

/-- What every step keeps is kept by going through a list. -/
theorem foldlM_invariant {P : β → Prop}
    (hstep : ∀ b, ∀ a ∈ as, ∀ b' t u, P b → g b a t = .ok (b', u) → P b') (hb : P b)
    (h : as.foldlM g b t = .ok (c, u)) : P c := by
  induction as generalizing b t with
  | nil =>
    cases h
    exact hb
  | cons a as ih =>
    rw [List.foldlM_cons] at h
    obtain ⟨b', v, ha, h⟩ := bind_eq_ok.1 h
    exact ih (fun b x hx => hstep b x (List.mem_cons_of_mem a hx))
      (hstep b a List.mem_cons_self b' t v hb ha) h

theorem foldlM_congr {g' : β → α → Building β} (h : ∀ a ∈ as, ∀ b, g b a = g' b a) (b : β) :
    as.foldlM g b = as.foldlM g' b := by
  induction as generalizing b with
  | nil => rfl
  | cons a as ih =>
    rw [List.foldlM_cons, List.foldlM_cons, h a List.mem_cons_self]
    exact bind_congr fun c => ih (fun x hx => h x (List.mem_cons_of_mem a hx)) c

theorem comesFrom_of_error {e : Error} (h : as.foldlM g b t = .error e) :
    ∃ a c u, ComesFrom g as b t a c u ∧ g c a u = .error e := by
  induction as generalizing b t with
  | nil => cases h
  | cons a as ih =>
    rw [List.foldlM_cons] at h
    rcases bind_eq_error.1 h with h | ⟨b', u, ha, h⟩
    · exact ⟨a, b, t, ⟨[], as, rfl, rfl⟩, h⟩
    · obtain ⟨x, c, v, ⟨before, after, rfl, hbefore⟩, herror⟩ := ih h
      refine ⟨x, c, v, ⟨a :: before, after, rfl, ?_⟩, herror⟩
      rw [List.foldlM_cons]
      exact bind_eq_ok.2 ⟨b', u, ha, hbefore⟩

theorem FailsWith.mapM (hf : ∀ a ∈ as, FailsWith P (f a)) :
    FailsWith P (as.mapM f) := by
  intro t e h
  obtain ⟨a, u, hcomes, ha⟩ := comes_of_error h
  exact hf a hcomes.mem u e ha

theorem FailsWith.foldlM (hg : ∀ a ∈ as, ∀ b, FailsWith P (g b a)) (b : β) :
    FailsWith P (as.foldlM g b) := by
  intro t e h
  obtain ⟨a, c, u, hcomes, ha⟩ := comesFrom_of_error h
  exact hg a hcomes.mem c u e ha

/-! ### The table -/

/-- A computation keeps what holds of the table: where it held before, it holds of the table that is
left. -/
def Keeps (Q : TypeTable → Prop) (x : Building α) : Prop :=
  ∀ t a u, Q t → x t = .ok (a, u) → Q u

namespace Keeps

variable {Q : TypeTable → Prop}

theorem pure (a : α) : Keeps Q (Pure.pure a) := by
  intro t b u ht h
  cases h
  exact ht

theorem lift (x : Result α) : Keeps Q (liftM x : Building α) := by
  intro t a u ht h
  obtain ⟨_, rfl⟩ := lift_eq_ok.1 h
  exact ht

theorem bind {x : Building α} {f : α → Building β} (hx : Keeps Q x) (hf : ∀ a, Keeps Q (f a)) :
    Keeps Q (x >>= f) := by
  intro t b v ht h
  obtain ⟨a, u, hxt, hfu⟩ := bind_eq_ok.1 h
  exact hf a u b v (hx t a u ht hxt) hfu

theorem mapM (h : ∀ a ∈ as, Keeps Q (f a)) : Keeps Q (as.mapM f) := by
  induction as with
  | nil => exact .pure []
  | cons a as ih =>
    rw [List.mapM_cons]
    refine (h a List.mem_cons_self).bind fun b => ?_
    refine (ih fun c hc => h c (List.mem_cons_of_mem a hc)).bind fun bs => ?_
    exact .pure (b :: bs)

end Keeps

section Holds

variable {Q : TypeTable → Prop}

/-- What every element keeps to which a list comes holds behind each beginning of the list. -/
theorem holds_of_mapM_prefix
    (hstep : ∀ a u b v, Comes f as t a u → Q u → f a u = .ok (b, v) → Q v) (ht : Q t)
    {before after : List α} {bs : List β} (has : as = before ++ after)
    (h : before.mapM f t = .ok (bs, u)) : Q u := by
  induction before using List.reverseRecOn generalizing after bs u with
  | nil =>
    cases h
    exact ht
  | append_singleton before a ih =>
    rw [List.append_assoc, List.singleton_append] at has
    rw [List.mapM_append, List.mapM_cons, List.mapM_nil] at h
    obtain ⟨cs, v, hbefore, h⟩ := bind_eq_ok.1 h
    obtain ⟨_, _, h, hreturn⟩ := bind_eq_ok.1 h
    cases hreturn
    obtain ⟨b, w, ha, hreturn⟩ := bind_eq_ok.1 h
    cases hreturn
    exact hstep a v b _ ⟨before, after, cs, has, hbefore⟩ (ih has hbefore) ha

theorem Comes.holds (hstep : ∀ a u b v, Comes f as t a u → Q u → f a u = .ok (b, v) → Q v)
    (ht : Q t) (h : Comes f as t a u) : Q u := by
  obtain ⟨before, after, bs, has, hbefore⟩ := h
  exact holds_of_mapM_prefix hstep ht has hbefore

/-- And so it holds when all of the list has been done. -/
theorem holds_of_mapM (hstep : ∀ a u b v, Comes f as t a u → Q u → f a u = .ok (b, v) → Q v)
    (ht : Q t) {bs : List β} (h : as.mapM f t = .ok (bs, u)) : Q u :=
  holds_of_mapM_prefix hstep ht (List.append_nil as).symm h

theorem holds_of_foldlM_prefix
    (hstep : ∀ a c u c' v, ComesFrom g as b t a c u → Q u → g c a u = .ok (c', v) → Q v)
    (ht : Q t) {before after : List α} (has : as = before ++ after)
    (h : before.foldlM g b t = .ok (c, u)) : Q u := by
  induction before using List.reverseRecOn generalizing after c u with
  | nil =>
    cases h
    exact ht
  | append_singleton before a ih =>
    rw [List.append_assoc, List.singleton_append] at has
    rw [List.foldlM_append] at h
    obtain ⟨c', v, hbefore, h⟩ := bind_eq_ok.1 h
    rw [List.foldlM_cons] at h
    obtain ⟨c'', w, ha, hreturn⟩ := bind_eq_ok.1 h
    cases hreturn
    exact hstep a c' v _ _ ⟨before, after, has, hbefore⟩ (ih has hbefore) ha

theorem ComesFrom.holds
    (hstep : ∀ a c u c' v, ComesFrom g as b t a c u → Q u → g c a u = .ok (c', v) → Q v)
    (ht : Q t) (h : ComesFrom g as b t a c u) : Q u := by
  obtain ⟨before, after, has, hbefore⟩ := h
  exact holds_of_foldlM_prefix hstep ht has hbefore

theorem holds_of_foldlM
    (hstep : ∀ a c u c' v, ComesFrom g as b t a c u → Q u → g c a u = .ok (c', v) → Q v)
    (ht : Q t) (h : as.foldlM g b t = .ok (c, u)) : Q u :=
  holds_of_foldlM_prefix hstep ht (List.append_nil as).symm h

end Holds

end Building

end YangSchema
