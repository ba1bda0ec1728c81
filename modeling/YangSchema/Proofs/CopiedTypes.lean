import YangSchema.Proofs.Occurrences
import YangSchema.Proofs.TypeNarrowing

/-!
# The types of what is copied

While a module is instantiated the table of resolved typedefs goes from one `type` statement to the
next. What resolving these statements keeps of the table holds whenever a statement comes to be
copied (`Copies.holds_of_calls`), so the tables with which statements come to be copied are such as
resolving types leaves (`Copies.reachable`). Hence the type of every statement that is copied is
derived along a chain of types that narrow each other (`Copies.exists_derivation`).
-/

namespace YangSchema

open Building (Comes Keeps Replays)
open EffectiveType (Derivation Reachable)

namespace Expansion

variable {e : Expansion} {s : DeclaredSource} {isMember : Bool} {scope : Scope}
  {Q : TypeTable → Prop} {k : Manner} {d : Declaration} {g : Definition} {t u v : TypeTable}
  {nodes : List Node} {ty : EffectiveType}

/-- Resolving the `type` statements that come to be copied keeps what holds of the table. -/
def CallsKeep (e : Expansion) (Q : TypeTable → Prop) : Prop :=
  ∀ k d t, Copies e k d t → d.is .type = true → k.isMember = false →
    Keeps Q (EffectiveType.resolve e.model k.source k.scope d)

theorem Copies.typeOf_keeps (hcalls : e.CallsKeep Q) (h : Copies e k d t) :
    Keeps Q (e.typeOf k.source k.scope k.isMember d) := by
  unfold typeOf
  split
  · rename_i htype
    rw [Bool.and_eq_true, Bool.not_eq_true'] at htype
    exact (hcalls k d t h htype.1 htype.2).bind fun type => .pure _
  · exact .pure none

/-- Expanding a grouping keeps what copying its content does. -/
theorem Copies.ofGrouping_keeps (h : Copies e k d t) (huses : IsUses d)
    (hresolve : Definition.resolve e.model k.source .grouping d.label k.scope = .ok g)
    (hcontent : ∀ depth c w parts x, k.depth = depth + 1 →
      Copies e (k.content depth g) c w → Q w →
      (k.content depth g).copy e c w = .ok (parts, x) → Q x)
    (ht : Q t) (hok : e.ofGrouping k.depth k.pending ⟨k.source.id, d.label.location, g⟩ t
      = .ok (nodes, u)) : Q u := by
  obtain ⟨depth, parts, hdepth, hnot, hparts, _⟩ := Manner.mapM_of_ofGrouping_ok hok
  refine Building.holds_of_mapM (fun c w part x hcomes hw hcopy => ?_) ht hparts
  exact hcontent depth c w part x hdepth (.content h huses hresolve hdepth hnot hcomes) hw hcopy

/-- Copying keeps of the table what resolving the `type` statements keeps that are copied. -/
theorem Copies.copy_keeps (hcalls : e.CallsKeep Q) (h : Copies e k d t) (ht : Q t)
    (hok : k.copy e d t = .ok (nodes, u)) : Q u := by
  induction k, d using Manner.induct generalizing t nodes u with
  | step k d ihcontent ihbelow ihadded =>
    by_cases huses : IsUses d
    · obtain ⟨g, brought, v, refined, hresolve, hbrought, hrefined, haugments⟩ :=
        steps_of_uses huses hok
      have hv : Q v := h.ofGrouping_keeps huses hresolve
        (fun n c w parts x hn hcopies hw hcopy => ihcontent n g c hn hcopies hw hcopy) ht hbrought
      refine Building.holds_of_foldlM (fun a changed w changed' x hfrom hw ha => ?_) hv haugments
      obtain ⟨target, added, htarget, hadded⟩ := steps_of_augmentOne ha
      obtain ⟨parts, hparts, _⟩ := copyAll_eq_ok.1 hadded
      refine Building.holds_of_mapM (fun c y part z hcomes hy hcopy => ?_) hw hparts
      have hcopies : Copies e (k.added a) c y :=
        .added h huses hresolve hbrought hrefined hfrom htarget hcomes
      have hamem := (List.mem_filter.1 hfrom.mem).1
      have hcmem := (List.mem_filter.1 hcomes.mem).1
      exact ihadded a hamem c hcmem hcopies hy hcopy
    · obtain ⟨type, v, parts, htype, hparts, _⟩ := Manner.mapM_of_not_uses huses hok
      have hv : Q v := h.typeOf_keeps hcalls t type v ht htype
      refine Building.holds_of_mapM (fun c w part x hcomes hw hcopy => ?_) hv hparts
      exact ihbelow c hcomes.mem (.under h huses htype hcomes) hw hcopy

/-- What resolving the `type` statements that are copied keeps holds whenever a statement comes to
be copied. -/
theorem Copies.holds_of_calls (hcalls : e.CallsKeep Q) (hempty : Q []) (h : Copies e k d t) :
    Q t := by
  induction h with
  | @top s d t u hsource hcomes =>
    have ht : Q t := by
      refine hsource.holds (fun s' w nodes x hsource' hw hok => ?_) hempty
      obtain ⟨parts, hparts, _⟩ := copyAll_eq_ok.1 hok
      exact Building.holds_of_mapM (fun c y part z hcomes' hy hcopy =>
        Copies.copy_keeps hcalls (.top hsource' hcomes') hy hcopy) hw hparts
    exact hcomes.holds (fun c y part z hcomes' hy hcopy =>
      Copies.copy_keeps hcalls (.top hsource hcomes') hy hcopy) ht
  | under h hnot htype hcomes ih =>
    have hbefore := h.typeOf_keeps hcalls _ _ _ ih htype
    exact hcomes.holds (fun c y part z hcomes' hy hcopy =>
      Copies.copy_keeps hcalls (.under h hnot htype hcomes') hy hcopy) hbefore
  | content h huses hresolve hdepth hnot hcomes ih =>
    exact hcomes.holds (fun c y part z hcomes' hy hcopy =>
      Copies.copy_keeps hcalls (.content h huses hresolve hdepth hnot hcomes') hy hcopy) ih
  | @added k d a c g nodes refined changed target t u v w h huses hresolve hbrought hrefined hfrom
      htarget hcomes ih =>
    have hu : Q u := h.ofGrouping_keeps huses hresolve
      (fun n c w parts x _ hcopies hw hcopy => hcopies.copy_keeps hcalls hw hcopy) ih hbrought
    have hv : Q v := by
      refine hfrom.holds (fun a' changed' w' changed'' x hfrom' hw ha => ?_) hu
      obtain ⟨target', added, htarget', hadded⟩ := steps_of_augmentOne ha
      obtain ⟨parts, hparts, _⟩ := copyAll_eq_ok.1 hadded
      exact Building.holds_of_mapM (fun c y part z hcomes' hy hcopy => Copies.copy_keeps hcalls
        (.added h huses hresolve hbrought hrefined hfrom' htarget' hcomes') hy hcopy) hw hparts
    exact hcomes.holds (fun c y part z hcomes' hy hcopy => Copies.copy_keeps hcalls
      (.added h huses hresolve hbrought hrefined hfrom htarget hcomes') hy hcopy) hv

/-- Every table with which a statement comes to be copied is one that resolving types leaves. -/
theorem Copies.reachable (h : Copies e k d t) : Reachable e.model t :=
  h.holds_of_calls (fun _ _ _ _ _ _ _ _ _ ht hresolve => .statement ht hresolve) .empty

/-- A statement with a type is a `type` statement, which is then resolved. -/
theorem typeOf_eq_some (h : e.typeOf s scope isMember d t = .ok (some ty, u)) :
    ¬ IsUses d ∧ EffectiveType.resolve e.model s scope d t = .ok (ty, u) := by
  unfold typeOf at h
  split at h
  · rename_i htype
    obtain ⟨_, _, hresolve, hreturn⟩ := Building.bind_eq_ok.1 h
    cases hreturn
    rw [Bool.and_eq_true] at htype
    exact ⟨not_isUses_of_binding (Declaration.is_iff.1 htype.1) (by decide), hresolve⟩
  · cases h

/-- Where a module is instantiated, the type of every statement that is copied is derived along a
chain of types that narrow each other, all of which are known at the end. -/
theorem Copies.exists_derivation (hok : e.nodes [] = .ok (nodes, v)) (h : Copies e k d t)
    (htype : e.typeOf k.source k.scope k.isMember d t = .ok (some ty, u)) :
    ∃ chain, Derivation e.model v k.source k.scope d ty chain := by
  obtain ⟨hnot, hresolve⟩ := typeOf_eq_some htype
  obtain ⟨chain, hderivation⟩ := EffectiveType.exists_derivation
    (fun d t dt u ht hdt => ⟨ht.ofDefinition hdt, (EffectiveType.known_of_ofDefinition_ok hdt).2⟩)
    h.reachable.sound hresolve
  -- what the substatements resolve and what is copied later is known besides
  obtain ⟨_, w, hcopied, hwv⟩ := h.succeeds hok
  obtain ⟨_, _, parts, htype', hparts, _⟩ := Manner.mapM_of_not_uses hnot hcopied
  cases htype.symm.trans htype'
  have huw := (Replays.mapM (fun c _ => (k.below d).copy_replays c) u parts w hparts).1
  exact ⟨chain, hderivation.mono (huw.trans hwv)⟩

end Expansion

end YangSchema
