import Mathlib.Data.List.Chain
import Mathlib.Data.List.TakeWhile
import YangSchema.Proofs.Copying

/-!
# Definitions that are being worked on

Groupings and typedefs are entered one in another, and those that have been entered are kept. They
are different ones (`Definition.Stacked`), so that there are no more of them than the model has, and
where there are as many, each one that is met is among them. One that is met again closes a cycle of
whatever relation has led from each of them to the next one (`Definition.exists_cycle`).
-/

namespace YangSchema

namespace Definition

open Expansion (entry)

variable {model : DeclaredModel} {kind : Kind} {pending : List Pending} {g : Definition}

/-- The definitions that are being worked on are different ones of a kind. -/
structure Stacked (model : DeclaredModel) (kind : Kind) (pending : List Pending) : Prop where
  distinct : (pending.map (·.1)).Nodup
  known : pending.map (·.1) ⊆ keys model kind

namespace Stacked

theorem nil : Stacked model kind [] := ⟨List.nodup_nil, List.nil_subset _⟩

/-- A definition can be entered that is not being worked on. -/
theorem push (hp : Stacked model kind pending) (hg : g.Valid model kind)
    (hnot : ¬ g.isPending pending = true) : Stacked model kind (pending ++ [entry g]) := by
  rw [isPending_iff] at hnot
  constructor
  · rw [List.map_append, List.nodup_append]
    refine ⟨hp.distinct, List.nodup_singleton _, ?_⟩
    rintro key hkey _ hmem rfl
    rw [List.map_cons, List.map_nil, List.mem_singleton] at hmem
    rw [hmem] at hkey
    exact hnot hkey
  · rw [List.map_append]
    intro key hkey
    rcases List.mem_append.1 hkey with hkey | hkey
    · exact hp.known hkey
    · rw [List.map_cons, List.map_nil, List.mem_singleton] at hkey
      exact hkey ▸ hg.key_mem

theorem length_le (hp : Stacked model kind pending) : pending.length ≤ model.countOfKind kind := by
  have hlen := length_le_countOfKind hp.distinct hp.known
  rwa [List.length_map] at hlen

/-- Where all definitions are being worked on, each of them is. -/
theorem isPending_of_full (hp : Stacked model kind pending) (hg : g.Valid model kind)
    (hfull : model.countOfKind kind ≤ pending.length) : g.isPending pending = true := by
  rw [isPending_iff]
  refine hg.key_mem_of_length hp.distinct hp.known ?_
  rwa [List.length_map]

end Stacked

/-- A definition that is met while it is being worked on closes a cycle, and this is what the names
say that are reported. -/
theorem exists_cycle {r : Definition → Definition → Prop} {gs : List Definition}
    (hchain : (gs ++ [g]).IsChain r) (hpending : g.isPending (gs.map entry) = true) :
    ∃ first middle, first ∈ gs ∧ first.key = g.key
      ∧ g.cycle (gs.map entry) = (first :: (middle ++ [g])).map qualifiedName
      ∧ (first :: (middle ++ [g])).IsChain r := by
  rw [isPending_iff, List.map_map] at hpending
  obtain ⟨x, hx, hkey⟩ := List.mem_map.1 hpending
  change x.key = g.key at hkey
  -- the reported names start at the pending definition that has the key of `g`
  cases hdrop : gs.dropWhile fun y => y.key ≠ g.key with
  | nil =>
    have hall := List.dropWhile_eq_nil_iff.1 hdrop x hx
    exact absurd hkey (by simpa using hall)
  | cons first middle =>
    have hsuffix : (first :: middle) <:+ gs := hdrop ▸ List.dropWhile_suffix _
    have hfirst : first.key = g.key := by
      have hhead := List.head?_dropWhile_not (fun y : Definition => y.key ≠ g.key) gs
      rw [hdrop] at hhead
      simpa using hhead
    refine ⟨first, middle, hsuffix.subset List.mem_cons_self, hfirst, ?_, ?_⟩
    · unfold cycle
      rw [List.dropWhile_map]
      show ((gs.dropWhile fun y => y.key ≠ g.key).map entry).map (·.2) ++ [g.qualifiedName] = _
      rw [hdrop, List.map_map, ← List.cons_append, List.map_append]
      rfl
    · rw [← List.cons_append]
      obtain ⟨before, hbefore⟩ := hsuffix
      exact hchain.suffix ⟨before, by rw [← List.append_assoc, hbefore]⟩

end Definition

end YangSchema
