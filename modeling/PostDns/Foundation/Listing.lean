/-
Lists of the keys of a finite map.

The values read along such a list do not depend on its order, and an update of the map
exchanges the old value under its key for the new one.
-/

import Mathlib.Data.List.Nodup
import Mathlib.Data.List.Perm.Basic
import Mathlib.Logic.Function.Basic

namespace PostDns.Foundation

variable {κ β : Type}

/-- The keys that the map has a value for, each once. -/
structure Listing (keys : List κ) (map : κ → Option β) : Prop where
  nodup : keys.Nodup
  mem : ∀ key, key ∈ keys ↔ (map key).isSome

namespace Listing

variable {keys keys' : List κ} {map map' : κ → Option β}

/-- Two listings of the same keys agree up to their order. -/
theorem perm (listing : Listing keys map) (listing' : Listing keys' map')
    (same : ∀ key, (map' key).isSome = (map key).isSome) : keys.Perm keys' := by
  rw [List.perm_ext_iff_of_nodup listing.nodup listing'.nodup]
  intro key
  rw [listing.mem, listing'.mem, same]

variable [DecidableEq κ]

/-- The value under one key stands in front of the others. -/
theorem values_split (listing : Listing keys map) (key : κ) :
    (keys.filterMap map).Perm ((map key).toList ++ (keys.erase key).filterMap map) := by
  cases hValue : map key with
  | none =>
      have outside : key ∉ keys := by
        rw [listing.mem, hValue]
        exact Bool.false_ne_true
      rw [List.erase_of_not_mem outside]
      exact List.Perm.refl _
  | some value =>
      have inside : key ∈ keys := by
        rw [listing.mem, hValue]
        rfl
      have front := (List.perm_cons_erase inside).filterMap map
      rw [List.filterMap_cons_some hValue] at front
      exact front

theorem erase (listing : Listing keys map) (key : κ) :
    Listing (keys.erase key) (Function.update map key none) := by
  constructor
  · exact listing.nodup.erase key
  · intro other
    rw [listing.nodup.mem_erase_iff, listing.mem]
    by_cases same : other = key
    · simp [same]
    · simp [same]

theorem values_erase (listing : Listing keys map) (key : κ) (entry : Option β) :
    (keys.erase key).filterMap (Function.update map key entry) =
      (keys.erase key).filterMap map := by
  apply List.filterMap_congr
  intro other member
  have different : other ≠ key := (listing.nodup.mem_erase_iff.mp member).1
  exact Function.update_of_ne different entry map

/-- An update takes one value out and puts one in. -/
theorem values_update {key : κ} {entry : Option β} (listing : Listing keys map)
    (listing' : Listing keys' (Function.update map key entry)) :
    ((map key).toList ++ keys'.filterMap (Function.update map key entry)).Perm
      (entry.toList ++ keys.filterMap map) := by
  have others : (keys.erase key).Perm (keys'.erase key) := by
    apply (listing.erase key).perm (listing'.erase key)
    intro other
    rw [Function.update_idem]
  have rest : ((keys'.erase key).filterMap (Function.update map key entry)).Perm
      ((keys.erase key).filterMap map) := by
    rw [← listing.values_erase key entry]
    exact (others.filterMap _).symm
  have after := listing'.values_split key
  rw [Function.update_self] at after
  calc
    ((map key).toList ++ keys'.filterMap (Function.update map key entry)).Perm
        ((map key).toList ++ (entry.toList ++ (keys.erase key).filterMap map)) :=
      (after.trans (rest.append_left entry.toList)).append_left _
    List.Perm _ (entry.toList ++ ((map key).toList ++ (keys.erase key).filterMap map)) := by
      rw [← List.append_assoc, ← List.append_assoc]
      exact List.perm_append_comm.append_right _
    List.Perm _ (entry.toList ++ keys.filterMap map) :=
      (listing.values_split key).symm.append_left _

end Listing

end PostDns.Foundation
