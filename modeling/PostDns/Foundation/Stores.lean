/-
Stores that are written entry by entry and swept.

What such a store holds under a key is what the last write put there, unless a later sweep
found it expired.
-/

import Mathlib.Data.List.Induction
import Mathlib.Data.List.TakeDrop
import Mathlib.Logic.Function.Basic
import PostDns.Foundation.Run

namespace PostDns.Foundation

variable {κ α : Type}

namespace Store

/-! ### Writes and sweeps -/

inductive Action (κ α : Type) where
  | write (key : κ) (data : α)
  | sweep (expired : α → Bool)

def Action.Spares (key : κ) (data : α) : Action κ α → Prop
  | .write other _ => other ≠ key
  | .sweep expired => expired data = false

/-- The entry was written at the index, and everything since has spared it. -/
structure Last (actions : List (Action κ α)) (key : κ) (data : α) (written : Nat) : Prop where
  wrote : actions[written]? = some (.write key data)
  spared : ∀ later action, written < later → actions[later]? = some action →
    action.Spares key data

section Snoc

variable {actions : List (Action κ α)} {action : Action κ α} {key : κ} {data : α}
  {written : Nat}

theorem last_snoc_written (actions : List (Action κ α)) (key : κ) (data : α) :
    Last (actions ++ [.write key data]) key data actions.length := by
  constructor
  · exact List.getElem?_concat_length
  · intro later action after there
    rw [List.getElem?_eq_none (by rw [List.length_append, List.length_singleton]; omega)]
      at there
    cases there

theorem Last.snoc (last : Last actions key data written) (spares : action.Spares key data) :
    Last (actions ++ [action]) key data written := by
  obtain ⟨below, _⟩ := List.getElem?_eq_some_iff.mp last.wrote
  constructor
  · rw [List.getElem?_append_left below]
    exact last.wrote
  · intro later other after there
    rcases Nat.lt_trichotomy later actions.length with inside | atEnd | beyond
    · rw [List.getElem?_append_left inside] at there
      exact last.spared later other after there
    · subst atEnd
      rw [List.getElem?_concat_length] at there
      rw [← Option.some.inj there]
      exact spares
    · rw [List.getElem?_eq_none
        (by rw [List.length_append, List.length_singleton]; omega)] at there
      cases there

theorem Last.of_snoc (last : Last (actions ++ [action]) key data written) :
    (action = .write key data ∧ written = actions.length) ∨
      Last actions key data written ∧ action.Spares key data := by
  have wrote := last.wrote
  rcases Nat.lt_trichotomy written actions.length with inside | atEnd | beyond
  · right
    have spares := last.spared actions.length action inside List.getElem?_concat_length
    rw [List.getElem?_append_left inside] at wrote
    refine ⟨⟨wrote, ?_⟩, spares⟩
    intro later other after there
    obtain ⟨below, _⟩ := List.getElem?_eq_some_iff.mp there
    apply last.spared later other after
    rw [List.getElem?_append_left below]
    exact there
  · left
    subst atEnd
    rw [List.getElem?_concat_length] at wrote
    exact ⟨Option.some.inj wrote, rfl⟩
  · rw [List.getElem?_eq_none
      (by rw [List.length_append, List.length_singleton]; omega)] at wrote
    cases wrote

end Snoc

variable [DecidableEq κ]

def Action.apply (store : κ → Option α) : Action κ α → κ → Option α
  | .write key data => Function.update store key (some data)
  | .sweep expired => fun key => (store key).filter fun data => !expired data

def storeAfter (actions : List (Action κ α)) : κ → Option α :=
  actions.foldl Action.apply (fun _ => none)

theorem storeAfter_snoc (actions : List (Action κ α)) (action : Action κ α) :
    storeAfter (actions ++ [action]) = action.apply (storeAfter actions) := by
  rw [storeAfter, List.foldl_append]
  rfl

theorem storeAfter_append (first second : List (Action κ α)) :
    storeAfter (first ++ second) = second.foldl Action.apply (storeAfter first) :=
  List.foldl_append

/-- An entry is there after an action when the action wrote it or spared it. -/
theorem Action.apply_eq_some_iff {store : κ → Option α} {action : Action κ α} {key : κ}
    {data : α} :
    action.apply store key = some data ↔
      action = .write key data ∨ store key = some data ∧ action.Spares key data := by
  cases action with
  | write other entry =>
      by_cases same : other = key
      · subst same
        simp [Action.apply, Action.Spares]
      · simp [Action.apply, Action.Spares, Function.update_of_ne (Ne.symm same), same]
  | sweep expired => simp [Action.apply, Action.Spares, Option.filter_eq_some_iff]

/-- The store holds the entries that were written last and never found expired. -/
theorem storeAfter_eq_some_iff {actions : List (Action κ α)} {key : κ} {data : α} :
    storeAfter actions key = some data ↔ ∃ written, Last actions key data written := by
  induction actions using List.reverseRecOn with
  | nil =>
      constructor
      · intro found
        cases found
      · rintro ⟨written, last⟩
        have wrote := last.wrote
        cases wrote
  | append_singleton actions action ih =>
      rw [storeAfter_snoc, Action.apply_eq_some_iff, ih]
      constructor
      · rintro (isWrite | ⟨⟨written, last⟩, spares⟩)
        · rw [isWrite]
          exact ⟨_, last_snoc_written actions key data⟩
        · exact ⟨written, last.snoc spares⟩
      · rintro ⟨written, last⟩
        rcases last.of_snoc with ⟨isWrite, _⟩ | ⟨earlier, spares⟩
        · exact Or.inl isWrite
        · exact Or.inr ⟨⟨written, earlier⟩, spares⟩

end Store

end PostDns.Foundation
