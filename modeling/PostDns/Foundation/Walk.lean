/-
Deterministic walks over an arbitrary carrier.

A partial step function determines one walk from each start.  The walk either
halts or goes on for ever; when the steps leave a finite set it goes on for
ever exactly when it comes back to a place it has already visited.
-/

import Mathlib.Data.Fintype.Pigeonhole
import Mathlib.Data.Finite.Prod
import Mathlib.Data.Set.Finite.Basic
import Mathlib.Logic.Relation
import Mathlib.Logic.Function.Basic

namespace PostDns.Foundation.Walk

variable {α : Type}

def Steps (step : α → Option α) (source target : α) : Prop :=
  step source = some target

def Reaches (step : α → Option α) : α → α → Prop :=
  Relation.ReflTransGen (Steps step)

def ReachesLater (step : α → Option α) : α → α → Prop :=
  Relation.TransGen (Steps step)

/-- The walk from `source` comes back to a place it has already visited. -/
def Returns (step : α → Option α) (source : α) : Prop :=
  ∃ place, Reaches step source place ∧ ReachesLater step place place

def after (step : α → Option α) : Nat → α → Option α
  | 0, source => some source
  | count + 1, source => (step source).bind (after step count)

def Halts (step : α → Option α) (source : α) : Prop :=
  ∃ count, after step count source = none

theorem after_succ_of_step {step : α → Option α} {source target : α}
    (next : step source = some target) (count : Nat) :
    after step (count + 1) source = after step count target := by
  simp only [after, next, Option.bind_some]

theorem after_add (step : α → Option α) (first second : Nat) (source : α) :
    after step (first + second) source =
      (after step first source).bind (after step second) := by
  induction first generalizing source with
  | zero => simp [after]
  | succ first ih =>
      rw [Nat.succ_add]
      cases hStep : step source with
      | none => simp [after, hStep]
      | some target =>
          rw [after_succ_of_step hStep, after_succ_of_step hStep, ih]

theorem reaches_iff_after {step : α → Option α} {source target : α} :
    Reaches step source target ↔
      ∃ count, after step count source = some target := by
  constructor
  · intro reached
    induction reached using Relation.ReflTransGen.head_induction_on with
    | refl => exact ⟨0, rfl⟩
    | head next _ ih =>
        rcases ih with ⟨count, arrived⟩
        exact ⟨count + 1, (after_succ_of_step next count).trans arrived⟩
  · rintro ⟨count, arrived⟩
    induction count generalizing source with
    | zero =>
        have same : source = target := Option.some.inj arrived
        subst same
        exact Relation.ReflTransGen.refl
    | succ count ih =>
        cases hStep : step source with
        | none => simp [after, hStep] at arrived
        | some middle =>
            rw [after_succ_of_step hStep] at arrived
            exact Relation.ReflTransGen.head hStep (ih arrived)

theorem halts_of_stuck {step : α → Option α} {source : α}
    (stuck : step source = none) : Halts step source :=
  ⟨1, by simp [after, stuck]⟩

theorem halts_step_iff {step : α → Option α} {source target : α}
    (next : step source = some target) :
    Halts step source ↔ Halts step target := by
  constructor
  · rintro ⟨count, ended⟩
    cases count with
    | zero => simp [after] at ended
    | succ count => exact ⟨count, (after_succ_of_step next count).symm.trans ended⟩
  · rintro ⟨count, ended⟩
    exact ⟨count + 1, (after_succ_of_step next count).trans ended⟩

theorem halts_iff_of_reaches {step : α → Option α} {source target : α}
    (reached : Reaches step source target) :
    Halts step source ↔ Halts step target := by
  induction reached using Relation.ReflTransGen.head_induction_on with
  | refl => rfl
  | head next _ ih => exact (halts_step_iff next).trans ih

/-- The places of a projected walk are the projections of the places. -/
theorem reaches_map_iff {β : Type} {step : α → Option α} {step' : β → Option β}
    {project : α → β} (commutes : ∀ place, step' (project place) = (step place).map project)
    (source : α) {goal : β} :
    Reaches step' (project source) goal ↔
      ∃ target, Reaches step source target ∧ project target = goal := by
  constructor
  · intro reached
    obtain ⟨start, startIs⟩ : ∃ start, start = project source := ⟨_, rfl⟩
    rw [← startIs] at reached
    induction reached using Relation.ReflTransGen.head_induction_on generalizing source with
    | refl => exact ⟨source, Relation.ReflTransGen.refl, startIs.symm⟩
    | head next _ ih =>
        subst startIs
        unfold Steps at next
        rw [commutes] at next
        obtain ⟨middle, taken, middleIs⟩ := Option.map_eq_some_iff.mp next
        obtain ⟨target, onwards, targetIs⟩ := ih middle middleIs.symm
        exact ⟨target, Relation.ReflTransGen.head taken onwards, targetIs⟩
  · rintro ⟨target, reached, targetIs⟩
    subst targetIs
    have moves (first second : α) (taken : Steps step first second) :
        Steps step' (project first) (project second) := by
      unfold Steps at taken ⊢
      rw [commutes, taken, Option.map_some]
    exact Relation.ReflTransGen.lift project moves _ _ reached

/-- A walk along which some measure drops comes to an end. -/
theorem halts_of_decreasing {step : α → Option α} (measure : α → Nat)
    (decreasing : ∀ source target, step source = some target →
      measure target < measure source) (source : α) : Halts step source := by
  induction hMeasure : measure source using Nat.strong_induction_on generalizing source with
  | _ bound ih =>
      cases hStep : step source with
      | none => exact halts_of_stuck hStep
      | some target =>
          have drops := decreasing source target hStep
          exact (halts_step_iff hStep).mpr (ih (measure target) (by omega) target rfl)

/-- A place that the walk returns to is never the last one. -/
theorem not_halts_of_cycle {step : α → Option α} {place : α}
    (cycle : ReachesLater step place place) : ¬ Halts step place := by
  rintro ⟨count, ended⟩
  induction count using Nat.strong_induction_on generalizing place with
  | _ count ih =>
      rcases Relation.TransGen.head'_iff.mp cycle with ⟨next, taken, back⟩
      cases count with
      | zero => simp [after] at ended
      | succ count =>
          rw [after_succ_of_step taken] at ended
          have shifted : ReachesLater step next next :=
            Relation.TransGen.tail' back taken
          exact ih count (Nat.lt_succ_self count) shifted ended

theorem not_halts_of_returns {step : α → Option α} {source : α}
    (returning : Returns step source) : ¬ Halts step source := by
  rcases returning with ⟨place, reached, cycle⟩
  intro halting
  exact not_halts_of_cycle cycle ((halts_iff_of_reaches reached).mp halting)

theorem returns_of_after_eq {step : α → Option α} {source place : α}
    {first second : Nat} (ordered : first < second)
    (atFirst : after step first source = some place)
    (atSecond : after step second source = some place) :
    Returns step source := by
  refine ⟨place, reaches_iff_after.mpr ⟨first, atFirst⟩, ?_⟩
  have split : second = first + (second - first) := by omega
  rw [split, after_add, atFirst, Option.bind_some] at atSecond
  cases hGap : second - first with
  | zero => omega
  | succ gap =>
      rw [hGap] at atSecond
      cases hStep : step place with
      | none => simp [after, hStep] at atSecond
      | some next =>
          rw [after_succ_of_step hStep] at atSecond
          exact Relation.TransGen.head' hStep
            (reaches_iff_after.mpr ⟨gap, atSecond⟩)

/-- A walk that steps only from a finite set of places halts exactly when it
never comes back to a place it has visited. -/
theorem halts_iff_not_returns {step : α → Option α}
    (finite : {place | (step place).isSome}.Finite) (source : α) :
    Halts step source ↔ ¬ Returns step source := by
  constructor
  · intro halting returning
    exact not_halts_of_returns returning halting
  · intro fresh
    by_contra running
    have placed (count : Nat) : ∃ place, after step count source = some place := by
      cases hAfter : after step count source with
      | none => exact absurd ⟨count, hAfter⟩ running
      | some place => exact ⟨place, rfl⟩
    choose visit visited using placed
    have stepping (count : Nat) : (step (visit count)).isSome := by
      have next := visited (count + 1)
      rw [after_add step count 1, visited count] at next
      cases hStep : step (visit count) with
      | none => simp [after, hStep] at next
      | some target => rfl
    have : Finite {place | (step place).isSome} := finite
    rcases Finite.exists_ne_map_eq_of_infinite
        (fun count : Nat =>
          (⟨visit count, stepping count⟩ : {place | (step place).isSome})) with
      ⟨left, right, different, same⟩
    have sameVisit : visit left = visit right := congrArg Subtype.val same
    rcases Nat.lt_or_gt_of_ne different with earlier | later
    · exact fresh (returns_of_after_eq earlier (visited left)
        ((visited right).trans (congrArg some sameVisit.symm)))
    · exact fresh (returns_of_after_eq later (visited right)
        ((visited left).trans (congrArg some sameVisit)))

/-- No walk comes back: the graph of the step function has no cycle. -/
def Acyclic (step : α → Option α) : Prop :=
  ∀ place, ¬ ReachesLater step place place

theorem acyclic_none : Acyclic (fun _ : α => none) := by
  intro place cycle
  obtain ⟨next, taken, _⟩ := Relation.TransGen.head'_iff.mp cycle
  cases taken

theorem Acyclic.halts {step : α → Option α} (acyclic : Acyclic step)
    (finite : {place | (step place).isSome}.Finite) (source : α) :
    Halts step source :=
  (halts_iff_not_returns finite source).mpr
    (fun ⟨place, _, cycle⟩ => acyclic place cycle)

section Update

variable [DecidableEq α]

/-- A walk in the redirected graph either avoids the redirected place or splits
at it into two walks of the original graph. -/
theorem reaches_update_cases {step : α → Option α} {place target : α}
    {source goal : α}
    (reached : Reaches (Function.update step place (some target)) source goal) :
    Reaches step source goal ∨
      Reaches step source place ∧ Reaches step target goal := by
  induction reached using Relation.ReflTransGen.head_induction_on with
  | refl => exact Or.inl Relation.ReflTransGen.refl
  | @head first middle next _ ih =>
      by_cases same : first = place
      · subst same
        have middleIs : target = middle := by
          simpa [Steps] using next
        subst middleIs
        rcases ih with direct | ⟨_, onwards⟩
        · exact Or.inr ⟨Relation.ReflTransGen.refl, direct⟩
        · exact Or.inr ⟨Relation.ReflTransGen.refl, onwards⟩
      · have kept : step first = some middle := by
          simpa [Steps, Function.update_of_ne same] using next
        rcases ih with direct | ⟨towards, onwards⟩
        · exact Or.inl (Relation.ReflTransGen.head kept direct)
        · exact Or.inr ⟨Relation.ReflTransGen.head kept towards, onwards⟩

/-- Redirecting one place keeps the graph acyclic when the new target does not
lead back to that place. -/
theorem Acyclic.update {step : α → Option α} (acyclic : Acyclic step)
    {place target : α} (apart : ¬ Reaches step target place) :
    Acyclic (Function.update step place (some target)) := by
  intro start cycle
  rcases Relation.TransGen.head'_iff.mp cycle with ⟨next, taken, back⟩
  by_cases same : start = place
  · subst same
    have nextIs : target = next := by
      simpa [Steps] using taken
    subst nextIs
    rcases reaches_update_cases back with direct | ⟨direct, _⟩
    · exact apart direct
    · exact apart direct
  · have kept : step start = some next := by
      simpa [Steps, Function.update_of_ne same] using taken
    rcases reaches_update_cases back with direct | ⟨towards, onwards⟩
    · exact acyclic start (Relation.TransGen.head' kept direct)
    · exact apart
        (Relation.ReflTransGen.trans onwards
          (Relation.ReflTransGen.head kept towards))

/-- In an acyclic graph the redirection closes a cycle exactly when the new target
leads back. -/
theorem Acyclic.update_iff {step : α → Option α} (acyclic : Acyclic step)
    (place target : α) :
    Acyclic (Function.update step place (some target)) ↔ ¬ Reaches step target place := by
  refine ⟨?_, acyclic.update⟩
  intro stillAcyclic reached
  have back (source : α) (reached : Reaches step source place) :
      Reaches (Function.update step place (some target)) source place := by
    induction reached using Relation.ReflTransGen.head_induction_on with
    | refl => exact Relation.ReflTransGen.refl
    | @head first middle next _ ih =>
        by_cases same : first = place
        · subst same
          exact Relation.ReflTransGen.refl
        · refine Relation.ReflTransGen.head ?_ ih
          unfold Steps
          rw [Function.update_of_ne same]
          exact next
  exact stillAcyclic place
    (Relation.TransGen.head' (Function.update_self _ _ _) (back target reached))

end Update

end PostDns.Foundation.Walk
