/-
Finite labelled runs of a step relation.

A run is a list of labels with the state they lead to.  It grows at its end, so
a property of the runs is proved by what one more step does.
-/

import Mathlib.Data.List.TakeDrop

namespace PostDns.Foundation

variable {σ ε : Type}

inductive Run (step : σ → ε → σ → Prop) (start : σ) : List ε → σ → Prop where
  | nil : Run step start [] start
  | snoc {events : List ε} {event : ε} {middle final : σ} :
      Run step start events middle → step middle event final →
        Run step start (events ++ [event]) final

/-- What holds at the start and is kept by every step holds at the end. -/
theorem Run.invariant {step : σ → ε → σ → Prop} {start final : σ} {events : List ε}
    (run : Run step start events final) (holds : List ε → σ → Prop)
    (starts : holds [] start)
    (keeps : ∀ events event middle final, holds events middle →
      step middle event final → holds (events ++ [event]) final) :
    holds events final := by
  induction run with
  | nil => exact starts
  | snoc _ taken ih => exact keeps _ _ _ _ ih taken

theorem Run.mono {step weaker : σ → ε → σ → Prop} {start final : σ} {events : List ε}
    (run : Run step start events final)
    (weakens : ∀ before event after, step before event after → weaker before event after) :
    Run weaker start events final := by
  induction run with
  | nil => exact Run.nil
  | snoc _ taken ih => exact Run.snoc ih (weakens _ _ _ taken)

theorem Run.append {step : σ → ε → σ → Prop} {start middle final : σ}
    {events further : List ε} (first : Run step start events middle)
    (second : Run step middle further final) : Run step start (events ++ further) final := by
  induction second with
  | nil =>
      rw [List.append_nil]
      exact first
  | snoc _ taken ih =>
      rw [← List.append_assoc]
      exact Run.snoc ih taken

/-- When a run of the specification matches each step, with labels that the label of the
step gives, one matches the whole run. -/
theorem Run.simulation {τ δ : Type} {step : σ → ε → σ → Prop} {spec : τ → δ → τ → Prop}
    {labels : ε → List δ} {related : σ → τ → Prop} {start final : σ} {specStart : τ}
    {events : List ε} (run : Run step start events final) (starts : related start specStart)
    (matched : ∀ before event after specBefore, related before specBefore →
      step before event after →
        ∃ specAfter, related after specAfter ∧ Run spec specBefore (labels event) specAfter) :
    ∃ specFinal, related final specFinal ∧
      Run spec specStart (events.flatMap labels) specFinal := by
  induction run with
  | nil => exact ⟨specStart, starts, Run.nil⟩
  | @snoc events event middle final earlier taken ih =>
      obtain ⟨specMiddle, middleRelated, specRun⟩ := ih
      obtain ⟨specFinal, finalRelated, further⟩ :=
        matched middle event final specMiddle middleRelated taken
      refine ⟨specFinal, finalRelated, ?_⟩
      rw [List.flatMap_append, List.flatMap_singleton]
      exact specRun.append further

/-- Every prefix of a run is a run. -/
theorem Run.take {step : σ → ε → σ → Prop} {start final : σ} {events : List ε}
    (run : Run step start events final) (count : Nat) :
    ∃ middle, Run step start (events.take count) middle := by
  induction run with
  | nil =>
      rw [List.take_nil]
      exact ⟨start, Run.nil⟩
  | @snoc events last middle final earlier taken ih =>
      rcases Nat.lt_or_ge events.length count with beyond | within
      · rw [List.take_of_length_le (by simp; omega)]
        exact ⟨final, Run.snoc earlier taken⟩
      · rw [List.take_append_of_le_length within]
        exact ih

/-- The step at an index, between the runs up to it and past it. -/
theorem Run.at {step : σ → ε → σ → Prop} {start final : σ} {events : List ε}
    (run : Run step start events final) {index : Nat} {event : ε}
    (label : events[index]? = some event) :
    ∃ before after, Run step start (events.take index) before ∧
      step before event after ∧ Run step start (events.take (index + 1)) after := by
  induction run with
  | nil => simp at label
  | @snoc events last middle final earlier taken ih =>
      rcases Nat.lt_or_ge index events.length with inside | outside
      · rw [List.getElem?_append_left inside] at label
        obtain ⟨before, after, runBefore, here, runAfter⟩ := ih label
        refine ⟨before, after, ?_, here, ?_⟩
        · rw [List.take_append_of_le_length (by omega)]
          exact runBefore
        · rw [List.take_append_of_le_length (by omega)]
          exact runAfter
      · rw [List.getElem?_append_right outside] at label
        have atEnd : index = events.length := by
          by_contra different
          have beyond : [last].length ≤ index - events.length := by
            rw [List.length_singleton]
            omega
          rw [List.getElem?_eq_none beyond] at label
          cases label
        subst atEnd
        rw [Nat.sub_self] at label
        have same : last = event := Option.some.inj label
        subst same
        refine ⟨middle, final, ?_, taken, ?_⟩
        · rw [List.take_left']
          · exact earlier
          · rfl
        · rw [List.take_of_length_le (by simp)]
          exact Run.snoc earlier taken

/-- Exactly one label of a run contributes, and it contributes once. -/
theorem countP_flatMap_eq_one {β : Type} {events : List ε} {outputs : ε → List β}
    {counted : β → Bool} {index : Nat} {event : ε} (label : events[index]? = some event)
    (once : (outputs event).countP counted = 1)
    (others : ∀ other label, events[other]? = some label → other ≠ index →
      (outputs label).countP counted = 0) :
    (events.flatMap outputs).countP counted = 1 := by
  induction events generalizing index with
  | nil => simp at label
  | cons first rest ih =>
      rw [List.flatMap_cons, List.countP_append]
      cases index with
      | zero =>
          have isFirst : first = event := Option.some.inj label
          subst isFirst
          have nothing : (rest.flatMap outputs).countP counted = 0 := by
            rw [List.countP_eq_zero]
            intro output member
            obtain ⟨later, inRest, produced⟩ := List.mem_flatMap.mp member
            obtain ⟨other, there⟩ := List.getElem?_of_mem inRest
            have none := others (other + 1) later there (Nat.succ_ne_zero other)
            exact List.countP_eq_zero.mp none output produced
          rw [once, nothing]
      | succ index =>
          have nothing := others 0 first rfl (Nat.succ_ne_zero index).symm
          rw [nothing, Nat.zero_add]
          exact ih label (fun other later there different =>
            others (other + 1) later there (fun same => different (Nat.succ.inj same)))

end PostDns.Foundation
