/-
Callbacks watched for a bounded number of steps.

The bound is not part of the program: a statement about a callback is about all
bounds, or about all large enough ones.  A run that did not reach its bound is
the same under every larger one.
-/

import PostDns.Memory

namespace PostDns

open Foundation

variable {α β : Type}

/-- With enough fuel, and whatever uninitialised storage holds, the run returns
`value`. -/
def Yields (run : Env → Exec α) (value : α) : Prop :=
  ∃ enough, ∀ env : Env, enough ≤ env.fuel → (run env).out = .ok value

theorem Yields.of_eq {run : Env → Exec α} {value : α}
    (done : ∀ env, (run env).out = .ok value) : Yields run value :=
  ⟨0, fun env _ => done env⟩

theorem Yields.bind {first : Env → Exec α} {value : α} {result : β}
    (firstYields : Yields first value) (next : Env → α → Exec β)
    (nextYields : Yields (fun env => next env value) result) :
    Yields (fun env => first env >>= next env) result := by
  rcases firstYields with ⟨firstEnough, firstDone⟩
  rcases nextYields with ⟨nextEnough, nextDone⟩
  refine ⟨max firstEnough nextEnough, ?_⟩
  intro env enough
  rw [Logged.bind_out_of_ok (firstDone env (by omega))]
  exact nextDone env (by omega)

def FuelMono (run : Env → Exec α) : Prop :=
  ∀ (junk : Site → Nat → UInt8) (fuel more : Nat), fuel ≤ more →
    Logged.Extends Fault.outOfFuel (run ⟨fuel, junk⟩) (run ⟨more, junk⟩)

theorem FuelMono.const (run : (Site → Nat → UInt8) → Exec α) :
    FuelMono (fun env => run env.junk) :=
  fun _ _ _ _ => Logged.Extends.refl _ _

theorem FuelMono.bind {first : Env → Exec α} {rest : Env → α → Exec β}
    (firstMono : FuelMono first) (restMono : ∀ value, FuelMono (fun env => rest env value)) :
    FuelMono (fun env => first env >>= rest env) :=
  fun junk fuel more longer => Logged.Extends.bind (firstMono junk fuel more longer)
    (fun value => restMono value junk fuel more longer)

/-- A run that finished is the same run under any fuel that also lets it finish. -/
theorem FuelMono.eq_of_ne {run : Env → Exec α} (mono : FuelMono run)
    {junk : Site → Nat → UInt8} {fuel fuel' : Nat}
    (finished : (run ⟨fuel, junk⟩).out ≠ .error .outOfFuel)
    (finished' : (run ⟨fuel', junk⟩).out ≠ .error .outOfFuel) :
    run ⟨fuel, junk⟩ = run ⟨fuel', junk⟩ := by
  rcases Nat.le_total fuel fuel' with below | above
  · exact (mono junk fuel fuel' below).eq_of_ne finished
  · exact ((mono junk fuel' fuel above).eq_of_ne finished').symm

/-- A run that returned returns what it returns with enough fuel. -/
theorem FuelMono.of_eventually {run : Env → Exec α} (mono : FuelMono run) {env : Env}
    {value : α} (done : (run env).out = .ok value) {good : α → Prop}
    (eventually : ∃ enough, ∀ other : Env, enough ≤ other.fuel →
      ∃ result, (run other).out = .ok result ∧ good result) : good value := by
  obtain ⟨enough, returns⟩ := eventually
  obtain ⟨result, finished, holds⟩ := returns ⟨enough, env.junk⟩ (Nat.le_refl enough)
  have same : run env = run ⟨enough, env.junk⟩ :=
    mono.eq_of_ne (by rw [done]; simp) (by rw [finished]; simp)
  rw [same, finished] at done
  cases done
  exact holds

/-- Every access of the callback is `good`, on every machine and under every
bound. -/
def AlwaysGood (good : Access → Prop) (run : Env → Exec α) : Prop :=
  ∀ env, Logged.Always good (run env)

theorem alwaysGood_const_iff {good : Access → Prop} {run : Exec α} :
    AlwaysGood good (fun _ => run) ↔ Logged.Always good run :=
  ⟨fun bounded => bounded ⟨0, fun _ _ => 0⟩, fun bounded _ => bounded⟩

theorem alwaysGood_fuel_iff {good : Access → Prop} {run : Nat → Exec α} :
    AlwaysGood good (fun env => run env.fuel) ↔ ∀ fuel, Logged.Always good (run fuel) :=
  ⟨fun bounded fuel => bounded ⟨fuel, fun _ _ => 0⟩, fun bounded env => bounded env.fuel⟩

/-- The callback comes to an end: on every machine some number of steps is enough
for it. -/
def Finishes (run : Env → Exec α) : Prop :=
  ∀ junk, ∃ fuel, (run ⟨fuel, junk⟩).out ≠ .error .outOfFuel

def Ends (run : Env → Exec α) : Prop :=
  ∀ junk, ∃ enough result, result.out ≠ .error .outOfFuel ∧
    ∀ fuel, enough ≤ fuel → run ⟨fuel, junk⟩ = result

theorem Ends.finishes {run : Env → Exec α} (ends : Ends run) : Finishes run := by
  intro junk
  obtain ⟨enough, result, finished, same⟩ := ends junk
  refine ⟨enough, ?_⟩
  rw [same enough (Nat.le_refl enough)]
  exact finished

theorem Finishes.ends {run : Env → Exec α} (finishes : Finishes run)
    (mono : FuelMono run) : Ends run := by
  intro junk
  obtain ⟨enough, finished⟩ := finishes junk
  exact ⟨enough, _, finished, fun fuel more =>
    ((mono junk enough fuel more).eq_of_ne finished).symm⟩

/-- A callback that needs no bound. -/
theorem Ends.of_avoids {run : Env → Exec α} (sameRun : ∀ junk fuel, run ⟨fuel, junk⟩ =
    run ⟨0, junk⟩) (avoids : ∀ env, Logged.Avoids Fault.outOfFuel (run env)) : Ends run :=
  fun junk => ⟨0, run ⟨0, junk⟩, avoids ⟨0, junk⟩, fun fuel _ => sameRun junk fuel⟩

theorem Ends.const {run : Exec α} (avoids : Logged.Avoids Fault.outOfFuel run) :
    Ends (fun _ => run) :=
  Ends.of_avoids (fun _ _ => rfl) fun _ => avoids

theorem Ends.bind {first : Env → Exec α} {rest : Env → α → Exec β}
    (firstEnds : Ends first)
    (restEnds : ∀ env value, (first env).out = .ok value →
      Ends (fun env => rest env value)) :
    Ends (fun env => first env >>= rest env) := by
  intro junk
  obtain ⟨enough, result, finished, same⟩ := firstEnds junk
  cases hOut : result.out with
  | error fault =>
      refine ⟨enough, { log := result.log, out := .error fault }, ?_, ?_⟩
      · rw [hOut] at finished
        exact fun stopped => finished (congrArg Except.error (Except.error.inj stopped))
      · intro fuel more
        change first ⟨fuel, junk⟩ >>= _ = _
        rw [same fuel more, Logged.bind_of_error hOut]
  | ok value =>
      have here : (first ⟨enough, junk⟩).out = .ok value := by
        rw [same enough (Nat.le_refl enough), hOut]
      obtain ⟨enough', result', finished', same'⟩ := restEnds ⟨enough, junk⟩ value here junk
      refine ⟨max enough enough', { log := result.log ++ result'.log, out := result'.out },
        finished', ?_⟩
      intro fuel more
      change first ⟨fuel, junk⟩ >>= _ = _
      have last : rest ⟨fuel, junk⟩ value = result' := same' fuel (by omega)
      rw [same fuel (by omega), Logged.bind_of_ok hOut, last]

def onMachine (junk : Site → Nat → UInt8) (run : Env → Exec α) (env : Env) : Exec α :=
  run ⟨env.fuel, junk⟩

/-- A property of callbacks that holds of a sequence when it holds of its parts. -/
structure Compositional (holds : (α : Type) → (Env → Exec α) → Prop) : Prop where
  done : ∀ (α : Type) (value : α), holds α (fun _ => pure value)
  machines : ∀ (α : Type) (run : Env → Exec α),
    holds α run ↔ ∀ junk, holds α (onMachine junk run)
  sequence : ∀ (α β : Type) (first : Env → Exec α) (rest : Env → α → Exec β),
    FuelMono first → (∀ value, FuelMono (fun env => rest env value)) →
      (holds β (fun env => first env >>= rest env) ↔
        holds α first ∧ ∀ env value, (first env).out = .ok value →
          holds β (onMachine env.junk (fun env => rest env value)))

theorem FuelMono.onMachine {run : Env → Exec α} (mono : FuelMono run)
    (junk : Site → Nat → UInt8) : FuelMono (onMachine junk run) :=
  fun _ fuel more longer => mono junk fuel more longer

section Compositional

variable {holds : (α : Type) → (Env → Exec α) → Prop}
  (compositional : Compositional holds)

include compositional

/-- What is done with the result touches nothing. -/
theorem Compositional.map {run : Env → Exec α} (mono : FuelMono run)
    (finish : α → β) :
    holds β (fun env => run env >>= fun value => pure (finish value)) ↔ holds α run := by
  rw [compositional.sequence α β run (fun _ value => pure (finish value)) mono
    (fun value => FuelMono.const fun _ => pure (finish value))]
  exact and_iff_left fun _ value _ => compositional.done β (finish value)

/-- A sequence on one machine. -/
theorem Compositional.onMachine_sequence {first : Env → Exec α}
    {rest : Env → α → Exec β} (firstMono : FuelMono first)
    (restMono : ∀ value, FuelMono (fun env => rest env value))
    (junk : Site → Nat → UInt8) :
    holds β (onMachine junk fun env => first env >>= rest env) ↔
      holds α (onMachine junk first) ∧
        ∀ fuel value, (first ⟨fuel, junk⟩).out = .ok value →
          holds β (onMachine junk fun env => rest env value) := by
  have parts := compositional.sequence α β (onMachine junk first)
    (fun env value => onMachine junk (fun env => rest env value) env)
    (firstMono.onMachine junk) (fun value => (restMono value).onMachine junk)
  constructor
  · intro held
    have split := parts.mp held
    exact ⟨split.1, fun fuel value done => split.2 ⟨fuel, junk⟩ value done⟩
  · rintro ⟨firstHeld, restHeld⟩
    exact parts.mpr ⟨firstHeld, fun env value done => restHeld env.fuel value done⟩

/-- A sequence whose first part needs no bound, on one machine. -/
theorem Compositional.const_sequence (first : Exec α) {rest : Env → α → Exec β}
    (restMono : ∀ value, FuelMono (fun env => rest env value))
    (junk : Site → Nat → UInt8) :
    holds β (onMachine junk fun env => first >>= rest env) ↔
      holds α (fun _ => first) ∧
        ∀ value, first.out = .ok value →
          holds β (onMachine junk fun env => rest env value) := by
  rw [compositional.onMachine_sequence (FuelMono.const fun _ => first) restMono junk]
  exact and_congr_right fun _ =>
    ⟨fun later value => later 0 value, fun later _ value => later value⟩

end Compositional

theorem compositional_alwaysGood (good : Access → Prop) :
    Compositional (fun _ run => AlwaysGood good run) :=
  { done := fun _ value _ => Logged.always_pure good value
    machines := fun _ run =>
      ⟨fun bounded junk env => bounded ⟨env.fuel, junk⟩,
        fun bounded env => bounded env.junk env⟩
    sequence := by
      intro α β first rest firstMono restMono
      constructor
      · intro bounded
        refine ⟨fun env => (Logged.always_bind.mp (bounded env)).1, ?_⟩
        rintro ⟨fuel, junk⟩ value returned ⟨more, _⟩
        have extended := firstMono junk fuel (max fuel more) (Nat.le_max_left _ _)
        have same := extended.eq_of_ne (by simp [returned])
        rw [same] at returned
        have later :=
          (Logged.always_bind.mp (bounded ⟨max fuel more, junk⟩)).2 value returned
        exact Logged.Always.of_extends
          (restMono value junk more (max fuel more) (Nat.le_max_right _ _)) later
      · rintro ⟨firstGood, restGood⟩ env
        exact Logged.always_bind.mpr
          ⟨firstGood env, fun value returned => restGood env value returned env⟩ }

theorem compositional_finishes : Compositional (fun _ run => Finishes run) :=
  { done := fun _ value _ => ⟨0, by simp⟩
    machines := fun _ run =>
      ⟨fun finishes junk _ => finishes junk, fun finishes junk => finishes junk junk⟩
    sequence := by
      intro α β first rest firstMono restMono
      constructor
      · intro finishes
        have firstFinishes (junk : Site → Nat → UInt8) : ∃ fuel,
            (first ⟨fuel, junk⟩ >>= rest ⟨fuel, junk⟩).out ≠ .error .outOfFuel ∧
              (first ⟨fuel, junk⟩).out ≠ .error .outOfFuel := by
          rcases finishes junk with ⟨fuel, finished⟩
          refine ⟨fuel, finished, ?_⟩
          intro stopped
          apply finished
          change (first ⟨fuel, junk⟩ >>= rest ⟨fuel, junk⟩).out = _
          rw [Logged.bind_of_error stopped]
        refine ⟨fun junk => ⟨_, (firstFinishes junk).choose_spec.2⟩, ?_⟩
        rintro ⟨fuel, junk⟩ value returned _
        rcases firstFinishes junk with ⟨enough, finished, firstFinished⟩
        have same : first ⟨fuel, junk⟩ = first ⟨enough, junk⟩ :=
          firstMono.eq_of_ne (by simp [returned]) firstFinished
        rw [same] at returned
        rw [Logged.bind_out_of_ok returned] at finished
        exact ⟨enough, finished⟩
      · rintro ⟨firstFinishes, restFinishes⟩ junk
        rcases firstFinishes junk with ⟨fuel, finished⟩
        cases hFirst : (first ⟨fuel, junk⟩).out with
        | error fault =>
            refine ⟨fuel, ?_⟩
            change (first ⟨fuel, junk⟩ >>= rest ⟨fuel, junk⟩).out ≠ _
            rw [Logged.bind_of_error hFirst]
            rw [hFirst] at finished
            exact fun same => finished (congrArg Except.error (Except.error.inj same))
        | ok value =>
            rcases restFinishes ⟨fuel, junk⟩ value hFirst junk with ⟨more, restFinished⟩
            have firstSame : first ⟨fuel, junk⟩ = first ⟨max fuel more, junk⟩ :=
              (firstMono junk fuel _ (Nat.le_max_left _ _)).eq_of_ne finished
            have restSame : rest ⟨more, junk⟩ value = rest ⟨max fuel more, junk⟩ value :=
              (restMono value junk more _ (Nat.le_max_right _ _)).eq_of_ne restFinished
            rw [firstSame] at hFirst
            refine ⟨max fuel more, ?_⟩
            change (first ⟨max fuel more, junk⟩ >>= rest ⟨max fuel more, junk⟩).out ≠ _
            rw [Logged.bind_out_of_ok hFirst, ← restSame]
            exact restFinished }

end PostDns
