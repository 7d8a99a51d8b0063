/-
Computations that record what they touch and may stop with a fault.

The log lists the events in order and is kept when the computation faults, so
a bound on every event of a run is stated without changing what the run
computes.  The inversion lemmas below are the only interface: a caller never
unfolds `bind`.
-/

import Mathlib.Logic.Basic

namespace PostDns.Foundation

/-- A finished run: the events it made and its result or fault. -/
structure Logged (ε κ α : Type) where
  log : List ε
  out : Except κ α

theorem except_bind_eq_ok {κ α β : Type} {first : Except κ α} {next : α → Except κ β}
    {result : β} :
    first >>= next = .ok result ↔ ∃ value, first = .ok value ∧ next value = .ok result := by
  cases first with
  | error fault =>
      constructor
      · intro impossible
        cases impossible
      · rintro ⟨value, impossible, _⟩
        cases impossible
  | ok value =>
      constructor
      · intro done
        exact ⟨value, rfl, done⟩
      · rintro ⟨other, same, done⟩
        cases same
        exact done

inductive SameOutcome {κ α β : Type} (related : α → β → Prop) :
    Except κ α → Except κ β → Prop where
  | ok {left : α} {right : β} (results : related left right) :
      SameOutcome related (.ok left) (.ok right)
  | error (fault : κ) : SameOutcome related (.error fault) (.error fault)

theorem SameOutcome.of_ok {κ α β : Type} {related : α → β → Prop} {left : α}
    {outcome : Except κ β} (same : SameOutcome related (.ok left) outcome) :
    ∃ right, outcome = .ok right ∧ related left right := by
  cases same with
  | ok results => exact ⟨_, rfl, results⟩

theorem SameOutcome.of_error {κ α β : Type} {related : α → β → Prop} {fault : κ}
    {outcome : Except κ β} (same : SameOutcome related (.error fault) outcome) :
    outcome = .error fault := by
  cases same
  rfl

theorem SameOutcome.bind {κ α β γ δ : Type} {related : α → β → Prop} {later : γ → δ → Prop}
    {left : Except κ α} {right : Except κ β} {leftNext : α → Except κ γ}
    {rightNext : β → Except κ δ} (same : SameOutcome related left right)
    (nextSame : ∀ leftValue rightValue, related leftValue rightValue →
      SameOutcome later (leftNext leftValue) (rightNext rightValue)) :
    SameOutcome later (left >>= leftNext) (right >>= rightNext) := by
  cases same with
  | ok results => exact nextSame _ _ results
  | error fault => exact .error fault

namespace Logged

variable {ε κ α β : Type}

protected def pure (value : α) : Logged ε κ α :=
  { log := [], out := .ok value }

protected def bind (first : Logged ε κ α) (next : α → Logged ε κ β) :
    Logged ε κ β :=
  match first.out with
  | .ok value =>
      { log := first.log ++ (next value).log, out := (next value).out }
  | .error fault => { log := first.log, out := .error fault }

instance : Monad (Logged ε κ) where
  pure := Logged.pure
  bind := Logged.bind

def fail (fault : κ) : Logged ε κ α :=
  { log := [], out := .error fault }

def emit (events : List ε) : Logged ε κ Unit :=
  { log := events, out := .ok () }

def ofExcept (out : Except κ α) : Logged ε κ α :=
  { log := [], out := out }

@[simp] theorem ofExcept_out (out : Except κ α) :
    (ofExcept out : Logged ε κ α).out = out := rfl

@[simp] theorem ofExcept_log (out : Except κ α) :
    (ofExcept out : Logged ε κ α).log = [] := rfl

theorem ofExcept_ok (value : α) :
    (ofExcept (.ok value) : Logged ε κ α) = pure value := rfl

@[simp] theorem pure_out (value : α) :
    (pure value : Logged ε κ α).out = .ok value := rfl

@[simp] theorem pure_log (value : α) :
    (pure value : Logged ε κ α).log = [] := rfl

@[simp] theorem fail_out (fault : κ) :
    (fail fault : Logged ε κ α).out = .error fault := rfl

@[simp] theorem fail_log (fault : κ) :
    (fail fault : Logged ε κ α).log = [] := rfl

@[simp] theorem emit_out (events : List ε) :
    (emit events : Logged ε κ Unit).out = .ok () := rfl

@[simp] theorem emit_log (events : List ε) :
    (emit events : Logged ε κ Unit).log = events := rfl

def resultOr (other : α) (run : Logged ε κ α) : α :=
  match run.out with
  | .ok value => value
  | .error _ => other

theorem out_eq_resultOr {other : α} {run : Logged ε κ α} (done : run.out.isOk = true) :
    run.out = .ok (run.resultOr other) := by
  unfold resultOr
  cases hOut : run.out with
  | ok value => rfl
  | error fault =>
      rw [hOut] at done
      cases done

/-! ### Inversion of sequencing -/

theorem bind_of_ok {first : Logged ε κ α} {value : α}
    (done : first.out = .ok value) (next : α → Logged ε κ β) :
    first >>= next =
      { log := first.log ++ (next value).log, out := (next value).out } := by
  change Logged.bind first next = _
  unfold Logged.bind
  rw [done]

theorem bind_of_error {first : Logged ε κ α} {fault : κ}
    (stopped : first.out = .error fault) (next : α → Logged ε κ β) :
    first >>= next = { log := first.log, out := .error fault } := by
  change Logged.bind first next = _
  unfold Logged.bind
  rw [stopped]

theorem bind_out_of_ok {first : Logged ε κ α} {value : α}
    (done : first.out = .ok value) (next : α → Logged ε κ β) :
    (first >>= next).out = (next value).out := by
  rw [bind_of_ok done]

@[simp] theorem pure_bind (value : α) (next : α → Logged ε κ β) :
    (pure value : Logged ε κ α) >>= next = next value := by
  rw [bind_of_ok (pure_out value)]
  rfl

@[simp] theorem bind_pure (run : Logged ε κ α) : (run >>= fun value => pure value) = run := by
  cases hOut : run.out with
  | error fault =>
      rw [bind_of_error hOut, ← hOut]
  | ok value =>
      rw [bind_of_ok hOut, pure_log, pure_out, List.append_nil, ← hOut]

@[simp] theorem fail_bind (fault : κ) (next : α → Logged ε κ β) :
    (fail fault : Logged ε κ α) >>= next = fail fault := by
  rw [bind_of_error (fail_out fault)]
  rfl

theorem bind_assoc {γ : Type} (first : Logged ε κ α) (next : α → Logged ε κ β)
    (last : β → Logged ε κ γ) :
    first >>= next >>= last = first >>= fun value => next value >>= last := by
  cases hFirst : first.out with
  | error fault => rw [bind_of_error hFirst, bind_of_error hFirst, bind_of_error rfl]
  | ok value =>
      rw [bind_of_ok hFirst, bind_of_ok hFirst]
      cases hNext : (next value).out with
      | error fault => rw [bind_of_error hNext, bind_of_error rfl]
      | ok result => rw [bind_of_ok hNext, bind_of_ok rfl, List.append_assoc]

theorem bind_out_eq_ok {first : Logged ε κ α} {next : α → Logged ε κ β}
    {result : β} :
    (first >>= next).out = .ok result ↔
      ∃ value, first.out = .ok value ∧ (next value).out = .ok result := by
  cases hFirst : first.out with
  | ok value =>
      rw [bind_out_of_ok hFirst]
      simp
  | error fault =>
      rw [bind_of_error hFirst]
      simp

theorem bind_out_eq_error {first : Logged ε κ α} {next : α → Logged ε κ β}
    {fault : κ} :
    (first >>= next).out = .error fault ↔
      first.out = .error fault ∨
        ∃ value, first.out = .ok value ∧ (next value).out = .error fault := by
  cases hFirst : first.out with
  | ok value =>
      rw [bind_out_of_ok hFirst]
      simp
  | error other =>
      rw [bind_of_error hFirst]
      simp

theorem mem_bind_log {first : Logged ε κ α} {next : α → Logged ε κ β}
    {event : ε} :
    event ∈ (first >>= next).log ↔
      event ∈ first.log ∨
        ∃ value, first.out = .ok value ∧ event ∈ (next value).log := by
  cases hFirst : first.out with
  | ok value =>
      rw [bind_of_ok hFirst]
      simp
  | error fault =>
      rw [bind_of_error hFirst]
      simp

/-! ### Bounds on every event -/

def Always (good : ε → Prop) (run : Logged ε κ α) : Prop :=
  ∀ event ∈ run.log, good event

theorem Always.mono {good weaker : ε → Prop} {run : Logged ε κ α} (always : Always good run)
    (weakens : ∀ event, good event → weaker event) : Always weaker run :=
  fun event member => weakens event (always event member)

theorem always_pure (good : ε → Prop) (value : α) :
    Always good (pure value : Logged ε κ α) := by
  intro event member
  simp at member

theorem always_fail (good : ε → Prop) (fault : κ) :
    Always good (fail fault : Logged ε κ α) := by
  intro event member
  simp at member

theorem always_bind {good : ε → Prop} {first : Logged ε κ α}
    {next : α → Logged ε κ β} :
    Always good (first >>= next) ↔
      Always good first ∧
        ∀ value, first.out = .ok value → Always good (next value) := by
  constructor
  · intro bounded
    constructor
    · intro event member
      exact bounded event (mem_bind_log.mpr (Or.inl member))
    · intro value done event member
      exact bounded event (mem_bind_log.mpr (Or.inr ⟨value, done, member⟩))
  · rintro ⟨firstGood, nextGood⟩ event member
    rcases mem_bind_log.mp member with inFirst | ⟨value, done, inNext⟩
    · exact firstGood event inFirst
    · exact nextGood value done event inNext

/-- What follows a step that succeeds decides the rest of the run. -/
theorem always_bind_of_ok {good : ε → Prop} {first : Logged ε κ α} {value : α}
    (done : first.out = .ok value) (next : α → Logged ε κ β) :
    Always good (first >>= next) ↔ Always good first ∧ Always good (next value) := by
  rw [always_bind]
  constructor
  · intro both
    exact ⟨both.1, both.2 value done⟩
  · intro both
    refine ⟨both.1, ?_⟩
    intro other same
    rw [done] at same
    cases same
    exact both.2

/-! ### Runs that agree -/

/-- Two runs are the same unless both make an event that is not `good`. -/
def Agree (good : ε → Prop) (left right : Logged ε κ α) : Prop :=
  left = right ∨ ¬ Always good left ∧ ¬ Always good right

theorem Agree.refl (good : ε → Prop) (run : Logged ε κ α) : Agree good run run :=
  Or.inl rfl

theorem Agree.bind {good : ε → Prop} {left right : Logged ε κ α}
    {leftNext rightNext : α → Logged ε κ β} (agree : Agree good left right)
    (nextAgree : ∀ value, Agree good (leftNext value) (rightNext value)) :
    Agree good (left >>= leftNext) (right >>= rightNext) := by
  rcases agree with same | ⟨leftBad, rightBad⟩
  · subst same
    cases hOut : left.out with
    | error fault =>
        left
        rw [bind_of_error hOut, bind_of_error hOut]
    | ok value =>
        rcases nextAgree value with nextSame | ⟨leftBad, rightBad⟩
        · left
          rw [bind_of_ok hOut, bind_of_ok hOut, nextSame]
        · right
          exact ⟨fun bounded => leftBad ((always_bind.mp bounded).2 value hOut),
            fun bounded => rightBad ((always_bind.mp bounded).2 value hOut)⟩
  · right
    exact ⟨fun bounded => leftBad (always_bind.mp bounded).1,
      fun bounded => rightBad (always_bind.mp bounded).1⟩

theorem Agree.always_iff {good : ε → Prop} {left right : Logged ε κ α}
    (agree : Agree good left right) : Always good left ↔ Always good right := by
  rcases agree with same | ⟨leftBad, rightBad⟩
  · rw [same]
  · exact iff_of_false leftBad rightBad

/-! ### Runs side by side -/

/-- The runs make the same events and come to the same end. -/
structure Parallel (related : α → β → Prop) (left : Logged ε κ α) (right : Logged ε κ β) :
    Prop where
  log : left.log = right.log
  out : SameOutcome related left.out right.out

theorem parallel_pure {related : α → β → Prop} {left : α} {right : β}
    (results : related left right) :
    Parallel related (pure left : Logged ε κ α) (pure right) :=
  { log := rfl
    out := .ok results }

theorem parallel_ofExcept {related : α → β → Prop} {left : Except κ α} {right : Except κ β}
    (same : SameOutcome related left right) :
    Parallel related (ofExcept left : Logged ε κ α) (ofExcept right) :=
  { log := rfl
    out := same }

/-- A run beside itself returns the same value twice. -/
theorem parallel_self (run : Logged ε κ α) :
    Parallel (fun left right => run.out = .ok left ∧ left = right) run run := by
  refine ⟨rfl, ?_⟩
  cases hOut : run.out with
  | ok value => exact .ok ⟨rfl, rfl⟩
  | error fault => exact .error fault

theorem Parallel.bind {γ δ : Type} {related : α → β → Prop} {later : γ → δ → Prop}
    {left : Logged ε κ α} {right : Logged ε κ β} {leftNext : α → Logged ε κ γ}
    {rightNext : β → Logged ε κ δ} (same : Parallel related left right)
    (nextSame : ∀ leftValue rightValue, related leftValue rightValue →
      Parallel later (leftNext leftValue) (rightNext rightValue)) :
    Parallel later (left >>= leftNext) (right >>= rightNext) := by
  obtain ⟨log, out⟩ := same
  generalize hLeft : left.out = leftOut at out
  generalize hRight : right.out = rightOut at out
  cases out with
  | ok results =>
      have next := nextSame _ _ results
      rw [bind_of_ok hLeft, bind_of_ok hRight, log, next.log]
      exact ⟨rfl, next.out⟩
  | error fault =>
      rw [bind_of_error hLeft, bind_of_error hRight, log]
      exact ⟨rfl, .error fault⟩

theorem Parallel.returns {related : α → β → Prop} {left : Logged ε κ α} {right : Logged ε κ β}
    (same : Parallel related left right) {value : α} (done : left.out = .ok value) :
    ∃ other, right.out = .ok other ∧ related value other := by
  have out := same.out
  rw [done] at out
  exact out.of_ok

theorem Parallel.returned {related : α → β → Prop} {left : Logged ε κ α} {right : Logged ε κ β}
    (same : Parallel related left right) {value : β} (done : right.out = .ok value) :
    ∃ other, left.out = .ok other ∧ related other value := by
  have out := same.out
  generalize hLeft : left.out = leftOut at out
  rw [done] at out
  cases out with
  | ok results => exact ⟨_, rfl, results⟩

theorem Parallel.always_iff {good : ε → Prop} {related : α → β → Prop}
    {left : Logged ε κ α} {right : Logged ε κ β} (same : Parallel related left right) :
    Always good left ↔ Always good right := by
  rw [Always, Always, same.log]

/-- More is known of the results when the first run returns. -/
theorem Parallel.of_ok {related later : α → β → Prop} {left : Logged ε κ α}
    {right : Logged ε κ β} (same : Parallel related left right)
    (results : ∀ leftValue rightValue, left.out = .ok leftValue →
      related leftValue rightValue → later leftValue rightValue) :
    Parallel later left right := by
  obtain ⟨log, out⟩ := same
  refine ⟨log, ?_⟩
  generalize left.out = leftOut at out results
  generalize right.out = rightOut at out
  cases out with
  | ok before => exact .ok (results _ _ rfl before)
  | error fault => exact .error fault

/-! ### Runs that an event stops -/

/-- The events and the result of the run, or the fault when an event is not `good`. -/
def stopping (good : ε → Prop) [DecidablePred good] (fault : κ) (run : Logged ε κ α) :
    Logged ε κ α :=
  { log := run.log
    out := if run.log.all good then run.out else .error fault }

section Stopping

variable {good : ε → Prop} [DecidablePred good] {fault : κ} {run : Logged ε κ α}

theorem all_log_iff : run.log.all good = true ↔ Always good run := by
  simp only [List.all_eq_true, decide_eq_true_eq]
  rfl

theorem stopping_of_always (bounded : Always good run) : stopping good fault run = run := by
  rw [stopping, if_pos (all_log_iff.mpr bounded)]

theorem stopping_out_of_not (bad : ¬ Always good run) :
    (stopping good fault run).out = .error fault :=
  if_neg (fun all => bad (all_log_iff.mp all))

theorem stopping_out_eq_ok {value : α} :
    (stopping good fault run).out = .ok value ↔ Always good run ∧ run.out = .ok value := by
  by_cases bounded : Always good run
  · rw [stopping_of_always bounded, and_iff_right bounded]
  · rw [stopping_out_of_not bounded]
    exact iff_of_false (fun impossible => nomatch impossible) fun both => bounded both.1

end Stopping

/-! ### Faults that do not happen -/

def Avoids (fault : κ) (run : Logged ε κ α) : Prop := run.out ≠ .error fault

theorem avoids_pure (fault : κ) (value : α) :
    Avoids fault (pure value : Logged ε κ α) := by
  intro stopped
  cases stopped

theorem Avoids.bind {fault : κ} {first : Logged ε κ α} {next : α → Logged ε κ β}
    (firstAvoids : Avoids fault first) (nextAvoids : ∀ value, Avoids fault (next value)) :
    Avoids fault (first >>= next) := by
  intro stopped
  rcases bind_out_eq_error.mp stopped with inFirst | ⟨value, _, inNext⟩
  · exact firstAvoids inFirst
  · exact nextAvoids value inNext

theorem Avoids.stopping {good : ε → Prop} [DecidablePred good] {fault other : κ}
    {run : Logged ε κ α} (avoids : Avoids other run) (different : other ≠ fault) :
    Avoids other (Logged.stopping good fault run) := by
  by_cases bounded : Always good run
  · rw [stopping_of_always bounded]
    exact avoids
  · intro stopped
    rw [stopping_out_of_not bounded] at stopped
    exact different (Except.error.inj stopped).symm

/-! ### More fuel -/

/-- `longer` is what `shorter` becomes when the limit that `shorter` ran into
is lifted: the same run unless `shorter` stopped with `limit`. -/
def Extends (limit : κ) (shorter longer : Logged ε κ α) : Prop :=
  shorter = longer ∨
    shorter.out = .error limit ∧ ∀ event ∈ shorter.log, event ∈ longer.log

theorem Extends.refl (limit : κ) (run : Logged ε κ α) : Extends limit run run :=
  Or.inl rfl

theorem Extends.of_fail (limit : κ) (run : Logged ε κ α) :
    Extends limit (fail limit) run := by
  refine Or.inr ⟨rfl, ?_⟩
  intro event member
  simp at member

theorem Extends.eq_of_ne {limit : κ} {shorter longer : Logged ε κ α}
    (extension : Extends limit shorter longer)
    (finished : shorter.out ≠ .error limit) : shorter = longer := by
  rcases extension with same | ⟨stopped, _⟩
  · exact same
  · exact absurd stopped finished

theorem Extends.mem_log {limit : κ} {shorter longer : Logged ε κ α}
    (extension : Extends limit shorter longer) {event : ε}
    (member : event ∈ shorter.log) : event ∈ longer.log := by
  rcases extension with same | ⟨_, kept⟩
  · rw [← same]
    exact member
  · exact kept event member

theorem Always.of_extends {limit : κ} {good : ε → Prop} {shorter longer : Logged ε κ α}
    (extension : Extends limit shorter longer) (bounded : Always good longer) :
    Always good shorter :=
  fun event member => bounded event (extension.mem_log member)

theorem Extends.bind {limit : κ} {shorter longer : Logged ε κ α}
    {shortNext longNext : α → Logged ε κ β}
    (extension : Extends limit shorter longer)
    (nextExtension : ∀ value, Extends limit (shortNext value) (longNext value)) :
    Extends limit (shorter >>= shortNext) (longer >>= longNext) := by
  rcases extension with same | ⟨stopped, kept⟩
  · subst same
    cases hOut : shorter.out with
    | error fault =>
        left
        rw [bind_of_error hOut, bind_of_error hOut]
    | ok value =>
        rcases nextExtension value with nextSame | ⟨nextStopped, nextKept⟩
        · left
          rw [bind_of_ok hOut, bind_of_ok hOut, nextSame]
        · right
          rw [bind_of_ok hOut, bind_of_ok hOut]
          refine ⟨nextStopped, ?_⟩
          intro event member
          rcases List.mem_append.mp member with inFirst | inNext
          · exact List.mem_append.mpr (Or.inl inFirst)
          · exact List.mem_append.mpr (Or.inr (nextKept event inNext))
  · right
    rw [bind_of_error stopped]
    exact ⟨rfl, fun event member => mem_bind_log.mpr (Or.inl (kept event member))⟩

end Logged

end PostDns.Foundation
