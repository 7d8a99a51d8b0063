/-
Tables of pending requests.

A request waits in the table under its key until something else happens under that
key.  When nothing under the key of a waiting request happens before its answer, the
table names exactly the requests that wait.  A desk that replies only to whom the table
names never replies twice to one request.
-/

import Mathlib.Data.List.TakeDrop
import Mathlib.Logic.Function.Basic
import PostDns.Foundation.Run

namespace PostDns.Foundation.PendingTable

variable {κ α : Type}

inductive Action (κ α : Type) where
  | enter (key : κ) (address : α)
  | leave (key : κ)

def Action.key : Action κ α → κ
  | .enter key _ => key
  | .leave key => key

inductive Moment (κ α : Type) where
  | requested (key : κ) (address : α)
  | replied (key : κ) (address : α)
deriving DecidableEq

def Moment.action : Moment κ α → Action κ α
  | .requested key address => .enter key address
  | .replied key _ => .leave key

def Moment.key : Moment κ α → κ
  | .requested key _ => key
  | .replied key _ => key

theorem Moment.action_key (moment : Moment κ α) : moment.action.key = moment.key := by
  cases moment with
  | requested key address => rfl
  | replied key address => rfl

/-! ### Waiting requests -/

def Answered (actions : List (Action κ α)) (answer : Nat → Nat) : Prop :=
  ∀ request key address, actions[request]? = some (.enter key address) →
    request < answer request ∧ actions[answer request]? = some (.leave key)

/-- Nothing happens under the key of a request between it and its answer. -/
def Undisturbed (actions : List (Action κ α)) (answer : Nat → Nat) : Prop :=
  ∀ request key address, actions[request]? = some (.enter key address) →
    ∀ other action, request < other → other < answer request →
      actions[other]? = some action → action.key ≠ key

/-- The request at the first index waits when the action at the second is due. -/
def Waits (actions : List (Action κ α)) (answer : Nat → Nat) (key : κ) (address : α)
    (request now : Nat) : Prop :=
  actions[request]? = some (.enter key address) ∧ request < now ∧ now ≤ answer request

variable {actions : List (Action κ α)} {answer : Nat → Nat} {action : Action κ α}
  {key : κ} {address : α} {request now : Nat}

/-- The request at the index came in under the key, and nothing has happened under it
since. -/
structure Latest (actions : List (Action κ α)) (key : κ) (address : α)
    (request now : Nat) : Prop where
  entered : actions[request]? = some (.enter key address)
  before : request < now
  quiet : ∀ other action, request < other → other < now →
    actions[other]? = some action → action.key ≠ key

theorem Latest.succ (latest : Latest actions key address request now)
    (here : actions[now]? = some action) (different : action.key ≠ key) :
    Latest actions key address request (now + 1) :=
  { entered := latest.entered
    before := Nat.lt_succ_of_lt latest.before
    quiet := by
      intro other happened after before there
      by_cases isNow : other = now
      · subst isNow
        rw [here] at there
        cases there
        exact different
      · exact latest.quiet other happened after (by omega) there }

theorem Latest.of_succ (latest : Latest actions key address request (now + 1))
    (here : actions[now]? = some action) (different : action.key ≠ key) :
    Latest actions key address request now :=
  { entered := latest.entered
    before := by
      have notNow : request ≠ now := by
        intro same
        have entered := latest.entered
        rw [same, here] at entered
        cases entered
        exact different rfl
      have before := latest.before
      omega
    quiet := fun other happened after before there =>
      latest.quiet other happened after (by omega) there }

/-- What happens under the key of a waiting request is its answer. -/
theorem Undisturbed.answer_eq (undisturbed : Undisturbed actions answer)
    (here : actions[now]? = some action) (same : action.key = key)
    (waits : Waits actions answer key address request now) : answer request = now := by
  obtain ⟨entered, before, after⟩ := waits
  by_contra different
  exact undisturbed request key address entered now action before (by omega) here same

/-! ### The table -/

section Table

variable [DecidableEq κ]

def Action.apply (table : κ → Option α) : Action κ α → κ → Option α
  | .enter key address => Function.update table key (some address)
  | .leave key => Function.update table key none

def tableAfter (actions : List (Action κ α)) : κ → Option α :=
  actions.foldl Action.apply (fun _ => none)

theorem tableAfter_snoc (actions : List (Action κ α)) (action : Action κ α) :
    tableAfter (actions ++ [action]) = action.apply (tableAfter actions) := by
  rw [tableAfter, List.foldl_append]
  rfl

theorem tableAfter_take_succ (here : actions[now]? = some action) :
    tableAfter (actions.take (now + 1)) = action.apply (tableAfter (actions.take now)) := by
  rw [List.take_add_one, here]
  exact tableAfter_snoc _ action

theorem apply_of_ne (table : κ → Option α) (different : action.key ≠ key) :
    action.apply table key = table key := by
  cases action with
  | enter other address => exact Function.update_of_ne (Ne.symm different) _ _
  | leave other => exact Function.update_of_ne (Ne.symm different) _ _

theorem apply_eq_some_iff (table : κ → Option α) (same : action.key = key) :
    action.apply table key = some address ↔ action = .enter key address := by
  subst same
  cases action with
  | enter other entered => simp [Action.apply, Action.key]
  | leave other => simp [Action.apply, Action.key]

/-- The table names the latest request under a key, unless it has left. -/
theorem tableAfter_eq_some_iff_latest (inside : now ≤ actions.length) :
    tableAfter (actions.take now) key = some address ↔
      ∃ request, Latest actions key address request now := by
  induction now with
  | zero =>
      constructor
      · intro impossible
        cases impossible
      · intro latest
        obtain ⟨request, latest⟩ := latest
        exact absurd latest.before (Nat.not_lt_zero request)
  | succ now ih =>
      obtain ⟨action, here⟩ : ∃ action, actions[now]? = some action :=
        ⟨_, List.getElem?_eq_getElem (by omega)⟩
      rw [tableAfter_take_succ here]
      by_cases same : action.key = key
      · rw [apply_eq_some_iff _ same]
        constructor
        · intro isEnter
          subst isEnter
          exact ⟨now,
            { entered := here
              before := Nat.lt_succ_self now
              quiet := fun other _ after before _ => by omega }⟩
        · intro latest
          obtain ⟨request, latest⟩ := latest
          by_cases isNow : request = now
          · subst isNow
            exact Option.some.inj (here.symm.trans latest.entered)
          · have before := latest.before
            exact absurd same
              (latest.quiet now action (by omega) (Nat.lt_succ_self now) here)
      · rw [apply_of_ne _ same, ih (by omega)]
        exact exists_congr fun request =>
          ⟨fun latest => latest.succ here same, fun latest => latest.of_succ here same⟩

theorem tableAfter_eq_some_iff (answered : Answered actions answer)
    (undisturbed : Undisturbed actions answer) (inside : now ≤ actions.length) :
    tableAfter (actions.take now) key = some address ↔
      ∃ request, Waits actions answer key address request now := by
  rw [tableAfter_eq_some_iff_latest inside]
  apply exists_congr
  intro request
  constructor
  · intro latest
    have isAnswered := answered request key address latest.entered
    refine ⟨latest.entered, latest.before, ?_⟩
    by_contra passed
    exact latest.quiet (answer request) _ isAnswered.1 (by omega) isAnswered.2 rfl
  · rintro ⟨entered, before, after⟩
    exact
      { entered := entered
        before := before
        quiet := fun other happened later earlier there =>
          undisturbed request key address entered other happened later (by omega) there }

/-! ### Exchanges -/

inductive Exchange (table : κ → Option α) : Moment κ α → (κ → Option α) → Prop where
  | requested (key : κ) (address : α) :
      Exchange table (.requested key address) (Function.update table key (some address))
  | replied {key : κ} {address : α} :
      table key = some address →
        Exchange table (.replied key address) (Function.update table key none)

def Moment.requests (key : κ) : Moment κ α → Bool
  | .requested other _ => decide (other = key)
  | .replied _ _ => false

def Moment.replies (key : κ) : Moment κ α → Bool
  | .requested _ _ => false
  | .replied other _ => decide (other = key)

def Moment.isReply : Moment κ α → Bool
  | .requested _ _ => false
  | .replied _ _ => true

abbrev Exchanges := Run (Exchange (κ := κ) (α := α)) (fun _ => none)

variable {history : List (Moment κ α)} {table : κ → Option α}

theorem exchanges_table (run : Exchanges history table) :
    table = tableAfter (history.map Moment.action) := by
  refine run.invariant
    (fun history table => table = tableAfter (history.map Moment.action)) rfl ?_
  intro earlier moment middle final same exchange
  rw [List.map_append, List.map_singleton, tableAfter_snoc, ← same]
  cases exchange with
  | requested key address => rfl
  | replied named => rfl

def waiting (table : κ → Option α) (key : κ) : Nat :=
  if (table key).isSome then 1 else 0

theorem waiting_update_self (table : κ → Option α) (key : κ) (entry : Option α) :
    waiting (Function.update table key entry) key = if entry.isSome then 1 else 0 := by
  rw [waiting, Function.update_self]

theorem waiting_update_of_ne (table : κ → Option α) {key other : κ} (entry : Option α)
    (different : other ≠ key) :
    waiting (Function.update table other entry) key = waiting table key := by
  rw [waiting, Function.update_of_ne (Ne.symm different), waiting]

/-- Each reply uses up a request under its key. -/
theorem exchanges_counted (run : Exchanges history table) (key : κ) :
    history.countP (Moment.replies key) + waiting table key ≤
      history.countP (Moment.requests key) := by
  refine run.invariant
    (fun history table => history.countP (Moment.replies key) + waiting table key ≤
      history.countP (Moment.requests key)) (Nat.le_refl 0) ?_
  intro earlier moment middle final counted exchange
  rw [List.countP_append, List.countP_append, List.countP_singleton, List.countP_singleton]
  cases exchange with
  | requested other address =>
      by_cases same : other = key
      · subst same
        rw [waiting_update_self]
        simp only [Moment.replies, Moment.requests, decide_true, Option.isSome_some, if_true,
          Bool.false_eq_true, if_false]
        omega
      · rw [waiting_update_of_ne _ _ same]
        simp only [Moment.replies, Moment.requests, decide_eq_true_eq, same, if_false,
          Bool.false_eq_true]
        exact counted
  | @replied other address named =>
      by_cases same : other = key
      · subst same
        have waits : waiting middle other = 1 := by
          rw [waiting, named]
          rfl
        rw [waiting_update_self]
        simp only [Moment.replies, Moment.requests, decide_true, Option.isSome_none, if_true,
          Bool.false_eq_true, if_false]
        omega
      · rw [waiting_update_of_ne _ _ same]
        simp only [Moment.replies, Moment.requests, decide_eq_true_eq, same, if_false,
          Bool.false_eq_true]
        exact counted

/-- A reply goes to the latest request under its key, with no reply in between. -/
theorem exchanges_latest (run : Exchanges history table) {place : Nat} {key : κ}
    {address : α} (here : history[place]? = some (.replied key address)) :
    ∃ request, request < place ∧ history[request]? = some (.requested key address) ∧
      ∀ other moment, request < other → other < place →
        history[other]? = some moment → moment.key ≠ key := by
  obtain ⟨before, after, runBefore, exchange, _⟩ := run.at here
  obtain ⟨below, _⟩ := List.getElem?_eq_some_iff.mp here
  cases exchange with
  | replied named =>
      rw [exchanges_table runBefore, List.map_take,
        tableAfter_eq_some_iff_latest (by rw [List.length_map]; omega)] at named
      obtain ⟨request, latest⟩ := named
      refine ⟨request, latest.before, ?_, ?_⟩
      · have entered := latest.entered
        rw [List.getElem?_map, Option.map_eq_some_iff] at entered
        obtain ⟨moment, there, isEnter⟩ := entered
        cases moment with
        | requested other client =>
            cases isEnter
            exact there
        | replied other client => cases isEnter
      · intro other moment later earlier there
        rw [← Moment.action_key]
        apply latest.quiet other moment.action later earlier
        rw [List.getElem?_map, there]
        rfl

end Table

end PostDns.Foundation.PendingTable
