/-
The balance of a whole run (hash_table.c).

A ledger notes what the operations of a run release and what they lose.  In balance every
data that was handed over is released, lost or still stored.  A run stays in balance as long
as no removal meets the head of a long chain; right after one that does, the release of the
table reads a released node.
-/

import PostDns.ExactSweeps
import PostDns.Foundation.Listing
import PostDns.Ownership

namespace PostDns

open Foundation

variable {α : Type}

/-! ### Runs with a ledger -/

/-- What has been released so far, and what no pointer leads to any more. -/
structure Ledger (α : Type) where
  released : List (Owned α)
  lost : List α

def Ledger.empty : Ledger α :=
  { released := []
    lost := [] }

def LedgerStep (before : HashTable α × Ledger α) (operation : Operation α)
    (after : HashTable α × Ledger α) : Prop :=
  ∃ freed, operation.applyOwned before.1 = .ok (after.1, freed) ∧
    after.2 =
      { released := before.2.released ++ freed
        lost := before.2.lost ++ operation.lost before.1 }

theorem ledgerStep_of_owned {before : HashTable α × Ledger α} {operation : Operation α}
    {t : HashTable α} {freed : List (Owned α)}
    (done : operation.applyOwned before.1 = .ok (t, freed)) :
    LedgerStep before operation
      (t, { released := before.2.released ++ freed
            lost := before.2.lost ++ operation.lost before.1 }) :=
  ⟨freed, done, rfl⟩

def SafeLedgerStep (before : HashTable α × Ledger α) (operation : Operation α)
    (after : HashTable α × Ledger α) : Prop :=
  operation.Safe before.1 ∧ LedgerStep before operation after

/-- Every safe run has its ledger. -/
theorem ledgerRun_of_safeRun {choices : List Nat} {operations : List (Operation α)}
    {t : HashTable α} (run : Run SafeStep (hashTableNew choices) operations t) :
    ∃ ledger, Run SafeLedgerStep (hashTableNew choices, Ledger.empty) operations
      (t, ledger) := by
  refine run.invariant (fun operations t => ∃ ledger,
    Run SafeLedgerStep (hashTableNew choices, Ledger.empty) operations (t, ledger))
    ⟨Ledger.empty, Run.nil⟩ ?_
  intro operations operation middle final soFar step
  obtain ⟨ledger, run⟩ := soFar
  obtain ⟨freed, done⟩ := owned_of_apply step.2
  exact ⟨_, Run.snoc run ⟨step.1, ledgerStep_of_owned done⟩⟩

/-- Insertions lose nothing. -/
theorem ledgerRun_puts {start after : HashTable α × Ledger α} (empty : start.2.lost = [])
    {operations : List (Operation α)} (run : Run SafeLedgerStep start operations after)
    (puts : ∀ operation ∈ operations, ∃ name data, operation = .put name data) :
    after.2.lost = [] := by
  refine run.invariant (fun operations after =>
    (∀ operation ∈ operations, ∃ name data, operation = .put name data) →
      after.2.lost = []) (fun _ => empty) ?_ puts
  intro operations operation middle final soFar step allPuts
  have before := soFar fun other member => allPuts other (List.mem_append_left _ member)
  obtain ⟨name, data, isPut⟩ := allPuts operation (by simp)
  obtain ⟨freed, _, isLedger⟩ := step.2
  rw [isLedger, before, isPut]
  rfl

/-- Every data handed over was released, is lost or is still stored, and the nodes are those
of the stored entries and one for each lost data. -/
structure Balanced (given : List α) (t : HashTable α) (ledger : Ledger α)
    (map : StringT → Option α) : Prop where
  isMap : IsMap t map
  neat : t.Neat
  data : (dataOf ledger.released ++ ledger.lost ++ (storedNames t).filterMap map).Perm given
  nodes : t.nodeCount = ((storedNames t).filterMap map).length + ledger.lost.length

theorem balanced_new (choices : List Nat) :
    Balanced [] (hashTableNew choices : HashTable α) Ledger.empty fun _ => none := by
  have nothing : storedNames (hashTableNew choices : HashTable α) = [] := by
    apply List.eq_nil_iff_forall_not_mem.mpr
    intro name
    rw [(storedNames_isMap (hashTableNew_isMap choices)).2]
    exact Bool.false_ne_true
  constructor
  · exact hashTableNew_isMap choices
  · exact neat_new choices
  · rw [nothing]
    exact List.Perm.refl _
  · rw [nothing]
    rfl

theorem listing_storedNames {t : HashTable α} {map : StringT → Option α}
    (isMap : IsMap t map) : Listing (storedNames t) map := by
  have names := storedNames_isMap isMap
  exact ⟨names.1, names.2⟩

/-- An exchange under one name keeps the balance. -/
theorem Balanced.exchange {given : List α} {t t' : HashTable α} {ledger : Ledger α}
    {map : StringT → Option α} (balanced : Balanced given t ledger map) {name : StringT}
    {operation : Operation α} {freed : List (Owned α)} {entry : Option α}
    (exchanges : Exchanges t operation t' freed (map name) entry)
    (isMap' : IsMap t' (Function.update map name entry)) :
    Balanced (given ++ operation.given) t'
      { released := ledger.released ++ freed
        lost := ledger.lost ++ operation.lost t } (Function.update map name entry) := by
  have values := (listing_storedNames balanced.isMap).values_update
    (listing_storedNames isMap')
  constructor
  · exact isMap'
  · exact exchanges.neat
  · classical
    have before := List.perm_iff_count.mp balanced.data
    have exchanged := List.perm_iff_count.mp values
    rw [dataOf_append, exchanges.given, List.perm_iff_count]
    intro data
    have taken := congrArg (List.count data) exchanges.data
    have same := before data
    have swapped := exchanged data
    simp only [List.count_append] at taken same swapped ⊢
    omega
  · have lengths := values.length_eq
    have before := balanced.nodes
    have counted := exchanges.nodes
    rw [List.length_append, List.length_append] at lengths
    rw [List.length_append]
    omega

theorem Balanced.idle {given : List α} {t : HashTable α} {ledger : Ledger α}
    {map : StringT → Option α} (balanced : Balanced given t ledger map) :
    Balanced (given ++ []) t
      { released := ledger.released ++ []
        lost := ledger.lost ++ [] } map := by
  rw [List.append_nil, List.append_nil, List.append_nil]
  exact balanced

theorem Balanced.step {given : List α} {t : HashTable α} {ledger : Ledger α}
    {map : StringT → Option α} (balanced : Balanced given t ledger map)
    {operation : Operation α} (safe : operation.Safe t) {after : HashTable α × Ledger α}
    (step : LedgerStep (t, ledger) operation after) :
    ∃ map', Balanced (given ++ operation.given) after.1 after.2 map' := by
  obtain ⟨freed, done, isLedger⟩ := step
  rw [isLedger]
  cases operation with
  | remove name =>
      have isMap' := hashTableRemove_of_ok balanced.isMap safe (apply_of_owned done)
      exact ⟨_, balanced.exchange
        (remove_exchanges balanced.isMap balanced.neat safe done) isMap'⟩
  | put name data =>
      cases name with
      | none =>
          cases done
          exact ⟨map, balanced.idle⟩
      | some name =>
          cases data with
          | none =>
              cases done
              exact ⟨map, balanced.idle⟩
          | some data =>
              obtain ⟨put, run, isMap'⟩ := hashTablePut_isMap balanced.isMap name data
              have same : put = after.1 :=
                Except.ok.inj (run.symm.trans (apply_of_owned done))
              rw [same] at isMap'
              exact ⟨_, balanced.exchange
                (put_exchanges balanced.isMap balanced.neat done) isMap'⟩

/-! ### The balance of a run -/

/-- Every safe run balances. -/
theorem ledgerRun_balanced {choices : List Nat} {operations : List (Operation α)}
    {after : HashTable α × Ledger α}
    (run : Run SafeLedgerStep (hashTableNew choices, Ledger.empty) operations after) :
    ∃ map, Balanced (operations.flatMap Operation.given) after.1 after.2 map := by
  refine run.invariant (fun operations after =>
    ∃ map, Balanced (operations.flatMap Operation.given) after.1 after.2 map)
    ⟨_, balanced_new choices⟩ ?_
  rintro operations operation middle final ⟨map, balanced⟩ ⟨safe, step⟩
  rw [List.flatMap_append, List.flatMap_singleton]
  exact balanced.step safe step

/-- What `hash_table_free` does to a table in balance: the stored names and data are
released, and a node stays for each lost data. -/
theorem Balanced.free {given : List α} {t : HashTable α} {ledger : Ledger α}
    {map : StringT → Option α} (balanced : Balanced given t ledger map) :
    ∃ cells freed, hashTableFree t = .ok (cells, freed) ∧ namesOf freed = storedNames t ∧
      (dataOf (ledger.released ++ freed) ++ ledger.lost).Perm given ∧
      cells.liveCount = ledger.lost.length := by
  obtain ⟨contents, laid, means⟩ := balanced.isMap
  obtain ⟨cells, freed, run, handed⟩ := hashTableFree_laid laid
  have stored := storedData_eq_entries laid means
  refine ⟨cells, freed, run, ?_, ?_, ?_⟩
  · rw [handed.names, storedNames_eq_entries laid]
  · have data := balanced.data
    rw [stored, ← handed.data] at data
    rw [dataOf_append, List.append_assoc]
    refine List.Perm.trans ?_ data
    rw [List.append_assoc]
    exact List.perm_append_comm.append_left _
  · have nodes := balanced.nodes
    rw [stored, List.length_map] at nodes
    have live := handed.live
    have entries := liveCount_entries laid balanced.neat
    omega

/-! ### After an unsafe removal -/

/-- What is not live stays so while a chain is released, and the array is not touched. -/
theorem freeNodes_keeps {t t' : HashTable α} {fuel : Nat} {start : Option Nat}
    {handed handed' : List (Owned α)}
    (done : freeNodes fuel start t handed = .ok (t', handed')) :
    t'.table = t.table ∧ ∀ address, ¬ t.cells.Live address → ¬ t'.cells.Live address := by
  induction fuel generalizing start t handed with
  | zero => cases done
  | succ fuel ih =>
      cases start with
      | none =>
          cases done
          exact ⟨rfl, fun _ released => released⟩
      | some place =>
          obtain ⟨node, _, freeing⟩ := except_bind_eq_ok.mp done
          obtain ⟨middle, freed, rest⟩ := except_bind_eq_ok.mp freeing
          have isMiddle := free_of_ok freed
          subst isMiddle
          obtain ⟨table, kept⟩ := ih rest
          refine ⟨table, fun address released => kept address ?_⟩
          intro live
          by_cases same : address = place
          · rw [same] at live
            exact not_live_free t.cells place live
          · obtain ⟨present, read⟩ := live
            apply released
            refine ⟨present, ?_⟩
            rw [← read]
            exact (Heap.read_free_of_ne t.cells same).symm

theorem freeNodes_released {t : HashTable α} {address : Nat}
    (released : ¬ t.cells.Live address) (fuel : Nat) (handed : List (Owned α))
    (left : HashTable α × List (Owned α)) :
    freeNodes fuel (some address) t handed ≠ .ok left := by
  intro done
  cases fuel with
  | zero => cases done
  | succ fuel =>
      obtain ⟨node, readable, _⟩ := except_bind_eq_ok.mp done
      exact released ⟨node, read_chain_eq_ok.mp readable⟩

/-- The release of a table stops at a head in use that leads to a released node. -/
theorem freeBuckets_stops {count index : Nat} {t : HashTable α} {handed : List (Owned α)}
    {left : HashTable α × List (Owned α)} (done : freeBuckets count index t handed = .ok left)
    {place address : Nat} {head : HashNode α} {name : StringT} (after : index ≤ place)
    (before : place < index + count) (read : t.read (.head place) = .ok head)
    (used : head.name = some name) (next : head.next = some address) :
    t.cells.Live address := by
  by_contra released
  induction count generalizing index t handed with
  | zero => omega
  | succ count ih =>
      obtain ⟨⟨middle, handed'⟩, freed, rest⟩ := except_bind_eq_ok.mp done
      obtain ⟨node, readable, freeing⟩ := except_bind_eq_ok.mp freed
      by_cases here : index = place
      · subst here
        have isHead : node = head := Except.ok.inj (readable.symm.trans read)
        subst isHead
        simp only [used, next] at freeing
        exact freeNodes_released released _ _ _ freeing
      · cases hName : node.name with
        | none =>
            simp only [hName] at freeing
            cases freeing
            exact ih rest (by omega) (by omega) read released
        | some other =>
            simp only [hName] at freeing
            obtain ⟨table, kept⟩ := freeNodes_keeps freeing
            have same : middle.read (.head place) = .ok head := by
              rw [← read]
              simp only [HashTable.read, readNode, table]
            exact ih rest (by omega) (by omega) same (kept address released)

/-- A removal at the head of a long chain leaves a head that leads to the node it released. -/
theorem hashTableFree_afterUnsafe {t t' : HashTable α} {map : StringT → Option α}
    (isMap : IsMap t map) {name : StringT} (long : HeadOfLongChain t name)
    (removed : hashTableRemove t name = .ok t')
    (left : Heap (HashNode α) × List (Owned α)) : hashTableFree t' ≠ .ok left := by
  intro done
  obtain ⟨contents, laid, _⟩ := isMap
  obtain ⟨gone, second, third, rest, isName, bucketIs⟩ := (headOfLongChain_iff laid).mp long
  obtain ⟨next, address, node, _, run, _⟩ := hashTableRemove_long laid isName bucketIs
  rw [run] at removed
  cases removed
  obtain ⟨_, freeing, _⟩ := except_bind_eq_ok.mp done
  have inside : bucketIndex name t.capacity < 0 +
      (t.bypass (.head (bucketIndex name t.capacity)) (second.node (some address))
        address).capacity := by
    rw [bypass_capacity, Nat.zero_add]
    exact bucketIndex_lt laid.positive name
  exact not_live_free _ address
    (freeBuckets_stops freeing (Nat.zero_le _) inside (bypass_written node nofun) rfl rfl)

/-- After a run without an unsafe removal the table can be released.  Then every data handed
over has been released once, except the lost ones, and as many nodes stay allocated as there
are lost data.  Right after the first unsafe removal it cannot be released. -/
theorem hashTableFree_balances {choices : List Nat} {operations : List (Operation α)}
    {t : HashTable α} {ledger : Ledger α}
    (run : Run SafeLedgerStep (hashTableNew choices, Ledger.empty) operations (t, ledger)) :
    (∃ cells freed, hashTableFree t = .ok (cells, freed) ∧ namesOf freed = storedNames t ∧
        (dataOf (ledger.released ++ freed) ++ ledger.lost).Perm
          (operations.flatMap Operation.given) ∧
        cells.liveCount = ledger.lost.length) ∧
      ∀ name t' left, HeadOfLongChain t name → hashTableRemove t name = .ok t' →
        hashTableFree t' ≠ .ok left := by
  obtain ⟨map, balanced⟩ := ledgerRun_balanced run
  constructor
  · exact balanced.free
  · intro name t' left long removed
    exact hashTableFree_afterUnsafe balanced.isMap long removed left

theorem not_headOfLongChain_of_two {t : HashTable α} {name : StringT} {head second : HashNode α}
    {address : Nat} (read : t.read (.head (bucketIndex name t.capacity)) = .ok head)
    (next : head.next = some address) (readSecond : t.read (.chain address) = .ok second)
    (last : second.next = none) : ¬ HeadOfLongChain t name := by
  rintro ⟨head', second', address', read', _, next', readSecond', more⟩
  have isHead : head' = head := Except.ok.inj (read'.symm.trans read)
  rw [isHead, next] at next'
  rw [← Option.some.inj next', readSecond] at readSecond'
  apply more
  rw [← Except.ok.inj readSecond']
  exact last

/-- Two names of one bucket: the data of the first is overwritten, and then it is removed in
front of the second. -/
theorem hashTableFree_balances_lost :
    ∃ (t : HashTable Nat) (ledger : Ledger Nat) (cells : Heap (HashNode Nat))
        (freed : List (Owned Nat)),
      Run SafeLedgerStep (hashTableNew [], Ledger.empty)
          [.put (some [97]) (some 1), .put (some [100]) (some 2), .put (some [97]) (some 5),
            .remove [97]] (t, ledger) ∧
        hashTableFree t = .ok (cells, freed) ∧ ledger.lost = [5] ∧
        (dataOf (ledger.released ++ freed) ++ ledger.lost).Perm [1, 2, 5] ∧
        cells.liveCount = 1 := by
  obtain ⟨t, ledger, run, lost⟩ : ∃ (t : HashTable Nat) (ledger : Ledger Nat),
      Run SafeLedgerStep (hashTableNew [], Ledger.empty)
          [.put (some [97]) (some 1), .put (some [100]) (some 2), .put (some [97]) (some 5),
            .remove [97]] (t, ledger) ∧ ledger.lost = [5] := by
    exact ⟨_, _, Run.snoc (Run.snoc (Run.snoc (Run.snoc Run.nil
      ⟨trivial, ledgerStep_of_owned rfl⟩) ⟨trivial, ledgerStep_of_owned rfl⟩)
      ⟨trivial, ledgerStep_of_owned rfl⟩)
      ⟨not_headOfLongChain_of_two rfl rfl rfl rfl, ledgerStep_of_owned rfl⟩, rfl⟩
  obtain ⟨⟨cells, freed, done, _, data, live⟩, _⟩ := hashTableFree_balances run
  rw [lost] at live
  exact ⟨t, ledger, cells, freed, run, done, lost, data, live⟩

end PostDns
