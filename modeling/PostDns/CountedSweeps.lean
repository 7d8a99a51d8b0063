/-
How many names a sweep collects (ipv4_cache.c and ipv6_cache.c, the `clear` functions).

The array for the names has as many elements as the table counts.  As far as the
removals are right, the count may be ahead of the names that are stored, but it does not
fall behind them.  A removal at the head of a long chain leaves a node linked that the
allocator hands out again; the names behind it then stand in several buckets and count
once.
-/

import PostDns.ExactSweeps

namespace PostDns

open Foundation

variable {α : Type}

/-! ### Noted names -/

def Access.NotedBelow (size bound : Nat) (access : Access) : Prop :=
  ∃ index : Nat, access = .write (.expired size) index ∧ index < bound

/-- What the run writes comes behind the names it starts with, and ends up as the names
that it returns. -/
def Notes (size : Nat) (result : List StringT) (run : Exec (List StringT)) : Prop :=
  ∀ names, run.out = .ok names →
    result.length ≤ names.length ∧ Logged.Always (Access.NotedBelow size names.length) run

theorem notes_fail (size : Nat) (result : List StringT) (fault : Fault) :
    Notes size result (Logged.fail fault) := by
  intro names done
  cases done

theorem notes_pure (size : Nat) (result : List StringT) : Notes size result (pure result) := by
  intro names done
  cases done
  exact ⟨Nat.le_refl _, Logged.always_pure _ _⟩

theorem Notes.bind {size : Nat} {result : List StringT} {first : Exec (List StringT)}
    {next : List StringT → Exec (List StringT)} (firstNotes : Notes size result first)
    (nextNotes : ∀ middle, Notes size middle (next middle)) :
    Notes size result (first >>= next) := by
  intro names done
  obtain ⟨middle, firstDone, nextDone⟩ := Logged.bind_out_eq_ok.mp done
  obtain ⟨longer, firstBelow⟩ := firstNotes middle firstDone
  obtain ⟨longest, nextBelow⟩ := nextNotes middle names nextDone
  constructor
  · omega
  · rw [Logged.always_bind_of_ok firstDone]
    constructor
    · intro access member
      obtain ⟨index, isWrite, below⟩ := firstBelow access member
      exact ⟨index, isWrite, by omega⟩
    · exact nextBelow

theorem noteExpired_notes (size : Nat) (expired : α → Bool) (name : StringT)
    (data : Option α) (result : List StringT) :
    Notes size result (noteExpired size expired name data result) := by
  cases data with
  | none => exact notes_fail size result _
  | some cache =>
      by_cases isExpired : expired cache = true
      · rw [noteExpired, if_pos isExpired]
        intro names done
        cases done
        constructor
        · rw [List.length_append]
          exact Nat.le_add_right _ _
        · intro access member
          refine ⟨result.length, List.mem_singleton.mp member, ?_⟩
          rw [List.length_append, List.length_singleton]
          exact Nat.lt_succ_self _
      · rw [noteExpired, if_neg isExpired]
        exact notes_pure size result

theorem collectChain_notes (size : Nat) (expired : α → Bool) (t : HashTable α) (fuel : Nat)
    (start : Option NodeRef) (result : List StringT) :
    Notes size result (collectChain size expired t fuel start result) := by
  induction fuel generalizing start result with
  | zero => exact notes_fail size result _
  | succ fuel ih =>
      cases start with
      | none => exact notes_pure size result
      | some ref =>
          cases hRead : t.read ref with
          | error fault =>
              rw [collectChain, hRead]
              exact notes_fail size result fault
          | ok node =>
              rw [collectChain_read hRead]
              cases node.name with
              | none => exact notes_pure size result
              | some name =>
                  apply Notes.bind (noteExpired_notes size expired name node.data result)
                  intro middle
                  exact ih _ middle

theorem collectExpired_notes (size : Nat) (expired : α → Bool) (t : HashTable α)
    (count index : Nat) (result : List StringT) :
    Notes size result (collectExpired size expired t count index result) := by
  induction count generalizing index result with
  | zero => exact notes_pure size result
  | succ count ih =>
      apply Notes.bind (collectChain_notes size expired t _ _ result)
      intro middle
      exact ih (index + 1) middle

/-! ### Sweeps -/

def Access.InExpired : Access → Prop
  | .write (.expired size) index => 0 ≤ index ∧ index < size
  | _ => True

theorem Access.NotedBelow.inExpired {size bound : Nat} {access : Access}
    (noted : access.NotedBelow size bound) (inside : bound ≤ size) : access.InExpired := by
  obtain ⟨index, isWrite, below⟩ := noted
  rw [isWrite]
  constructor
  · exact Int.natCast_nonneg index
  · exact Int.ofNat_lt.mpr (Nat.lt_of_lt_of_le below inside)

theorem removeExpired_inExpired (names : List StringT) (t : HashTable α) :
    Logged.Always Access.InExpired (removeExpired names t) := by
  induction names generalizing t with
  | nil => exact Logged.always_pure _ _
  | cons name names ih =>
      rw [removeExpired, Logged.always_bind]
      constructor
      · intro access member
        cases member
      · intro middle _
        exact ih middle

/-- No more names are collected than are stored. -/
theorem collectExpired_length {t : HashTable α} {map : StringT → Option α}
    (isMap : IsMap t map) (size : Nat) (expired : α → Bool) {names : List StringT}
    (collected : (collectExpired size expired t t.capacity 0 []).out = .ok names) :
    names.length ≤ (storedNames t).length := by
  obtain ⟨found, collectedToo, member⟩ := collectExpired_isMap isMap size expired
  have same : found = names := Except.ok.inj (collectedToo.symm.trans collected)
  subst same
  apply List.Subperm.length_le
  apply (collectExpired_nodup isMap collected).subperm
  intro name noted
  obtain ⟨data, stored, _⟩ := (member name).mp noted
  rw [(storedNames_isMap isMap).2 name, stored]
  rfl

/-- The names that a sweep collects fit into the array. -/
theorem cacheClear_inExpired {t : HashTable α} {map : StringT → Option α} (isMap : IsMap t map)
    (counted : (storedNames t).length ≤ t.count) (expired : α → Bool) :
    Logged.Always Access.InExpired (cacheClear expired t) := by
  obtain ⟨names, collected, _⟩ := collectExpired_isMap isMap t.count expired
  obtain ⟨_, below⟩ := collectExpired_notes t.count expired t t.capacity 0 [] names collected
  have few := collectExpired_length isMap t.count expired collected
  rw [cacheClear, Logged.always_bind]
  constructor
  · intro access member
    exact (below access member).inExpired (Nat.le_trans few counted)
  · intro names _
    exact removeExpired_inExpired names t

/-! ### Runs -/

theorem safeRun_inExpired {choices : List Nat} {operations : List (Operation α)}
    {t : HashTable α} (run : Run SafeStep (hashTableNew choices) operations t) :
    (storedNames t).length ≤ t.count ∧
      ∀ expired, Logged.Always Access.InExpired (cacheClear expired t) := by
  obtain ⟨map, isMap, counted, _⟩ := safeRun_counted run
  exact ⟨counted, fun expired => cacheClear_inExpired isMap counted expired⟩

/-- As long as no removal meets its name at the head of a long chain, the buckets hold no
more names than the table counts, and no sweep of an address cache writes behind its
array. -/
theorem sweeps_inExpired (choices : List Nat) :
    (∀ (operations : List (Operation Ipv4Cache)) (t : HashTable Ipv4Cache),
      Run SafeStep (hashTableNew choices) operations t →
      (storedNames t).length ≤ t.count ∧
        ∀ now, Logged.Always Access.InExpired (ipv4CacheClear now t)) ∧
    (∀ (operations : List (Operation Ipv6Cache)) (t : HashTable Ipv6Cache),
      Run SafeStep (hashTableNew choices) operations t →
      (storedNames t).length ≤ t.count ∧
        ∀ now, Logged.Always Access.InExpired (ipv6CacheClear now t)) := by
  constructor
  · intro operations t run
    obtain ⟨counted, inside⟩ := safeRun_inExpired run
    exact ⟨counted, fun now => inside _⟩
  · intro operations t run
    obtain ⟨counted, inside⟩ := safeRun_inExpired run
    exact ⟨counted, fun now => inside _⟩

private def oldEntry : Ipv4Cache :=
  { node := [0x01020304]
    ttl := 120
    timestamp := 0
    manual := false }

private def puts (names : List StringT) : List (Operation Ipv4Cache) :=
  names.map fun name => .put (some name) (some oldEntry)

private def onceStored : HashTable Ipv4Cache :=
  { table := (List.replicate 8 HashNode.empty).set 4
      { name := some [97], data := some oldEntry, next := none }
    cells := Heap.empty []
    count := 1
    capacity := 8
    threshold := 6 }

private def stillCounted : HashTable Ipv4Cache :=
  { table := List.replicate 8 HashNode.empty
    cells := Heap.empty []
    count := 1
    capacity := 8
    threshold := 6 }

theorem sweeps_inExpired_stillCounted :
    (storedNames stillCounted).length ≤ stillCounted.count ∧
      ∀ now, Logged.Always Access.InExpired (ipv4CacheClear now stillCounted) := by
  have safe : ¬ HeadOfLongChain onceStored [97] := by
    rintro ⟨head, second, address, read, _, linked, _⟩
    have isHead : onceStored.read (.head (bucketIndex [97] 8)) =
        .ok { name := some [97], data := some oldEntry, next := none } := by
      decide +kernel
    rw [show onceStored.capacity = 8 from rfl, isHead] at read
    cases read
    cases linked
  have put : Run SafeStep (hashTableNew []) (puts [[97]]) onceStored :=
    Run.snoc Run.nil ⟨trivial, by decide +kernel⟩
  have removed : Run SafeStep (hashTableNew []) (puts [[97]] ++ [.remove [97]]) stillCounted :=
    Run.snoc put ⟨safe, by decide +kernel⟩
  exact (sweeps_inExpired []).1 _ _ removed

/-- The operations on a table in four of whose buckets three names come together.  Each
removal leaves the third node of a bucket linked and released, and the insertion behind it
is given this node, so that the last names stand in all four buckets. -/
private def sharing : List (Operation Ipv4Cache) :=
  puts [[97, 111], [97, 120], [99, 97], [98, 97], [98, 119], [99, 121], [98, 117], [99, 103],
      [100, 100], [97], [102], [97, 117]] ++
    [.remove [98, 119]] ++ puts [[105, 113]] ++
    [.remove [99, 103]] ++ puts [[107, 98]] ++
    [.remove [102]] ++ puts [[107, 108], [107, 112], [109, 117], [109, 118], [110, 101],
      [112, 117], [113, 107], [113, 118], [115, 110], [121, 111], [121, 116]]

/-- What `malloc` returns meanwhile: thirteen new nodes, then the three released ones. -/
private def reusing : List Nat := List.replicate 13 99 ++ [11, 12, 9]

private def overfull : HashTable Ipv4Cache :=
  ((sharing.foldlM Operation.apply (hashTableNew reusing)).toOption).getD (hashTableNew [])

theorem not_sweeps_inExpired_shared :
    Run OperationStep (hashTableNew reusing) sharing overfull ∧
      overfull.count = 52 ∧ (storedNames overfull).length = 55 ∧
        ¬ Logged.Always Access.InExpired (ipv4CacheClear 121 overfull) := by
  refine ⟨run_of_foldlM (by decide +kernel), by decide +kernel, by decide +kernel, ?_⟩
  intro inside
  have written : Access.write (.expired 52) 52 ∈ (ipv4CacheClear 121 overfull).log := by
    decide +kernel
  have below := (inside _ written).2
  omega

end PostDns
