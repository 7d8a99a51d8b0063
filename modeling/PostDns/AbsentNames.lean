/-
Removing a name that is not stored (hash_table.c, `hash_table_remove`).

The loops of `hash_table_put` and `hash_table_get` stop at NULL; the loop of
`hash_table_remove` only stops at a node without a name.  An empty bucket has one, in
its head; the end of a chain has not.
-/

import PostDns.Growth

namespace PostDns

open Foundation

variable {α : Type}

def putEach (puts : List (Option StringT × Option α)) (t : HashTable α) :
    Except Fault (HashTable α) :=
  puts.foldlM (fun t put => hashTablePut t put.1 put.2) t

def Absent (t : HashTable α) (name : StringT) : Prop :=
  ∀ index ref, ¬ StoredAt t index ref name

def BucketEmpty (t : HashTable α) (name : StringT) : Prop :=
  ∀ ref other, ¬ StoredAt t (bucketIndex name t.capacity) ref other

/-- The removal returns, and every node, the count and every lookup are as before. -/
def RemovalIgnored (t : HashTable α) (name : StringT) : Prop :=
  ∃ t', hashTableRemove t name = .ok t' ∧
    (∀ ref, t'.read ref = t.read ref) ∧
    t'.capacity = t.capacity ∧
    t'.count = t.count ∧
    ∀ other, hashTableGet t' other = hashTableGet t other

theorem putEach_reached {puts : List (Option StringT × Option α)} {t t' : HashTable α}
    (reached : Reached t) (done : putEach puts t = .ok t') : Reached t' := by
  induction puts generalizing t with
  | nil =>
      cases done
      exact reached
  | cons put puts ih =>
      rw [putEach, List.foldlM_cons] at done
      obtain ⟨middle, first, rest⟩ := except_bind_eq_ok.mp done
      exact ih (reached.put first) rest

theorem absent_of_laid {t : HashTable α} {contents : Nat → List (Entry α)}
    (laid : Laid t.read t.capacity contents) {name : StringT} (absent : Absent t name) :
    ∀ entry ∈ contents (bucketIndex name t.capacity), entry.name ≠ name := by
  intro entry member isName
  apply absent (bucketIndex name t.capacity) entry.ref
  exact (storedAt_iff laid).mpr
    ⟨bucketIndex_lt laid.positive name, entry, member, rfl, isName⟩

theorem bucketEmpty_iff {t : HashTable α} {contents : Nat → List (Entry α)}
    (laid : Laid t.read t.capacity contents) {name : StringT} :
    BucketEmpty t name ↔ contents (bucketIndex name t.capacity) = [] := by
  constructor
  · intro empty
    apply List.eq_nil_iff_forall_not_mem.mpr
    intro entry member
    apply empty entry.ref entry.name
    exact (storedAt_iff laid).mpr
      ⟨bucketIndex_lt laid.positive name, entry, member, rfl, rfl⟩
  · intro empty ref other stored
    obtain ⟨_, entry, member, _, _⟩ := (storedAt_iff laid).mp stored
    rw [empty] at member
    cases member

theorem absent_iff_get {t : HashTable α} (reached : Reached t) {name : StringT} :
    Absent t name ↔ hashTableGet t name = .ok none := by
  obtain ⟨map, contents, laid, means⟩ := reached.isMap
  rw [hashTableGet_laid laid]
  constructor
  · intro absent
    exact congrArg _ (lookupIn_eq_none_iff.mpr (absent_of_laid laid absent))
  · intro missing index ref stored
    obtain ⟨inside, entry, member, _, isName⟩ := (storedAt_iff laid).mp stored
    have placed := laid.placed index inside entry member
    rw [isName] at placed
    rw [← placed] at member
    exact lookupIn_eq_none_iff.mp (Except.ok.inj missing) entry member isName

/-- An empty bucket is an empty head. -/
theorem bucketEmpty_iff_head {t : HashTable α} (reached : Reached t) {name : StringT} :
    BucketEmpty t name ↔
      t.read (.head (bucketIndex name t.capacity)) = .ok HashNode.empty := by
  obtain ⟨map, contents, laid, means⟩ := reached.isMap
  have bucket := laid.bucket_of name
  rw [bucketEmpty_iff laid]
  constructor
  · intro empty
    rw [empty] at bucket
    exact bucket
  · intro unused
    cases hContents : contents (bucketIndex name t.capacity) with
    | nil => rfl
    | cons first rest =>
        rw [hContents] at bucket
        obtain ⟨here, next, node, _⟩ := bucket
        rw [← Option.some.inj here, unused] at node
        cases node

/-- What the removal of an absent name comes to, whatever was put before. -/
theorem hashTableRemove_absent {t : HashTable α} (reached : Reached t) {name : StringT}
    (absent : Absent t name) :
    (BucketEmpty t name → hashTableRemove t name = .ok t) ∧
      (¬ BucketEmpty t name → hashTableRemove t name = .error .nullPointer) := by
  obtain ⟨map, contents, laid, means⟩ := reached.isMap
  rw [bucketEmpty_iff laid, hashTableRemove_missing laid (absent_of_laid laid absent)]
  constructor
  · intro empty
    rw [if_pos empty]
  · intro filled
    rw [if_neg filled]

theorem hashTableRemove_ignored_iff {choices : List Nat}
    {puts : List (Option StringT × Option α)} {t : HashTable α}
    (reached : putEach puts (hashTableNew choices) = .ok t) {name : StringT}
    (absent : Absent t name) : RemovalIgnored t name ↔ BucketEmpty t name := by
  obtain ⟨ignored, faulty⟩ :=
    hashTableRemove_absent (putEach_reached (Reached.new choices) reached) absent
  constructor
  · intro returns
    by_contra filled
    obtain ⟨t', done, _⟩ := returns
    rw [faulty filled] at done
    cases done
  · intro empty
    exact ⟨t, ignored empty, fun _ => rfl, rfl, rfl, fun _ => rfl⟩

def oneStored : HashTable Nat :=
  { table := (List.replicate 8 HashNode.empty).set 4
      { name := some [97], data := some 1, next := none }
    cells := Heap.empty []
    count := 1
    capacity := 8
    threshold := 6 }

theorem oneStored_put : putEach [(some [97], some 1)] (hashTableNew []) = .ok oneStored := by
  decide +kernel

theorem oneStored_absent {name : StringT}
    (missing : hashTableGet oneStored name = .ok none) : Absent oneStored name :=
  (absent_iff_get (putEach_reached (Reached.new []) oneStored_put)).mpr missing

theorem removalIgnored_oneStored : RemovalIgnored oneStored [98] := by
  apply (hashTableRemove_ignored_iff oneStored_put
    (oneStored_absent (by decide +kernel))).mpr
  apply (bucketEmpty_iff_head (putEach_reached (Reached.new []) oneStored_put)).mpr
  decide +kernel

/-- Another name of the same bucket. -/
theorem not_removalIgnored_oneStored :
    putEach [(some [97], some 1)] (hashTableNew []) = .ok oneStored ∧
      Absent oneStored [100] ∧
      hashTableRemove oneStored [100] = .error .nullPointer ∧
      ¬ RemovalIgnored oneStored [100] := by
  have faulty : hashTableRemove oneStored [100] = .error .nullPointer := by
    decide +kernel
  refine ⟨oneStored_put, oneStored_absent (by decide +kernel), faulty, ?_⟩
  rintro ⟨t', done, _⟩
  rw [faulty] at done
  cases done

end PostDns
