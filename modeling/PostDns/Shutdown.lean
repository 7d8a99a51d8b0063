/-
The release of a whole table (hash_table.c).

`hash_table_free` passes over the buckets and hands every name, every data and every chain
node that it meets to `free`.  On a table that is a map these are what the table stores,
each once and in the order of the buckets.
-/

import PostDns.Growth

namespace PostDns

open Foundation

variable {α : Type}

/-! ### The function -/

/-- What the table hands to `string_free` or, other than its own nodes, to `free`. -/
inductive Owned (α : Type) where
  | name (name : StringT)
  | data (data : α)
deriving DecidableEq

def HashNode.ownedName (node : HashNode α) : List (Owned α) := node.name.toList.map .name

def HashNode.ownedData (node : HashNode α) : List (Owned α) := node.data.toList.map .data

/-- The inner `while` loop of `hash_table_free`. -/
def freeNodes : Nat → Option Nat → HashTable α → List (Owned α) →
    Except Fault (HashTable α × List (Owned α))
  | 0, _, _, _ => .error .outOfFuel
  | _ + 1, none, t, released => pure (t, released)
  | fuel + 1, some address, t, released => do
      let node ← t.read (.chain address)
      let t ← t.free (some address)
      freeNodes fuel node.next t (released ++ (node.ownedData ++ node.ownedName))

/-- The body of the `for` loop of `hash_table_free`. -/
def freeBucket (t : HashTable α) (index : Nat) (released : List (Owned α)) :
    Except Fault (HashTable α × List (Owned α)) := do
  let node ← t.read (.head index)
  match node.name with
  | none => pure (t, released)
  | some _ =>
      freeNodes t.chainBound node.next t (released ++ (node.ownedName ++ node.ownedData))

/-- The `for` loop of `hash_table_free` with `count` buckets to go. -/
def freeBuckets : Nat → Nat → HashTable α → List (Owned α) →
    Except Fault (HashTable α × List (Owned α))
  | 0, _, t, released => pure (t, released)
  | count + 1, index, t, released => do
      let (t, released) ← freeBucket t index released
      freeBuckets count (index + 1) t released

/-- The array and the table itself go last, so that only the heap of chain nodes is left. -/
def hashTableFree (t : HashTable α) : Except Fault (Heap (HashNode α) × List (Owned α)) := do
  let (t, released) ← freeBuckets t.capacity 0 t []
  pure (t.cells, released)

/-! ### What is handed over -/

def namesOf (released : List (Owned α)) : List StringT :=
  released.filterMap fun
    | .name name => some name
    | .data _ => none

def dataOf (released : List (Owned α)) : List α :=
  released.filterMap fun
    | .name _ => none
    | .data data => some data

@[simp] theorem namesOf_append (first second : List (Owned α)) :
    namesOf (first ++ second) = namesOf first ++ namesOf second :=
  List.filterMap_append

@[simp] theorem dataOf_append (first second : List (Owned α)) :
    dataOf (first ++ second) = dataOf first ++ dataOf second :=
  List.filterMap_append

def Entry.chained (entry : Entry α) : Bool :=
  match entry.ref with
  | .head _ => false
  | .chain _ => true

structure Handed (cells : Heap (HashNode α)) (entries : List (Entry α))
    (released : List (Owned α)) (cells' : Heap (HashNode α)) : Prop where
  names : namesOf released = entries.map Entry.name
  data : dataOf released = entries.map Entry.data
  live : cells'.liveCount + entries.countP Entry.chained = cells.liveCount
  kept : ∀ address, (∀ entry ∈ entries, entry.ref ≠ .chain address) →
    cells'.read address = cells.read address

theorem Handed.nil (cells : Heap (HashNode α)) : Handed cells [] [] cells :=
  { names := rfl
    data := rfl
    live := rfl
    kept := fun _ _ => rfl }

theorem Handed.append {cells cells' cells'' : Heap (HashNode α)}
    {entries entries' : List (Entry α)} {released released' : List (Owned α)}
    (first : Handed cells entries released cells')
    (second : Handed cells' entries' released' cells'') :
    Handed cells (entries ++ entries') (released ++ released') cells'' := by
  constructor
  · rw [namesOf_append, first.names, second.names, List.map_append]
  · rw [dataOf_append, first.data, second.data, List.map_append]
  · rw [List.countP_append]
    have before := first.live
    have after := second.live
    omega
  · intro address foreign
    rw [second.kept address fun entry member => foreign entry (List.mem_append_right _ member),
      first.kept address fun entry member => foreign entry (List.mem_append_left _ member)]

/-- The head of a bucket has its place in the array. -/
theorem Handed.head (cells : Heap (HashNode α)) {entry : Entry α} {index : Nat}
    (isHead : entry.ref = .head index) (next : Option Nat) :
    Handed cells [entry]
      ((entry.node next).ownedName ++ (entry.node next).ownedData) cells := by
  constructor
  · rfl
  · rfl
  · simp [Entry.chained, isHead]
  · intro _ _
    rfl

theorem Handed.chain {cells : Heap (HashNode α)} {entry : Entry α} {address : Nat}
    {next : Option Nat} (isChain : entry.ref = .chain address)
    (present : cells.read address = some (entry.node next)) :
    Handed cells [entry]
      ((entry.node next).ownedData ++ (entry.node next).ownedName) (cells.free address) := by
  constructor
  · rfl
  · rfl
  · rw [List.countP_singleton, Entry.chained, isChain]
    exact Heap.liveCount_free present
  · intro other foreign
    apply Heap.read_free_of_ne
    intro same
    apply foreign entry (List.mem_singleton_self entry)
    rw [isChain, same]

/-- Entries elsewhere are as they were. -/
theorem Handed.chainFrom {t : HashTable α} {entries others : List (Entry α)}
    {released : List (Owned α)} {cells : Heap (HashNode α)}
    (handed : Handed t.cells entries released cells) {start : Option NodeRef}
    (apart : ∀ other ∈ others, ∀ entry ∈ entries, other.ref ≠ entry.ref)
    (chain : ChainFrom t.read start others) :
    ChainFrom { t with cells := cells }.read start others := by
  apply chain.congr
  intro other member
  apply readNode_congr t.table
  intro address isChain
  apply handed.kept
  intro entry inEntries isEntry
  exact apart other member entry inEntries (isChain.trans isEntry.symm)

/-! ### The loops -/

theorem freeNodes_chain {t : HashTable α} {next : Option Nat} {entries : List (Entry α)}
    (chain : ChainFrom t.read (next.map .chain) entries)
    (refs : (entries.map Entry.ref).Nodup) {fuel : Nat} (enough : entries.length < fuel)
    (released : List (Owned α)) :
    ∃ cells freed, freeNodes fuel next t released =
        .ok ({ t with cells := cells }, released ++ freed) ∧
      Handed t.cells entries freed cells := by
  induction entries generalizing t next fuel released with
  | nil =>
      cases fuel with
      | zero => omega
      | succ fuel =>
          have ended : next = none := Option.map_eq_none_iff.mp chain
          subst ended
          refine ⟨t.cells, [], ?_, Handed.nil t.cells⟩
          rw [List.append_nil]
          rfl
  | cons entry rest ih =>
      cases fuel with
      | zero => omega
      | succ fuel =>
          obtain ⟨here, later, node, onwards⟩ := chain
          obtain ⟨address, isNext, isChain⟩ := Option.map_eq_some_iff.mp here
          subst isNext
          rw [← isChain] at node
          have present := read_chain_eq_ok.mp node
          have foreign := List.nodup_cons.mp refs
          have first := Handed.chain isChain.symm present
          have apart : ∀ other ∈ rest, ∀ only ∈ [entry], other.ref ≠ only.ref := by
            intro other member only isOnly same
            apply foreign.1
            rw [← List.mem_singleton.mp isOnly, ← same]
            exact List.mem_map_of_mem member
          have restChain := first.chainFrom apart onwards
          obtain ⟨cells, freed, run, handed⟩ := ih restChain foreign.2 (by simpa using enough)
            (released ++ ((entry.node later).ownedData ++ (entry.node later).ownedName))
          refine ⟨cells, _, ?_, first.append handed⟩
          rw [freeNodes, node]
          change (t.free (some address) >>= _) = _
          rw [HashTable.free, present]
          rw [List.append_assoc] at run
          exact run

theorem freeBucket_laid {t : HashTable α} {index : Nat} {entries : List (Entry α)}
    (bucket : BucketAt t.read index entries) (refs : (entries.map Entry.ref).Nodup)
    (released : List (Owned α)) :
    ∃ cells freed, freeBucket t index released =
        .ok ({ t with cells := cells }, released ++ freed) ∧
      Handed t.cells entries freed cells := by
  have short := bucket.length_lt refs
  cases entries with
  | nil =>
      have node : t.read (.head index) = .ok HashNode.empty := bucket
      refine ⟨t.cells, [], ?_, Handed.nil t.cells⟩
      rw [freeBucket, node, List.append_nil]
      rfl
  | cons first rest =>
      obtain ⟨here, next, node, later⟩ := bucket
      have isHead : first.ref = .head index := (Option.some.inj here).symm
      rw [isHead] at node
      have foreign := List.nodup_cons.mp refs
      obtain ⟨cells, freed, run, handed⟩ := freeNodes_chain later foreign.2
        (show rest.length < t.chainBound by rw [List.length_cons] at short; omega)
        (released ++ ((first.node next).ownedName ++ (first.node next).ownedData))
      refine ⟨cells, _, ?_, (Handed.head t.cells isHead next).append handed⟩
      rw [List.append_assoc] at run
      rw [freeBucket, node]
      exact run

def entriesFrom (contents : Nat → List (Entry α)) (index count : Nat) : List (Entry α) :=
  (List.range' index count).flatMap contents

theorem entriesFrom_succ (contents : Nat → List (Entry α)) (index count : Nat) :
    entriesFrom contents index (count + 1) =
      contents index ++ entriesFrom contents (index + 1) count := by
  rw [entriesFrom, List.range'_succ, List.flatMap_cons]
  rfl

theorem freeBuckets_laid {contents : Nat → List (Entry α)} {size : Nat}
    (refs : ∀ index < size, ((contents index).map Entry.ref).Nodup)
    (apart : ∀ index < size, ∀ other < size, index ≠ other →
      ∀ entry ∈ contents index, ∀ entry' ∈ contents other, entry.ref ≠ entry'.ref)
    {count index : Nat} (whole : index + count = size) {t : HashTable α}
    (buckets : ∀ place, index ≤ place → place < size → BucketAt t.read place (contents place))
    (released : List (Owned α)) :
    ∃ cells freed, freeBuckets count index t released =
        .ok ({ t with cells := cells }, released ++ freed) ∧
      Handed t.cells (entriesFrom contents index count) freed cells := by
  induction count generalizing index t released with
  | zero =>
      refine ⟨t.cells, [], ?_, Handed.nil t.cells⟩
      rw [List.append_nil]
      rfl
  | succ count ih =>
      have inside : index < size := by omega
      obtain ⟨cells, freed, run, handed⟩ :=
        freeBucket_laid (buckets index (Nat.le_refl _) inside) (refs index inside) released
      have later (place : Nat) (after : index + 1 ≤ place) (below : place < size) :
          BucketAt { t with cells := cells }.read place (contents place) := by
        have bucket := buckets place (by omega) below
        apply bucket.congr
        · rfl
        · intro entry member
          apply readNode_congr t.table
          intro address isChain
          apply handed.kept
          intro gone inBucket isGone
          exact apart place below index inside (by omega) entry member gone inBucket
            (isChain.trans isGone.symm)
      obtain ⟨cells', freed', run', handed'⟩ := ih (by omega) later (released ++ freed)
      refine ⟨cells', freed ++ freed', ?_, ?_⟩
      · rw [List.append_assoc] at run'
        rw [freeBuckets, run]
        exact run'
      · rw [entriesFrom_succ]
        exact handed.append handed'

theorem hashTableFree_laid {t : HashTable α} {contents : Nat → List (Entry α)}
    (laid : Laid t.read t.capacity contents) :
    ∃ cells freed, hashTableFree t = .ok (cells, freed) ∧
      Handed t.cells (entriesFrom contents 0 t.capacity) freed cells := by
  obtain ⟨cells, freed, run, handed⟩ := freeBuckets_laid laid.refs laid.apart
    (Nat.zero_add t.capacity) (fun place _ below => laid.bucket place below) []
  refine ⟨cells, freed, ?_, handed⟩
  rw [hashTableFree, run]
  rfl

/-! ### Tables that are maps -/

theorem storedNames_eq_entries {t : HashTable α} {contents : Nat → List (Entry α)}
    (laid : Laid t.read t.capacity contents) :
    storedNames t = (entriesFrom contents 0 t.capacity).map Entry.name := by
  rw [storedNames_laid laid, entriesFrom, List.map_flatMap, List.range_eq_range']

theorem entry_means {t : HashTable α} {contents : Nat → List (Entry α)}
    (laid : Laid t.read t.capacity contents) {entry : Entry α}
    (member : entry ∈ entriesFrom contents 0 t.capacity) :
    meaning contents t.capacity entry.name = some entry.data := by
  rw [entriesFrom, ← List.range_eq_range', List.mem_flatMap] at member
  obtain ⟨index, below, inBucket⟩ := member
  rw [meaning_eq_some_iff laid]
  exact ⟨index, List.mem_range.mp below, entry, inBucket, rfl, rfl⟩

/-- The data that the table stores, name by name. -/
theorem storedData_eq_entries {t : HashTable α} {contents : Nat → List (Entry α)}
    (laid : Laid t.read t.capacity contents) {map : StringT → Option α}
    (means : ∀ name, map name = meaning contents t.capacity name) :
    (storedNames t).filterMap map = (entriesFrom contents 0 t.capacity).map Entry.data := by
  rw [storedNames_eq_entries laid, List.filterMap_map, List.filterMap_eq_map_iff_forall_eq_some]
  intro entry member
  rw [Function.comp_apply, means]
  exact entry_means laid member

/-! ### Heads in use -/

theorem countP_chained {t : HashTable α} {next : Option Nat} {entries : List (Entry α)}
    (chain : ChainFrom t.read (next.map .chain) entries) :
    entries.countP Entry.chained = entries.length := by
  rw [List.countP_eq_length]
  intro entry member
  obtain ⟨address, isChain⟩ := chain.onHeap member
  rw [Entry.chained, isChain]

/-- All entries of a bucket but the first one lie on the heap. -/
theorem BucketAt.heads {t : HashTable α} {index : Nat} {entries : List (Entry α)}
    (bucket : BucketAt t.read index entries) {head : HashNode α}
    (read : t.read (.head index) = .ok head) :
    (if head.name.isSome then 1 else 0) + entries.countP Entry.chained = entries.length := by
  cases entries with
  | nil =>
      have empty : t.read (.head index) = .ok HashNode.empty := bucket
      have isHead : head = HashNode.empty := Except.ok.inj (read.symm.trans empty)
      subst isHead
      rfl
  | cons first rest =>
      obtain ⟨here, next, node, later⟩ := bucket
      rw [← Option.some.inj here] at node
      have isHead : head = first.node next := Except.ok.inj (read.symm.trans node)
      subst isHead
      have atHead : first.chained = false := by
        rw [Entry.chained, ← Option.some.inj here]
      rw [List.countP_cons, countP_chained later, atHead, List.length_cons, Nat.add_comm]
      rfl

end PostDns
