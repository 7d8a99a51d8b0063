/-
How many nodes a table takes (hash_table.c).

A node is a head in use or a chain node on the heap.  `add_node` takes one more and
`resize` as many as it gives back, so a table has a node for every stored entry and one for
every entry that a removal copied into its head without releasing anything.
-/

import PostDns.Shutdown

namespace PostDns

open Foundation

variable {α : Type}

/-! ### Counting -/

def usedHeads (heads : List (HashNode α)) : Nat :=
  heads.countP fun node => node.name.isSome

def HashTable.nodeCount (t : HashTable α) : Nat := t.cells.liveCount + usedHeads t.table

def HashNode.weight (node : HashNode α) : Nat := if node.name.isSome then 1 else 0

/-- Every node on the heap has a name, and the array has the size that the table says. -/
structure HashTable.Neat (t : HashTable α) : Prop where
  named : ∀ address node, t.cells.read address = some node → node.name ≠ none
  sized : t.table.length = t.capacity

theorem neat_new (choices : List Nat) : (hashTableNew choices : HashTable α).Neat := by
  constructor
  · intro address node present
    cases present
  · exact List.length_replicate

theorem usedHeads_set {heads : List (HashNode α)} {index : Nat} {old : HashNode α}
    (present : heads[index]? = some old) (node : HashNode α) :
    usedHeads (heads.set index node) + old.weight = usedHeads heads + node.weight := by
  obtain ⟨inside, isOld⟩ := List.getElem?_eq_some_iff.mp present
  rw [usedHeads, usedHeads, List.countP_set inside, isOld, HashNode.weight, HashNode.weight]
  cases hUsed : old.name.isSome with
  | false =>
      simp only [Bool.false_eq_true, if_false]
      omega
  | true =>
      have counted : 0 < heads.countP fun node => node.name.isSome := by
        rw [List.countP_pos_iff]
        exact ⟨old, List.mem_of_getElem? present, hUsed⟩
      simp only [if_true]
      omega

/-- A head that is overwritten counts for what it holds then. -/
theorem nodeCount_writeHead {t : HashTable α} {index : Nat} {old : HashNode α}
    (readable : t.read (.head index) = .ok old) (node : HashNode α) :
    (t.write (.head index) node).nodeCount + old.weight = t.nodeCount + node.weight := by
  have present : t.table[index]? = some old := by
    simp only [HashTable.read, readNode] at readable
    cases hHead : t.table[index]? with
    | none =>
        rw [hHead] at readable
        cases readable
    | some head =>
        rw [hHead] at readable
        rw [Except.ok.inj readable]
  have heads := usedHeads_set present node
  change t.cells.liveCount + usedHeads (t.table.set index node) + old.weight =
    t.cells.liveCount + usedHeads t.table + node.weight
  omega

theorem nodeCount_writeChain {t : HashTable α} {address : Nat} {old : HashNode α}
    (readable : t.read (.chain address) = .ok old) (node : HashNode α) :
    (t.write (.chain address) node).nodeCount = t.nodeCount := by
  change (t.cells.write address node).liveCount + usedHeads t.table = _
  rw [Heap.liveCount_write (read_chain_eq_ok.mp readable)]
  rfl

/-- A node that stays in use, or stays out of it, counts as before. -/
theorem nodeCount_write {t : HashTable α} {ref : NodeRef} {old node : HashNode α}
    (readable : t.read ref = .ok old) (same : node.name.isSome = old.name.isSome) :
    (t.write ref node).nodeCount = t.nodeCount := by
  cases ref with
  | head index =>
      have counted := nodeCount_writeHead readable node
      rw [HashNode.weight, HashNode.weight, same] at counted
      exact Nat.add_right_cancel counted
  | chain address => exact nodeCount_writeChain readable node

theorem nodeCount_free {t : HashTable α} {address : Nat} {node : HashNode α}
    (present : t.cells.read address = some node) :
    { t with cells := t.cells.free address }.nodeCount + 1 = t.nodeCount := by
  have live := Heap.liveCount_free present
  change (t.cells.free address).liveCount + usedHeads t.table + 1 = _
  rw [HashTable.nodeCount]
  omega

/-! ### Neat tables -/

namespace HashTable.Neat

variable {t : HashTable α} (neat : t.Neat)

include neat

theorem write {ref : NodeRef} {node : HashNode α}
    (named : ∀ address, ref = .chain address → node.name ≠ none) :
    (t.write ref node).Neat := by
  cases ref with
  | head index =>
      constructor
      · exact neat.named
      · change (t.table.set index node).length = t.capacity
        rw [List.length_set]
        exact neat.sized
  | chain address =>
      constructor
      · intro place found present
        cases Heap.read_write_eq_some present with
        | inl isNode =>
            rw [isNode]
            exact named address rfl
        | inr before => exact neat.named place found before
      · exact neat.sized

theorem alloc {node : HashNode α} (named : node.name ≠ none) :
    { t with cells := t.cells.alloc node }.Neat := by
  constructor
  · intro place found present
    by_cases new : place = t.cells.place
    · have isNode : some node = some found := by
        rw [← present, new]
        exact (Heap.read_alloc_place t.cells node).symm
      rw [← Option.some.inj isNode]
      exact named
    · have before : (t.cells.alloc node).read place = some found := present
      rw [Heap.read_alloc_of_ne node new] at before
      exact neat.named place found before
  · exact neat.sized

theorem free (address : Nat) : { t with cells := t.cells.free address }.Neat := by
  constructor
  · intro place found present
    have before : (t.cells.free address).read place = some found := present
    by_cases same : place = address
    · rw [same, Heap.read_free_same] at before
      cases before
    · rw [Heap.read_free_of_ne t.cells same] at before
      exact neat.named place found before
  · exact neat.sized

theorem withCount (count : Nat) : { t with count := count }.Neat :=
  { named := neat.named
    sized := neat.sized }

end HashTable.Neat

/-! ### Insertion -/

structure OneMore (t t' : HashTable α) : Prop where
  neat : t'.Neat
  nodes : t'.nodeCount = t.nodeCount + 1
  count : t'.count = t.count + 1

theorem addNode_oneMore {t t' : HashTable α} (neat : t.Neat) {name : StringT}
    {data : Option α} (done : addNode t name data = .ok t') : OneMore t t' := by
  obtain ⟨last, reached, adding⟩ := except_bind_eq_ok.mp done
  obtain ⟨node, readable, _⟩ := except_bind_eq_ok.mp adding
  rw [addNode_last readable reached] at done
  cases hName : node.name with
  | none =>
      simp only [hName] at done
      cases done
      cases last with
      | chain address =>
          exact absurd hName (neat.named address node (read_chain_eq_ok.mp readable))
      | head index =>
          have counted := nodeCount_writeHead readable
            { name := some name, data := data, next := none }
          rw [HashNode.weight, HashNode.weight, hName] at counted
          have kept : (t.write (.head index)
              { name := some name, data := data, next := none }).Neat := by
            apply neat.write
            intro _ isChain
            cases isChain
          exact ⟨kept.withCount _, counted, rfl⟩
  | some other =>
      simp only [hName] at done
      cases done
      let added : HashNode α := { name := some name, data := data, next := none }
      have grown : { t with cells := t.cells.alloc added }.Neat :=
        neat.alloc (Option.some_ne_none name)
      have linked : (t.link last node added).Neat := by
        apply grown.write
        intro _ _
        rw [hName]
        exact nofun
      refine ⟨linked.withCount _, ?_, rfl⟩
      have read := read_alloc readable added
      have written : (t.link last node added).nodeCount =
          { t with cells := t.cells.alloc added }.nodeCount := nodeCount_write read rfl
      have alloc : (t.cells.alloc added).liveCount + usedHeads t.table =
          t.cells.liveCount + 1 + usedHeads t.table := by
        rw [Heap.liveCount_alloc]
      change (t.link last node added).nodeCount = t.nodeCount + 1
      rw [written]
      change (t.cells.alloc added).liveCount + usedHeads t.table = _
      rw [alloc, HashTable.nodeCount]
      omega

/-! ### Growth -/

/-- Every entry that is moved takes a node and counts once. -/
theorem moveChain_nodes {old : List (HashNode α)} {fuel : Nat} {start : Option NodeRef}
    {t t' : HashTable α} (neat : t.Neat) (done : moveChain old fuel start t = .ok t') :
    t'.Neat ∧ t'.nodeCount + t.count = t.nodeCount + t'.count := by
  induction fuel generalizing start t with
  | zero => cases done
  | succ fuel ih =>
      cases start with
      | none =>
          cases done
          exact ⟨neat, rfl⟩
      | some ref =>
          obtain ⟨node, _, moving⟩ := except_bind_eq_ok.mp done
          cases hName : node.name with
          | none =>
              simp only [hName] at moving
              cases moving
              exact ⟨neat, rfl⟩
          | some name =>
              simp only [hName] at moving
              obtain ⟨middle, added, rest⟩ := except_bind_eq_ok.mp moving
              have more := addNode_oneMore neat added
              have nodes := more.nodes
              have count := more.count
              have later := ih more.neat rest
              exact ⟨later.1, by omega⟩

/-- The nodes of an old chain are given back. -/
theorem freeChain_nodes {old : List (HashNode α)} {t t' : HashTable α} (neat : t.Neat)
    {next : Option Nat} {entries : List (Entry α)}
    (chain : ChainFrom (readNode old t.cells) (next.map .chain) entries)
    (refs : (entries.map Entry.ref).Nodup) {fuel : Nat}
    (done : freeChain fuel next t = .ok t') :
    t'.Neat ∧ t'.nodeCount + entries.length = t.nodeCount := by
  induction entries generalizing t next fuel with
  | nil =>
      have ended : next = none := Option.map_eq_none_iff.mp chain
      subst ended
      cases fuel with
      | zero => cases done
      | succ fuel =>
          cases done
          exact ⟨neat, rfl⟩
  | cons entry rest ih =>
      obtain ⟨here, later, node, onwards⟩ := chain
      obtain ⟨address, isNext, isChain⟩ := Option.map_eq_some_iff.mp here
      subst isNext
      rw [← isChain] at node
      have readable : t.read (.chain address) = .ok (entry.node later) := node
      have present := read_chain_eq_ok.mp readable
      have foreign := List.nodup_cons.mp refs
      cases fuel with
      | zero => cases done
      | succ fuel =>
          obtain ⟨found, reading, freeing⟩ := except_bind_eq_ok.mp done
          have isFound : found = entry.node later :=
            Except.ok.inj (reading.symm.trans readable)
          obtain ⟨middle, freed, more⟩ := except_bind_eq_ok.mp freeing
          have isMiddle := free_of_ok freed
          subst isFound isMiddle
          have restChain : ChainFrom (readNode old (t.cells.free address))
              (later.map .chain) rest := by
            apply onwards.congr
            intro other member
            apply readNode_congr old
            intro place isPlace
            apply Heap.read_free_of_ne
            intro same
            apply foreign.1
            rw [← isChain, ← same, ← isPlace]
            exact List.mem_map_of_mem member
          have counted := nodeCount_free present
          have others := ih (neat.free address) restChain foreign.2 more
          have fewer := others.2
          rw [List.length_cons]
          exact ⟨others.1, by omega⟩

/-- One old bucket takes as many new nodes as it has entries and gives its chain back; its
head goes with the old array. -/
theorem resizeStep_nodes {old : List (HashNode α)} {t t₁ t' : HashTable α}
    {contents : Nat → List (Entry α)} {index bound : Nat} {entries : List (Entry α)}
    {head : HashNode α} (neat : t.Neat) (laid : Laid t.read t.capacity contents)
    (pending : PendingBucket old t contents index entries)
    (refs : (entries.map Entry.ref).Nodup) (enough : entries.length < bound)
    (moved : moveChain old bound (some (.head index)) t = .ok t₁)
    (read : readNode old t₁.cells (.head index) = .ok head)
    (freed : freeChain bound head.next t₁ = .ok t') :
    t'.Neat ∧ t'.nodeCount = t.nodeCount + head.weight := by
  have moving := moveChain_nodes neat moved
  have counted := moving.2
  cases pending with
  | inl empty =>
      have isEmpty : head = HashNode.empty := Except.ok.inj (read.symm.trans empty.2)
      subst isEmpty
      have unmoved : t₁ = t := by
        cases bound with
        | zero => cases moved
        | succ bound =>
            rw [moveChain, empty.2] at moved
            exact (Except.ok.inj moved).symm
      subst unmoved
      cases bound with
      | zero => cases moved
      | succ bound =>
          cases freed
          exact ⟨neat, rfl⟩
  | inr pending =>
      obtain ⟨t₂, contents', run, count, _, extended, _⟩ := moveChain_laid laid pending enough
      have same : t₂ = t₁ := Except.ok.inj (run.symm.trans moved)
      subst same
      have chain : ChainFrom (readNode old t₂.cells) (some (.head index)) entries := by
        apply pending.chain.congr
        intro entry member
        apply readNode_congr old
        intro address isChain
        exact (extended.outside address (pending.live member isChain)
          (pending.apart entry member address isChain)).1
      cases entries with
      | nil => cases chain
      | cons first rest =>
          obtain ⟨here, next, node, later⟩ := chain
          rw [← Option.some.inj here] at node
          have isHead : head = first.node next := Except.ok.inj (read.symm.trans node)
          subst isHead
          have freeing := freeChain_nodes moving.1 later (List.nodup_cons.mp refs).2 freed
          have fewer := freeing.2
          have used : (first.node next).weight = 1 := rfl
          rw [List.length_cons] at count
          exact ⟨freeing.1, by omega⟩

theorem usedHeads_drop {heads : List (HashNode α)} {index : Nat} {head : HashNode α}
    (present : heads[index]? = some head) :
    usedHeads (heads.drop index) = head.weight + usedHeads (heads.drop (index + 1)) := by
  obtain ⟨inside, isHead⟩ := List.getElem?_eq_some_iff.mp present
  rw [List.drop_eq_getElem_cons inside, isHead, usedHeads, List.countP_cons, HashNode.weight,
    Nat.add_comm]
  rfl

theorem resizeLoop_nodes {old : List (HashNode α)} {oldContents : Nat → List (Entry α)}
    {size bound : Nat} (separate : Separate oldContents size bound) (sized : old.length = size)
    {count index : Nat} (whole : index + count = size) {t t' : HashTable α} (neat : t.Neat)
    {contents : Nat → List (Entry α)} (laid : Laid t.read t.capacity contents)
    (pending : ∀ place, index ≤ place → place < size →
      PendingBucket old t contents place (oldContents place))
    (done : resizeLoop old bound count index t = .ok t') :
    t'.Neat ∧ t'.nodeCount = t.nodeCount + usedHeads (old.drop index) := by
  induction count generalizing index t contents with
  | zero =>
      cases done
      rw [List.drop_of_length_le (by omega)]
      exact ⟨neat, rfl⟩
  | succ count ih =>
      have inside : index < size := by omega
      have here := pending index (Nat.le_refl index) inside
      have refs := separate.refs index inside
      have short := separate.short index inside
      obtain ⟨t₁, head, t₂, contents₂, moved, read, freed, _, capacity₂, _, laid₂, _,
        others₂⟩ := resizeStep_laid laid here refs short
      have step := resizeStep_nodes neat laid here refs short moved read freed
      rw [resizeLoop, moved] at done
      change (readNode old t₁.cells (.head index) >>= _) = _ at done
      rw [read] at done
      change (freeChain bound head.next t₁ >>= _) = _ at done
      rw [freed] at done
      have rest := ih (by omega) step.1 (laid₂.of_size capacity₂) (by
        intro place after below
        rw [capacity₂] at *
        exact others₂ place _ (pending place (by omega) below)
          (separate.apart place below index inside (by omega))) done
      have present : old[index]? = some head := by
        cases hHead : old[index]? with
        | none => simp [readNode, hHead] at read
        | some found =>
            simp only [readNode, hHead] at read
            rw [Except.ok.inj read]
      rw [usedHeads_drop present, rest.2, step.2]
      exact ⟨rest.1, by omega⟩

/-- Growth gives back as many nodes as it takes. -/
theorem resize_nodes {t t' : HashTable α} (neat : t.Neat) {contents : Nat → List (Entry α)}
    (laid : Laid t.read t.capacity contents) (done : resize t = .ok t') :
    t'.Neat ∧ t'.nodeCount = t.nodeCount := by
  have grownNeat : t.grown.Neat :=
    { named := neat.named
      sized := List.length_replicate }
  have unused : usedHeads t.grown.table = 0 := by
    rw [usedHeads, List.countP_eq_zero]
    intro node member
    rw [List.eq_of_mem_replicate member]
    exact Bool.false_ne_true
  have loop := resizeLoop_nodes laid.separate neat.sized (Nat.zero_add t.capacity) grownNeat
    (show Laid t.grown.read t.grown.capacity _ from laid_empty (Nat.succ_pos _) rfl)
    (fun place _ below => laid.pendingBucket t.grown rfl place below) done
  have heap : t.grown.nodeCount = t.cells.liveCount := by
    rw [HashTable.nodeCount, unused]
    rfl
  have nodes := loop.2
  rw [List.drop_zero, heap] at nodes
  exact ⟨loop.1, nodes⟩

/-! ### Nodes and entries -/

theorem usedHeads_entries {t : HashTable α} {contents : Nat → List (Entry α)}
    (laid : Laid t.read t.capacity contents) {count index : Nat}
    (whole : index + count = t.capacity) (sized : t.table.length = t.capacity) :
    usedHeads (t.table.drop index) + (entriesFrom contents index count).countP Entry.chained =
      (entriesFrom contents index count).length := by
  induction count generalizing index with
  | zero =>
      rw [List.drop_of_length_le (by omega)]
      rfl
  | succ count ih =>
      have inside : index < t.table.length := by omega
      have bucket := laid.bucket index (by omega)
      have present : t.table[index]? = some t.table[index] := List.getElem?_eq_getElem inside
      have read : t.read (.head index) = .ok t.table[index] := by
        simp only [HashTable.read, readNode, present]
      have heads := bucket.heads read
      have later := @ih (index + 1) (by omega)
      rw [usedHeads_drop present, entriesFrom_succ, List.countP_append, List.length_append,
        HashNode.weight]
      omega

/-- The nodes on the heap and the heads in use are those of the entries, when no others are
left. -/
theorem liveCount_entries {t : HashTable α} {contents : Nat → List (Entry α)}
    (laid : Laid t.read t.capacity contents) (neat : t.Neat) :
    t.cells.liveCount + (entriesFrom contents 0 t.capacity).length =
      t.nodeCount + (entriesFrom contents 0 t.capacity).countP Entry.chained := by
  have heads := usedHeads_entries laid (Nat.zero_add t.capacity) neat.sized
  rw [List.drop_zero] at heads
  rw [HashTable.nodeCount]
  omega

end PostDns
