/-
What every value in a table satisfies.

A property of the stored data is kept by every operation on the table that returns,
also by one that damages a bucket: no operation makes up data of its own.
-/

import PostDns.HashTableSemantics

namespace PostDns

open Foundation

variable {α : Type}

def NodeHolds (holds : α → Prop) (node : HashNode α) : Prop :=
  ∀ data, node.data = some data → holds data

structure EveryData (holds : α → Prop) (heads : List (HashNode α))
    (cells : Heap (HashNode α)) : Prop where
  heads : ∀ node ∈ heads, NodeHolds holds node
  cells : ∀ address node, cells.read address = some node → NodeHolds holds node

def HashTable.Every (holds : α → Prop) (t : HashTable α) : Prop :=
  EveryData holds t.table t.cells

theorem nodeHolds_empty (holds : α → Prop) : NodeHolds holds HashNode.empty := by
  intro data impossible
  cases impossible

section Every

variable {holds : α → Prop} {heads : List (HashNode α)} {cells : Heap (HashNode α)}

theorem EveryData.of_read (every : EveryData holds heads cells) {ref : NodeRef}
    {node : HashNode α} (read : readNode heads cells ref = .ok node) :
    NodeHolds holds node := by
  cases ref with
  | head index =>
      cases hHead : heads[index]? with
      | none => simp [readNode, hHead] at read
      | some head =>
          simp only [readNode, hHead] at read
          rw [← Except.ok.inj read]
          exact every.heads head (List.mem_of_getElem? hHead)
  | chain address =>
      cases hCell : cells.read address with
      | none => simp [readNode, hCell] at read
      | some cell =>
          simp only [readNode, hCell] at read
          rw [← Except.ok.inj read]
          exact every.cells address cell hCell

theorem EveryData.write_cell (every : EveryData holds heads cells) {address : Nat}
    {node : HashNode α} (new : NodeHolds holds node) :
    EveryData holds heads (cells.write address node) := by
  refine ⟨every.heads, ?_⟩
  intro other found read
  rcases Heap.read_write_eq_some read with isNew | old
  · rw [isNew]
    exact new
  · exact every.cells other found old

theorem EveryData.alloc (every : EveryData holds heads cells) {node : HashNode α}
    (new : NodeHolds holds node) : EveryData holds heads (cells.alloc node) := by
  refine ⟨every.heads, ?_⟩
  intro other found read
  by_cases isNew : other = cells.place
  · rw [isNew, Heap.read_alloc_place] at read
    rw [← Option.some.inj read]
    exact new
  · rw [Heap.read_alloc_of_ne _ isNew] at read
    exact every.cells other found read

theorem EveryData.free (every : EveryData holds heads cells) (address : Nat) :
    EveryData holds heads (cells.free address) := by
  refine ⟨every.heads, ?_⟩
  intro other found read
  by_cases same : other = address
  · rw [same, Heap.read_free_same] at read
    cases read
  · rw [Heap.read_free_of_ne _ same] at read
    exact every.cells other found read

end Every

section Table

variable {holds : α → Prop} {t t' : HashTable α}

theorem every_new (choices : List Nat) :
    (hashTableNew choices : HashTable α).Every holds := by
  refine ⟨?_, ?_⟩
  · intro node member
    rw [List.eq_of_mem_replicate member]
    exact nodeHolds_empty holds
  · intro address node read
    cases read

theorem HashTable.Every.write (every : t.Every holds) (ref : NodeRef) (node : HashNode α)
    (new : NodeHolds holds node) : (t.write ref node).Every holds := by
  cases ref with
  | head index =>
      refine ⟨?_, every.cells⟩
      intro other member
      rcases List.mem_or_eq_of_mem_set member with old | isNew
      · exact every.heads other old
      · rw [isNew]
        exact new
  | chain address => exact EveryData.write_cell every new

theorem HashTable.Every.free (every : t.Every holds) {address : Option Nat}
    (done : t.free address = .ok t') : t'.Every holds := by
  cases address with
  | none =>
      cases done
      exact every
  | some address =>
      unfold HashTable.free at done
      cases hCell : t.cells.read address with
      | none => simp [hCell] at done
      | some cell =>
          simp only [hCell] at done
          cases done
          exact EveryData.free every address

/-! ### Insertion -/

theorem HashTable.Every.read (every : t.Every holds) {ref : NodeRef} {node : HashNode α}
    (read : t.read ref = .ok node) : NodeHolds holds node :=
  EveryData.of_read every read

/-- The new entry lies in the array or on the heap; the old table stays readable. -/
theorem addNode_every {heads : List (HashNode α)} (old : EveryData holds heads t.cells)
    (every : t.Every holds) {name : StringT} {data : Option α}
    (new : ∀ value, data = some value → holds value)
    (done : addNode t name data = .ok t') :
    t'.Every holds ∧ EveryData holds heads t'.cells := by
  obtain ⟨last, node, read, added⟩ := addNode_cases done
  let new' : HashNode α := { name := some name, data := data, next := none }
  cases added with
  | inl isWritten =>
      rw [isWritten]
      have written := every.write last new' new
      exact ⟨written, old.heads, written.cells⟩
  | inr isLinked =>
      rw [isLinked]
      have grown : HashTable.Every holds { t with cells := t.cells.alloc new' } :=
        EveryData.alloc every new
      have nodeHolds : NodeHolds holds node := every.read read
      have linked := grown.write last { node with next := some t.cells.place } nodeHolds
      exact ⟨linked, old.heads, linked.cells⟩

theorem moveChain_every {oldTable : List (HashNode α)} {fuel : Nat} {start : Option NodeRef}
    (old : EveryData holds oldTable t.cells) (every : t.Every holds)
    (done : moveChain oldTable fuel start t = .ok t') :
    t'.Every holds ∧ EveryData holds oldTable t'.cells := by
  induction fuel generalizing start t with
  | zero => cases done
  | succ fuel ih =>
      cases start with
      | none =>
          cases done
          exact ⟨every, old⟩
      | some ref =>
          obtain ⟨node, read, moving⟩ := except_bind_eq_ok.mp done
          cases hName : node.name with
          | none =>
              simp only [hName] at moving
              cases moving
              exact ⟨every, old⟩
          | some name =>
              simp only [hName] at moving
              obtain ⟨middle, added, rest⟩ := except_bind_eq_ok.mp moving
              obtain ⟨every', old'⟩ := addNode_every old every (old.of_read read) added
              exact ih old' every' rest

theorem freeChain_every {oldTable : List (HashNode α)} {fuel : Nat} {start : Option Nat}
    (old : EveryData holds oldTable t.cells) (every : t.Every holds)
    (done : freeChain fuel start t = .ok t') :
    t'.Every holds ∧ EveryData holds oldTable t'.cells := by
  induction fuel generalizing start t with
  | zero => cases done
  | succ fuel ih =>
      cases start with
      | none =>
          cases done
          exact ⟨every, old⟩
      | some address =>
          obtain ⟨node, _, releasing⟩ := except_bind_eq_ok.mp done
          obtain ⟨middle, released, rest⟩ := except_bind_eq_ok.mp releasing
          have every' := every.free released
          exact ih ⟨old.heads, every'.cells⟩ every' rest

theorem resizeLoop_every {oldTable : List (HashNode α)} {bound count index : Nat}
    (old : EveryData holds oldTable t.cells) (every : t.Every holds)
    (done : resizeLoop oldTable bound count index t = .ok t') : t'.Every holds := by
  induction count generalizing index t with
  | zero =>
      cases done
      exact every
  | succ count ih =>
      obtain ⟨moved, moving, reading⟩ := except_bind_eq_ok.mp done
      obtain ⟨head, _, freeing⟩ := except_bind_eq_ok.mp reading
      obtain ⟨freed, releasing, rest⟩ := except_bind_eq_ok.mp freeing
      obtain ⟨everyMoved, oldMoved⟩ := moveChain_every old every moving
      obtain ⟨everyFreed, oldFreed⟩ := freeChain_every oldMoved everyMoved releasing
      exact ih oldFreed everyFreed rest

theorem HashTable.Every.resize (every : t.Every holds) (done : resize t = .ok t') :
    t'.Every holds := by
  have fresh : HashTable.Every holds
      { t with
        table := List.replicate ((t.capacity <<< 1) + 1) HashNode.empty
        capacity := (t.capacity <<< 1) + 1
        threshold := loadThreshold ((t.capacity <<< 1) + 1) } := by
    refine ⟨?_, every.cells⟩
    intro node member
    rw [List.eq_of_mem_replicate member]
    exact nodeHolds_empty holds
  refine resizeLoop_every ?_ fresh done
  exact every

theorem HashTable.Every.put (every : t.Every holds) {name : Option StringT}
    {data : Option α} (new : ∀ value, data = some value → holds value)
    (done : hashTablePut t name data = .ok t') : t'.Every holds := by
  cases name with
  | none =>
      cases done
      exact every
  | some name =>
      cases data with
      | none =>
          cases done
          exact every
      | some data =>
          obtain ⟨found, _, putting⟩ := except_bind_eq_ok.mp done
          cases found with
          | some ref =>
              obtain ⟨node, _, written⟩ := except_bind_eq_ok.mp putting
              cases written
              exact every.write ref _ new
          | none =>
              obtain ⟨middle, added, growing⟩ := except_bind_eq_ok.mp putting
              have everyAdded := (addNode_every every every new added).1
              by_cases full : middle.threshold < middle.count
              · rw [if_pos full] at growing
                exact everyAdded.resize growing
              · rw [if_neg full] at growing
                cases growing
                exact everyAdded

/-! ### Lookup -/

theorem HashTable.Every.get (every : t.Every holds) {name : StringT} {data : α}
    (found : hashTableGet t name = .ok (some data)) : holds data := by
  obtain ⟨result, _, reading⟩ := except_bind_eq_ok.mp found
  cases result with
  | none => cases reading
  | some ref =>
      obtain ⟨node, read, isData⟩ := except_bind_eq_ok.mp reading
      exact every.read read data (Except.ok.inj isData)

/-! ### Removal -/

theorem unlinkNode_every (every : t.Every holds) {last : Option NodeRef} {ref : NodeRef}
    {node : HashNode α} (read : t.read ref = .ok node)
    (done : unlinkNode t last ref node = .ok t') : t'.Every holds := by
  cases last with
  | none =>
      cases hNext : node.next with
      | none =>
          simp only [unlinkNode, hNext] at done
          cases done
          exact every.write ref _ nofun
      | some second =>
          simp only [unlinkNode, hNext] at done
          obtain ⟨next, readNext, freeing⟩ := except_bind_eq_ok.mp done
          exact (every.write ref _ (every.read readNext)).free freeing
  | some last =>
      obtain ⟨before, readBefore, freeing⟩ := except_bind_eq_ok.mp done
      have beforeHolds : NodeHolds holds before := every.read readBefore
      have relinked := every.write last { before with next := node.next } beforeHolds
      cases ref with
      | head index => cases freeing
      | chain address => exact relinked.free freeing

theorem removeLoop_every (every : t.Every holds) {name : StringT} {fuel : Nat}
    {last start : Option NodeRef} (done : removeLoop t name fuel last start = .ok t') :
    t'.Every holds := by
  induction fuel generalizing last start with
  | zero => cases done
  | succ fuel ih =>
      cases start with
      | none => cases done
      | some ref =>
          obtain ⟨node, read, onwards⟩ := except_bind_eq_ok.mp done
          cases hName : node.name with
          | none =>
              simp only [hName] at onwards
              cases onwards
              exact every
          | some other =>
              simp only [hName] at onwards
              by_cases same : stringEqual other name = true
              · rw [if_pos same] at onwards
                exact unlinkNode_every every read onwards
              · rw [if_neg same] at onwards
                exact ih onwards

theorem HashTable.Every.remove (every : t.Every holds) {name : StringT}
    (done : hashTableRemove t name = .ok t') : t'.Every holds :=
  removeLoop_every every done

end Table

end PostDns
