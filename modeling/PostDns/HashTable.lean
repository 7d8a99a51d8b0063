/-
The chained hash table (hash_table.c).

The first node of a bucket lies in the array and the others on the heap, so a
pointer is either the index of an array element or the address of a chain node.
A chain node may get the address of one that was released before.  The loops along
a chain take a bound on their iterations and report when they run into it.  The
read-write lock, which one thread takes without contention, and the release of names
and data are left out.
-/

import PostDns.Foundation.Heap
import PostDns.Foundation.Rounding
import PostDns.Memory
import PostDns.StringT

namespace PostDns

open Foundation

structure HashNode (α : Type) where
  name : Option StringT
  data : Option α
  next : Option Nat
deriving DecidableEq

def HashNode.empty {α : Type} : HashNode α :=
  { name := none
    data := none
    next := none }

structure HashTable (α : Type) where
  table : List (HashNode α)
  cells : Heap (HashNode α)
  count : Nat
  capacity : Nat
  threshold : Nat
deriving DecidableEq

/-- A `hash_node_t *` that is not NULL. -/
inductive NodeRef where
  | head (index : Nat)
  | chain (address : Nat)
deriving DecidableEq

variable {α : Type}

/-! ### Memory -/

def readNode (heads : List (HashNode α)) (cells : Heap (HashNode α)) :
    NodeRef → Except Fault (HashNode α)
  | .head index =>
      match heads[index]? with
      | some node => .ok node
      | none => .error (.overread index)
  | .chain address =>
      match cells.read address with
      | some node => .ok node
      | none => .error .freedNode

def HashTable.read (t : HashTable α) (ref : NodeRef) : Except Fault (HashNode α) :=
  readNode t.table t.cells ref

def HashTable.write (t : HashTable α) (ref : NodeRef) (node : HashNode α) :
    HashTable α :=
  match ref with
  | .head index => { t with table := t.table.set index node }
  | .chain address => { t with cells := t.cells.write address node }

def HashTable.free (t : HashTable α) : Option Nat → Except Fault (HashTable α)
  | none => .ok t
  | some address =>
      match t.cells.read address with
      | some _ => .ok { t with cells := t.cells.free address }
      | none => .error .freedNode

/-- More iterations than a chain has nodes. -/
def HashTable.chainBound (t : HashTable α) : Nat := t.cells.size + 2

/-- `capacity * LOAD_FACTOR` as an `int`.  The capacity and the product are `float`s, of 24
significant bits. -/
def loadThreshold (capacity : Nat) : Nat :=
  Rounding.nearest 24 (3 * Rounding.nearest 24 capacity) / 4

def bucketIndex (name : StringT) (capacity : Nat) : Nat :=
  (stringHashCode name &&& 0x7fffffff) % capacity

/-! ### Insertion -/

/-- The allocator is free in its choices for the chain nodes. -/
def hashTableNew (choices : List Nat) : HashTable α :=
  { table := List.replicate 8 HashNode.empty
    cells := Heap.empty choices
    count := 0
    capacity := 8
    threshold := loadThreshold 8 }

/-- `while (node->name != NULL && node->next != NULL) node = node->next`. -/
def lastNode (t : HashTable α) : Nat → NodeRef → Except Fault NodeRef
  | 0, _ => .error .outOfFuel
  | fuel + 1, ref => do
      let node ← t.read ref
      match node.name, node.next with
      | some _, some next => lastNode t fuel (.chain next)
      | _, _ => pure ref

def addNode (t : HashTable α) (name : StringT) (data : Option α) :
    Except Fault (HashTable α) := do
  let ref ← lastNode t t.chainBound (.head (bucketIndex name t.capacity))
  let node ← t.read ref
  let added : HashNode α := { name := some name, data := data, next := none }
  match node.name with
  | none => pure { t.write ref added with count := t.count + 1 }
  | some _ =>
      let grown := { t with cells := t.cells.alloc added }
      let linked := grown.write ref { node with next := some t.cells.place }
      pure { linked with count := t.count + 1 }

/-- The inner `while` loop of `resize`. -/
def moveChain (oldTable : List (HashNode α)) :
    Nat → Option NodeRef → HashTable α → Except Fault (HashTable α)
  | 0, _, _ => .error .outOfFuel
  | _ + 1, none, t => pure t
  | fuel + 1, some ref, t => do
      let node ← readNode oldTable t.cells ref
      match node.name with
      | none => pure t
      | some name => do
          let t ← addNode t name node.data
          moveChain oldTable fuel (node.next.map .chain) t

/-- The loop of `resize` that releases the nodes of an old chain. -/
def freeChain : Nat → Option Nat → HashTable α → Except Fault (HashTable α)
  | 0, _, _ => .error .outOfFuel
  | _ + 1, none, t => pure t
  | fuel + 1, some address, t => do
      let node ← t.read (.chain address)
      let t ← t.free (some address)
      freeChain fuel node.next t

/-- The `for` loop of `resize` with `count` old buckets to go. -/
def resizeLoop (oldTable : List (HashNode α)) (bound : Nat) :
    Nat → Nat → HashTable α → Except Fault (HashTable α)
  | 0, _, t => pure t
  | count + 1, i, t => do
      let t ← moveChain oldTable bound (some (.head i)) t
      let head ← readNode oldTable t.cells (.head i)
      let t ← freeChain bound head.next t
      resizeLoop oldTable bound count (i + 1) t

def resize (t : HashTable α) : Except Fault (HashTable α) :=
  let newCapacity := (t.capacity <<< 1) + 1
  resizeLoop t.table t.chainBound t.capacity 0
    { t with
      table := List.replicate newCapacity HashNode.empty
      capacity := newCapacity
      threshold := loadThreshold newCapacity }

/-! ### Lookup -/

/-- `while (node != NULL and node->name != NULL)`, the loop that
`hash_table_put` and `hash_table_get` share. -/
def findNode (t : HashTable α) (name : StringT) :
    Nat → Option NodeRef → Except Fault (Option NodeRef)
  | 0, _ => .error .outOfFuel
  | _ + 1, none => pure none
  | fuel + 1, some ref => do
      let node ← t.read ref
      match node.name with
      | none => pure none
      | some other =>
          if stringEqual other name then pure (some ref)
          else findNode t name fuel (node.next.map .chain)

def hashTablePut (t : HashTable α) (name : Option StringT) (data : Option α) :
    Except Fault (HashTable α) :=
  match name, data with
  | some name, some data => do
      let found ← findNode t name t.chainBound
        (some (.head (bucketIndex name t.capacity)))
      match found with
      | some ref => do
          let node ← t.read ref
          pure (t.write ref { node with data := some data })
      | none => do
          let t ← addNode t name (some data)
          if t.threshold < t.count then resize t else pure t
  | _, _ => pure t

def hashTableGet (t : HashTable α) (name : StringT) : Except Fault (Option α) := do
  let found ← findNode t name t.chainBound (some (.head (bucketIndex name t.capacity)))
  match found with
  | some ref => do
      let node ← t.read ref
      pure node.data
  | none => pure none

/-! ### Removal -/

/-- The body of the `if` in `hash_table_remove`, at a node that `last_node`
precedes. -/
def unlinkNode (t : HashTable α) (lastNode : Option NodeRef) (ref : NodeRef)
    (node : HashNode α) : Except Fault (HashTable α) :=
  match lastNode with
  | none =>
      match node.next with
      | none => pure (t.write ref { node with name := none, data := none })
      | some second => do
          let next ← t.read (.chain second)
          let t := t.write ref { name := next.name, data := next.data, next := next.next }
          -- `node->next` has already been overwritten
          t.free next.next
  | some last => do
      let before ← t.read last
      let t := t.write last { before with next := node.next }
      match ref with
      | .chain address => t.free (some address)
      | .head _ => .error .freedNode

/-- `while (node->name != NULL)`: the loop dereferences the NULL after the last
node. -/
def removeLoop (t : HashTable α) (name : StringT) :
    Nat → Option NodeRef → Option NodeRef → Except Fault (HashTable α)
  | 0, _, _ => .error .outOfFuel
  | _ + 1, _, none => .error .nullPointer
  | fuel + 1, lastNode, some ref => do
      let node ← t.read ref
      match node.name with
      | none => pure t
      | some other =>
          if stringEqual other name then unlinkNode t lastNode ref node
          else removeLoop t name fuel (some ref) (node.next.map .chain)

def hashTableRemove (t : HashTable α) (name : StringT) : Except Fault (HashTable α) :=
  removeLoop t name t.chainBound none (some (.head (bucketIndex name t.capacity)))

end PostDns
