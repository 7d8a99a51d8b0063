/-
A heap of cells that are allocated, written and released one at a time.

Which address an allocation returns is up to the allocator: a released one again, or
one that was never in use.  Its choices are a list that the heap carries, so what holds
for every list holds for every allocator.  A read of a cell that is not live is a use
after release.
-/

import Mathlib.Data.List.Basic

namespace PostDns.Foundation

/-- The cells by address, `none` where released, and the addresses that the allocator
tries to hand out next. -/
structure Heap (β : Type) where
  cells : List (Option β)
  choices : List Nat
deriving DecidableEq

namespace Heap

variable {β : Type}

def empty (choices : List Nat) : Heap β :=
  { cells := []
    choices := choices }

def read (heap : Heap β) (address : Nat) : Option β := (heap.cells[address]?).join

def size (heap : Heap β) : Nat := heap.cells.length

/-- The address of the next allocation: the one chosen, if it is a released one. -/
def place (heap : Heap β) : Nat :=
  match heap.choices with
  | [] => heap.size
  | choice :: _ =>
      match heap.cells[choice]? with
      | some none => choice
      | _ => heap.size

def alloc (heap : Heap β) (cell : β) : Heap β :=
  { cells :=
      if heap.place < heap.size then heap.cells.set heap.place (some cell)
      else heap.cells ++ [some cell]
    choices := heap.choices.tail }

def write (heap : Heap β) (address : Nat) (cell : β) : Heap β :=
  { heap with cells := heap.cells.set address (some cell) }

def free (heap : Heap β) (address : Nat) : Heap β :=
  { heap with cells := heap.cells.set address none }

def Live (heap : Heap β) (address : Nat) : Prop := ∃ cell, read heap address = some cell

def liveCount (heap : Heap β) : Nat := heap.cells.countP Option.isSome

theorem lt_size_of_read {heap : Heap β} {address : Nat} {cell : β}
    (present : read heap address = some cell) : address < size heap := by
  by_contra outside
  have absent : heap.cells[address]? = none :=
    List.getElem?_eq_none (Nat.le_of_not_lt outside)
  rw [read, absent] at present
  cases present

/-! ### Allocation -/

/-- The allocator hands out a released address or the first that was never in use. -/
theorem place_cases (heap : Heap β) :
    heap.cells[heap.place]? = some none ∨ heap.place = heap.size := by
  unfold place
  cases heap.choices with
  | nil => exact Or.inr rfl
  | cons choice later =>
      cases hCell : heap.cells[choice]? with
      | none => simp only [hCell, or_true]
      | some cell =>
          cases cell with
          | none => simp only [hCell, true_or]
          | some present => simp only [hCell, or_true]

theorem place_le_size (heap : Heap β) : heap.place ≤ heap.size := by
  cases place_cases heap with
  | inl released => exact Nat.le_of_lt (List.getElem?_eq_some_iff.mp released).1
  | inr new => exact Nat.le_of_eq new

/-- Nothing live is at the address of the next allocation. -/
@[simp] theorem read_place (heap : Heap β) : read heap heap.place = none := by
  cases place_cases heap with
  | inl released => rw [read, released, Option.join_some]
  | inr new =>
      have absent : heap.cells[heap.place]? = none :=
        List.getElem?_eq_none (Nat.le_of_eq new.symm)
      rw [read, absent]
      rfl

theorem ne_place_of_read {heap : Heap β} {address : Nat} {cell : β}
    (present : read heap address = some cell) : address ≠ heap.place := by
  intro same
  rw [same, read_place] at present
  cases present

@[simp] theorem read_alloc_place (heap : Heap β) (cell : β) :
    read (alloc heap cell) heap.place = some cell := by
  by_cases again : heap.place < heap.size
  · rw [read, alloc, if_pos again, List.getElem?_set_self again]
    rfl
  · have new : heap.place = heap.cells.length :=
      Nat.le_antisymm heap.place_le_size (Nat.le_of_not_lt again)
    rw [read, alloc, if_neg again, new, List.getElem?_concat_length]
    rfl

theorem read_alloc_of_ne {heap : Heap β} {address : Nat} (cell : β)
    (different : address ≠ heap.place) :
    read (alloc heap cell) address = read heap address := by
  by_cases again : heap.place < heap.size
  · rw [read, read, alloc, if_pos again, List.getElem?_set_ne (Ne.symm different)]
  · have new : heap.place = heap.cells.length :=
      Nat.le_antisymm heap.place_le_size (Nat.le_of_not_lt again)
    rw [read, read, alloc, if_neg again]
    rw [new] at different
    cases Nat.lt_or_gt_of_ne different with
    | inl below => rw [List.getElem?_append_left below]
    | inr above =>
        have grown : (heap.cells ++ [some cell])[address]? = none := by
          apply List.getElem?_eq_none
          rw [List.length_append, List.length_singleton]
          exact above
        rw [grown, List.getElem?_eq_none (Nat.le_of_lt above)]

/-! ### Writes and releases -/

@[simp] theorem size_write (heap : Heap β) (address : Nat) (cell : β) :
    size (write heap address cell) = size heap :=
  List.length_set

theorem read_write_same {heap : Heap β} {address : Nat} (cell : β)
    (allocated : address < size heap) :
    read (write heap address cell) address = some cell := by
  rw [read, write, List.getElem?_set_self allocated]
  rfl

theorem read_write_of_ne (heap : Heap β) {address other : Nat} (cell : β)
    (different : other ≠ address) :
    read (write heap address cell) other = read heap other := by
  rw [read, read, write, List.getElem?_set_ne (Ne.symm different)]

theorem getElem?_of_read {heap : Heap β} {address : Nat} {cell : β}
    (present : read heap address = some cell) : heap.cells[address]? = some (some cell) :=
  Option.join_eq_some_iff.mp present

theorem write_same {heap : Heap β} {address : Nat} {cell : β}
    (present : read heap address = some cell) : write heap address cell = heap := by
  have same : heap.cells.set address (some cell) = heap.cells := by
    obtain ⟨inside, isCell⟩ := List.getElem?_eq_some_iff.mp (getElem?_of_read present)
    rw [← isCell, List.set_getElem_self]
  rw [write, same]

theorem read_write_eq_some {heap : Heap β} {address other : Nat} {cell found : β}
    (read : Heap.read (write heap address cell) other = some found) :
    found = cell ∨ Heap.read heap other = some found := by
  by_cases same : other = address
  · subst same
    left
    by_cases inside : other < size heap
    · rw [read_write_same cell inside] at read
      exact (Option.some.inj read).symm
    · have outside : heap.cells.length ≤ other := Nat.le_of_not_lt inside
      rw [write, Heap.read, List.set_eq_of_length_le outside,
        List.getElem?_eq_none outside] at read
      cases read
  · right
    rw [← read, read_write_of_ne _ _ same]

@[simp] theorem size_free (heap : Heap β) (address : Nat) :
    size (free heap address) = size heap :=
  List.length_set

theorem read_free_same (heap : Heap β) (address : Nat) :
    read (free heap address) address = none := by
  rw [read, free, List.getElem?_set]
  by_cases allocated : address < heap.cells.length <;> simp [allocated]

theorem read_free_of_ne (heap : Heap β) {address other : Nat}
    (different : other ≠ address) : read (free heap address) other = read heap other := by
  rw [read, read, free, List.getElem?_set_ne (Ne.symm different)]

/-! ### Live cells -/

theorem countP_set_isSome {cells : List (Option β)} {address : Nat} {old : Option β}
    (present : cells[address]? = some old) (content : Option β) :
    (cells.set address content).countP Option.isSome + (if old.isSome then 1 else 0) =
      cells.countP Option.isSome + if content.isSome then 1 else 0 := by
  obtain ⟨inside, isOld⟩ := List.getElem?_eq_some_iff.mp present
  rw [List.countP_set inside, isOld]
  have counted : (if old.isSome = true then 1 else 0) ≤ cells.countP Option.isSome := by
    by_cases isCell : old.isSome = true
    · rw [if_pos isCell]
      apply List.countP_pos_iff.mpr
      exact ⟨old, isOld ▸ List.getElem_mem inside, isCell⟩
    · rw [if_neg isCell]
      exact Nat.zero_le _
  omega

@[simp] theorem liveCount_alloc (heap : Heap β) (cell : β) :
    liveCount (alloc heap cell) = liveCount heap + 1 := by
  rw [liveCount, liveCount, alloc]
  by_cases again : heap.place < heap.size
  · rw [if_pos again]
    cases place_cases heap with
    | inl released => exact countP_set_isSome released (some cell)
    | inr new => exact absurd new (Nat.ne_of_lt again)
  · rw [if_neg again, List.countP_append]
    rfl

theorem liveCount_write {heap : Heap β} {address : Nat} {old : β}
    (present : read heap address = some old) (cell : β) :
    liveCount (write heap address cell) = liveCount heap :=
  Nat.succ.inj (countP_set_isSome (getElem?_of_read present) (some cell))

theorem liveCount_free {heap : Heap β} {address : Nat} {old : β}
    (present : read heap address = some old) :
    liveCount (free heap address) + 1 = liveCount heap :=
  countP_set_isSome (getElem?_of_read present) none

end Heap

end PostDns.Foundation
