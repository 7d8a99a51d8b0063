/-
How the buckets of the hash table lie in memory.

A bucket is the list of its entries, each with the node that holds it.  The
predicates are about an arbitrary memory, so that they also describe the old
array while a table is being resized.
-/

import PostDns.HashTable
import Mathlib.Data.List.Nodup

namespace PostDns

open Foundation

variable {α : Type}

structure Entry (α : Type) where
  ref : NodeRef
  name : StringT
  data : α

/-- What dereferencing a pointer gives. -/
abbrev NodeMemory (α : Type) := NodeRef → Except Fault (HashNode α)

def Entry.node (entry : Entry α) (next : Option Nat) : HashNode α :=
  { name := some entry.name
    data := some entry.data
    next := next }

def ChainFrom (memory : NodeMemory α) : Option NodeRef → List (Entry α) → Prop
  | start, [] => start = none
  | start, entry :: rest =>
      start = some entry.ref ∧
        ∃ next, memory entry.ref = .ok (entry.node next) ∧
          ChainFrom memory (next.map .chain) rest

def BucketAt (memory : NodeMemory α) (index : Nat) : List (Entry α) → Prop
  | [] => memory (.head index) = .ok HashNode.empty
  | entries => ChainFrom memory (some (.head index)) entries

/-! ### Chains -/

theorem ChainFrom.congr {memory memory' : NodeMemory α} {start : Option NodeRef}
    {entries : List (Entry α)}
    (same : ∀ entry ∈ entries, memory' entry.ref = memory entry.ref)
    (chain : ChainFrom memory start entries) : ChainFrom memory' start entries := by
  induction entries generalizing start with
  | nil => exact chain
  | cons entry rest ih =>
      obtain ⟨here, next, node, later⟩ := chain
      refine ⟨here, next, ?_, ih (fun other member => same other (by simp [member])) later⟩
      rw [same entry (by simp)]
      exact node

theorem ChainFrom.readable {memory : NodeMemory α} {start : Option NodeRef}
    {entries : List (Entry α)} (chain : ChainFrom memory start entries)
    {entry : Entry α} (member : entry ∈ entries) :
    ∃ next, memory entry.ref = .ok (entry.node next) := by
  induction entries generalizing start with
  | nil => cases member
  | cons first rest ih =>
      obtain ⟨_, next, node, later⟩ := chain
      rcases List.mem_cons.mp member with same | inRest
      · subst same
        exact ⟨next, node⟩
      · exact ih later inRest

/-- Every node that a `next` pointer leads to is on the heap. -/
theorem ChainFrom.onHeap {memory : NodeMemory α} {next : Option Nat}
    {entries : List (Entry α)} (chain : ChainFrom memory (next.map .chain) entries)
    {entry : Entry α} (member : entry ∈ entries) :
    ∃ address, entry.ref = .chain address := by
  induction entries generalizing next with
  | nil => cases member
  | cons first rest ih =>
      obtain ⟨here, later, _, onwards⟩ := chain
      rcases List.mem_cons.mp member with same | inRest
      · subst same
        obtain ⟨address, _, isRef⟩ := Option.map_eq_some_iff.mp here
        exact ⟨address, isRef.symm⟩
      · exact ih onwards inRest

/-- An entry that follows another one is on the heap. -/
theorem ChainFrom.later_onHeap {memory : NodeMemory α} {start : Option NodeRef}
    {front rest : List (Entry α)} {last entry : Entry α}
    (chain : ChainFrom memory start (front ++ last :: entry :: rest)) :
    ∃ address, entry.ref = .chain address := by
  induction front generalizing start with
  | nil =>
      obtain ⟨_, next, _, later⟩ := chain
      exact later.onHeap List.mem_cons_self
  | cons first others ih =>
      obtain ⟨_, _, _, later⟩ := chain
      exact ih later

def setData (ref : NodeRef) (data : α) (entries : List (Entry α)) : List (Entry α) :=
  entries.map fun entry => if entry.ref = ref then { entry with data := data } else entry

theorem ChainFrom.setData {memory memory' : NodeMemory α} {ref : NodeRef} {data : α}
    (written : ∀ node, memory ref = .ok node →
      memory' ref = .ok { node with data := some data })
    (kept : ∀ other, other ≠ ref → memory' other = memory other)
    {start : Option NodeRef} {entries : List (Entry α)}
    (chain : ChainFrom memory start entries) :
    ChainFrom memory' start (setData ref data entries) := by
  induction entries generalizing start with
  | nil => exact chain
  | cons entry rest ih =>
      obtain ⟨here, next, node, later⟩ := chain
      by_cases isRef : entry.ref = ref
      · subst isRef
        simp only [PostDns.setData, List.map_cons, if_true]
        exact ⟨here, next, written _ node, ih later⟩
      · simp only [PostDns.setData, List.map_cons, if_neg isRef]
        exact ⟨here, next, (kept _ isRef).trans node, ih later⟩

/-- A node is linked behind the last one. -/
theorem ChainFrom.append {memory memory' : NodeMemory α} {last added : Entry α}
    {address : Nat} (isAddress : added.ref = .chain address)
    (linked : ∀ node, memory last.ref = .ok node →
      memory' last.ref = .ok { node with next := some address })
    (stored : memory' added.ref = .ok (added.node none))
    {start : Option NodeRef} {front : List (Entry α)}
    (kept : ∀ entry ∈ front, memory' entry.ref = memory entry.ref)
    (chain : ChainFrom memory start (front ++ [last])) :
    ChainFrom memory' start (front ++ [last, added]) := by
  induction front generalizing start with
  | nil =>
      obtain ⟨here, next, node, later⟩ := chain
      exact ⟨here, some address, linked _ node, congrArg some isAddress.symm, none, stored,
        rfl⟩
  | cons entry rest ih =>
      obtain ⟨here, next, node, later⟩ := chain
      refine ⟨here, next, ?_, ih (fun other member => kept other (by simp [member])) later⟩
      rw [kept entry (by simp)]
      exact node

/-- The node behind `last` is unlinked. -/
theorem ChainFrom.unlink {memory memory' : NodeMemory α} {last gone : Entry α}
    {rest : List (Entry α)} {next : Option Nat}
    (goneNode : memory gone.ref = .ok (gone.node next))
    (linked : ∀ node, memory last.ref = .ok node →
      memory' last.ref = .ok { node with next := next })
    {start : Option NodeRef} {front : List (Entry α)}
    (kept : ∀ entry ∈ front ++ rest, memory' entry.ref = memory entry.ref)
    (chain : ChainFrom memory start (front ++ last :: gone :: rest)) :
    ChainFrom memory' start (front ++ last :: rest) := by
  induction front generalizing start with
  | nil =>
      obtain ⟨here, toGone, node, _, toRest, goneNode', later⟩ := chain
      rw [goneNode'] at goneNode
      have sameNext : toRest = next :=
        congrArg HashNode.next (Except.ok.inj goneNode)
      subst sameNext
      exact ⟨here, toRest, linked _ node, later.congr kept⟩
  | cons entry others ih =>
      obtain ⟨here, toNext, node, later⟩ := chain
      refine ⟨here, toNext, ?_, ih (fun other member => kept other (by simp [member])) later⟩
      rw [kept entry (by simp)]
      exact node

/-! ### Buckets -/

theorem BucketAt.chain {memory : NodeMemory α} {index : Nat} {entries : List (Entry α)}
    (bucket : BucketAt memory index entries) (nonempty : entries ≠ []) :
    ChainFrom memory (some (.head index)) entries := by
  cases entries with
  | nil => exact absurd rfl nonempty
  | cons first rest => exact bucket

theorem BucketAt.of_chain {memory : NodeMemory α} {index : Nat}
    {entries : List (Entry α)} (nonempty : entries ≠ [])
    (chain : ChainFrom memory (some (.head index)) entries) :
    BucketAt memory index entries := by
  cases entries with
  | nil => exact absurd rfl nonempty
  | cons first rest => exact chain

theorem BucketAt.congr {memory memory' : NodeMemory α} {index : Nat}
    {entries : List (Entry α)} (head : memory' (.head index) = memory (.head index))
    (same : ∀ entry ∈ entries, memory' entry.ref = memory entry.ref)
    (bucket : BucketAt memory index entries) : BucketAt memory' index entries := by
  cases entries with
  | nil => exact head.trans bucket
  | cons first rest => exact ChainFrom.congr same bucket

theorem BucketAt.readable {memory : NodeMemory α} {index : Nat}
    {entries : List (Entry α)} (bucket : BucketAt memory index entries)
    {entry : Entry α} (member : entry ∈ entries) :
    ∃ next, memory entry.ref = .ok (entry.node next) :=
  ChainFrom.readable (bucket.chain (List.ne_nil_of_mem member)) member

theorem BucketAt.head_readable {memory : NodeMemory α} {index : Nat}
    {entries : List (Entry α)} (bucket : BucketAt memory index entries) :
    ∃ node, memory (.head index) = .ok node := by
  cases entries with
  | nil => exact ⟨_, bucket⟩
  | cons first rest =>
      obtain ⟨here, next, node, _⟩ := bucket
      rw [Option.some.inj here]
      exact ⟨_, node⟩

/-- A head that is not zero holds the first entry. -/
theorem BucketAt.first_of_used {memory : NodeMemory α} {index : Nat}
    {entries : List (Entry α)} (bucket : BucketAt memory index entries)
    {node : HashNode α} (read : memory (.head index) = .ok node)
    (used : node ≠ HashNode.empty) :
    ∃ first rest, entries = first :: rest ∧ first.ref = .head index := by
  cases entries with
  | nil =>
      have empty : memory (.head index) = .ok HashNode.empty := bucket
      rw [empty] at read
      exact absurd (Except.ok.inj read).symm used
  | cons first rest => exact ⟨first, rest, rfl, (Option.some.inj bucket.1).symm⟩

theorem BucketAt.head_used {memory : NodeMemory α} {index : Nat}
    {entries : List (Entry α)} (bucket : BucketAt memory index entries)
    {node : HashNode α} (read : memory (.head index) = .ok node)
    (used : node ≠ HashNode.empty) : ∃ entry ∈ entries, entry.ref = .head index := by
  obtain ⟨first, rest, isEntries, isHead⟩ := bucket.first_of_used read used
  rw [isEntries]
  exact ⟨first, List.mem_cons_self, isHead⟩

/-- Only the first entry of a bucket lies in the array. -/
theorem BucketAt.ref {memory : NodeMemory α} {index : Nat} {entries : List (Entry α)}
    (bucket : BucketAt memory index entries) {entry : Entry α}
    (member : entry ∈ entries) :
    entry.ref = .head index ∨ ∃ address, entry.ref = .chain address := by
  cases entries with
  | nil => cases member
  | cons first rest =>
      obtain ⟨here, next, _, later⟩ := bucket
      rcases List.mem_cons.mp member with same | inRest
      · subst same
        exact Or.inl (Option.some.inj here).symm
      · exact Or.inr (later.onHeap inRest)

/-! ### Tables -/

/-- The first `size` buckets hold their entries, in nodes of their own, each entry
in the bucket of its name. -/
structure Laid (memory : NodeMemory α) (size : Nat)
    (contents : Nat → List (Entry α)) : Prop where
  positive : 0 < size
  bucket : ∀ index < size, BucketAt memory index (contents index)
  refs : ∀ index < size, ((contents index).map Entry.ref).Nodup
  apart : ∀ index < size, ∀ other < size, index ≠ other →
    ∀ entry ∈ contents index, ∀ entry' ∈ contents other, entry.ref ≠ entry'.ref
  names : ∀ index < size, ((contents index).map Entry.name).Nodup
  placed : ∀ index < size, ∀ entry ∈ contents index,
    bucketIndex entry.name size = index

theorem bucketIndex_lt {size : Nat} (positive : 0 < size) (name : StringT) :
    bucketIndex name size < size := Nat.mod_lt _ positive

theorem Laid.bucket_of {memory : NodeMemory α} {size : Nat}
    {contents : Nat → List (Entry α)} (laid : Laid memory size contents)
    (name : StringT) :
    BucketAt memory (bucketIndex name size) (contents (bucketIndex name size)) :=
  laid.bucket _ (bucketIndex_lt laid.positive name)

theorem Laid.of_size {memory : NodeMemory α} {size size' : Nat}
    {contents : Nat → List (Entry α)} (laid : Laid memory size contents)
    (same : size' = size) : Laid memory size' contents := by
  rw [same]
  exact laid

theorem Laid.congr {memory memory' : NodeMemory α} {size : Nat}
    {contents : Nat → List (Entry α)} (laid : Laid memory size contents)
    (heads : ∀ index < size, memory' (.head index) = memory (.head index))
    (same : ∀ index < size, ∀ entry ∈ contents index,
      memory' entry.ref = memory entry.ref) : Laid memory' size contents :=
  { laid with
    bucket := fun index inside =>
      (laid.bucket index inside).congr (heads index inside) (same index inside) }

/-- What the replaced bucket and the other buckets have holds of all. -/
theorem forall_replaced {size index : Nat} {contents : Nat → List (Entry α)}
    {entries : List (Entry α)} (holds : Nat → List (Entry α) → Prop)
    (here : holds index entries)
    (others : ∀ other < size, other ≠ index → holds other (contents other)) :
    ∀ other < size, holds other (Function.update contents index entries other) :=
  (Function.forall_update_iff contents fun other entries => other < size → holds other entries).mpr
    ⟨fun _ => here, fun other different below => others other below different⟩

/-- No node of another bucket is a node of this one. -/
theorem Laid.foreign {memory : NodeMemory α} {size : Nat} {contents : Nat → List (Entry α)}
    (laid : Laid memory size contents) {index other : Nat} (inside : index < size)
    (below : other < size) (different : other ≠ index) {entry : Entry α}
    (member : entry ∈ contents other) :
    entry.ref ≠ .head index ∧ (∀ old ∈ contents index, old.ref ≠ entry.ref) ∧
      ∃ node, memory entry.ref = .ok node := by
  refine ⟨?_, ?_, ?_⟩
  · rcases (laid.bucket other below).ref member with isHead | ⟨address, isChain⟩
    · rw [isHead]
      exact fun same => different (NodeRef.head.inj same)
    · rw [isChain]
      exact fun same => by cases same
  · intro old oldMember
    exact laid.apart index inside other below (Ne.symm different) old oldMember entry member
  · obtain ⟨next, node⟩ := (laid.bucket other below).readable member
    exact ⟨_, node⟩

/-- A bucket stays where it is when another one is rewritten. -/
theorem Laid.bucket_kept {memory memory' : NodeMemory α} {size : Nat}
    {contents : Nat → List (Entry α)} (laid : Laid memory size contents) {index other : Nat}
    (inside : index < size) (below : other < size) (different : other ≠ index)
    (kept : ∀ ref node, memory ref = .ok node → ref ≠ .head index →
      (∀ entry ∈ contents index, entry.ref ≠ ref) → memory' ref = memory ref) :
    BucketAt memory' other (contents other) := by
  have otherHead : NodeRef.head other ≠ .head index :=
    fun same => different (NodeRef.head.inj same)
  obtain ⟨node, readable⟩ := (laid.bucket other below).head_readable
  apply (laid.bucket other below).congr
  · apply kept _ node readable otherHead
    intro old oldMember isHead
    rcases (laid.bucket index inside).ref oldMember with first | ⟨address, isChain⟩
    · exact otherHead (isHead.symm.trans first)
    · rw [isChain] at isHead
      cases isHead
  · intro entry member
    obtain ⟨notHead, notOld, node, readable⟩ := laid.foreign inside below different member
    exact kept _ node readable notHead notOld

/-- One bucket is replaced; its nodes are its old ones or were not in use. -/
theorem Laid.update {memory memory' : NodeMemory α} {size : Nat}
    {contents : Nat → List (Entry α)} (laid : Laid memory size contents) {index : Nat}
    (inside : index < size) {entries : List (Entry α)}
    (kept : ∀ ref node, memory ref = .ok node → ref ≠ .head index →
      (∀ entry ∈ contents index, entry.ref ≠ ref) → memory' ref = memory ref)
    (bucket : BucketAt memory' index entries)
    (refs : (entries.map Entry.ref).Nodup)
    (known : ∀ entry ∈ entries, entry.ref = .head index ∨
      (∃ old ∈ contents index, old.ref = entry.ref) ∨
        ∀ node, memory entry.ref ≠ .ok node)
    (names : (entries.map Entry.name).Nodup)
    (placed : ∀ entry ∈ entries, bucketIndex entry.name size = index) :
    Laid memory' size (Function.update contents index entries) := by
  have apart (other : Nat) (below : other < size) (different : other ≠ index)
      (entry : Entry α) (member : entry ∈ entries) (entry' : Entry α)
      (member' : entry' ∈ contents other) : entry.ref ≠ entry'.ref := by
    obtain ⟨notHead, notOld, node, readable⟩ := laid.foreign inside below different member'
    intro same
    rcases known entry member with isHead | ⟨old, oldMember, isOld⟩ | fresh
    · exact notHead (same.symm.trans isHead)
    · exact notOld old oldMember (isOld.trans same)
    · exact fresh node (same ▸ readable)
  constructor
  · exact laid.positive
  · exact forall_replaced (BucketAt memory') bucket
      fun other below different => laid.bucket_kept inside below different kept
  · exact forall_replaced (fun _ entries => (entries.map Entry.ref).Nodup) refs
      fun other below _ => laid.refs other below
  · intro left leftBelow right rightBelow different entry member entry' member'
    by_cases isLeft : left = index
    · subst isLeft
      rw [Function.update_self] at member
      rw [Function.update_of_ne (Ne.symm different)] at member'
      exact apart right rightBelow (Ne.symm different) entry member entry' member'
    · rw [Function.update_of_ne isLeft] at member
      by_cases isRight : right = index
      · subst isRight
        rw [Function.update_self] at member'
        exact (apart left leftBelow isLeft entry' member' entry member).symm
      · rw [Function.update_of_ne isRight] at member'
        exact laid.apart left leftBelow right rightBelow different entry member entry' member'
  · exact forall_replaced (fun _ entries => (entries.map Entry.name).Nodup) names
      fun other below _ => laid.names other below
  · exact forall_replaced
      (fun other entries => ∀ entry ∈ entries, bucketIndex entry.name size = other) placed
      fun other below _ => laid.placed other below

/-- Of one bucket a single entry stays, in the head. -/
theorem Laid.single {memory memory' : NodeMemory α} {size : Nat}
    {contents : Nat → List (Entry α)} (laid : Laid memory size contents) {index : Nat}
    (inside : index < size) {entry : Entry α} (member : entry ∈ contents index)
    (kept : ∀ ref node, memory ref = .ok node → ref ≠ .head index →
      (∀ entry ∈ contents index, entry.ref ≠ ref) → memory' ref = memory ref)
    (written : memory' (.head index) = .ok (entry.node none)) :
    Laid memory' size (Function.update contents index [{ entry with ref := .head index }]) := by
  apply laid.update inside kept
  · exact ⟨rfl, none, written, rfl⟩
  · exact List.nodup_singleton _
  · intro other isOnly
    rw [List.mem_singleton.mp isOnly]
    exact Or.inl rfl
  · exact List.nodup_singleton _
  · intro other isOnly
    rw [List.mem_singleton.mp isOnly]
    exact laid.placed _ inside entry member

/-- One entry is added at the end of its bucket, in a node that was not in use. -/
theorem Laid.add {memory memory' : NodeMemory α} {size : Nat}
    {contents : Nat → List (Entry α)} (laid : Laid memory size contents) {index : Nat}
    (inside : index < size) {added : Entry α}
    (kept : ∀ ref node, memory ref = .ok node → ref ≠ .head index →
      (∀ entry ∈ contents index, entry.ref ≠ ref) → memory' ref = memory ref)
    (bucket : BucketAt memory' index (contents index ++ [added]))
    (new : contents index = [] ∧ added.ref = .head index ∨
      ∀ node, memory added.ref ≠ .ok node)
    (absent : ∀ entry ∈ contents index, entry.name ≠ added.name)
    (placed : bucketIndex added.name size = index) :
    Laid memory' size (Function.update contents index (contents index ++ [added])) := by
  have unused (entry : Entry α) (member : entry ∈ contents index) :
      entry.ref ≠ added.ref := by
    rcases new with ⟨empty, _⟩ | unreadable
    · rw [empty] at member
      cases member
    · intro same
      obtain ⟨next, node⟩ := (laid.bucket index inside).readable member
      exact unreadable _ (same ▸ node)
  apply laid.update inside kept bucket
  · rw [List.map_append, List.map_singleton]
    apply List.Nodup.append (laid.refs index inside) (List.nodup_singleton _)
    intro ref inOld inNew
    obtain ⟨entry, member, rfl⟩ := List.mem_map.mp inOld
    exact unused entry member (List.mem_singleton.mp inNew)
  · intro entry member
    rcases List.mem_append.mp member with old | isNew
    · exact Or.inr (Or.inl ⟨entry, old, rfl⟩)
    · rw [List.mem_singleton.mp isNew]
      exact new.imp And.right Or.inr
  · rw [List.map_append, List.map_singleton]
    apply List.Nodup.append (laid.names index inside) (List.nodup_singleton _)
    intro name inOld inNew
    obtain ⟨entry, member, rfl⟩ := List.mem_map.mp inOld
    exact absent entry member (List.mem_singleton.mp inNew)
  · intro entry member
    rcases List.mem_append.mp member with old | isNew
    · exact laid.placed index inside entry old
    · rw [List.mem_singleton.mp isNew]
      exact placed

end PostDns
