/-
When removal from the hash table is right (hash_table.c, `hash_table_remove`).

Removing the head of a bucket copies the second node into it and then releases
what the copied link points to, the third node, which stays linked.  Every other
removal of a stored name unlinks one node and releases at most that node.
-/

import PostDns.HashTableSemantics

namespace PostDns

open Foundation

variable {α : Type}

/-! ### The search for the node -/

def previousRef : Option NodeRef → List (Entry α) → Option NodeRef
  | previous, [] => previous
  | _, entry :: rest => previousRef (some entry.ref) rest

theorem previousRef_append (previous : Option NodeRef) (front : List (Entry α))
    (last : Entry α) : previousRef previous (front ++ [last]) = some last.ref := by
  induction front generalizing previous with
  | nil => rfl
  | cons entry rest ih => exact ih (some entry.ref)

theorem removeLoop_read {t : HashTable α} {ref : NodeRef} {node : HashNode α}
    (readable : t.read ref = .ok node) (name : StringT) (fuel : Nat)
    (previous : Option NodeRef) :
    removeLoop t name (fuel + 1) previous (some ref) =
      match node.name with
      | none => .ok t
      | some other =>
          if stringEqual other name then unlinkNode t previous ref node
          else removeLoop t name fuel (some ref) (node.next.map .chain) := by
  rw [removeLoop, readable]
  rfl

theorem removeLoop_entry {t : HashTable α} {entry : Entry α} {next : Option Nat}
    (node : t.read entry.ref = .ok (entry.node next)) (name : StringT) (fuel : Nat)
    (previous : Option NodeRef) :
    removeLoop t name (fuel + 1) previous (some entry.ref) =
      if entry.name = name then unlinkNode t previous entry.ref (entry.node next)
      else removeLoop t name fuel (some entry.ref) (next.map .chain) := by
  rw [removeLoop_read node]
  exact if_congr (stringEqual_iff entry.name name) rfl rfl

theorem removeLoop_found {t : HashTable α} {name : StringT} {gone : Entry α}
    {rest : List (Entry α)} (isName : gone.name = name) {front : List (Entry α)}
    (others : ∀ entry ∈ front, entry.name ≠ name) {start : Option NodeRef}
    (previous : Option NodeRef)
    (chain : ChainFrom t.read start (front ++ gone :: rest)) {fuel : Nat}
    (enough : front.length < fuel) :
    ∃ next, t.read gone.ref = .ok (gone.node next) ∧
      ChainFrom t.read (next.map .chain) rest ∧
      removeLoop t name fuel previous start =
        unlinkNode t (previousRef previous front) gone.ref (gone.node next) := by
  induction front generalizing start previous fuel with
  | nil =>
      cases fuel with
      | zero => omega
      | succ fuel =>
          obtain ⟨here, next, node, later⟩ := chain
          subst here
          refine ⟨next, node, later, ?_⟩
          rw [removeLoop_entry node, if_pos isName]
          rfl
  | cons entry front ih =>
      cases fuel with
      | zero => omega
      | succ fuel =>
          obtain ⟨here, next, node, later⟩ := chain
          subst here
          obtain ⟨goneNext, goneNode, goneLater, run⟩ :=
            ih (fun other member => others other (by simp [member])) (some entry.ref) later
              (by simpa using enough)
          refine ⟨goneNext, goneNode, goneLater, ?_⟩
          rw [removeLoop_entry node, if_neg (others entry (by simp))]
          exact run

/-- The loop runs past the end of a chain that does not have the name. -/
theorem removeLoop_missing {t : HashTable α} {name : StringT} {entries : List (Entry α)}
    (absent : ∀ entry ∈ entries, entry.name ≠ name) {start : Option NodeRef}
    (previous : Option NodeRef) (chain : ChainFrom t.read start entries) {fuel : Nat}
    (enough : entries.length < fuel) :
    removeLoop t name fuel previous start = .error .nullPointer := by
  induction entries generalizing start previous fuel with
  | nil =>
      cases fuel with
      | zero => omega
      | succ fuel =>
          have ended : start = none := chain
          subst ended
          rfl
  | cons entry rest ih =>
      cases fuel with
      | zero => omega
      | succ fuel =>
          obtain ⟨here, next, node, later⟩ := chain
          subst here
          rw [removeLoop_entry node, if_neg (absent entry (by simp))]
          exact ih (fun other member => absent other (by simp [member])) (some entry.ref) later
            (by simpa using enough)

/-- Removing a name that is not stored does nothing to an empty bucket and
dereferences NULL otherwise. -/
theorem hashTableRemove_missing {t : HashTable α} {contents : Nat → List (Entry α)}
    (laid : Laid t.read t.capacity contents) {name : StringT}
    (absent : ∀ entry ∈ contents (bucketIndex name t.capacity), entry.name ≠ name) :
    hashTableRemove t name =
      if contents (bucketIndex name t.capacity) = [] then .ok t
      else .error .nullPointer := by
  have inside := bucketIndex_lt laid.positive name
  have bucket := laid.bucket_of name
  have short := bucket.length_lt (laid.refs _ inside)
  by_cases empty : contents (bucketIndex name t.capacity) = []
  · rw [empty] at bucket
    have node : t.read (.head (bucketIndex name t.capacity)) = .ok HashNode.empty := bucket
    rw [if_pos empty, hashTableRemove, HashTable.chainBound, removeLoop, node]
    rfl
  · rw [if_neg empty]
    exact removeLoop_missing absent none (bucket.chain empty) short

/-- A removal that returns without finding the name changes nothing. -/
theorem hashTableRemove_missing_eq {t t' : HashTable α} {contents : Nat → List (Entry α)}
    (laid : Laid t.read t.capacity contents) {name : StringT}
    (absent : ∀ entry ∈ contents (bucketIndex name t.capacity), entry.name ≠ name)
    (done : hashTableRemove t name = .ok t') : t' = t := by
  rw [hashTableRemove_missing laid absent] at done
  by_cases empty : contents (bucketIndex name t.capacity) = []
  · rw [if_pos empty] at done
    cases done
    rfl
  · rw [if_neg empty] at done
    cases done

/-! ### Linked nodes -/

inductive Linked (t : HashTable α) : Nat → Prop where
  | head {index address : Nat} {node : HashNode α} (inside : index < t.capacity)
      (read : t.read (.head index) = .ok node) (next : node.next = some address) :
      Linked t address
  | chain {place address : Nat} {node : HashNode α} (linked : Linked t place)
      (read : t.read (.chain place) = .ok node) (next : node.next = some address) :
      Linked t address

theorem ChainFrom.next_mem {memory : NodeMemory α} {start : Option NodeRef}
    {entries : List (Entry α)} (chain : ChainFrom memory start entries)
    {entry : Entry α} (member : entry ∈ entries) {node : HashNode α}
    (read : memory entry.ref = .ok node) {address : Nat}
    (next : node.next = some address) :
    ∃ later ∈ entries, later.ref = .chain address := by
  induction entries generalizing start with
  | nil => cases member
  | cons first rest ih =>
      obtain ⟨_, onwards, firstNode, later⟩ := chain
      rcases List.mem_cons.mp member with same | inRest
      · subst same
        rw [firstNode] at read
        cases read
        have isNext : onwards = some address := next
        subst isNext
        cases rest with
        | nil => cases later
        | cons second others =>
            exact ⟨second, by simp, (Option.some.inj later.1).symm⟩
      · obtain ⟨found, inEntries, isChain⟩ := ih later inRest
        exact ⟨found, List.mem_cons_of_mem _ inEntries, isChain⟩

theorem linked_of_chain {t : HashTable α} {next : Option Nat} {entries : List (Entry α)}
    (chain : ChainFrom t.read (next.map .chain) entries)
    (first : ∀ address, next = some address → Linked t address) {entry : Entry α}
    (member : entry ∈ entries) {address : Nat} (isChain : entry.ref = .chain address) :
    Linked t address := by
  induction entries generalizing next with
  | nil => cases member
  | cons head rest ih =>
      obtain ⟨here, onwards, node, later⟩ := chain
      obtain ⟨place, isNext, isPlace⟩ := Option.map_eq_some_iff.mp here
      have linked := first place isNext
      rcases List.mem_cons.mp member with same | inRest
      · subst same
        rw [← isPlace] at isChain
        cases isChain
        exact linked
      · refine ih later ?_ inRest
        intro following isFollowing
        rw [← isPlace] at node
        exact Linked.chain linked node isFollowing

/-- The linked nodes are those that the entries of the buckets use. -/
theorem linked_iff {t : HashTable α} {contents : Nat → List (Entry α)}
    (laid : Laid t.read t.capacity contents) {address : Nat} :
    Linked t address ↔
      ∃ index < t.capacity, ∃ entry ∈ contents index, entry.ref = .chain address := by
  constructor
  · intro linked
    induction linked with
    | @head index address node inside read next =>
        have bucket := laid.bucket index inside
        obtain ⟨first, rest, isContents, isHead⟩ := bucket.first_of_used read (by
          intro empty
          rw [empty] at next
          cases next)
        rw [← isHead] at read
        rw [isContents] at bucket
        obtain ⟨later, member, isChain⟩ :=
          ChainFrom.next_mem bucket List.mem_cons_self read next
        exact ⟨index, inside, later, by rw [isContents]; exact member, isChain⟩
    | @chain place address node linked read next ih =>
        obtain ⟨index, inside, entry, member, isPlace⟩ := ih
        rw [← isPlace] at read
        obtain ⟨later, inBucket, isChain⟩ := ChainFrom.next_mem
          ((laid.bucket index inside).chain (List.ne_nil_of_mem member)) member read next
        exact ⟨index, inside, later, inBucket, isChain⟩
  · rintro ⟨index, inside, entry, member, isChain⟩
    have bucket := laid.bucket index inside
    cases hContents : contents index with
    | nil =>
        rw [hContents] at member
        cases member
    | cons first rest =>
        rw [hContents] at bucket member
        obtain ⟨here, next, node, later⟩ := bucket
        have isHead : first.ref = .head index := (Option.some.inj here).symm
        rcases List.mem_cons.mp member with same | inRest
        · subst same
          rw [isHead] at isChain
          cases isChain
        · rw [isHead] at node
          exact linked_of_chain later
            (fun place isPlace => Linked.head inside node isPlace) inRest isChain

theorem live_of_linked {t : HashTable α} {contents : Nat → List (Entry α)}
    (laid : Laid t.read t.capacity contents) {address : Nat} (linked : Linked t address) :
    t.cells.Live address := by
  obtain ⟨index, inside, entry, member, isChain⟩ := (linked_iff laid).mp linked
  obtain ⟨next, node⟩ := (laid.bucket index inside).readable member
  rw [isChain] at node
  exact ⟨_, read_chain_eq_ok.mp node⟩

/-! ### Unlinking -/

/-- The name is gone, the other names keep their data, and a node that was released
was in use before and is not any more. -/
structure Removed (t : HashTable α) (contents : Nat → List (Entry α)) (name : StringT)
    (t' : HashTable α) (entries : List (Entry α)) : Prop where
  capacity : t'.capacity = t.capacity
  count : t'.count = t.count
  laid : Laid t'.read t.capacity
    (Function.update contents (bucketIndex name t.capacity) entries)
  entries : ∀ other data,
    (∃ entry ∈ entries, entry.name = other ∧ entry.data = data) ↔
      other ≠ name ∧ ∃ entry ∈ contents (bucketIndex name t.capacity),
        entry.name = other ∧ entry.data = data
  released : ∀ address, t.cells.Live address →
    t'.cells.Live address ∨ Linked t address ∧ ¬ Linked t' address

def HashTable.bypass (t : HashTable α) (ref : NodeRef) (node : HashNode α) (address : Nat) :
    HashTable α :=
  { t.write ref node with cells := (t.write ref node).cells.free address }

theorem bypass_capacity (t : HashTable α) (ref : NodeRef) (node : HashNode α)
    (address : Nat) : (t.bypass ref node address).capacity = t.capacity :=
  write_capacity t ref node

theorem bypass_kept {t : HashTable α} {ref other : NodeRef} {node : HashNode α}
    {address : Nat} (notWritten : other ≠ ref) (notFreed : other ≠ .chain address) :
    (t.bypass ref node address).read other = t.read other := by
  rw [← read_write_of_ne t notWritten node]
  apply readNode_congr (t.write ref node).table
  intro place isPlace
  apply Heap.read_free_of_ne
  intro same
  exact notFreed (by rw [isPlace, same])

theorem bypass_written {t : HashTable α} {ref : NodeRef} {old node : HashNode α}
    {address : Nat} (readable : t.read ref = .ok old) (notFreed : ref ≠ .chain address) :
    (t.bypass ref node address).read ref = .ok node := by
  rw [← read_write_same readable node]
  apply readNode_congr (t.write ref node).table
  intro place isPlace
  apply Heap.read_free_of_ne
  intro same
  exact notFreed (by rw [isPlace, same])

theorem bypass_live {t : HashTable α} {ref : NodeRef} {old node : HashNode α}
    {address place : Nat} (readable : t.read ref = .ok old) (other : place ≠ address)
    (live : t.cells.Live place) : (t.bypass ref node address).cells.Live place := by
  obtain ⟨present, read⟩ := live_write readable node live
  refine ⟨present, ?_⟩
  rw [← read]
  exact Heap.read_free_of_ne _ other

/-- What stays of a list of entries differs from the entry that goes. -/
theorem ne_of_mem_around {β : Type} {feature : Entry α → β} {front rest : List (Entry α)}
    {gone entry : Entry α} (nodup : ((front ++ gone :: rest).map feature).Nodup)
    (member : entry ∈ front ++ rest) : feature entry ≠ feature gone := by
  have first := (List.perm_middle.map feature).nodup_iff.mp nodup
  intro same
  apply (List.nodup_cons.mp first).1
  rw [← same]
  exact List.mem_map_of_mem member

theorem split_gone {entries front rest : List (Entry α)} {last gone : Entry α}
    (isEntries : entries = front ++ last :: gone :: rest) :
    entries = (front ++ [last]) ++ gone :: rest := by
  rw [isEntries, List.append_assoc]
  rfl

section Later

variable {t : HashTable α} {contents : Nat → List (Entry α)}
  (laid : Laid t.read t.capacity contents) {name : StringT}
  {front rest : List (Entry α)} {last gone : Entry α}
  (bucketIs : contents (bucketIndex name t.capacity) = front ++ last :: gone :: rest)

include laid bucketIs

theorem later_remaining {entry : Entry α} (member : entry ∈ front ++ last :: rest) :
    entry ∈ contents (bucketIndex name t.capacity) ∧ entry.ref ≠ gone.ref ∧
      entry.name ≠ gone.name := by
  have inside := bucketIndex_lt laid.positive name
  have refs := laid.refs _ inside
  have names := laid.names _ inside
  rw [split_gone bucketIs] at refs names
  have around : entry ∈ (front ++ [last]) ++ rest := by
    rw [List.append_assoc]
    exact member
  refine ⟨?_, ne_of_mem_around refs around, ne_of_mem_around names around⟩
  rw [split_gone bucketIs]
  exact (List.sublist_cons_self gone rest).append_left _ |>.subset around

variable {next lastNext : Option Nat} {address : Nat}
  (node : t.read gone.ref = .ok (gone.node next)) (isChain : gone.ref = .chain address)
  (lastNode : t.read last.ref = .ok (last.node lastNext))

include node isChain lastNode

theorem laid_bypass : Laid
    (t.bypass last.ref { last.node lastNext with next := next } address).read t.capacity
    (Function.update contents (bucketIndex name t.capacity) (front ++ last :: rest)) := by
  have inside := bucketIndex_lt laid.positive name
  have chain := (laid.bucket_of name).chain (by simp [bucketIs])
  have refs := laid.refs _ inside
  have names := laid.names _ inside
  rw [bucketIs] at chain refs names
  have subset : (front ++ last :: rest).Sublist (front ++ last :: gone :: rest) :=
    ((List.sublist_cons_self gone rest).cons_cons last).append_left front
  have remaining (entry : Entry α) (member : entry ∈ front ++ last :: rest) :=
    later_remaining laid bucketIs member
  apply laid.update inside
  · intro ref _ _ _ foreign
    apply bypass_kept (foreign last (by simp [bucketIs])).symm
    rw [← isChain]
    exact (foreign gone (by simp [bucketIs])).symm
  · apply BucketAt.of_chain (by simp)
    apply ChainFrom.unlink node ?_ ?_ chain
    · intro old readable
      rw [lastNode] at readable
      cases readable
      apply bypass_written lastNode
      rw [← isChain]
      exact (remaining last (by simp)).2.1
    · intro entry member
      have notLast : entry.ref ≠ last.ref := by
        apply @ne_of_mem_around _ _ Entry.ref front (gone :: rest) last entry refs
        rcases List.mem_append.mp member with inFront | inRest
        · exact List.mem_append_left _ inFront
        · exact List.mem_append_right _ (List.mem_cons_of_mem _ inRest)
      apply bypass_kept notLast
      rw [← isChain]
      apply (remaining entry _).2.1
      rcases List.mem_append.mp member with inFront | inRest
      · exact List.mem_append_left _ inFront
      · exact List.mem_append_right _ (List.mem_cons_of_mem _ inRest)
  · exact (subset.map Entry.ref).nodup refs
  · exact fun entry member => Or.inr (Or.inl ⟨entry, (remaining entry member).1, rfl⟩)
  · exact (subset.map Entry.name).nodup names
  · exact fun entry member => laid.placed _ inside entry (remaining entry member).1

/-- The released node was linked and is not linked any more. -/
theorem unlinked_bypass : Linked t address ∧
    ¬ Linked (t.bypass last.ref { last.node lastNext with next := next } address) address := by
  have inside := bucketIndex_lt laid.positive name
  have laid' := laid_bypass laid bucketIs node isChain lastNode
  have goneMember : gone ∈ contents (bucketIndex name t.capacity) := by simp [bucketIs]
  refine ⟨(linked_iff laid).mpr ⟨_, inside, gone, goneMember, isChain⟩, ?_⟩
  intro still
  rw [linked_iff (laid'.of_size (bypass_capacity _ _ _ _))] at still
  obtain ⟨index, below, entry, member, isPlace⟩ := still
  rw [bypass_capacity] at below
  by_cases here : index = bucketIndex name t.capacity
  · subst here
    rw [Function.update_self] at member
    exact (later_remaining laid bucketIs member).2.1 (isPlace.trans isChain.symm)
  · rw [Function.update_of_ne here] at member
    exact laid.apart index below _ inside here entry member gone goneMember
      (isPlace.trans isChain.symm)

end Later

section Unlink

variable {t : HashTable α} {contents : Nat → List (Entry α)}
  (laid : Laid t.read t.capacity contents) {name : StringT} {gone : Entry α}
  (isName : gone.name = name)

include laid isName

theorem hashTableRemove_found {front rest : List (Entry α)}
    (bucketIs : contents (bucketIndex name t.capacity) = front ++ gone :: rest) :
    ∃ next, t.read gone.ref = .ok (gone.node next) ∧
      ChainFrom t.read (next.map .chain) rest ∧
      hashTableRemove t name =
        unlinkNode t (previousRef none front) gone.ref (gone.node next) := by
  have inside := bucketIndex_lt laid.positive name
  have bucket := laid.bucket_of name
  have short := bucket.length_lt (laid.refs _ inside)
  have names := laid.names _ inside
  have chain := bucket.chain (by simp [bucketIs])
  rw [bucketIs] at chain short names
  rw [List.length_append] at short
  rw [List.map_append, List.nodup_append] at names
  refine removeLoop_found isName ?_ none chain (by omega)
  intro entry member
  rw [← isName]
  exact names.2.2 _ (List.mem_map_of_mem member) _ (by simp)

/-- The only entry of a bucket leaves an empty head. -/
theorem hashTableRemove_only (bucketIs : contents (bucketIndex name t.capacity) = [gone]) :
    ∃ t', hashTableRemove t name = .ok t' ∧ Removed t contents name t' [] := by
  have inside := bucketIndex_lt laid.positive name
  have bucket := laid.bucket_of name
  rw [bucketIs] at bucket
  have isHead : gone.ref = .head (bucketIndex name t.capacity) :=
    (Option.some.inj bucket.1).symm
  have split : contents (bucketIndex name t.capacity) = [] ++ gone :: [] := bucketIs
  obtain ⟨next, node, later, run⟩ := hashTableRemove_found laid isName split
  have ended : next = none := Option.map_eq_none_iff.mp later
  subst ended
  rw [isHead] at node
  refine ⟨t.write gone.ref HashNode.empty, run, write_capacity _ _ _, write_count _ _ _, ?_,
    ?_, ?_⟩
  · rw [isHead]
    apply laid.update inside
    · intro ref _ _ notHead _
      exact read_write_of_ne t notHead _
    · exact read_write_same node _
    · exact List.nodup_nil
    · intro entry member
      cases member
    · exact List.nodup_nil
    · intro entry member
      cases member
  · intro other data
    rw [bucketIs]
    constructor
    · rintro ⟨entry, member, _⟩
      cases member
    · rintro ⟨different, entry, member, sameName, _⟩
      rw [List.mem_singleton.mp member, isName] at sameName
      exact absurd sameName.symm different
  · intro address live
    left
    rw [isHead]
    exact live

/-- The second of two entries is copied into the head and its node forgotten. -/
theorem hashTableRemove_first {second : Entry α}
    (bucketIs : contents (bucketIndex name t.capacity) = [gone, second]) :
    ∃ t', hashTableRemove t name = .ok t' ∧ Removed t contents name t'
      [{ second with ref := .head (bucketIndex name t.capacity) }] := by
  have inside := bucketIndex_lt laid.positive name
  have bucket := laid.bucket_of name
  have names := laid.names _ inside
  rw [bucketIs] at bucket names
  have isHead : gone.ref = .head (bucketIndex name t.capacity) :=
    (Option.some.inj bucket.1).symm
  have split : contents (bucketIndex name t.capacity) = [] ++ gone :: [second] := bucketIs
  obtain ⟨next, node, later, run⟩ := hashTableRemove_found laid isName split
  obtain ⟨here, secondNext, secondNode, ended⟩ := later
  have noThird : secondNext = none := Option.map_eq_none_iff.mp ended
  subst noThird
  obtain ⟨address, isNext, isChain⟩ := Option.map_eq_some_iff.mp here
  subst isNext
  rw [isHead] at node run
  rw [← isChain] at secondNode
  have apart : second.name ≠ name := by
    rw [← isName]
    simp only [List.map_cons, List.map_nil, List.nodup_cons, List.mem_singleton] at names
    exact fun same => names.1 same.symm
  refine ⟨t.write (.head (bucketIndex name t.capacity)) (second.node none), ?_,
    write_capacity _ _ _, write_count _ _ _, ?_, ?_, fun _ live => Or.inl live⟩
  · rw [run]
    change (t.read (.chain address) >>= _) = _
    rw [secondNode]
    rfl
  · apply laid.single inside (by simp [bucketIs])
    · intro ref _ _ notHead _
      exact read_write_of_ne t notHead _
    · exact read_write_same node _
  · intro other data
    rw [bucketIs]
    constructor
    · rintro ⟨entry, member, sameName, sameData⟩
      rw [List.mem_singleton.mp member] at sameName sameData
      exact ⟨fun same => apart (sameName.trans same), second, by simp, sameName, sameData⟩
    · rintro ⟨different, entry, member, sameName, sameData⟩
      rcases List.mem_cons.mp member with isGone | isSecond
      · rw [isGone, isName] at sameName
        exact absurd sameName.symm different
      · rw [List.mem_singleton.mp isSecond] at sameName sameData
        exact ⟨_, List.mem_singleton_self _, sameName, sameData⟩

/-- An entry further down the chain is unlinked and its node released. -/
theorem hashTableRemove_later {front rest : List (Entry α)} {last : Entry α}
    (bucketIs : contents (bucketIndex name t.capacity) = front ++ last :: gone :: rest) :
    ∃ t', hashTableRemove t name = .ok t' ∧
      Removed t contents name t' (front ++ last :: rest) := by
  have chain := (laid.bucket_of name).chain (by simp [bucketIs])
  rw [bucketIs] at chain
  obtain ⟨lastNext, lastNode⟩ :=
    chain.readable (show last ∈ front ++ last :: gone :: rest by simp)
  obtain ⟨address, isChain⟩ := chain.later_onHeap
  obtain ⟨next, node, _, run⟩ :=
    hashTableRemove_found laid isName (split_gone bucketIs)
  rw [previousRef_append] at run
  have stays (entry : Entry α) (member : entry ∈ front ++ last :: rest) :=
    later_remaining laid bucketIs member
  refine ⟨t.bypass last.ref { last.node lastNext with next := next } address, ?_,
    bypass_capacity _ _ _ _, write_count _ _ _,
    laid_bypass laid bucketIs node isChain lastNode, ?_, ?_⟩
  · rw [run]
    change (t.read last.ref >>= _) = _
    rw [lastNode, isChain]
    change (t.write last.ref { last.node lastNext with next := next }).free (some address) = _
    have goneKept : (t.write last.ref { last.node lastNext with next := next }).read
        (.chain address) = .ok (gone.node next) := by
      rw [← isChain, read_write_of_ne t (stays last (by simp)).2.1.symm]
      exact node
    rw [HashTable.free, read_chain_eq_ok.mp goneKept]
    rfl
  · intro other data
    constructor
    · rintro ⟨entry, member, sameName, sameData⟩
      refine ⟨?_, entry, (stays entry member).1, sameName, sameData⟩
      rw [← sameName, ← isName]
      exact (stays entry member).2.2
    · rintro ⟨different, entry, member, sameName, sameData⟩
      refine ⟨entry, ?_, sameName, sameData⟩
      have notIt : entry ≠ gone := by
        intro same
        rw [same, isName] at sameName
        exact different sameName.symm
      rw [bucketIs] at member
      simpa [notIt] using member
  · intro place live
    by_cases same : place = address
    · subst same
      exact Or.inr (unlinked_bypass laid bucketIs node isChain lastNode)
    · exact Or.inl (bypass_live lastNode same live)

/-- At the head of a long chain, the second entry is copied into the head and the node
of the third one is released, which the copied link leads to. -/
theorem hashTableRemove_long {second third : Entry α} {rest : List (Entry α)}
    (bucketIs : contents (bucketIndex name t.capacity) = gone :: second :: third :: rest) :
    ∃ next freed, t.read (.head (bucketIndex name t.capacity)) = .ok (gone.node next) ∧
      third.ref = .chain freed ∧
      hashTableRemove t name = .ok
        (t.bypass (.head (bucketIndex name t.capacity)) (second.node (some freed)) freed) ∧
      t.cells.Live freed := by
  have bucket := laid.bucket_of name
  rw [bucketIs] at bucket
  have isHead : gone.ref = .head (bucketIndex name t.capacity) :=
    (Option.some.inj bucket.1).symm
  have split : contents (bucketIndex name t.capacity) =
      [] ++ gone :: second :: third :: rest := bucketIs
  obtain ⟨next, node, later, run⟩ := hashTableRemove_found laid isName split
  obtain ⟨here, secondNext, secondNode, thirdHere, _, thirdNode, _⟩ := later
  obtain ⟨address, isNext, isSecond⟩ := Option.map_eq_some_iff.mp here
  obtain ⟨freed, isSecondNext, isThird⟩ := Option.map_eq_some_iff.mp thirdHere
  subst isNext isSecondNext
  rw [isHead] at node run
  rw [← isSecond] at secondNode
  rw [← isThird] at thirdNode
  have present : t.cells.read freed = some (third.node _) := read_chain_eq_ok.mp thirdNode
  refine ⟨some address, freed, node, isThird.symm, ?_, _, present⟩
  rw [run]
  change (t.read (.chain address) >>= _) = _
  rw [secondNode]
  change (t.write (.head (bucketIndex name t.capacity)) (second.node (some freed))).free
    (some freed) = _
  have kept : (t.write (.head (bucketIndex name t.capacity))
      (second.node (some freed))).cells.read freed = some (third.node _) := present
  rw [HashTable.free, kept]
  rfl

end Unlink

/-! ### The exact condition -/

/-- The name is at the head of its bucket and at least two nodes follow it. -/
def HeadOfLongChain (t : HashTable α) (name : StringT) : Prop :=
  ∃ head second address, t.read (.head (bucketIndex name t.capacity)) = .ok head ∧
    head.name = some name ∧ head.next = some address ∧
    t.read (.chain address) = .ok second ∧ second.next ≠ none

/-- Removing the name forgets it and nothing else, and releases no node that is
still linked. -/
def RemovalCorrect (t : HashTable α) (name : StringT) : Prop :=
  ∃ t', hashTableRemove t name = .ok t' ∧
    hashTableGet t' name = .ok none ∧
    (∀ other, other ≠ name → hashTableGet t' other = hashTableGet t other) ∧
    (∀ address, Linked t' address → t'.cells.Live address) ∧
    ∀ address, t.cells.Live address → ¬ t'.cells.Live address →
      Linked t address ∧ ¬ Linked t' address

theorem Removed.means {t t' : HashTable α} {contents : Nat → List (Entry α)}
    {name : StringT} {entries : List (Entry α)} (laid : Laid t.read t.capacity contents)
    (removed : Removed t contents name t' entries) (other : StringT) :
    meaning (Function.update contents (bucketIndex name t.capacity) entries) t.capacity
        other =
      if other = name then none else meaning contents t.capacity other := by
  have inside := bucketIndex_lt laid.positive name
  have names := removed.laid.names _ inside
  rw [Function.update_self] at names
  by_cases sameIndex : bucketIndex other t.capacity = bucketIndex name t.capacity
  · rw [meaning_update_of_index sameIndex]
    apply Option.ext
    intro data
    rw [lookupIn_eq_some_iff names, removed.entries]
    by_cases same : other = name
    · simp [same]
    · rw [if_neg same, and_iff_right same, meaning, sameIndex,
        lookupIn_eq_some_iff (laid.names _ inside)]
  · have different : other ≠ name := fun same => sameIndex (by rw [same])
    rw [meaning_update_of_ne sameIndex, if_neg different]

theorem Removed.isMap {t t' : HashTable α} {contents : Nat → List (Entry α)}
    {name : StringT} {entries : List (Entry α)} {map : StringT → Option α}
    (laid : Laid t.read t.capacity contents)
    (means : ∀ other, map other = meaning contents t.capacity other)
    (removed : Removed t contents name t' entries) :
    IsMap t' (Function.update map name none) := by
  refine ⟨_, removed.laid.of_size removed.capacity, ?_⟩
  intro other
  rw [removed.capacity, removed.means laid, Function.update_apply, means]

theorem Removed.correct {t t' : HashTable α} {contents : Nat → List (Entry α)}
    {name : StringT} {entries : List (Entry α)} (laid : Laid t.read t.capacity contents)
    (done : hashTableRemove t name = .ok t')
    (removed : Removed t contents name t' entries) : RemovalCorrect t name := by
  have laid' := removed.laid.of_size removed.capacity
  have get (other : StringT) : hashTableGet t' other =
      .ok (if other = name then none else meaning contents t.capacity other) := by
    rw [hashTableGet_laid laid', removed.capacity, removed.means laid]
  refine ⟨t', done, ?_, ?_, fun address => live_of_linked laid', ?_⟩
  · rw [get, if_pos rfl]
  · intro other different
    rw [get, if_neg different, hashTableGet_laid laid]
  · intro address live released
    exact (removed.released address live).resolve_left released

/-- The third node of the chain is released and stays linked. -/
theorem not_removalCorrect {t : HashTable α} {contents : Nat → List (Entry α)}
    (laid : Laid t.read t.capacity contents) {name : StringT}
    {gone second third : Entry α} {rest : List (Entry α)} (isName : gone.name = name)
    (bucketIs : contents (bucketIndex name t.capacity) =
      gone :: second :: third :: rest) : ¬ RemovalCorrect t name := by
  have inside := bucketIndex_lt laid.positive name
  obtain ⟨next, freed, node, _, result, _⟩ := hashTableRemove_long laid isName bucketIs
  rintro ⟨t', done, _, _, live, _⟩
  rw [result] at done
  cases done
  have head : (t.bypass (.head (bucketIndex name t.capacity)) (second.node (some freed))
      freed).read (.head (bucketIndex name t.capacity)) =
        .ok (second.node (some freed)) := bypass_written node nofun
  obtain ⟨present, read⟩ := live freed (Linked.head inside head rfl)
  change Heap.read (Heap.free _ freed) freed = _ at read
  rw [Heap.read_free_same] at read
  cases read

theorem headOfLongChain_iff {t : HashTable α} {contents : Nat → List (Entry α)}
    (laid : Laid t.read t.capacity contents) {name : StringT} :
    HeadOfLongChain t name ↔ ∃ gone second third rest, gone.name = name ∧
      contents (bucketIndex name t.capacity) = gone :: second :: third :: rest := by
  have bucket := laid.bucket_of name
  constructor
  · rintro ⟨head, second, address, node, isName, next, secondNode, more⟩
    obtain ⟨gone, rest, isContents, isHead⟩ := bucket.first_of_used node (by
      intro empty
      rw [empty] at isName
      cases isName)
    rw [isContents] at bucket
    obtain ⟨_, goneNext, goneNode, later⟩ := bucket
    rw [isHead, node] at goneNode
    cases goneNode
    have isNext : goneNext = some address := next
    subst isNext
    cases rest with
    | nil => cases later
    | cons other rest =>
        obtain ⟨isOther, otherNext, otherNode, onwards⟩ := later
        rw [← Option.some.inj isOther, secondNode] at otherNode
        cases otherNode
        cases rest with
        | nil => exact absurd (Option.map_eq_none_iff.mp onwards) more
        | cons third rest =>
            exact ⟨gone, other, third, rest, Option.some.inj isName, isContents⟩
  · rintro ⟨gone, second, third, rest, isName, bucketIs⟩
    rw [bucketIs] at bucket
    obtain ⟨here, next, node, isSecond, secondNext, secondNode, isThird, _⟩ := bucket
    obtain ⟨address, isNext, isAddress⟩ := Option.map_eq_some_iff.mp isSecond
    refine ⟨gone.node next, second.node secondNext, address, ?_, congrArg some isName,
      isNext, ?_, ?_⟩
    · rw [Option.some.inj here]
      exact node
    · rw [isAddress]
      exact secondNode
    · intro ended
      rw [show secondNext = none from ended] at isThird
      cases isThird

theorem not_removalCorrect_of_head {t : HashTable α} {contents : Nat → List (Entry α)}
    (laid : Laid t.read t.capacity contents) {name : StringT}
    (head : HeadOfLongChain t name) : ¬ RemovalCorrect t name := by
  obtain ⟨gone, second, third, rest, isName, bucketIs⟩ := (headOfLongChain_iff laid).mp head
  exact not_removalCorrect laid isName bucketIs

/-- Apart from the head of a long chain, removing a stored name succeeds. -/
theorem removal_cases {t : HashTable α} {contents : Nat → List (Entry α)}
    (laid : Laid t.read t.capacity contents) {name : StringT} {data : α}
    (stored : meaning contents t.capacity name = some data) :
    HeadOfLongChain t name ∨
      ∃ t' entries, hashTableRemove t name = .ok t' ∧ Removed t contents name t' entries := by
  have inside := bucketIndex_lt laid.positive name
  obtain ⟨gone, member, isName, _⟩ := (lookupIn_eq_some_iff (laid.names _ inside)).mp stored
  obtain ⟨front, rest, bucketIs⟩ := List.append_of_mem member
  rcases List.eq_nil_or_concat front with atHead | ⟨before, last, behind⟩
  · subst atHead
    rw [List.nil_append] at bucketIs
    cases rest with
    | nil =>
        obtain ⟨t', done, removed⟩ := hashTableRemove_only laid isName bucketIs
        exact Or.inr ⟨t', _, done, removed⟩
    | cons second rest =>
        cases rest with
        | nil =>
            obtain ⟨t', done, removed⟩ := hashTableRemove_first laid isName bucketIs
            exact Or.inr ⟨t', _, done, removed⟩
        | cons third rest =>
            exact Or.inl ((headOfLongChain_iff laid).mpr
              ⟨gone, second, third, rest, isName, bucketIs⟩)
  · rw [behind, List.concat_eq_append, List.append_assoc, List.singleton_append] at bucketIs
    obtain ⟨t', done, removed⟩ := hashTableRemove_later laid isName bucketIs
    exact Or.inr ⟨t', _, done, removed⟩

/-! ### Runs -/

/-- The tables reached by insertions and by removals of names that are not at the
head of a long chain. -/
inductive Reached : HashTable α → Prop where
  | new (choices : List Nat) : Reached (hashTableNew choices)
  | put {t t' : HashTable α} {name : Option StringT} {data : Option α}
      (reached : Reached t) (done : hashTablePut t name data = .ok t') : Reached t'
  | remove {t t' : HashTable α} {name : StringT} (reached : Reached t)
      (safe : ¬ HeadOfLongChain t name) (done : hashTableRemove t name = .ok t') :
      Reached t'

theorem hashTablePut_of_ok {t t' : HashTable α} {name : Option StringT}
    {data : Option α} {map : StringT → Option α} (isMap : IsMap t map)
    (done : hashTablePut t name data = .ok t') : ∃ map', IsMap t' map' := by
  cases name with
  | none =>
      cases done
      exact ⟨map, isMap⟩
  | some name =>
      cases data with
      | none =>
          cases done
          exact ⟨map, isMap⟩
      | some data =>
          obtain ⟨put, run, isMap'⟩ := hashTablePut_isMap isMap name data
          rw [run] at done
          cases done
          exact ⟨_, isMap'⟩

theorem hashTableRemove_of_ok {t t' : HashTable α} {name : StringT}
    {map : StringT → Option α} (isMap : IsMap t map)
    (safe : ¬ HeadOfLongChain t name) (done : hashTableRemove t name = .ok t') :
    IsMap t' (Function.update map name none) := by
  obtain ⟨contents, laid, means⟩ := isMap
  cases hStored : map name with
  | some data =>
      rw [means] at hStored
      rcases removal_cases laid hStored with long | ⟨removedTable, entries, run, removed⟩
      · exact absurd long safe
      · rw [run] at done
        cases done
        exact removed.isMap laid means
  | none =>
      have same : Function.update map name none = map := by
        rw [← hStored, Function.update_eq_self]
      rw [same]
      rw [means] at hStored
      rw [hashTableRemove_missing_eq laid (lookupIn_eq_none_iff.mp hStored) done]
      exact ⟨contents, laid, means⟩

theorem Reached.isMap {t : HashTable α} (reached : Reached t) :
    ∃ map, IsMap t map := by
  induction reached with
  | new choices => exact ⟨_, hashTableNew_isMap choices⟩
  | put _ done ih =>
      obtain ⟨map, isMap⟩ := ih
      exact hashTablePut_of_ok isMap done
  | remove _ safe done ih =>
      obtain ⟨map, isMap⟩ := ih
      exact ⟨_, hashTableRemove_of_ok isMap safe done⟩

/-- In a run without removals at the head of a long chain, removing a stored name is
right exactly when it is not at the head of a long chain itself. -/
theorem hashTableRemove_correct_iff {t : HashTable α} (reached : Reached t)
    {name : StringT} {data : α} (stored : hashTableGet t name = .ok (some data)) :
    RemovalCorrect t name ↔ ¬ HeadOfLongChain t name := by
  obtain ⟨map, contents, laid, means⟩ := reached.isMap
  rw [hashTableGet_laid laid] at stored
  have isStored := Except.ok.inj stored
  constructor
  · intro correct head
    exact not_removalCorrect_of_head laid head correct
  · intro safe
    rcases removal_cases laid isStored with long | ⟨t', entries, done, removed⟩
    · exact absurd long safe
    · exact removed.correct laid done

def insertAll : List (StringT × α) → HashTable α → Except Fault (HashTable α)
  | [], t => pure t
  | (name, data) :: rest, t => do
      let t ← hashTablePut t (some name) (some data)
      insertAll rest t

theorem reached_of_insertAll {entries : List (StringT × α)} {t t' : HashTable α}
    (reached : Reached t) (done : insertAll entries t = .ok t') : Reached t' := by
  induction entries generalizing t with
  | nil =>
      cases done
      exact reached
  | cons entry rest ih =>
      rw [insertAll] at done
      cases hPut : hashTablePut t (some entry.1) (some entry.2) with
      | error fault =>
          rw [hPut] at done
          cases done
      | ok middle =>
          rw [hPut] at done
          exact ih (reached.put hPut) done

def threeColliding : HashTable Nat :=
  { table := (List.replicate 8 HashNode.empty).set 4
      { name := some [97], data := some 1, next := some 0 }
    cells :=
      { cells := [some { name := some [100], data := some 2, next := some 1 },
          some { name := some [103], data := some 3, next := none }]
        choices := [] }
    count := 3
    capacity := 8
    threshold := 6 }

theorem threeColliding_inserted :
    insertAll [([97], 1), ([100], 2), ([103], 3)] (hashTableNew []) = .ok threeColliding := by
  decide +kernel

theorem hashTableRemove_correct_middle : RemovalCorrect threeColliding [100] := by
  have reached := reached_of_insertAll (Reached.new []) threeColliding_inserted
  have stored : hashTableGet threeColliding [100] = .ok (some 2) := by decide +kernel
  refine (hashTableRemove_correct_iff reached stored).mpr ?_
  rintro ⟨head, _, _, node, isName, _⟩
  have first : threeColliding.read (.head (bucketIndex [100] threeColliding.capacity)) =
      .ok { name := some [97], data := some 1, next := some 0 } := by
    decide +kernel
  rw [first] at node
  cases node
  cases isName

theorem hashTableRemove_wrong_head :
    insertAll [([97], 1), ([100], 2), ([103], 3)] (hashTableNew []) = .ok threeColliding ∧
      hashTableGet threeColliding [97] = .ok (some 1) ∧
      ¬ RemovalCorrect threeColliding [97] := by
  refine ⟨threeColliding_inserted, by decide +kernel, ?_⟩
  obtain ⟨map, contents, laid, _⟩ :=
    (reached_of_insertAll (Reached.new []) threeColliding_inserted).isMap
  apply not_removalCorrect_of_head laid
  refine ⟨{ name := some [97], data := some 1, next := some 0 },
    { name := some [100], data := some 2, next := some 1 }, 0, ?_, rfl, rfl, ?_, ?_⟩
  · decide +kernel
  · decide +kernel
  · exact Option.some_ne_none 1

end PostDns
