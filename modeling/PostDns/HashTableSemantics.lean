/-
The hash table refines a finite map.

Each operation has one lemma: what it returns and which buckets it leaves.  Maps
are read off the buckets, so a caller sees lookups and updates only.
-/

import PostDns.HashTableLayout
import Mathlib.Data.List.Perm.Subperm

namespace PostDns

open Foundation

variable {α : Type}

/-! ### Memory -/

theorem read_write_same {t : HashTable α} {ref : NodeRef} {old : HashNode α}
    (readable : t.read ref = .ok old) (node : HashNode α) :
    (t.write ref node).read ref = .ok node := by
  cases ref with
  | head index =>
      have inside : index < t.table.length := by
        by_contra outside
        have absent : t.table[index]? = none := List.getElem?_eq_none (by omega)
        simp [HashTable.read, readNode, absent] at readable
      simp [HashTable.read, HashTable.write, readNode, List.getElem?_set_self inside]
  | chain address =>
      have allocated : address < t.cells.size := by
        cases hRead : t.cells.read address with
        | none => simp [HashTable.read, readNode, hRead] at readable
        | some node => exact Heap.lt_size_of_read hRead
      simp [HashTable.read, HashTable.write, readNode, Heap.read_write_same node allocated]

theorem read_write_of_ne (t : HashTable α) {ref other : NodeRef}
    (different : other ≠ ref) (node : HashNode α) :
    (t.write ref node).read other = t.read other := by
  cases ref with
  | head index =>
      cases other with
      | head place =>
          have apart : index ≠ place := fun same => different (congrArg _ same.symm)
          simp [HashTable.read, HashTable.write, readNode, List.getElem?_set_ne apart]
      | chain address => rfl
  | chain address =>
      cases other with
      | head place => rfl
      | chain place =>
          have apart : place ≠ address := fun same => different (congrArg _ same)
          simp only [HashTable.read, HashTable.write, readNode,
            Heap.read_write_of_ne _ _ apart]

@[simp] theorem write_capacity (t : HashTable α) (ref : NodeRef) (node : HashNode α) :
    (t.write ref node).capacity = t.capacity := by
  cases ref <;> rfl

@[simp] theorem write_count (t : HashTable α) (ref : NodeRef) (node : HashNode α) :
    (t.write ref node).count = t.count := by
  cases ref <;> rfl

@[simp] theorem write_threshold (t : HashTable α) (ref : NodeRef) (node : HashNode α) :
    (t.write ref node).threshold = t.threshold := by
  cases ref <;> rfl

@[simp] theorem write_size (t : HashTable α) (ref : NodeRef) (node : HashNode α) :
    (t.write ref node).cells.size = t.cells.size := by
  cases ref with
  | head index => rfl
  | chain address => exact Heap.size_write t.cells address node

theorem read_chain_eq_ok {t : HashTable α} {address : Nat} {node : HashNode α} :
    t.read (.chain address) = .ok node ↔ t.cells.read address = some node := by
  cases hRead : t.cells.read address with
  | none => simp [HashTable.read, readNode, hRead]
  | some present => simp [HashTable.read, readNode, hRead]

theorem free_of_ok {t t' : HashTable α} {place : Nat} (done : t.free (some place) = .ok t') :
    t' = { t with cells := t.cells.free place } := by
  simp only [HashTable.free] at done
  cases hRead : t.cells.read place with
  | none =>
      rw [hRead] at done
      cases done
  | some node =>
      rw [hRead] at done
      cases done
      rfl

theorem live_write {t : HashTable α} {ref : NodeRef} {old : HashNode α}
    (readable : t.read ref = .ok old) (node : HashNode α) {address : Nat}
    (live : t.cells.Live address) : (t.write ref node).cells.Live address := by
  obtain ⟨present, read⟩ := live
  by_cases same : NodeRef.chain address = ref
  · subst same
    exact ⟨node, read_chain_eq_ok.mp (read_write_same readable node)⟩
  · refine ⟨present, read_chain_eq_ok.mp ?_⟩
    rw [read_write_of_ne t same]
    exact read_chain_eq_ok.mpr read

/-! ### Lookup -/

def lookupIn (entries : List (Entry α)) (name : StringT) : Option α :=
  (entries.find? fun entry => entry.name = name).map Entry.data

theorem findNode_read {t : HashTable α} {ref : NodeRef} {node : HashNode α}
    (readable : t.read ref = .ok node) (name : StringT) (fuel : Nat) :
    findNode t name (fuel + 1) (some ref) =
      match node.name with
      | none => .ok none
      | some other =>
          if stringEqual other name then .ok (some ref)
          else findNode t name fuel (node.next.map .chain) := by
  rw [findNode, readable]
  rfl

theorem findNode_chain {t : HashTable α} {name : StringT} {entries : List (Entry α)}
    {start : Option NodeRef} (chain : ChainFrom t.read start entries) {fuel : Nat}
    (enough : entries.length < fuel) :
    findNode t name fuel start =
      .ok ((entries.find? fun entry => entry.name = name).map Entry.ref) := by
  induction entries generalizing start fuel with
  | nil =>
      cases fuel with
      | zero => omega
      | succ fuel =>
          change start = none at chain
          subst chain
          rfl
  | cons entry rest ih =>
      cases fuel with
      | zero => omega
      | succ fuel =>
          obtain ⟨here, next, node, later⟩ := chain
          subst here
          rw [findNode_read node]
          simp only [Entry.node, stringEqual_eq_decide]
          by_cases found : entry.name = name
          · rw [List.find?_cons_of_pos (by simp [found]), decide_eq_true found]
            rfl
          · rw [List.find?_cons_of_neg (by simp [found]), decide_eq_false found]
            exact ih later (by simpa using enough)

theorem findNode_bucket {t : HashTable α} {name : StringT} {index : Nat}
    {entries : List (Entry α)} (bucket : BucketAt t.read index entries) {fuel : Nat}
    (enough : entries.length < fuel) :
    findNode t name fuel (some (.head index)) =
      .ok ((entries.find? fun entry => entry.name = name).map Entry.ref) := by
  cases entries with
  | nil =>
      cases fuel with
      | zero => omega
      | succ fuel =>
          have empty : t.read (.head index) = .ok HashNode.empty := bucket
          rw [findNode, empty]
          rfl
  | cons first rest => exact findNode_chain bucket enough

/-! ### Bounds on chains -/

theorem length_le_of_nodup_below {addresses : List Nat} {bound : Nat}
    (distinct : addresses.Nodup) (below : ∀ address ∈ addresses, address < bound) :
    addresses.length ≤ bound := by
  have inside : addresses ⊆ List.range bound :=
    fun address member => List.mem_range.mpr (below address member)
  have size := (distinct.subperm inside).length_le
  rwa [List.length_range] at size

def NodeRef.address : NodeRef → Nat
  | .head _ => 0
  | .chain address => address

theorem ChainFrom.length_le {t : HashTable α} {next : Option Nat}
    {entries : List (Entry α)} (chain : ChainFrom t.read (next.map .chain) entries)
    (distinct : (entries.map Entry.ref).Nodup) : entries.length ≤ t.cells.size := by
  have addressed (entry : Entry α) (member : entry ∈ entries) :
      entry.ref = .chain entry.ref.address := by
    obtain ⟨address, isChain⟩ := chain.onHeap member
    rw [isChain]
    rfl
  have below : ∀ address ∈ entries.map fun entry => entry.ref.address,
      address < t.cells.size := by
    intro address member
    obtain ⟨entry, inside, rfl⟩ := List.mem_map.mp member
    obtain ⟨_, node⟩ := chain.readable inside
    rw [addressed entry inside] at node
    exact Heap.lt_size_of_read (read_chain_eq_ok.mp node)
  have nodup : (entries.map fun entry => entry.ref.address).Nodup := by
    apply List.Nodup.map_on ?_ distinct.of_map
    intro left leftMember right rightMember same
    have refs : left.ref = right.ref := by
      rw [addressed left leftMember, addressed right rightMember, same]
    exact List.inj_on_of_nodup_map distinct leftMember rightMember refs
  have size := length_le_of_nodup_below nodup below
  rwa [List.length_map] at size

theorem BucketAt.length_lt {t : HashTable α} {index : Nat} {entries : List (Entry α)}
    (bucket : BucketAt t.read index entries) (distinct : (entries.map Entry.ref).Nodup) :
    entries.length < t.chainBound := by
  unfold HashTable.chainBound
  cases entries with
  | nil => simp
  | cons first rest =>
      obtain ⟨_, next, _, later⟩ := bucket
      have size := later.length_le (List.nodup_cons.mp distinct).2
      rw [List.length_cons]
      omega

/-! ### Reading a table -/

def meaning (contents : Nat → List (Entry α)) (size : Nat) (name : StringT) : Option α :=
  lookupIn (contents (bucketIndex name size)) name

theorem findNode_laid {t : HashTable α} {contents : Nat → List (Entry α)}
    (laid : Laid t.read t.capacity contents) (name : StringT) :
    findNode t name t.chainBound (some (.head (bucketIndex name t.capacity))) =
      .ok (((contents (bucketIndex name t.capacity)).find?
        fun entry => entry.name = name).map Entry.ref) := by
  have inside := bucketIndex_lt laid.positive name
  exact findNode_bucket (laid.bucket_of name)
    ((laid.bucket_of name).length_lt (laid.refs _ inside))

theorem hashTableGet_laid {t : HashTable α} {contents : Nat → List (Entry α)}
    (laid : Laid t.read t.capacity contents) (name : StringT) :
    hashTableGet t name = .ok (meaning contents t.capacity name) := by
  unfold hashTableGet meaning lookupIn
  rw [findNode_laid laid name]
  cases hFind : (contents (bucketIndex name t.capacity)).find?
      (fun entry => entry.name = name) with
  | none => rfl
  | some entry =>
      obtain ⟨next, node⟩ := (laid.bucket_of name).readable (List.mem_of_find?_eq_some hFind)
      change (t.read entry.ref >>= fun node => pure node.data) = _
      rw [node]
      rfl

theorem lookupIn_eq_some_iff {entries : List (Entry α)}
    (names : (entries.map Entry.name).Nodup) {name : StringT} {data : α} :
    lookupIn entries name = some data ↔
      ∃ entry ∈ entries, entry.name = name ∧ entry.data = data := by
  unfold lookupIn
  constructor
  · intro found
    obtain ⟨entry, isFound, isData⟩ := Option.map_eq_some_iff.mp found
    have isName := List.find?_some isFound
    exact ⟨entry, List.mem_of_find?_eq_some isFound, by simpa using isName, isData⟩
  · rintro ⟨entry, member, isName, isData⟩
    cases hFind : entries.find? (fun entry => entry.name = name) with
    | none =>
        have absent := List.find?_eq_none.mp hFind entry member
        simp [isName] at absent
    | some other =>
        have otherName : other.name = name := by simpa using List.find?_some hFind
        have same : other = entry := List.inj_on_of_nodup_map names
          (List.mem_of_find?_eq_some hFind) member (otherName.trans isName.symm)
        rw [same, Option.map_some, isData]

theorem lookupIn_eq_none_iff {entries : List (Entry α)} {name : StringT} :
    lookupIn entries name = none ↔ ∀ entry ∈ entries, entry.name ≠ name := by
  simp [lookupIn, List.find?_eq_none]

/-! ### Overwriting -/

theorem setData_map_ref (ref : NodeRef) (data : α) (entries : List (Entry α)) :
    (setData ref data entries).map Entry.ref = entries.map Entry.ref := by
  rw [setData, List.map_map]
  apply List.map_congr_left
  intro entry _
  change (if entry.ref = ref then { entry with data := data } else entry).ref = entry.ref
  by_cases isRef : entry.ref = ref
  · rw [if_pos isRef]
  · rw [if_neg isRef]

theorem setData_map_name (ref : NodeRef) (data : α) (entries : List (Entry α)) :
    (setData ref data entries).map Entry.name = entries.map Entry.name := by
  rw [setData, List.map_map]
  apply List.map_congr_left
  intro entry _
  change (if entry.ref = ref then { entry with data := data } else entry).name = entry.name
  by_cases isRef : entry.ref = ref
  · rw [if_pos isRef]
  · rw [if_neg isRef]

theorem lookupIn_setData {entries : List (Entry α)} {entry : Entry α}
    (member : entry ∈ entries) (refs : (entries.map Entry.ref).Nodup)
    (names : (entries.map Entry.name).Nodup) (data : α) (name : StringT) :
    lookupIn (setData entry.ref data entries) name =
      if name = entry.name then some data else lookupIn entries name := by
  have newNames : ((setData entry.ref data entries).map Entry.name).Nodup := by
    rw [setData_map_name]
    exact names
  have overwritten (other : Entry α) (inside : other ∈ entries) :
      (if other.ref = entry.ref then { other with data := data } else other) ∈
        setData entry.ref data entries := List.mem_map.mpr ⟨other, inside, rfl⟩
  by_cases isName : name = entry.name
  · rw [if_pos isName, lookupIn_eq_some_iff newNames]
    refine ⟨_, overwritten entry member, ?_⟩
    rw [if_pos rfl]
    exact ⟨isName.symm, rfl⟩
  · rw [if_neg isName]
    cases hLookup : lookupIn entries name with
    | none =>
        rw [lookupIn_eq_none_iff] at hLookup ⊢
        intro other inside
        have mapped : other.name ∈ (setData entry.ref data entries).map Entry.name :=
          List.mem_map_of_mem inside
        rw [setData_map_name] at mapped
        obtain ⟨source, sourceMember, sameName⟩ := List.mem_map.mp mapped
        rw [← sameName]
        exact hLookup source sourceMember
    | some value =>
        rw [lookupIn_eq_some_iff names] at hLookup
        rw [lookupIn_eq_some_iff newNames]
        obtain ⟨other, inside, otherName, otherData⟩ := hLookup
        have differentRef : other.ref ≠ entry.ref := by
          intro same
          have equal := List.inj_on_of_nodup_map refs inside member same
          exact isName (otherName.symm.trans (congrArg Entry.name equal))
        refine ⟨_, overwritten other inside, ?_⟩
        rw [if_neg differentRef]
        exact ⟨otherName, otherData⟩

theorem laid_overwrite {t : HashTable α} {contents : Nat → List (Entry α)}
    (laid : Laid t.read t.capacity contents) {index : Nat} (inside : index < t.capacity)
    {entry : Entry α} (member : entry ∈ contents index) {next : Option Nat}
    (node : t.read entry.ref = .ok (entry.node next)) (data : α) :
    Laid (t.write entry.ref { entry.node next with data := some data }).read t.capacity
      (Function.update contents index (setData entry.ref data (contents index))) := by
  have written (old : HashNode α) (readable : t.read entry.ref = .ok old) :
      (t.write entry.ref { entry.node next with data := some data }).read entry.ref =
        .ok { old with data := some data } := by
    rw [node] at readable
    cases readable
    exact read_write_same node _
  have kept (other : NodeRef) (different : other ≠ entry.ref) :=
    read_write_of_ne t different { entry.node next with data := some data }
  apply laid.update inside
  · intro ref _ _ _ foreign
    exact kept ref fun same => foreign entry member same.symm
  · have nonempty : contents index ≠ [] := List.ne_nil_of_mem member
    have chain := ((laid.bucket index inside).chain nonempty).setData written kept
    exact BucketAt.of_chain (by simpa [setData] using nonempty) chain
  · rw [setData_map_ref]
    exact laid.refs index inside
  · intro changed changedMember
    obtain ⟨old, oldMember, rfl⟩ := List.mem_map.mp changedMember
    refine Or.inr (Or.inl ⟨old, oldMember, ?_⟩)
    by_cases isRef : old.ref = entry.ref
    · rw [if_pos isRef]
    · rw [if_neg isRef]
  · rw [setData_map_name]
    exact laid.names index inside
  · intro changed changedMember
    have mapped : changed.name ∈ (setData entry.ref data (contents index)).map Entry.name :=
      List.mem_map_of_mem changedMember
    rw [setData_map_name] at mapped
    obtain ⟨source, sourceMember, sameName⟩ := List.mem_map.mp mapped
    rw [← sameName]
    exact laid.placed index inside source sourceMember

/-! ### Adding a node -/

theorem lastNode_read {t : HashTable α} {ref : NodeRef} {node : HashNode α}
    (readable : t.read ref = .ok node) (fuel : Nat) :
    lastNode t (fuel + 1) ref =
      match node.name, node.next with
      | some _, some next => lastNode t fuel (.chain next)
      | _, _ => .ok ref := by
  rw [lastNode, readable]
  rfl

theorem lastNode_chain {t : HashTable α} {ref : NodeRef} {front : List (Entry α)}
    {last : Entry α} (chain : ChainFrom t.read (some ref) (front ++ [last])) {fuel : Nat}
    (enough : front.length < fuel) : lastNode t fuel ref = .ok last.ref := by
  induction front generalizing ref fuel with
  | nil =>
      cases fuel with
      | zero => omega
      | succ fuel =>
          obtain ⟨here, next, node, later⟩ := chain
          cases Option.some.inj here
          cases next with
          | some address => cases later
          | none =>
              rw [lastNode_read node]
              rfl
  | cons entry rest ih =>
      cases fuel with
      | zero => omega
      | succ fuel =>
          obtain ⟨here, next, node, later⟩ := chain
          cases Option.some.inj here
          cases next with
          | none =>
              cases rest with
              | nil => cases later.1
              | cons other others => cases later.1
          | some address =>
              rw [lastNode_read node]
              exact ih later (by simpa using enough)

theorem read_alloc {t : HashTable α} {ref : NodeRef} {node : HashNode α}
    (readable : t.read ref = .ok node) (added : HashNode α) :
    { t with cells := t.cells.alloc added }.read ref = .ok node := by
  cases ref with
  | head index => exact readable
  | chain address =>
      have present := read_chain_eq_ok.mp readable
      apply read_chain_eq_ok.mpr
      rw [← present]
      exact Heap.read_alloc_of_ne added (Heap.ne_place_of_read present)

def HashTable.link (t : HashTable α) (last : NodeRef) (node added : HashNode α) : HashTable α :=
  { t with cells := t.cells.alloc added }.write last { node with next := some t.cells.place }

section Link

variable {t : HashTable α} {last : NodeRef} {node : HashNode α}
  (readable : t.read last = .ok node) (added : HashNode α)

omit readable in
theorem link_kept {ref : NodeRef} {old : HashNode α} (present : t.read ref = .ok old)
    (foreign : ref ≠ last) : (t.link last node added).read ref = .ok old := by
  rw [HashTable.link, read_write_of_ne _ foreign]
  exact read_alloc present added

omit readable in
theorem link_outside {address : Nat} (old : address ≠ t.cells.place)
    (foreign : last ≠ .chain address) :
    (t.link last node added).cells.read address = t.cells.read address := by
  have kept : (t.cells.alloc added).read address = t.cells.read address :=
    Heap.read_alloc_of_ne added old
  rw [← kept]
  cases last with
  | head index => rfl
  | chain place =>
      have apart : address ≠ place := fun same => foreign (congrArg _ same.symm)
      exact Heap.read_write_of_ne _ _ apart

include readable

theorem link_last :
    (t.link last node added).read last = .ok { node with next := some t.cells.place } :=
  read_write_same (read_alloc readable added) _

theorem link_added : (t.link last node added).read (.chain t.cells.place) = .ok added := by
  have isOther : NodeRef.chain t.cells.place ≠ last := by
    intro same
    rw [← same] at readable
    exact Heap.ne_place_of_read (read_chain_eq_ok.mp readable) rfl
  rw [HashTable.link, read_write_of_ne _ isOther]
  exact read_chain_eq_ok.mpr (Heap.read_alloc_place _ _)

/-- What is added behind the last node of the bucket. -/
theorem addNode_last {name : StringT} {data : Option α}
    (reached : lastNode t t.chainBound (.head (bucketIndex name t.capacity)) = .ok last) :
    addNode t name data =
      match node.name with
      | none => .ok
          { t.write last { name := some name, data := data, next := none } with
            count := t.count + 1 }
      | some _ => .ok
          { t.link last node { name := some name, data := data, next := none } with
            count := t.count + 1 } := by
  rw [addNode, reached]
  change (t.read last >>= _) = _
  rw [readable]
  rfl

end Link

/-- A table that `add_node` returns has a node overwritten or a new one linked. -/
theorem addNode_cases {t t' : HashTable α} {name : StringT} {data : Option α}
    (done : addNode t name data = .ok t') :
    ∃ last node, t.read last = .ok node ∧
      (t' = { t.write last { name := some name, data := data, next := none } with
          count := t.count + 1 } ∨
        t' = { t.link last node { name := some name, data := data, next := none } with
          count := t.count + 1 }) := by
  obtain ⟨last, reached, reading⟩ := except_bind_eq_ok.mp done
  obtain ⟨node, readable, _⟩ := except_bind_eq_ok.mp reading
  rw [addNode_last readable reached] at done
  refine ⟨last, node, readable, ?_⟩
  cases hName : node.name with
  | none =>
      simp only [hName] at done
      exact Or.inl (Except.ok.inj done).symm
  | some other =>
      simp only [hName] at done
      exact Or.inr (Except.ok.inj done).symm

def Unused (contents : Nat → List (Entry α)) (size address : Nat) : Prop :=
  ∀ index < size, ∀ entry ∈ contents index, entry.ref ≠ .chain address

/-- The table went on using only its own and new nodes. -/
structure Extended (t : HashTable α) (contents : Nat → List (Entry α))
    (t' : HashTable α) (contents' : Nat → List (Entry α)) : Prop where
  capacity : t'.capacity = t.capacity
  threshold : t'.threshold = t.threshold
  outside : ∀ address, t.cells.Live address → Unused contents t.capacity address →
    t'.cells.read address = t.cells.read address ∧
      Unused contents' t.capacity address

theorem Extended.refl (t : HashTable α) (contents : Nat → List (Entry α)) :
    Extended t contents t contents :=
  ⟨rfl, rfl, fun _ _ unused => ⟨rfl, unused⟩⟩

theorem Extended.trans {t t' t'' : HashTable α}
    {contents contents' contents'' : Nat → List (Entry α)}
    (first : Extended t contents t' contents')
    (second : Extended t' contents' t'' contents'') :
    Extended t contents t'' contents'' := by
  refine ⟨second.capacity.trans first.capacity, second.threshold.trans first.threshold, ?_⟩
  intro address live unused
  obtain ⟨same, unused'⟩ := first.outside address live unused
  have live' : t'.cells.Live address := by
    obtain ⟨node, present⟩ := live
    exact ⟨node, same.trans present⟩
  have later := second.outside address live'
  rw [first.capacity] at later
  obtain ⟨same', unused''⟩ := later unused'
  exact ⟨same'.trans same, unused''⟩

theorem unused_update {contents : Nat → List (Entry α)} {size index address : Nat}
    {entries : List (Entry α)} (unused : Unused contents size address)
    (others : ∀ entry ∈ entries, entry.ref ≠ .chain address) :
    Unused (Function.update contents index entries) size address := by
  intro place below entry member
  by_cases same : place = index
  · subst same
    rw [Function.update_self] at member
    exact others entry member
  · rw [Function.update_of_ne same] at member
    exact unused place below entry member

section AddNode

variable {t : HashTable α} {contents : Nat → List (Entry α)}
  (laid : Laid t.read t.capacity contents) {name : StringT} {data : α}
  (absent : ∀ entry ∈ contents (bucketIndex name t.capacity), entry.name ≠ name)

include laid absent

theorem addNode_empty (empty : contents (bucketIndex name t.capacity) = []) :
    ∃ t', addNode t name (some data) = .ok t' ∧ t'.count = t.count + 1 ∧
      t'.capacity = t.capacity ∧ t'.threshold = t.threshold ∧ t'.cells = t.cells ∧
      Laid t'.read t.capacity (Function.update contents (bucketIndex name t.capacity)
        (contents (bucketIndex name t.capacity) ++
          [{ ref := .head (bucketIndex name t.capacity), name := name, data := data }])) := by
  have inside := bucketIndex_lt laid.positive name
  have bucket := laid.bucket_of name
  rw [empty] at bucket
  have node : t.read (.head (bucketIndex name t.capacity)) = .ok HashNode.empty := bucket
  have reached : lastNode t t.chainBound (.head (bucketIndex name t.capacity)) =
      .ok (.head (bucketIndex name t.capacity)) := by
    unfold HashTable.chainBound
    rw [lastNode_read node]
    rfl
  refine ⟨{ t.write (.head (bucketIndex name t.capacity))
      { name := some name, data := some data, next := none } with count := t.count + 1 },
    ?_, rfl, rfl, rfl, rfl, ?_⟩
  · rw [addNode_last node reached]
    rfl
  · apply laid.add inside
    · intro ref _ _ notHead _
      exact read_write_of_ne t notHead _
    · rw [empty]
      exact ⟨rfl, none, read_write_same node _, rfl⟩
    · exact Or.inl ⟨empty, rfl⟩
    · exact absent
    · rfl

theorem addNode_filled {front : List (Entry α)} {last : Entry α}
    (filled : contents (bucketIndex name t.capacity) = front ++ [last]) :
    ∃ t', addNode t name (some data) = .ok t' ∧ t'.count = t.count + 1 ∧
      t'.capacity = t.capacity ∧ t'.threshold = t.threshold ∧
      (∀ address, address ≠ t.cells.place → last.ref ≠ .chain address →
        t'.cells.read address = t.cells.read address) ∧
      Laid t'.read t.capacity (Function.update contents (bucketIndex name t.capacity)
        (contents (bucketIndex name t.capacity) ++
          [{ ref := .chain t.cells.place, name := name, data := data }])) := by
  have inside := bucketIndex_lt laid.positive name
  have bucket := laid.bucket_of name
  have short := bucket.length_lt (laid.refs _ inside)
  have chain := bucket.chain (by simp [filled])
  rw [filled] at chain short
  have member : last ∈ front ++ [last] := by simp
  obtain ⟨next, node⟩ := chain.readable member
  have reached : lastNode t t.chainBound (.head (bucketIndex name t.capacity)) =
      .ok last.ref := by
    refine lastNode_chain chain ?_
    rw [List.length_append] at short
    omega
  let added : Entry α := { ref := .chain t.cells.place, name := name, data := data }
  have unreadable (old : HashNode α) : t.read added.ref ≠ .ok old := by
    intro readable
    exact Heap.ne_place_of_read (read_chain_eq_ok.mp readable) rfl
  refine ⟨{ t.link last.ref (last.node next) (added.node none) with count := t.count + 1 },
    ?_, rfl, ?_, ?_, ?_, ?_⟩
  · rw [addNode_last node reached]
    rfl
  · exact write_capacity _ _ _
  · exact write_threshold _ _ _
  · intro address old foreign
    exact link_outside (added.node none) old foreign
  · apply laid.add inside
    · intro ref old readable _ foreign
      rw [readable]
      exact link_kept (added.node none) readable fun same =>
        foreign last (by rw [filled]; exact member) same.symm
    · have linked : ChainFrom (t.link last.ref (last.node next) (added.node none)).read
          (some (.head (bucketIndex name t.capacity))) (front ++ [last, added]) := by
        apply chain.append rfl
        · intro old readable
          rw [node] at readable
          cases readable
          exact link_last node (added.node none)
        · exact link_added node (added.node none)
        · intro entry inFront
          obtain ⟨_, entryNode⟩ :=
            chain.readable (List.mem_append_left [last] inFront)
          rw [entryNode]
          refine link_kept (added.node none) entryNode ?_
          have nodup := laid.refs _ inside
          rw [filled, List.map_append, List.nodup_append] at nodup
          exact nodup.2.2 _ (List.mem_map_of_mem inFront) _ (by simp)
      have entries : contents (bucketIndex name t.capacity) ++ [added] =
          front ++ [last, added] := by
        rw [filled, List.append_assoc]
        rfl
      rw [entries]
      exact BucketAt.of_chain (by simp) linked
    · exact Or.inr unreadable
    · exact absent
    · rfl

end AddNode

/-- What `add_node` does to a table: one more entry at the end of the bucket of its
name. -/
theorem addNode_laid {t : HashTable α} {contents : Nat → List (Entry α)}
    (laid : Laid t.read t.capacity contents) {name : StringT}
    (absent : ∀ entry ∈ contents (bucketIndex name t.capacity), entry.name ≠ name)
    (data : α) :
    ∃ t' ref, addNode t name (some data) = .ok t' ∧ t'.count = t.count + 1 ∧
      Laid t'.read t.capacity (Function.update contents (bucketIndex name t.capacity)
        (contents (bucketIndex name t.capacity) ++
          [{ ref := ref, name := name, data := data }])) ∧
      Extended t contents t' (Function.update contents (bucketIndex name t.capacity)
        (contents (bucketIndex name t.capacity) ++
          [{ ref := ref, name := name, data := data }])) := by
  have inside := bucketIndex_lt laid.positive name
  rcases List.eq_nil_or_concat (contents (bucketIndex name t.capacity)) with
    empty | ⟨front, last, filled⟩
  · obtain ⟨t', done, count, capacity, threshold, cells, laid'⟩ :=
      @addNode_empty _ t contents laid name data absent empty
    refine ⟨t', _, done, count, laid', capacity, threshold, ?_⟩
    intro address _ unused
    refine ⟨by rw [cells], unused_update unused ?_⟩
    intro entry member
    rw [empty, List.nil_append] at member
    rw [List.mem_singleton.mp member]
    exact fun same => by cases same
  · rw [List.concat_eq_append] at filled
    obtain ⟨t', done, count, capacity, threshold, outside, laid'⟩ :=
      @addNode_filled _ t contents laid name data absent front last filled
    refine ⟨t', _, done, count, laid', capacity, threshold, ?_⟩
    intro address live unused
    obtain ⟨node, present⟩ := live
    have isOld := Heap.ne_place_of_read present
    have lastMember : last ∈ contents (bucketIndex name t.capacity) := by simp [filled]
    refine ⟨outside address isOld (unused _ inside last lastMember),
      unused_update unused ?_⟩
    intro entry member
    rcases List.mem_append.mp member with old | new
    · exact unused _ inside entry old
    · rw [List.mem_singleton.mp new]
      exact fun same => isOld (NodeRef.chain.inj same).symm

/-! ### Maps -/

def Holds (contents : Nat → List (Entry α)) (size : Nat) (name : StringT)
    (data : α) : Prop :=
  ∃ index < size, ∃ entry ∈ contents index, entry.name = name ∧ entry.data = data

theorem meaning_eq_some_iff {memory : NodeMemory α} {size : Nat}
    {contents : Nat → List (Entry α)} (laid : Laid memory size contents)
    {name : StringT} {data : α} :
    meaning contents size name = some data ↔ Holds contents size name data := by
  have inside := bucketIndex_lt laid.positive name
  rw [meaning, lookupIn_eq_some_iff (laid.names _ inside)]
  constructor
  · rintro ⟨entry, member, isEntry⟩
    exact ⟨_, inside, entry, member, isEntry⟩
  · rintro ⟨index, below, entry, member, isName, isData⟩
    have here := laid.placed index below entry member
    rw [isName] at here
    subst here
    exact ⟨entry, member, isName, isData⟩

theorem holds_add {size : Nat} {contents : Nat → List (Entry α)} {added : Entry α} {index : Nat}
    (inside : index < size) {name : StringT} {data : α} :
    Holds (Function.update contents index (contents index ++ [added])) size name data ↔
      Holds contents size name data ∨ added.name = name ∧ added.data = data := by
  constructor
  · rintro ⟨place, below, entry, member, isEntry⟩
    by_cases same : place = index
    · subst same
      rw [Function.update_self] at member
      rcases List.mem_append.mp member with old | new
      · exact Or.inl ⟨place, below, entry, old, isEntry⟩
      · rw [List.mem_singleton.mp new] at isEntry
        exact Or.inr isEntry
    · rw [Function.update_of_ne same] at member
      exact Or.inl ⟨place, below, entry, member, isEntry⟩
  · rintro (⟨place, below, entry, member, isEntry⟩ | isAdded)
    · refine ⟨place, below, entry, ?_, isEntry⟩
      by_cases same : place = index
      · subst same
        rw [Function.update_self]
        exact List.mem_append_left _ member
      · rw [Function.update_of_ne same]
        exact member
    · refine ⟨index, inside, added, ?_, isAdded⟩
      rw [Function.update_self]
      simp

/-! ### Growing -/

theorem readNode_congr (heads : List (HashNode α)) {cells cells' : Heap (HashNode α)}
    {ref : NodeRef}
    (same : ∀ address, ref = .chain address → cells'.read address = cells.read address) :
    readNode heads cells' ref = readNode heads cells ref := by
  cases ref with
  | head index => rfl
  | chain address => simp only [readNode, same address rfl]

/-- A bucket of the old array that is still to be moved to the table. -/
structure Pending (old : List (HashNode α)) (t : HashTable α)
    (contents : Nat → List (Entry α)) (start : Option NodeRef)
    (entries : List (Entry α)) : Prop where
  chain : ChainFrom (readNode old t.cells) start entries
  apart : ∀ entry ∈ entries, ∀ address, entry.ref = .chain address →
    Unused contents t.capacity address
  absent : ∀ entry ∈ entries, ∀ index < t.capacity, ∀ present ∈ contents index,
    present.name ≠ entry.name
  names : (entries.map Entry.name).Nodup

theorem Pending.live {old : List (HashNode α)} {t : HashTable α}
    {contents : Nat → List (Entry α)} {start : Option NodeRef}
    {entries : List (Entry α)} (pending : Pending old t contents start entries)
    {entry : Entry α} (member : entry ∈ entries) {address : Nat}
    (isChain : entry.ref = .chain address) : t.cells.Live address := by
  obtain ⟨next, node⟩ := pending.chain.readable member
  rw [isChain] at node
  cases hRead : t.cells.read address with
  | none => simp [readNode, hRead] at node
  | some present => exact ⟨present, hRead⟩

/-- Entries stay pending while others are moved. -/
theorem Pending.extend {old : List (HashNode α)} {t t' : HashTable α}
    {contents contents' : Nat → List (Entry α)} {start : Option NodeRef}
    {entries : List (Entry α)} (pending : Pending old t contents start entries)
    (extended : Extended t contents t' contents')
    (absent : ∀ entry ∈ entries, ∀ index < t.capacity, ∀ present ∈ contents' index,
      present.name ≠ entry.name) : Pending old t' contents' start entries := by
  have outside (entry : Entry α) (member : entry ∈ entries) (address : Nat)
      (isChain : entry.ref = .chain address) :=
    extended.outside address (pending.live member isChain)
      (pending.apart entry member address isChain)
  refine ⟨?_, ?_, ?_, pending.names⟩
  · apply pending.chain.congr
    intro entry member
    exact readNode_congr old fun address isChain =>
      (outside entry member address isChain).1
  · intro entry member address isChain
    rw [extended.capacity]
    exact (outside entry member address isChain).2
  · rw [extended.capacity]
    exact absent

/-- What the inner loop of `resize` does: the entries of an old chain are added. -/
theorem moveChain_laid {old : List (HashNode α)} {entries : List (Entry α)}
    {t : HashTable α} {contents : Nat → List (Entry α)} {start : Option NodeRef}
    (laid : Laid t.read t.capacity contents)
    (pending : Pending old t contents start entries) {fuel : Nat}
    (enough : entries.length < fuel) :
    ∃ t' contents', moveChain old fuel start t = .ok t' ∧
      t'.count = t.count + entries.length ∧ Laid t'.read t.capacity contents' ∧
      Extended t contents t' contents' ∧
      ∀ name data, Holds contents' t.capacity name data ↔
        Holds contents t.capacity name data ∨
          ∃ entry ∈ entries, entry.name = name ∧ entry.data = data := by
  induction entries generalizing t contents start fuel with
  | nil =>
      cases fuel with
      | zero => omega
      | succ fuel =>
          have ended : start = none := pending.chain
          subst ended
          exact ⟨t, contents, rfl, rfl, laid, Extended.refl t contents, by simp⟩
  | cons entry rest ih =>
      cases fuel with
      | zero => omega
      | succ fuel =>
          obtain ⟨here, next, node, later⟩ := pending.chain
          subst here
          have inside := bucketIndex_lt laid.positive entry.name
          obtain ⟨moved, ref, added, count, laid', extended⟩ := addNode_laid laid
            (pending.absent entry (by simp) _ inside) entry.data
          have names := List.nodup_cons.mp pending.names
          have restPending : Pending old t contents (next.map .chain) rest :=
            { chain := later
              apart := fun other member => pending.apart other (by simp [member])
              absent := fun other member => pending.absent other (by simp [member])
              names := names.2 }
          have restAbsent := restPending.extend extended (by
            intro other member index below present inBucket sameName
            by_cases same : index = bucketIndex entry.name t.capacity
            · subst same
              rw [Function.update_self] at inBucket
              rcases List.mem_append.mp inBucket with before | new
              · exact restPending.absent other member _ below present before sameName
              · rw [List.mem_singleton.mp new] at sameName
                exact names.1 (sameName ▸ List.mem_map_of_mem member)
            · rw [Function.update_of_ne same] at inBucket
              exact restPending.absent other member index below present inBucket sameName)
          obtain ⟨t', contents', run, count', laid'', extended', holds⟩ :=
            ih (laid'.of_size extended.capacity) restAbsent (by simpa using enough)
          rw [extended.capacity] at laid'' holds
          refine ⟨t', contents', ?_, ?_, laid'', extended.trans extended', ?_⟩
          · rw [moveChain, node]
            change (addNode t entry.name (some entry.data) >>= _) = _
            rw [added]
            exact run
          · rw [count', count, List.length_cons]
            omega
          · intro name data
            rw [holds name data, holds_add inside, or_assoc]
            simp only [List.mem_cons, exists_eq_or_imp]

theorem freeChain_out {old : List (HashNode α)} {t : HashTable α} {next : Option Nat}
    {entries : List (Entry α)}
    (chain : ChainFrom (readNode old t.cells) (next.map .chain) entries)
    (refs : (entries.map Entry.ref).Nodup) {fuel : Nat} (enough : entries.length < fuel) :
    ∃ cells, freeChain fuel next t = .ok { t with cells := cells } ∧
      ∀ address, (∀ entry ∈ entries, entry.ref ≠ .chain address) →
        Heap.read cells address = t.cells.read address := by
  induction entries generalizing t next fuel with
  | nil =>
      cases fuel with
      | zero => omega
      | succ fuel =>
          have ended : next = none := Option.map_eq_none_iff.mp chain
          subst ended
          exact ⟨t.cells, rfl, fun _ _ => rfl⟩
  | cons entry rest ih =>
      cases fuel with
      | zero => omega
      | succ fuel =>
          obtain ⟨here, later, node, onwards⟩ := chain
          obtain ⟨address, isNext, isChain⟩ := Option.map_eq_some_iff.mp here
          subst isNext
          rw [← isChain] at node
          have present : t.read (.chain address) = .ok (entry.node later) := node
          have names := List.nodup_cons.mp refs
          let freed : HashTable α := { t with cells := t.cells.free address }
          have restChain : ChainFrom (readNode old freed.cells) (later.map .chain) rest := by
            apply onwards.congr
            intro other member
            apply readNode_congr old
            intro place isPlace
            apply Heap.read_free_of_ne
            intro same
            apply names.1
            rw [← isChain, ← same, ← isPlace]
            exact List.mem_map_of_mem member
          obtain ⟨cells, run, kept⟩ := ih restChain names.2 (by simpa using enough)
          refine ⟨cells, ?_, ?_⟩
          · rw [freeChain, present]
            change (t.free (some address) >>= _) = _
            rw [HashTable.free, read_chain_eq_ok.mp present]
            exact run
          · intro place foreign
            rw [kept place fun other member => foreign other (by simp [member])]
            apply Heap.read_free_of_ne
            intro same
            exact foreign entry (by simp) (by rw [same, isChain])

def PendingBucket (old : List (HashNode α)) (t : HashTable α)
    (contents : Nat → List (Entry α)) (index : Nat) (entries : List (Entry α)) : Prop :=
  entries = [] ∧ readNode old t.cells (.head index) = .ok HashNode.empty ∨
    Pending old t contents (some (.head index)) entries

/-- One iteration of the `for` loop of `resize`: the entries of an old bucket are
added and its chain is released. -/
theorem resizeStep_laid {old : List (HashNode α)} {t : HashTable α}
    {contents : Nat → List (Entry α)} {index : Nat} {entries : List (Entry α)}
    (laid : Laid t.read t.capacity contents)
    (pending : PendingBucket old t contents index entries)
    (refs : (entries.map Entry.ref).Nodup) {bound : Nat}
    (enough : entries.length < bound) :
    ∃ t₁ head t' contents', moveChain old bound (some (.head index)) t = .ok t₁ ∧
      readNode old t₁.cells (.head index) = .ok head ∧
      freeChain bound head.next t₁ = .ok t' ∧
      t'.count = t.count + entries.length ∧ t'.capacity = t.capacity ∧
      t'.threshold = t.threshold ∧ Laid t'.read t.capacity contents' ∧
      (∀ name data, Holds contents' t.capacity name data ↔
        Holds contents t.capacity name data ∨
          ∃ entry ∈ entries, entry.name = name ∧ entry.data = data) ∧
      ∀ place others, PendingBucket old t contents place others →
        (∀ other ∈ others, ∀ entry ∈ entries,
          other.ref ≠ entry.ref ∧ other.name ≠ entry.name) →
        PendingBucket old t' contents' place others := by
  rcases pending with ⟨empty, node⟩ | pending
  · subst empty
    cases bound with
    | zero => omega
    | succ bound =>
        refine ⟨t, HashNode.empty, t, contents, ?_, node, rfl, rfl, rfl, rfl, laid, by simp,
          fun place others later _ => later⟩
        rw [moveChain, node]
        rfl
  · obtain ⟨t₁, contents', run, count, laid₁, extended, holds⟩ :=
      moveChain_laid laid pending enough
    have outside {start : Option NodeRef} {others : List (Entry α)}
        (later : Pending old t contents start others) (other : Entry α)
        (member : other ∈ others) (address : Nat) (isChain : other.ref = .chain address) :=
      extended.outside address (later.live member isChain)
        (later.apart other member address isChain)
    have chain : ChainFrom (readNode old t₁.cells) (some (.head index)) entries := by
      apply pending.chain.congr
      intro entry member
      exact readNode_congr old fun address isChain =>
        (outside pending entry member address isChain).1
    cases entries with
    | nil => cases chain
    | cons first rest =>
        obtain ⟨here, next, node, later⟩ := chain
        have isHead : first.ref = .head index := (Option.some.inj here).symm
        rw [isHead] at node
        obtain ⟨cells, freed, kept⟩ := freeChain_out later (List.nodup_cons.mp refs).2
          (show rest.length < bound by simp at enough; omega)
        refine ⟨t₁, first.node next, { t₁ with cells := cells }, contents', run, node, freed,
          count, extended.capacity, extended.threshold, ?_, holds, ?_⟩
        · apply laid₁.congr
          · intro _ _
            rfl
          · intro place below entry member
            refine readNode_congr t₁.table fun address isChain => kept address ?_
            intro other inRest isOther
            exact (outside pending other (by simp [inRest]) address isOther).2 place below
              entry member isChain
        · rintro place others (isEmpty | pendingOthers) foreign
          · exact Or.inl isEmpty
          · right
            have extendedOthers := pendingOthers.extend extended (by
              intro other member at_ below present inBucket sameName
              rcases (holds present.name present.data).mp
                ⟨at_, below, present, inBucket, rfl, rfl⟩ with
                ⟨before, beforeBelow, old', oldMember, oldName, _⟩ | ⟨entry, inEntries, isName, _⟩
              · exact pendingOthers.absent other member before beforeBelow old' oldMember
                  (oldName.trans sameName)
              · exact (foreign other member entry inEntries).2 (sameName.symm.trans isName.symm))
            refine { extendedOthers with chain := ?_ }
            apply extendedOthers.chain.congr
            intro other member
            refine readNode_congr old fun address isChain => kept address ?_
            intro entry inRest isEntry
            exact (foreign other member entry (by simp [inRest])).1
              (isChain.trans isEntry.symm)

def entryCount (contents : Nat → List (Entry α)) (index : Nat) : Nat → Nat
  | 0 => 0
  | count + 1 => (contents index).length + entryCount contents (index + 1) count

/-- The buckets of the old array hold entries in nodes of their own, under distinct
names. -/
structure Separate (oldContents : Nat → List (Entry α)) (size bound : Nat) : Prop where
  refs : ∀ index < size, ((oldContents index).map Entry.ref).Nodup
  short : ∀ index < size, (oldContents index).length < bound
  apart : ∀ index < size, ∀ other < size, index ≠ other →
    ∀ entry ∈ oldContents index, ∀ entry' ∈ oldContents other,
      entry.ref ≠ entry'.ref ∧ entry.name ≠ entry'.name

theorem resizeLoop_laid {old : List (HashNode α)} {oldContents : Nat → List (Entry α)}
    {size bound : Nat} (separate : Separate oldContents size bound) {count index : Nat}
    (whole : index + count = size) {t : HashTable α} {contents : Nat → List (Entry α)}
    (laid : Laid t.read t.capacity contents)
    (pending : ∀ place, index ≤ place → place < size →
      PendingBucket old t contents place (oldContents place)) :
    ∃ t' contents', resizeLoop old bound count index t = .ok t' ∧
      t'.count = t.count + entryCount oldContents index count ∧
      t'.capacity = t.capacity ∧ t'.threshold = t.threshold ∧
      Laid t'.read t.capacity contents' ∧
      ∀ name data, Holds contents' t.capacity name data ↔
        Holds contents t.capacity name data ∨
          ∃ place, index ≤ place ∧ place < size ∧
            ∃ entry ∈ oldContents place, entry.name = name ∧ entry.data = data := by
  induction count generalizing index t contents with
  | zero =>
      refine ⟨t, contents, rfl, rfl, rfl, rfl, laid, ?_⟩
      intro name data
      refine (or_iff_left ?_).symm
      rintro ⟨place, after, before, _⟩
      omega
  | succ count ih =>
      have inside : index < size := by omega
      obtain ⟨t₁, head, t₂, contents₂, moved, read, freed, count₂, capacity₂, threshold₂,
        laid₂, holds₂, others₂⟩ := resizeStep_laid laid (pending index (Nat.le_refl _) inside)
          (separate.refs index inside) (separate.short index inside)
      have pending₂ (place : Nat) (after : index + 1 ≤ place) (below : place < size) :
          PendingBucket old t₂ contents₂ place (oldContents place) :=
        others₂ place _ (pending place (by omega) below)
          (separate.apart place below index inside (by omega))
      obtain ⟨t', contents', run, count', capacity', threshold', laid', holds'⟩ :=
        ih (by omega) (laid₂.of_size capacity₂) pending₂
      rw [capacity₂] at laid' holds'
      refine ⟨t', contents', ?_, ?_, capacity'.trans capacity₂, threshold'.trans threshold₂,
        laid', ?_⟩
      · rw [resizeLoop, moved]
        change (readNode old t₁.cells (.head index) >>= _) = _
        rw [read]
        change (freeChain bound head.next t₁ >>= _) = _
        rw [freed]
        exact run
      · rw [count', count₂, entryCount]
        omega
      · intro name data
        rw [holds', holds₂, or_assoc]
        refine or_congr_right ?_
        constructor
        · rintro (⟨entry, member, isEntry⟩ | ⟨place, after, below, found⟩)
          · exact ⟨index, Nat.le_refl _, inside, entry, member, isEntry⟩
          · exact ⟨place, by omega, below, found⟩
        · rintro ⟨place, after, below, found⟩
          by_cases here : place = index
          · subst here
            exact Or.inl found
          · exact Or.inr ⟨place, by omega, below, found⟩

theorem laid_empty {t : HashTable α} (positive : 0 < t.capacity)
    (table : t.table = List.replicate t.capacity HashNode.empty) :
    Laid t.read t.capacity (fun _ => []) := by
  refine ⟨positive, ?_, ?_, ?_, ?_, ?_⟩
  · intro index inside
    change readNode t.table t.cells (.head index) = _
    simp only [readNode, table, List.getElem?_replicate_of_lt inside]
  · exact fun _ _ => List.nodup_nil
  · intro _ _ _ _ _ entry member
    cases member
  · exact fun _ _ => List.nodup_nil
  · intro _ _ entry member
    cases member

theorem Laid.separate {t : HashTable α} {contents : Nat → List (Entry α)}
    (laid : Laid t.read t.capacity contents) :
    Separate contents t.capacity t.chainBound := by
  refine ⟨laid.refs, fun index inside =>
    (laid.bucket index inside).length_lt (laid.refs index inside), ?_⟩
  intro index inside other below different entry member entry' member'
  refine ⟨laid.apart index inside other below different entry member entry' member', ?_⟩
  intro same
  apply different
  rw [← laid.placed index inside entry member, same]
  exact laid.placed other below entry' member'

/-- Before the first iteration every bucket of the old array is to be moved. -/
theorem Laid.pendingBucket {t : HashTable α} {contents : Nat → List (Entry α)}
    (laid : Laid t.read t.capacity contents) (grown : HashTable α)
    (cells : grown.cells = t.cells) (place : Nat) (below : place < t.capacity) :
    PendingBucket t.table grown (fun _ => []) place (contents place) := by
  have bucket := laid.bucket place below
  have names := laid.names place below
  change BucketAt (readNode t.table t.cells) place (contents place) at bucket
  rw [← cells] at bucket
  cases hContents : contents place with
  | nil =>
      rw [hContents] at bucket
      exact Or.inl ⟨rfl, bucket⟩
  | cons first rest =>
      rw [hContents] at bucket names
      refine Or.inr ⟨bucket, ?_, ?_, names⟩
      · intro _ _ _ _ _ _ entry member
        cases member
      · intro _ _ _ _ entry member
        cases member

def HashTable.grown (t : HashTable α) : HashTable α :=
  { t with
    table := List.replicate ((t.capacity <<< 1) + 1) HashNode.empty
    capacity := (t.capacity <<< 1) + 1
    threshold := loadThreshold ((t.capacity <<< 1) + 1) }

/-- Growing moves every entry to the bucket of its name in the larger array. -/
theorem resize_laid {t : HashTable α} {contents : Nat → List (Entry α)}
    (laid : Laid t.read t.capacity contents) :
    ∃ t' contents', resize t = .ok t' ∧
      t'.count = t.count + entryCount contents 0 t.capacity ∧
      t'.capacity = (t.capacity <<< 1) + 1 ∧ t'.threshold = loadThreshold t'.capacity ∧
      Laid t'.read t'.capacity contents' ∧
      ∀ name data, Holds contents' t'.capacity name data ↔
        Holds contents t.capacity name data := by
  obtain ⟨t', contents', run, count, capacity, threshold, laid', holds⟩ :=
    resizeLoop_laid laid.separate (Nat.zero_add _)
      (show Laid t.grown.read t.grown.capacity _ from laid_empty (Nat.succ_pos _) rfl)
      (fun place _ below => laid.pendingBucket t.grown rfl place below)
  refine ⟨t', contents', run, count, capacity, ?_, laid'.of_size capacity, ?_⟩
  · rw [threshold, capacity]
    rfl
  · intro name data
    rw [capacity, holds]
    constructor
    · rintro (⟨_, _, entry, member, _⟩ | ⟨place, _, below, found⟩)
      · cases member
      · exact ⟨place, below, found⟩
    · rintro ⟨place, below, found⟩
      exact Or.inr ⟨place, Nat.zero_le _, below, found⟩

/-! ### The table as a map -/

/-- The table is well laid out and its buckets hold the map. -/
def IsMap (t : HashTable α) (map : StringT → Option α) : Prop :=
  ∃ contents, Laid t.read t.capacity contents ∧
    ∀ name, map name = meaning contents t.capacity name

theorem isMap_of_holds {t t' : HashTable α} {contents contents' : Nat → List (Entry α)}
    {map : StringT → Option α} (laid : Laid t.read t.capacity contents)
    (means : ∀ name, map name = meaning contents t.capacity name)
    (laid' : Laid t'.read t'.capacity contents')
    (holds : ∀ name data, Holds contents' t'.capacity name data ↔
      Holds contents t.capacity name data) : IsMap t' map := by
  refine ⟨contents', laid', ?_⟩
  intro name
  rw [means]
  apply Option.ext
  intro data
  rw [meaning_eq_some_iff laid, meaning_eq_some_iff laid', holds]

theorem hashTableNew_isMap (choices : List Nat) :
    IsMap (hashTableNew choices : HashTable α) (fun _ => none) :=
  ⟨fun _ => [], laid_empty (Nat.succ_pos 7) rfl, fun _ => rfl⟩

theorem hashTableGet_isMap {t : HashTable α} {map : StringT → Option α}
    (isMap : IsMap t map) (name : StringT) :
    hashTableGet t name = .ok (map name) := by
  obtain ⟨contents, laid, means⟩ := isMap
  rw [hashTableGet_laid laid, means]

theorem meaning_update_of_index {contents : Nat → List (Entry α)} {size : Nat}
    {name other : StringT} {entries : List (Entry α)}
    (same : bucketIndex other size = bucketIndex name size) :
    meaning (Function.update contents (bucketIndex name size) entries) size other =
      lookupIn entries other := by
  rw [meaning, same, Function.update_self]

theorem meaning_update_of_ne {contents : Nat → List (Entry α)} {size : Nat}
    {name other : StringT} {entries : List (Entry α)}
    (different : bucketIndex other size ≠ bucketIndex name size) :
    meaning (Function.update contents (bucketIndex name size) entries) size other =
      meaning contents size other := by
  rw [meaning, Function.update_of_ne different, meaning]

theorem hashTablePut_some (t : HashTable α) (name : StringT) (data : α) :
    hashTablePut t (some name) (some data) =
      findNode t name t.chainBound (some (.head (bucketIndex name t.capacity))) >>=
        fun found => match found with
          | some ref => t.read ref >>= fun node =>
              pure (t.write ref { node with data := some data })
          | none => addNode t name (some data) >>= fun t =>
              if t.threshold < t.count then resize t else pure t := rfl

/-- The data in the node of an entry is replaced. -/
theorem overwrite_isMap {t : HashTable α} {contents : Nat → List (Entry α)}
    (laid : Laid t.read t.capacity contents) {map : StringT → Option α}
    (means : ∀ name, map name = meaning contents t.capacity name) {index : Nat}
    (inside : index < t.capacity) {entry : Entry α} (member : entry ∈ contents index)
    {next : Option Nat} (node : t.read entry.ref = .ok (entry.node next)) (data : α) :
    IsMap (t.write entry.ref { entry.node next with data := some data })
      (Function.update map entry.name (some data)) := by
  have placed := laid.placed index inside entry member
  subst placed
  have laid' := laid_overwrite laid inside member node data
  refine ⟨_, laid'.of_size (write_capacity _ _ _), ?_⟩
  intro other
  rw [write_capacity]
  by_cases same : bucketIndex other t.capacity = bucketIndex entry.name t.capacity
  · rw [meaning_update_of_index same, lookupIn_setData member (laid.refs _ inside)
      (laid.names _ inside), Function.update_apply, means, meaning, same]
  · rw [meaning_update_of_ne same, Function.update_of_ne, means]
    exact fun equal => same (congrArg (bucketIndex · t.capacity) equal)

/-- The data of a stored name is replaced in its node. -/
theorem hashTablePut_stored {t : HashTable α} {map : StringT → Option α}
    (isMap : IsMap t map) {name : StringT} {old : α} (stored : map name = some old)
    (data : α) :
    ∃ t', hashTablePut t (some name) (some data) = .ok t' ∧
      IsMap t' (Function.update map name (some data)) ∧
      t'.count = t.count ∧ t'.capacity = t.capacity ∧ t'.threshold = t.threshold := by
  obtain ⟨contents, laid, means⟩ := isMap
  have inside := bucketIndex_lt laid.positive name
  have search := findNode_laid laid name
  rw [means, meaning, lookupIn] at stored
  obtain ⟨entry, hFind, _⟩ := Option.map_eq_some_iff.mp stored
  rw [hFind] at search
  have member := List.mem_of_find?_eq_some hFind
  have isName : entry.name = name := by simpa using List.find?_some hFind
  obtain ⟨next, node⟩ := (laid.bucket_of name).readable member
  have isMap' := overwrite_isMap laid means inside member node data
  rw [isName] at isMap'
  refine ⟨_, ?_, isMap', write_count _ _ _, write_capacity _ _ _, write_threshold _ _ _⟩
  rw [hashTablePut_some, search]
  change (t.read entry.ref >>= _) = _
  rw [node]
  rfl

/-- A new name is added, and the table grows when its count passes the threshold. -/
theorem hashTablePut_new {t : HashTable α} {map : StringT → Option α}
    (isMap : IsMap t map) {name : StringT} (missing : map name = none) (data : α) :
    ∃ t₁, IsMap t₁ (Function.update map name (some data)) ∧
      t₁.count = t.count + 1 ∧ t₁.capacity = t.capacity ∧ t₁.threshold = t.threshold ∧
      hashTablePut t (some name) (some data) =
        if t₁.threshold < t₁.count then resize t₁ else .ok t₁ := by
  obtain ⟨contents, laid, means⟩ := isMap
  have inside := bucketIndex_lt laid.positive name
  have search := findNode_laid laid name
  rw [means] at missing
  have absent := lookupIn_eq_none_iff.mp missing
  have notFound : (contents (bucketIndex name t.capacity)).find?
      (fun entry => entry.name = name) = none := by
    simpa [List.find?_eq_none] using absent
  rw [notFound] at search
  obtain ⟨t₁, ref, added, count, laid₁, extended⟩ := addNode_laid laid absent data
  refine ⟨t₁, ⟨_, laid₁.of_size extended.capacity, ?_⟩, count, extended.capacity,
    extended.threshold, ?_⟩
  · intro other
    rw [extended.capacity]
    apply Option.ext
    intro value
    rw [meaning_eq_some_iff laid₁, holds_add inside, ← meaning_eq_some_iff laid, ← means]
    by_cases same : other = name
    · subst same
      simp [means, missing]
    · simp [Function.update_of_ne same, Ne.symm same]
  · rw [hashTablePut_some, search]
    change (addNode t name (some data) >>= _) = _
    rw [added]
    rfl

theorem hashTablePut_isMap {t : HashTable α} {map : StringT → Option α}
    (isMap : IsMap t map) (name : StringT) (data : α) :
    ∃ t', hashTablePut t (some name) (some data) = .ok t' ∧
      IsMap t' (Function.update map name (some data)) := by
  cases hStored : map name with
  | some old =>
      obtain ⟨t', put, isMap', _⟩ := hashTablePut_stored isMap hStored data
      exact ⟨t', put, isMap'⟩
  | none =>
      obtain ⟨t₁, isMap₁, _, _, _, put⟩ := hashTablePut_new isMap hStored data
      rw [put]
      by_cases full : t₁.threshold < t₁.count
      · obtain ⟨contents₁, laid₁, means₁⟩ := isMap₁
        obtain ⟨t', contents', run, _, _, _, laid', holds⟩ := resize_laid laid₁
        rw [if_pos full]
        exact ⟨t', run, isMap_of_holds laid₁ means₁ laid' holds⟩
      · rw [if_neg full]
        exact ⟨t₁, rfl, isMap₁⟩

end PostDns
