/-
Filling the hash table (hash_table.c, `hash_table_put` and `resize`).

Insertions alone lose no entry, store none twice and put each into the bucket of its
name, also while the table grows.  What goes wrong is the count: a rehash counts the
moved entries a second time, and removal does not count at all.
-/

import Mathlib.Data.List.Induction
import PostDns.Foundation.Run
import PostDns.Removal

namespace PostDns

open Foundation

variable {α : Type}

/-! ### The nodes of a bucket -/

inductive InBucket (t : HashTable α) (index : Nat) : NodeRef → Prop where
  | head (inside : index < t.capacity) : InBucket t index (.head index)
  | next {ref : NodeRef} {address : Nat} {node : HashNode α}
      (before : InBucket t index ref) (read : t.read ref = .ok node)
      (next : node.next = some address) : InBucket t index (.chain address)

def StoredAt (t : HashTable α) (index : Nat) (ref : NodeRef) (name : StringT) : Prop :=
  InBucket t index ref ∧ ∃ node, t.read ref = .ok node ∧ node.name = some name

theorem inBucket_of_chain {t : HashTable α} {index : Nat} {start : Option NodeRef}
    {entries : List (Entry α)} (chain : ChainFrom t.read start entries)
    (first : ∀ ref, start = some ref → InBucket t index ref) {entry : Entry α}
    (member : entry ∈ entries) : InBucket t index entry.ref := by
  induction entries generalizing start with
  | nil => cases member
  | cons head rest ih =>
      obtain ⟨here, next, node, later⟩ := chain
      have atHead := first head.ref here
      rcases List.mem_cons.mp member with same | inRest
      · rw [same]
        exact atHead
      · refine ih later ?_ inRest
        intro ref isNext
        obtain ⟨address, isAddress, isRef⟩ := Option.map_eq_some_iff.mp isNext
        rw [← isRef]
        exact InBucket.next atHead node isAddress

section Nodes

variable {t : HashTable α} {contents : Nat → List (Entry α)}
  (laid : Laid t.read t.capacity contents)

include laid

private theorem used_of_place {index : Nat} (inside : index < t.capacity) {ref : NodeRef}
    {node : HashNode α} (read : t.read ref = .ok node) (used : node ≠ HashNode.empty)
    (place : ref = .head index ∨ ∃ entry ∈ contents index, entry.ref = ref) :
    ∃ entry ∈ contents index, entry.ref = ref := by
  rcases place with atHead | isEntry
  · subst atHead
    exact (laid.bucket index inside).head_used read used
  · exact isEntry

theorem entry_of_inBucket {index : Nat} {ref : NodeRef} (inBucket : InBucket t index ref) :
    index < t.capacity ∧
      (ref = .head index ∨ ∃ entry ∈ contents index, entry.ref = ref) := by
  induction inBucket with
  | head inside => exact ⟨inside, Or.inl rfl⟩
  | @next ref address node before read next ih =>
      obtain ⟨inside, place⟩ := ih
      refine ⟨inside, Or.inr ?_⟩
      have bucket := laid.bucket index inside
      obtain ⟨entry, member, isRef⟩ := used_of_place laid inside read (by
        intro empty
        rw [empty] at next
        cases next) place
      rw [← isRef] at read
      exact (bucket.chain (List.ne_nil_of_mem member)).next_mem member read next

theorem storedAt_iff {index : Nat} {ref : NodeRef} {name : StringT} :
    StoredAt t index ref name ↔
      index < t.capacity ∧ ∃ entry ∈ contents index, entry.ref = ref ∧ entry.name = name := by
  constructor
  · rintro ⟨inBucket, node, read, isName⟩
    obtain ⟨inside, place⟩ := entry_of_inBucket laid inBucket
    have bucket := laid.bucket index inside
    obtain ⟨entry, member, isRef⟩ := used_of_place laid inside read (by
      intro empty
      rw [empty] at isName
      cases isName) place
    obtain ⟨next, node'⟩ := bucket.readable member
    rw [isRef, read] at node'
    cases node'
    exact ⟨inside, entry, member, isRef, Option.some.inj isName⟩
  · rintro ⟨inside, entry, member, isRef, isName⟩
    have bucket := laid.bucket index inside
    obtain ⟨next, node⟩ := bucket.readable member
    rw [← isRef]
    refine ⟨?_, entry.node next, node, congrArg some isName⟩
    refine inBucket_of_chain (bucket.chain (List.ne_nil_of_mem member)) ?_ member
    intro ref isHead
    rw [← Option.some.inj isHead]
    exact InBucket.head inside

end Nodes

/-! ### Insertions -/

/-- What the last insertion under a name put there. -/
def lastPut (entries : List (StringT × α)) (name : StringT) : Option α :=
  (entries.reverse.find? (fun entry => stringEqual entry.1 name)).map Prod.snd

theorem lastPut_snoc (entries : List (StringT × α)) (entry : StringT × α) :
    lastPut (entries ++ [entry]) =
      Function.update (lastPut entries) entry.1 (some entry.2) := by
  funext name
  unfold lastPut
  rw [List.reverse_append, List.reverse_singleton, List.singleton_append, List.find?_cons]
  by_cases same : name = entry.1
  · rw [same, (stringEqual_iff entry.1 entry.1).mpr rfl, Function.update_self]
    rfl
  · have different : stringEqual entry.1 name = false := by
      rw [Bool.eq_false_iff]
      intro equal
      exact same ((stringEqual_iff entry.1 name).mp equal).symm
    rw [different, Function.update_of_ne same]

theorem lastPut_isSome_iff {entries : List (StringT × α)} {name : StringT} :
    (lastPut entries name).isSome ↔ ∃ entry ∈ entries, entry.1 = name := by
  unfold lastPut
  simp only [Option.isSome_map, List.find?_isSome, List.mem_reverse, stringEqual_iff]

theorem lastPut_append (first second : List (StringT × α)) (name : StringT) :
    lastPut (first ++ second) name = (lastPut second name).or (lastPut first name) := by
  unfold lastPut
  rw [List.reverse_append, List.find?_append, Option.map_or]

theorem lastPut_of_mem {entries : List (StringT × α)} {entry : StringT × α}
    (distinct : (entries.map Prod.fst).Nodup) (member : entry ∈ entries) :
    lastPut entries entry.1 = some entry.2 := by
  induction entries using List.reverseRecOn with
  | nil => cases member
  | append_singleton entries last ih =>
      rw [List.map_append, List.map_singleton, List.nodup_append] at distinct
      rw [lastPut_snoc]
      cases List.mem_append.mp member with
      | inl earlier =>
          have other : entry.1 ≠ last.1 :=
            distinct.2.2 entry.1 (List.mem_map_of_mem earlier) last.1 List.mem_cons_self
          rw [Function.update_of_ne other]
          exact ih distinct.1 earlier
      | inr isLast =>
          rw [List.mem_singleton.mp isLast, Function.update_self]

theorem insertAll_snoc (entries : List (StringT × α)) (entry : StringT × α)
    (t : HashTable α) :
    insertAll (entries ++ [entry]) t =
      insertAll entries t >>= fun t => hashTablePut t (some entry.1) (some entry.2) := by
  induction entries generalizing t with
  | nil =>
      change (hashTablePut t (some entry.1) (some entry.2) >>= pure) = _
      rw [bind_pure]
      rfl
  | cons first rest ih =>
      change (hashTablePut t (some first.1) (some first.2) >>= insertAll (rest ++ [entry])) =
        (hashTablePut t (some first.1) (some first.2) >>= insertAll rest) >>= _
      rw [bind_assoc]
      exact congrArg _ (funext ih)

theorem insertAll_isMap (choices : List Nat) (entries : List (StringT × α)) :
    ∃ t, insertAll entries (hashTableNew choices) = .ok t ∧ IsMap t (lastPut entries) := by
  induction entries using List.reverseRecOn with
  | nil => exact ⟨hashTableNew choices, rfl, hashTableNew_isMap choices⟩
  | append_singleton entries entry ih =>
      obtain ⟨t, inserted, isMap⟩ := ih
      obtain ⟨t', put, isMap'⟩ := hashTablePut_isMap isMap entry.1 entry.2
      refine ⟨t', ?_, ?_⟩
      · rw [insertAll_snoc, inserted]
        exact put
      · rw [lastPut_snoc]
        exact isMap'

/-- Whatever is inserted, and however often the table grows on the way: a lookup gives
what the last insertion under its name put there, each inserted name is in one node,
that node hangs in the bucket of the name, no other names are stored, and nothing hangs
on an empty head. -/
theorem insertAll_exact (choices : List Nat) (entries : List (StringT × α)) :
    ∃ t, insertAll entries (hashTableNew choices) = .ok t ∧
      (∀ name, hashTableGet t name = .ok (lastPut entries name)) ∧
      (∀ entry ∈ entries, ∃! place : Nat × NodeRef, StoredAt t place.1 place.2 entry.1) ∧
      (∀ index ref name, StoredAt t index ref name →
        index = bucketIndex name t.capacity ∧ ∃ entry ∈ entries, entry.1 = name) ∧
      ∀ index < t.capacity, ∃ head, t.read (.head index) = .ok head ∧
        (head.name = none → head.next = none) := by
  obtain ⟨t, inserted, isMap⟩ := insertAll_isMap choices entries
  refine ⟨t, inserted, hashTableGet_isMap isMap, ?_⟩
  obtain ⟨contents, laid, means⟩ := isMap
  have placed {index : Nat} {ref : NodeRef} {name : StringT}
      (stored : StoredAt t index ref name) : index = bucketIndex name t.capacity := by
    obtain ⟨inside, entry, member, _, isName⟩ := (storedAt_iff laid).mp stored
    rw [← isName]
    exact (laid.placed index inside entry member).symm
  have holds {name : StringT} : (lastPut entries name).isSome ↔
      ∃ index ref, StoredAt t index ref name := by
    simp only [Option.isSome_iff_exists, means, meaning_eq_some_iff laid]
    constructor
    · rintro ⟨data, index, inside, entry, member, isName, _⟩
      exact ⟨index, entry.ref, (storedAt_iff laid).mpr ⟨inside, entry, member, rfl, isName⟩⟩
    · rintro ⟨index, ref, stored⟩
      obtain ⟨inside, entry, member, _, isName⟩ := (storedAt_iff laid).mp stored
      exact ⟨entry.data, index, inside, entry, member, isName, rfl⟩
  refine ⟨?_, ?_, ?_⟩
  · intro entry member
    obtain ⟨index, ref, stored⟩ := holds.mp (lastPut_isSome_iff.mpr ⟨entry, member, rfl⟩)
    refine ⟨(index, ref), stored, ?_⟩
    rintro ⟨other, otherRef⟩ otherStored
    have sameIndex : other = index := (placed otherStored).trans (placed stored).symm
    subst sameIndex
    obtain ⟨inside, first, inFirst, isRef, isName⟩ := (storedAt_iff laid).mp stored
    obtain ⟨_, second, inSecond, isOtherRef, isOtherName⟩ := (storedAt_iff laid).mp otherStored
    have same : second = first :=
      List.inj_on_of_nodup_map (laid.names other inside) inSecond inFirst
        (isOtherName.trans isName.symm)
    have sameRef : otherRef = ref := by
      rw [← isRef, ← same]
      exact isOtherRef.symm
    rw [sameRef]
  · intro index ref name stored
    exact ⟨placed stored, lastPut_isSome_iff.mp (holds.mpr ⟨index, ref, stored⟩)⟩
  · intro index inside
    have bucket := laid.bucket index inside
    obtain ⟨head, read⟩ := bucket.head_readable
    refine ⟨head, read, ?_⟩
    intro unnamed
    by_contra linked
    obtain ⟨entry, member, isHead⟩ := bucket.head_used read (fun empty => by
      rw [empty] at linked
      exact linked rfl)
    obtain ⟨next, node⟩ := bucket.readable member
    rw [isHead, read] at node
    cases node
    cases unnamed

/-! ### The number of stored names -/

def chainNames (t : HashTable α) : Nat → Option NodeRef → List StringT
  | 0, _ => []
  | _ + 1, none => []
  | fuel + 1, some ref =>
      match t.read ref with
      | .error _ => []
      | .ok node =>
          match node.name with
          | none => []
          | some name => name :: chainNames t fuel (node.next.map .chain)

def storedNames (t : HashTable α) : List StringT :=
  (List.range t.capacity).flatMap fun index =>
    chainNames t t.chainBound (some (.head index))

theorem chainNames_chain {t : HashTable α} {entries : List (Entry α)}
    {start : Option NodeRef} (chain : ChainFrom t.read start entries) {fuel : Nat}
    (enough : entries.length < fuel) :
    chainNames t fuel start = entries.map Entry.name := by
  induction entries generalizing start fuel with
  | nil =>
      have ended : start = none := chain
      subst ended
      cases fuel <;> rfl
  | cons entry rest ih =>
      obtain ⟨here, next, node, later⟩ := chain
      subst here
      cases fuel with
      | zero => cases enough
      | succ fuel =>
          have onwards := ih later (Nat.lt_of_succ_lt_succ enough)
          rw [chainNames, node, List.map_cons, ← onwards]
          rfl

theorem chainNames_bucket {t : HashTable α} {index : Nat} {entries : List (Entry α)}
    (bucket : BucketAt t.read index entries) {fuel : Nat} (enough : entries.length < fuel) :
    chainNames t fuel (some (.head index)) = entries.map Entry.name := by
  cases entries with
  | nil =>
      have empty : t.read (.head index) = .ok HashNode.empty := bucket
      cases fuel with
      | zero => cases enough
      | succ fuel =>
          rw [chainNames, empty]
          rfl
  | cons first rest => exact chainNames_chain bucket enough

theorem storedNames_laid {t : HashTable α} {contents : Nat → List (Entry α)}
    (laid : Laid t.read t.capacity contents) :
    storedNames t =
      (List.range t.capacity).flatMap fun index => (contents index).map Entry.name := by
  unfold storedNames
  apply List.flatMap_congr
  intro index member
  have inside := List.mem_range.mp member
  have bucket := laid.bucket index inside
  exact chainNames_bucket bucket (bucket.length_lt (laid.refs index inside))

theorem entryCount_eq_length (contents : Nat → List (Entry α)) (index count : Nat) :
    entryCount contents index count =
      ((List.range' index count).flatMap fun index =>
        (contents index).map Entry.name).length := by
  induction count generalizing index with
  | zero => rfl
  | succ count ih =>
      rw [entryCount, ih, List.range'_succ, List.flatMap_cons, List.length_append,
        List.length_map]

/-- Each name of the map is stored once. -/
theorem storedNames_isMap {t : HashTable α} {map : StringT → Option α}
    (isMap : IsMap t map) :
    (storedNames t).Nodup ∧ ∀ name, name ∈ storedNames t ↔ (map name).isSome := by
  obtain ⟨contents, laid, means⟩ := isMap
  rw [storedNames_laid laid]
  constructor
  · rw [List.nodup_flatMap]
    constructor
    · intro index member
      exact laid.names index (List.mem_range.mp member)
    · refine List.Pairwise.imp_of_mem ?_ List.nodup_range
      intro index other inside below different name inIndex inOther
      obtain ⟨entry, member, isName⟩ := List.mem_map.mp inIndex
      obtain ⟨entry', member', isName'⟩ := List.mem_map.mp inOther
      apply different
      rw [← laid.placed index (List.mem_range.mp inside) entry member, isName, ← isName']
      exact laid.placed other (List.mem_range.mp below) entry' member'
  · intro name
    simp only [List.mem_flatMap, List.mem_range, List.mem_map, Option.isSome_iff_exists,
      means, meaning_eq_some_iff laid]
    constructor
    · rintro ⟨index, inside, entry, member, isName⟩
      exact ⟨entry.data, index, inside, entry, member, isName, rfl⟩
    · rintro ⟨data, index, inside, entry, member, isName, _⟩
      exact ⟨index, inside, entry, member, isName⟩

theorem storedNames_length_insert {t t' : HashTable α} {map map' : StringT → Option α}
    (isMap : IsMap t map) (isMap' : IsMap t' map') {name : StringT}
    (missing : map name = none) (present : (map' name).isSome)
    (others : ∀ other, other ≠ name → map' other = map other) :
    (storedNames t').length = (storedNames t).length + 1 := by
  obtain ⟨nodup, member⟩ := storedNames_isMap isMap
  obtain ⟨nodup', member'⟩ := storedNames_isMap isMap'
  have new : name ∉ storedNames t := by
    rw [member, missing]
    exact Bool.false_ne_true
  have same : (storedNames t').Perm (name :: storedNames t) := by
    rw [List.perm_ext_iff_of_nodup nodup' (List.nodup_cons.mpr ⟨new, nodup⟩)]
    intro other
    rw [member', List.mem_cons, member]
    by_cases isName : other = name
    · rw [isName]
      simp [present]
    · simp [isName, others other isName]
  rw [same.length_eq, List.length_cons]

theorem storedNames_length_le {t t' : HashTable α} {map map' : StringT → Option α}
    (isMap : IsMap t map) (isMap' : IsMap t' map')
    (fewer : ∀ name, (map' name).isSome → (map name).isSome) :
    (storedNames t').length ≤ (storedNames t).length := by
  obtain ⟨_, member⟩ := storedNames_isMap isMap
  obtain ⟨nodup', member'⟩ := storedNames_isMap isMap'
  apply List.Subperm.length_le
  apply nodup'.subperm
  intro name stored
  exact (member name).mpr (fewer name ((member' name).mp stored))

theorem storedNames_length_congr {t t' : HashTable α} {map map' : StringT → Option α}
    (isMap : IsMap t map) (isMap' : IsMap t' map')
    (same : ∀ name, (map' name).isSome = (map name).isSome) :
    (storedNames t').length = (storedNames t).length := by
  apply Nat.le_antisymm
  · apply storedNames_length_le isMap isMap'
    intro name present
    rw [← same]
    exact present
  · apply storedNames_length_le isMap' isMap
    intro name present
    rw [same]
    exact present

/-- The rehash counts every moved entry again. -/
theorem resize_isMap {t : HashTable α} {map : StringT → Option α} (isMap : IsMap t map) :
    ∃ t', resize t = .ok t' ∧ IsMap t' map ∧ t'.capacity = (t.capacity <<< 1) + 1 ∧
      t'.count = t.count + (storedNames t).length := by
  obtain ⟨contents, laid, means⟩ := isMap
  obtain ⟨t', contents', run, count, capacity, _, laid', holds⟩ := resize_laid laid
  refine ⟨t', run, isMap_of_holds laid means laid' holds, capacity, ?_⟩
  rw [count, entryCount_eq_length, storedNames_laid laid, List.range_eq_range']

/-! ### Insertions and removals -/

inductive Operation (α : Type) where
  | put (name : Option StringT) (data : Option α)
  | remove (name : StringT)

def Operation.apply (t : HashTable α) : Operation α → Except Fault (HashTable α)
  | .put name data => hashTablePut t name data
  | .remove name => hashTableRemove t name

/-- The operation neither adds a name to a table whose count has reached the threshold
nor removes a stored name. -/
def Operation.Counted (t : HashTable α) : Operation α → Prop
  | .put (some name) (some _) => hashTableGet t name ≠ .ok none ∨ t.count < t.threshold
  | .put _ _ => True
  | .remove name => hashTableGet t name = .ok none

def Operation.Safe (t : HashTable α) : Operation α → Prop
  | .put _ _ => True
  | .remove name => ¬ HeadOfLongChain t name

def CountedStep (t : HashTable α) (operation : Operation α) (t' : HashTable α) : Prop :=
  operation.Counted t ∧ operation.apply t = .ok t'

def SafeStep (t : HashTable α) (operation : Operation α) (t' : HashTable α) : Prop :=
  operation.Safe t ∧ operation.apply t = .ok t'

/-- The count is the number of stored names, and another insertion makes the array
larger only when more names than the threshold are stored then. -/
structure CountExact (t : HashTable α) : Prop where
  count : t.count = (storedNames t).length
  grows : ∀ name data t', hashTablePut t name data = .ok t' → t'.capacity ≠ t.capacity →
    t.threshold < (storedNames t').length

structure Drift (t : HashTable α) (operation : Operation α) (t' : HashTable α) : Prop where
  counted : operation.Counted t →
    t'.count + (storedNames t).length = t.count + (storedNames t').length ∧
      t'.capacity = t.capacity ∧ t'.threshold = t.threshold
  ahead : ¬ operation.Counted t →
    t.count + (storedNames t').length < t'.count + (storedNames t).length

/-- No operation lets the count fall behind. -/
theorem Drift.behind {t t' : HashTable α} {operation : Operation α}
    (drift : Drift t operation t') (counted : (storedNames t).length ≤ t.count) :
    (storedNames t').length ≤ t'.count := by
  by_cases follows : operation.Counted t
  · have kept := (drift.counted follows).1
    omega
  · have ahead := drift.ahead follows
    omega

theorem put_drift {t : HashTable α} {map : StringT → Option α} (isMap : IsMap t map)
    (name : StringT) (data : α) :
    ∃ t', hashTablePut t (some name) (some data) = .ok t' ∧
      IsMap t' (Function.update map name (some data)) ∧
      Drift t (.put (some name) (some data)) t' ∧
      (t'.capacity ≠ t.capacity → (storedNames t').length = (storedNames t).length + 1 ∧
        t.threshold < t.count + 1) := by
  have get : hashTableGet t name = .ok (map name) := hashTableGet_isMap isMap name
  have others (other : StringT) (different : other ≠ name) :
      Function.update map name (some data) other = map other :=
    Function.update_of_ne different _ _
  cases hStored : map name with
  | some old =>
      obtain ⟨t', put, isMap', count, capacity, threshold⟩ :=
        hashTablePut_stored isMap hStored data
      have length := storedNames_length_congr isMap isMap' fun other => by
        by_cases same : other = name
        · rw [same, Function.update_self, hStored]
          rfl
        · rw [others other same]
      refine ⟨t', put, isMap', ⟨fun _ => ⟨by omega, capacity, threshold⟩, ?_⟩,
        fun grown => absurd capacity grown⟩
      intro uncounted
      refine absurd (Or.inl ?_) uncounted
      rw [get, hStored]
      exact nofun
  | none =>
      obtain ⟨t₁, isMap₁, count, capacity, threshold, put⟩ :=
        hashTablePut_new isMap hStored data
      have length := storedNames_length_insert isMap isMap₁ hStored
        (by rw [Function.update_self]; rfl) others
      have isCounted : Operation.Counted t (.put (some name) (some data)) ↔
          t.count < t.threshold := by
        change hashTableGet t name ≠ .ok none ∨ _ ↔ _
        rw [get, hStored]
        exact or_iff_right (fun different => different rfl)
      by_cases full : t₁.threshold < t₁.count
      · obtain ⟨t', run, isMap', capacity', count'⟩ := resize_isMap isMap₁
        have length' := storedNames_length_congr isMap₁ isMap' fun _ => rfl
        rw [put, if_pos full]
        refine ⟨t', run, isMap', ⟨fun counted => ?_, fun _ => by omega⟩, fun _ => ?_⟩
        · have below := isCounted.mp counted
          omega
        · exact ⟨by omega, by omega⟩
      · rw [put, if_neg full]
        refine ⟨t₁, rfl, isMap₁, ⟨fun _ => ⟨by omega, capacity, threshold⟩, ?_⟩,
          fun grown => absurd capacity grown⟩
        intro uncounted
        rw [isCounted] at uncounted
        omega

theorem remove_drift {t t' : HashTable α} {map : StringT → Option α} (isMap : IsMap t map)
    {name : StringT} (safe : ¬ HeadOfLongChain t name)
    (done : hashTableRemove t name = .ok t') :
    IsMap t' (Function.update map name none) ∧ Drift t (.remove name) t' := by
  have isMap' := hashTableRemove_of_ok isMap safe done
  have get : hashTableGet t name = .ok (map name) := hashTableGet_isMap isMap name
  have isCounted : Operation.Counted t (.remove name : Operation α) ↔ map name = none := by
    change hashTableGet t name = .ok none ↔ _
    rw [get]
    exact ⟨Except.ok.inj, congrArg _⟩
  refine ⟨isMap', ?_⟩
  obtain ⟨contents, laid, means⟩ := isMap
  cases hStored : map name with
  | none =>
      have missing := lookupIn_eq_none_iff.mp ((means name).symm.trans hStored)
      have same := hashTableRemove_missing_eq laid missing done
      subst same
      exact ⟨fun _ => ⟨rfl, rfl, rfl⟩, fun uncounted => absurd (isCounted.mpr hStored) uncounted⟩
  | some data =>
      rcases removal_cases laid ((means name).symm.trans hStored) with
        long | ⟨removedTable, entries, run, removed⟩
      · exact absurd long safe
      · rw [run] at done
        cases done
        have present : (map name).isSome := by rw [hStored]; rfl
        have length := storedNames_length_insert isMap' ⟨contents, laid, means⟩
          (Function.update_self _ _ _) present
          fun other different => (Function.update_of_ne different _ _).symm
        have count := removed.count
        refine ⟨fun counted => ?_, fun _ => by omega⟩
        rw [isCounted, hStored] at counted
        cases counted

theorem step_drift {t t' : HashTable α} {map : StringT → Option α} (isMap : IsMap t map)
    {operation : Operation α} (step : SafeStep t operation t') :
    ∃ map', IsMap t' map' ∧ Drift t operation t' := by
  obtain ⟨safe, done⟩ := step
  cases operation with
  | remove name => exact ⟨_, remove_drift isMap safe done⟩
  | put name data =>
      have unchanged (nothing : t' = t) (counted : (Operation.put name data).Counted t) :
          ∃ map', IsMap t' map' ∧ Drift t (.put name data) t' := by
        subst nothing
        exact ⟨map, isMap, fun _ => ⟨rfl, rfl, rfl⟩, fun uncounted => absurd counted uncounted⟩
      cases name with
      | none => exact unchanged (Except.ok.inj done).symm trivial
      | some name =>
          cases data with
          | none => exact unchanged (Except.ok.inj done).symm trivial
          | some data =>
              obtain ⟨put, run, isMap', drift, _⟩ := put_drift isMap name data
              have same : put = t' := Except.ok.inj (run.symm.trans done)
              subst same
              exact ⟨_, isMap', drift⟩

theorem CountedStep.safe {t t' : HashTable α} {map : StringT → Option α}
    (isMap : IsMap t map) {operation : Operation α}
    (step : CountedStep t operation t') : SafeStep t operation t' := by
  obtain ⟨counted, done⟩ := step
  refine ⟨?_, done⟩
  cases operation with
  | put name data => exact trivial
  | remove name =>
      intro long
      obtain ⟨contents, laid, means⟩ := isMap
      obtain ⟨gone, second, third, rest, isName, bucketIs⟩ := (headOfLongChain_iff laid).mp long
      have missing : hashTableGet t name = .ok none := counted
      rw [hashTableGet_laid laid] at missing
      refine lookupIn_eq_none_iff.mp (Except.ok.inj missing) gone ?_ isName
      rw [bucketIs]
      exact List.mem_cons_self

theorem countExact_of_eq {t : HashTable α} {map : StringT → Option α} (isMap : IsMap t map)
    (count : t.count = (storedNames t).length) : CountExact t := by
  refine ⟨count, ?_⟩
  intro name data t' done grown
  cases name with
  | none => exact absurd (congrArg HashTable.capacity (Except.ok.inj done)).symm grown
  | some name =>
      cases data with
      | none => exact absurd (congrArg HashTable.capacity (Except.ok.inj done)).symm grown
      | some data =>
          obtain ⟨put, run, _, _, growing⟩ := put_drift isMap name data
          have same : put = t' := Except.ok.inj (run.symm.trans done)
          subst same
          have facts := growing grown
          omega

/-! ### Runs -/

def OperationStep (t : HashTable α) (operation : Operation α) (t' : HashTable α) : Prop :=
  operation.apply t = .ok t'

theorem run_of_foldlM {operations : List (Operation α)} {t t' : HashTable α}
    (done : operations.foldlM Operation.apply t = .ok t') :
    Run OperationStep t operations t' := by
  induction operations using List.reverseRecOn generalizing t' with
  | nil =>
      cases done
      exact Run.nil
  | append_singleton operations operation ih =>
      rw [List.foldlM_append] at done
      cases hMiddle : operations.foldlM Operation.apply t with
      | error fault =>
          rw [hMiddle] at done
          cases done
      | ok middle =>
          rw [hMiddle] at done
          change [operation].foldlM Operation.apply middle = .ok t' at done
          rw [List.foldlM_cons] at done
          cases hLast : operation.apply middle with
          | error fault =>
              rw [hLast] at done
              cases done
          | ok last =>
              rw [hLast] at done
              cases done
              exact Run.snoc (ih hMiddle) hLast

/-- While all operations are counted, the table stays as small as it was. -/
theorem countedRun_exact {choices : List Nat} {operations : List (Operation α)}
    {t : HashTable α}
    (run : Run CountedStep (hashTableNew choices) operations t) :
    ∃ map, IsMap t map ∧ t.count = (storedNames t).length ∧ t.capacity = 8 := by
  refine run.invariant (fun _ t => ∃ map, IsMap t map ∧ t.count = (storedNames t).length ∧
    t.capacity = 8) ⟨_, hashTableNew_isMap choices, rfl, rfl⟩ ?_
  rintro _ operation middle final ⟨map, isMap, count, capacity⟩ step
  obtain ⟨map', isMap', drift⟩ := step_drift isMap (step.safe isMap)
  obtain ⟨kept, sameCapacity, _⟩ := drift.counted step.1
  exact ⟨map', isMap', by omega, by omega⟩

/-- The count never falls behind, and it is ahead for good after an operation that it
does not follow. -/
theorem safeRun_counted {choices : List Nat} {operations : List (Operation α)}
    {t : HashTable α}
    (run : Run SafeStep (hashTableNew choices) operations t) :
    ∃ map, IsMap t map ∧ (storedNames t).length ≤ t.count ∧
      (t.count = (storedNames t).length → Run CountedStep (hashTableNew choices) operations t) := by
  refine run.invariant (fun operations t => ∃ map, IsMap t map ∧
    (storedNames t).length ≤ t.count ∧
      (t.count = (storedNames t).length → Run CountedStep (hashTableNew choices) operations t))
    ⟨_, hashTableNew_isMap choices, Nat.zero_le _, fun _ => Run.nil⟩ ?_
  rintro operations operation middle final ⟨map, isMap, behind, counted⟩ step
  obtain ⟨map', isMap', drift⟩ := step_drift isMap step
  refine ⟨map', isMap', ?_⟩
  by_cases follows : operation.Counted middle
  · obtain ⟨kept, _, _⟩ := drift.counted follows
    refine ⟨by omega, fun exact => ?_⟩
    exact Run.snoc (counted (by omega)) ⟨follows, step.2⟩
  · have ahead := drift.ahead follows
    exact ⟨by omega, fun exact => by omega⟩

/-- The count is exact, and the array stays at its first size, as long as no stored name
is removed and no seventh name is added; any other operation puts it off for good, as
far as the removals are right themselves. -/
theorem countExact_iff_counted (choices : List Nat) (operations : List (Operation α))
    (t : HashTable α) :
    (Run CountedStep (hashTableNew choices) operations t → CountExact t ∧ t.capacity = 8) ∧
      (Run SafeStep (hashTableNew choices) operations t → CountExact t →
        Run CountedStep (hashTableNew choices) operations t) := by
  constructor
  · intro run
    obtain ⟨map, isMap, count, capacity⟩ := countedRun_exact run
    exact ⟨countExact_of_eq isMap count, capacity⟩
  · intro run exact
    obtain ⟨_, _, _, counted⟩ := safeRun_counted run
    exact counted exact.count

theorem countExact_oneName :
    ∃ t : HashTable Nat, Run CountedStep (hashTableNew []) [.put (some [97]) (some 1)] t ∧
      CountExact t ∧ t.capacity = 8 := by
  obtain ⟨t, run⟩ : ∃ t, Run CountedStep (hashTableNew [])
      [Operation.put (some [97]) (some 1)] t :=
    ⟨_, Run.snoc Run.nil ⟨Or.inr (by decide), rfl⟩⟩
  exact ⟨t, run, (countExact_iff_counted _ _ t).1 run⟩

def drained : HashTable Nat :=
  { table := List.replicate 17 HashNode.empty
    cells := Heap.empty []
    count := 8
    capacity := 17
    threshold := 12 }

theorem not_countExact_drained :
    Run OperationStep (hashTableNew [])
        (List.replicate 7 [.put (some [97]) (some 1), .remove [97]]).flatten drained ∧
      storedNames drained = [] ∧ ¬ CountExact drained := by
  have empty : storedNames drained = [] := by decide
  refine ⟨run_of_foldlM (by decide +kernel), empty, ?_⟩
  intro exact
  have count := exact.count
  rw [empty] at count
  cases count

end PostDns
