/-
Exactly when a sweep of an address cache is right (ipv4_cache.c and ipv6_cache.c, the
`clear` functions over hash_table.c, `hash_table_remove`).

A sweep meets the entries of a bucket from its head on.  If the head is expired and two
nodes or more follow it, its removal releases a node that stays linked: either a later
removal reads that node, or it is still linked at the end.  In all other cases each
removal forgets its name and nothing else.
-/

import PostDns.CacheMaps
import PostDns.Removal

namespace PostDns

open Foundation

variable {α : Type}

/-- No expired entry is at the head of a bucket with two more nodes. -/
def HeadsKept (expired : α → Bool) (t : HashTable α) : Prop :=
  ∀ name data, hashTableGet t name = .ok (some data) → expired data = true →
    ¬ HeadOfLongChain t name

/-- The expired names are gone, the others have the entries they had, and no node that
is linked has been released. -/
structure SweepExact (expired : α → Bool) (before after : HashTable α) : Prop where
  gone : ∀ name data, hashTableGet before name = .ok (some data) → expired data = true →
    hashTableGet after name = .ok none
  kept : ∀ name,
    (∀ data, hashTableGet before name = .ok (some data) → expired data = false) →
      hashTableGet after name = hashTableGet before name
  live : ∀ address, Linked after address → after.cells.Live address

/-! ### Safe removals -/

/-- The bucket after a removal is long only if the one before it was, with its head under
the same name. -/
theorem headOfLongChain_of_removed {t t' : HashTable α} {contents : Nat → List (Entry α)}
    (laid : Laid t.read t.capacity contents) {name other : StringT}
    {entries : List (Entry α)} (removed : Removed t contents name t' entries)
    (lengthened : ∀ head second third rest, entries = head :: second :: third :: rest →
      ∃ head' second' third' rest', head'.name = head.name ∧
        contents (bucketIndex name t.capacity) = head' :: second' :: third' :: rest')
    (long : HeadOfLongChain t' other) : HeadOfLongChain t other := by
  rw [headOfLongChain_iff (removed.laid.of_size removed.capacity), removed.capacity] at long
  obtain ⟨head, second, third, rest, isName, bucketIs⟩ := long
  rw [headOfLongChain_iff laid]
  by_cases same : bucketIndex other t.capacity = bucketIndex name t.capacity
  · rw [same, Function.update_self] at bucketIs
    obtain ⟨head', second', third', rest', sameName, before⟩ :=
      lengthened head second third rest bucketIs
    refine ⟨head', second', third', rest', sameName.trans isName, ?_⟩
    rw [same]
    exact before
  · rw [Function.update_of_ne same] at bucketIs
    exact ⟨head, second, third, rest, isName, bucketIs⟩

/-- One more entry behind the head leaves a long bucket long, under the same head. -/
private theorem longBucket_insert (gone : Entry α) :
    ∀ {before rest : List (Entry α)} {last head second third : Entry α}
      {others : List (Entry α)},
      before ++ last :: rest = head :: second :: third :: others →
        ∃ head' second' third' rest', head'.name = head.name ∧
          before ++ last :: gone :: rest = head' :: second' :: third' :: rest'
  | [], _, _, _, _, _, _, rfl => ⟨_, _, _, _, rfl, rfl⟩
  | [_], _, _, _, _, _, _, rfl => ⟨_, _, _, _, rfl, rfl⟩
  | [_, _], _, _, _, _, _, _, rfl => ⟨_, _, _, _, rfl, rfl⟩
  | _ :: _ :: _ :: _, _, _, _, _, _, _, rfl => ⟨_, _, _, _, rfl, rfl⟩

/-- A removal that is right makes no name the head of a long chain. -/
theorem headOfLongChain_of_remove {t t' : HashTable α} {map : StringT → Option α}
    (isMap : IsMap t map) {name other : StringT} (safe : ¬ HeadOfLongChain t name)
    (done : hashTableRemove t name = .ok t') (long : HeadOfLongChain t' other) :
    HeadOfLongChain t other := by
  obtain ⟨contents, laid, means⟩ := isMap
  have inside := bucketIndex_lt laid.positive name
  cases hStored : meaning contents t.capacity name with
  | none =>
      rw [hashTableRemove_missing_eq laid (lookupIn_eq_none_iff.mp hStored) done] at long
      exact long
  | some data =>
      obtain ⟨gone, member, isName, _⟩ :=
        (lookupIn_eq_some_iff (laid.names _ inside)).mp hStored
      obtain ⟨front, rest, bucketIs⟩ := List.append_of_mem member
      have shortened {middle : HashTable α} {entries : List (Entry α)}
          (run : hashTableRemove t name = .ok middle)
          (removed : Removed t contents name middle entries) :
          Removed t contents name t' entries := by
        rw [run] at done
        cases done
        exact removed
      rcases List.eq_nil_or_concat front with atHead | ⟨before, last, behind⟩
      · subst atHead
        rw [List.nil_append] at bucketIs
        match rest, bucketIs with
        | [], bucketIs =>
            obtain ⟨middle, run, removed⟩ := hashTableRemove_only laid isName bucketIs
            exact headOfLongChain_of_removed laid (shortened run removed) (by simp) long
        | [second], bucketIs =>
            obtain ⟨middle, run, removed⟩ := hashTableRemove_first laid isName bucketIs
            exact headOfLongChain_of_removed laid (shortened run removed) (by simp) long
        | second :: third :: rest, bucketIs =>
            exact absurd ((headOfLongChain_iff laid).mpr
              ⟨gone, second, third, rest, isName, bucketIs⟩) safe
      · rw [behind, List.concat_eq_append, List.append_assoc,
          List.singleton_append] at bucketIs
        obtain ⟨middle, run, removed⟩ := hashTableRemove_later laid isName bucketIs
        refine headOfLongChain_of_removed laid (shortened run removed) ?_ long
        intro head second third others isEntries
        rw [bucketIs]
        exact longBucket_insert gone isEntries

/-- A removal that is right leaves the other buckets alone. -/
theorem headOfLongChain_kept {t t' : HashTable α} {map : StringT → Option α}
    (isMap : IsMap t map) {name other : StringT} (safe : ¬ HeadOfLongChain t name)
    (done : hashTableRemove t name = .ok t')
    (apart : bucketIndex name t.capacity ≠ bucketIndex other t.capacity)
    (long : HeadOfLongChain t other) :
    t'.capacity = t.capacity ∧ HeadOfLongChain t' other := by
  obtain ⟨contents, laid, means⟩ := isMap
  cases hStored : meaning contents t.capacity name with
  | none =>
      rw [hashTableRemove_missing_eq laid (lookupIn_eq_none_iff.mp hStored) done]
      exact ⟨rfl, long⟩
  | some data =>
      rcases removal_cases laid hStored with head | ⟨middle, entries, run, removed⟩
      · exact absurd head safe
      · rw [run] at done
        cases done
        refine ⟨removed.capacity, ?_⟩
        rw [headOfLongChain_iff (removed.laid.of_size removed.capacity), removed.capacity,
          Function.update_of_ne apart.symm]
        exact (headOfLongChain_iff laid).mp long

theorem removalsSafe_of_heads {names : List StringT} {t : HashTable α}
    {map : StringT → Option α} (isMap : IsMap t map)
    (heads : ∀ name ∈ names, ¬ HeadOfLongChain t name) : RemovalsSafe names t := by
  induction names generalizing t map with
  | nil => trivial
  | cons name names ih =>
      have here := heads name List.mem_cons_self
      refine ⟨here, ?_⟩
      intro t' done
      apply ih (hashTableRemove_of_ok isMap here done)
      intro other member long
      exact heads other (List.mem_cons_of_mem name member)
        (headOfLongChain_of_remove isMap here done long)

/-- Safe removals of names that are stored succeed. -/
theorem removeExpired_returns {names : List StringT} {t : HashTable α}
    {map : StringT → Option α} (isMap : IsMap t map) (distinct : names.Nodup)
    (stored : ∀ name ∈ names, (map name).isSome) (safe : RemovalsSafe names t) :
    ∃ t', (removeExpired names t).out = .ok t' := by
  induction names generalizing t map with
  | nil => exact ⟨t, rfl⟩
  | cons name names ih =>
      obtain ⟨notLater, distinct⟩ := List.nodup_cons.mp distinct
      obtain ⟨data, isStored⟩ :=
        Option.isSome_iff_exists.mp (stored name List.mem_cons_self)
      have whole := isMap
      obtain ⟨contents, laid, means⟩ := isMap
      rw [means] at isStored
      rcases removal_cases laid isStored with long | ⟨middle, entries, done, _⟩
      · exact absurd long safe.1
      · obtain ⟨t', rest⟩ := ih (hashTableRemove_of_ok whole safe.1 done) distinct (by
          intro other member
          rw [Function.update_of_ne (by
            intro same
            rw [same] at member
            exact notLater member)]
          exact stored other (List.mem_cons_of_mem name member)) (safe.2 middle done)
        refine ⟨t', ?_⟩
        rw [removeExpired, done, Logged.ofExcept_ok, Logged.pure_bind]
        exact rest

/-! ### Collected names -/

theorem collected_nodup {t : HashTable α} {contents : Nat → List (Entry α)}
    (laid : Laid t.read t.capacity contents) (expired : α → Bool) :
    ((List.range' 0 t.capacity).flatMap fun index =>
      ((contents index).filter fun entry => expired entry.data).map Entry.name).Nodup := by
  rw [List.nodup_flatMap]
  constructor
  · intro index member
    rw [List.mem_range'_1] at member
    exact (laid.names index (by omega)).sublist (List.filter_sublist.map Entry.name)
  · refine List.Pairwise.imp_of_mem ?_ List.nodup_range'
    intro index other inside below different name inIndex inOther
    rw [List.mem_range'_1] at inside below
    obtain ⟨entry, member, isName⟩ := List.mem_map.mp inIndex
    obtain ⟨entry', member', isName'⟩ := List.mem_map.mp inOther
    apply different
    rw [← laid.placed index (by omega) entry (List.mem_filter.mp member).1, isName,
      ← isName']
    exact laid.placed other (by omega) entry' (List.mem_filter.mp member').1

theorem collectExpired_nodup {t : HashTable α} {map : StringT → Option α}
    (isMap : IsMap t map) {size : Nat} {expired : α → Bool} {names : List StringT}
    (collected : (collectExpired size expired t t.capacity 0 []).out = .ok names) :
    names.Nodup := by
  obtain ⟨contents, laid, _⟩ := isMap
  rw [collectExpired_laid laid size expired (Nat.zero_add _).le [],
    Except.ok.injEq] at collected
  rw [← collected]
  exact collected_nodup laid expired

/-- The head of a bucket is collected before the rest of it. -/
theorem collected_split {t : HashTable α} {contents : Nat → List (Entry α)}
    (laid : Laid t.read t.capacity contents) (expired : α → Bool) {index : Nat}
    (inside : index < t.capacity) {head : Entry α} {rest : List (Entry α)}
    (bucketIs : contents index = head :: rest) (isExpired : expired head.data = true) :
    ∃ before after, ((List.range' 0 t.capacity).flatMap fun index =>
        ((contents index).filter fun entry => expired entry.data).map Entry.name) =
          before ++ head.name :: after ∧
      ∀ name ∈ before, bucketIndex name t.capacity ≠ index := by
  have cut : List.range' 0 t.capacity =
      List.range' 0 index ++ index :: List.range' (index + 1) (t.capacity - index - 1) := by
    have size : t.capacity = index + (t.capacity - index - 1 + 1) := by omega
    conv_lhs => rw [size]
    rw [← List.range'_append_1, List.range'_succ, Nat.zero_add]
  rw [cut, List.flatMap_append, List.flatMap_cons, bucketIs, List.filter_cons,
    if_pos isExpired, List.map_cons, List.cons_append]
  refine ⟨_, _, rfl, ?_⟩
  intro name member
  obtain ⟨earlier, early, inEarlier⟩ := List.mem_flatMap.mp member
  rw [List.mem_range'_1] at early
  obtain ⟨entry, inBucket, isName⟩ := List.mem_map.mp inEarlier
  rw [← isName, laid.placed earlier (by omega) entry (List.mem_filter.mp inBucket).1]
  omega

/-! ### A removal that goes wrong -/

structure DanglesAt (t : HashTable α) (index address : Nat) : Prop where
  inside : index < t.capacity
  head : ∃ node, t.read (.head index) = .ok node ∧ node.next = some address
  released : ¬ t.cells.Live address

theorem DanglesAt.linked {t : HashTable α} {index address : Nat}
    (dangles : DanglesAt t index address) : Linked t address := by
  obtain ⟨node, read, next⟩ := dangles.head
  exact Linked.head dangles.inside read next

theorem not_live_write {t : HashTable α} {ref : NodeRef} {old : HashNode α}
    (readable : t.read ref = .ok old) (node : HashNode α) {address : Nat}
    (released : ¬ t.cells.Live address) : ¬ (t.write ref node).cells.Live address := by
  rintro ⟨present, read⟩
  have different : NodeRef.chain address ≠ ref := by
    intro same
    rw [← same] at readable
    exact released ⟨old, read_chain_eq_ok.mp readable⟩
  have kept := read_write_of_ne t different node
  rw [read_chain_eq_ok.mpr read] at kept
  exact released ⟨present, read_chain_eq_ok.mp kept.symm⟩

theorem DanglesAt.write {t : HashTable α} {index address : Nat}
    (dangles : DanglesAt t index address) {ref : NodeRef} {old : HashNode α}
    (readable : t.read ref = .ok old) (elsewhere : ref ≠ .head index)
    (node : HashNode α) : DanglesAt (t.write ref node) index address := by
  obtain ⟨head, read, next⟩ := dangles.head
  constructor
  · rw [write_capacity]
    exact dangles.inside
  · refine ⟨head, ?_, next⟩
    rw [read_write_of_ne t elsewhere.symm]
    exact read
  · exact not_live_write readable node dangles.released

theorem not_live_free (heap : Heap (HashNode α)) (place : Nat) :
    ¬ (heap.free place).Live place := by
  rintro ⟨present, read⟩
  change Heap.read (Heap.free heap place) place = some present at read
  rw [Heap.read_free_same] at read
  cases read

theorem DanglesAt.free {t t' : HashTable α} {index address : Nat}
    (dangles : DanglesAt t index address) {freed : Option Nat}
    (done : t.free freed = .ok t') : DanglesAt t' index address := by
  cases freed with
  | none =>
      cases done
      exact dangles
  | some place =>
      rw [free_of_ok done]
      obtain ⟨head, read, next⟩ := dangles.head
      refine ⟨dangles.inside, ⟨head, read, next⟩, ?_⟩
      intro live
      by_cases same : address = place
      · rw [same] at live
        exact not_live_free t.cells place live
      · obtain ⟨present, stillThere⟩ := live
        apply dangles.released
        refine ⟨present, ?_⟩
        rw [← stillThere]
        exact (Heap.read_free_of_ne t.cells same).symm

theorem DanglesAt.unlinkNode {t t' : HashTable α} {index address : Nat}
    (dangles : DanglesAt t index address) {previous : Option NodeRef} {ref : NodeRef}
    {node : HashNode α} (readable : t.read ref = .ok node) (elsewhere : ref ≠ .head index)
    (before : previous ≠ some (.head index))
    (done : PostDns.unlinkNode t previous ref node = .ok t') :
    DanglesAt t' index address := by
  cases previous with
  | none =>
      cases hNext : node.next with
      | none =>
          simp only [PostDns.unlinkNode, hNext] at done
          cases done
          exact dangles.write readable elsewhere _
      | some second =>
          simp only [PostDns.unlinkNode, hNext] at done
          obtain ⟨next, _, freed⟩ := except_bind_eq_ok.mp done
          exact (dangles.write readable elsewhere _).free freed
  | some last =>
      obtain ⟨lastNode, lastRead, freed⟩ := except_bind_eq_ok.mp done
      have lastElsewhere : last ≠ .head index := fun same => before (congrArg some same)
      have written := dangles.write lastRead lastElsewhere { lastNode with next := node.next }
      cases ref with
      | head place => cases freed
      | chain place => exact written.free freed

/-- The loop does not touch the head of another bucket. -/
theorem DanglesAt.removeLoop {t t' : HashTable α} {index address : Nat}
    (dangles : DanglesAt t index address) {name : StringT} {fuel : Nat}
    {previous start : Option NodeRef} (before : previous ≠ some (.head index))
    (elsewhere : start ≠ some (.head index))
    (done : PostDns.removeLoop t name fuel previous start = .ok t') :
    DanglesAt t' index address := by
  induction fuel generalizing previous start with
  | zero => cases done
  | succ fuel ih =>
      cases start with
      | none => cases done
      | some ref =>
          have away : ref ≠ .head index := fun same => elsewhere (congrArg some same)
          obtain ⟨node, readable, done⟩ := except_bind_eq_ok.mp done
          cases hName : node.name with
          | none =>
              simp only [hName] at done
              cases done
              exact dangles
          | some other =>
              simp only [hName] at done
              by_cases isName : stringEqual other name
              · rw [if_pos isName] at done
                exact dangles.unlinkNode readable away before done
              · rw [if_neg isName] at done
                apply ih ?_ ?_ done
                · intro same
                  exact away (Option.some.inj same)
                · cases node.next with
                  | none => simp
                  | some place => simp

/-- A removal that succeeds leaves the released node linked. -/
theorem DanglesAt.remove {t t' : HashTable α} {index address : Nat}
    (dangles : DanglesAt t index address) {name : StringT}
    (done : hashTableRemove t name = .ok t') : DanglesAt t' index address := by
  by_cases same : bucketIndex name t.capacity = index
  · -- the loop reads the node behind the head
    obtain ⟨head, read, next⟩ := dangles.head
    have unreadable (node : HashNode α) : t.read (.chain address) ≠ .ok node := by
      intro readable
      exact dangles.released ⟨node, read_chain_eq_ok.mp readable⟩
    unfold hashTableRemove HashTable.chainBound at done
    rw [same] at done
    obtain ⟨node, readable, done⟩ := except_bind_eq_ok.mp done
    rw [read] at readable
    cases readable
    cases isName : head.name with
    | none =>
        simp only [isName] at done
        cases done
        exact dangles
    | some stored =>
        simp only [isName, next, Option.map_some] at done
        by_cases isStored : stringEqual stored name
        · rw [if_pos isStored] at done
          simp only [PostDns.unlinkNode, next] at done
          obtain ⟨second, readable, _⟩ := except_bind_eq_ok.mp done
          exact absurd readable (unreadable second)
        · rw [if_neg isStored] at done
          obtain ⟨second, readable, _⟩ := except_bind_eq_ok.mp done
          exact absurd readable (unreadable second)
  · apply dangles.removeLoop ?_ ?_ done
    · simp
    · simpa using same

theorem DanglesAt.removeExpired {names : List StringT} {t t' : HashTable α}
    {index address : Nat} (dangles : DanglesAt t index address)
    (done : (PostDns.removeExpired names t).out = .ok t') : DanglesAt t' index address := by
  induction names generalizing t with
  | nil =>
      cases done
      exact dangles
  | cons name names ih =>
      obtain ⟨middle, removed, rest⟩ := ofExcept_bind_out_eq_ok.mp done
      exact ih (dangles.remove removed) rest

theorem HeadOfLongChain.dangles {t t' : HashTable α} {name : StringT}
    (long : HeadOfLongChain t name) (positive : 0 < t.capacity)
    (done : hashTableRemove t name = .ok t') :
    ∃ address, DanglesAt t' (bucketIndex name t.capacity) address := by
  obtain ⟨head, second, address, read, isName, next, secondRead, more⟩ := long
  obtain ⟨third, isThird⟩ := Option.ne_none_iff_exists'.mp more
  unfold hashTableRemove HashTable.chainBound at done
  obtain ⟨node, readable, done⟩ := except_bind_eq_ok.mp done
  rw [read] at readable
  cases readable
  simp only [isName] at done
  rw [if_pos ((stringEqual_iff name name).mpr rfl)] at done
  simp only [unlinkNode, next] at done
  obtain ⟨node, readable, freed⟩ := except_bind_eq_ok.mp done
  rw [secondRead] at readable
  cases readable
  rw [isThird] at freed
  have isTable := free_of_ok freed
  subst isTable
  refine ⟨third, ?_, ⟨_, read_write_same read second, isThird⟩, not_live_free _ third⟩
  change bucketIndex name t.capacity < (t.write _ _).capacity
  rw [write_capacity]
  exact bucketIndex_lt positive name

/-- The first unsafe removal is met while its bucket is as it was. -/
theorem removeExpired_dangles {before after : List StringT} {name : StringT}
    {t t' : HashTable α} {map : StringT → Option α} (isMap : IsMap t map)
    (long : HeadOfLongChain t name)
    (apart : ∀ other ∈ before, bucketIndex other t.capacity ≠ bucketIndex name t.capacity)
    (done : (removeExpired (before ++ name :: after) t).out = .ok t') :
    ∃ index address, DanglesAt t' index address := by
  induction before generalizing t map with
  | nil =>
      obtain ⟨middle, removed, rest⟩ := ofExcept_bind_out_eq_ok.mp done
      obtain ⟨_, laid, _⟩ := isMap
      obtain ⟨address, dangles⟩ := long.dangles laid.positive removed
      exact ⟨_, address, dangles.removeExpired rest⟩
  | cons other before ih =>
      obtain ⟨middle, removed, rest⟩ := ofExcept_bind_out_eq_ok.mp done
      by_cases otherLong : HeadOfLongChain t other
      · obtain ⟨_, laid, _⟩ := isMap
        obtain ⟨address, dangles⟩ := otherLong.dangles laid.positive removed
        exact ⟨_, address, dangles.removeExpired rest⟩
      · have kept := headOfLongChain_kept isMap otherLong removed
          (apart other List.mem_cons_self) long
        refine ih (hashTableRemove_of_ok isMap otherLong removed) kept.2 ?_ rest
        intro earlier member
        rw [kept.1]
        exact apart earlier (List.mem_cons_of_mem other member)

/-! ### Sweeps -/

theorem headsKept_iff {t : HashTable α} {map : StringT → Option α} (isMap : IsMap t map)
    (expired : α → Bool) :
    HeadsKept expired t ↔
      ∀ name data, map name = some data → expired data = true →
        ¬ HeadOfLongChain t name := by
  unfold HeadsKept
  simp only [hashTableGet_isMap isMap, Except.ok.injEq]

theorem sweepSafe_of_heads {expired : α → Bool} {t : HashTable α}
    {map : StringT → Option α} (isMap : IsMap t map) (heads : HeadsKept expired t) :
    SweepSafe expired t := by
  intro names collected
  obtain ⟨names', collected', member⟩ := collectExpired_isMap isMap t.count expired
  cases collected.symm.trans collected'
  apply removalsSafe_of_heads isMap
  intro name noted
  obtain ⟨data, stored, isExpired⟩ := (member name).mp noted
  exact (headsKept_iff isMap expired).mp heads name data stored isExpired

theorem cacheClear_returns {expired : α → Bool} {t : HashTable α}
    {map : StringT → Option α} (isMap : IsMap t map) (safe : SweepSafe expired t) :
    ∃ t', (cacheClear expired t).out = .ok t' := by
  obtain ⟨names, collected, member⟩ := collectExpired_isMap isMap t.count expired
  have stored : ∀ name ∈ names, (map name).isSome := by
    intro name noted
    obtain ⟨data, isStored, _⟩ := (member name).mp noted
    rw [isStored]
    rfl
  obtain ⟨t', removed⟩ := removeExpired_returns isMap (collectExpired_nodup isMap collected)
    stored (safe names collected)
  refine ⟨t', ?_⟩
  rw [cacheClear, Logged.bind_out_of_ok collected]
  exact removed

theorem cacheClear_exact {expired : α → Bool} {t : HashTable α} {map : StringT → Option α}
    (isMap : IsMap t map) (heads : HeadsKept expired t) :
    ∃ t', (cacheClear expired t).out = .ok t' ∧ SweepExact expired t t' := by
  have safe := sweepSafe_of_heads isMap heads
  obtain ⟨t', done⟩ := cacheClear_returns isMap safe
  have isMap' := cacheClear_isMap isMap safe done
  refine ⟨t', done, ?_, ?_, ?_⟩
  · intro name data found isExpired
    rw [hashTableGet_isMap isMap] at found
    rw [hashTableGet_isMap isMap', Except.ok.inj found]
    simp [isExpired]
  · intro name keeps
    simp only [hashTableGet_isMap isMap, Except.ok.injEq] at keeps
    rw [hashTableGet_isMap isMap', hashTableGet_isMap isMap]
    cases hMap : map name with
    | none => rfl
    | some data => simp [keeps data hMap]
  · intro address linked
    obtain ⟨contents, laid, _⟩ := isMap'
    exact live_of_linked laid linked

theorem not_cacheClear_exact {expired : α → Bool} {t : HashTable α}
    {map : StringT → Option α} (isMap : IsMap t map) {name : StringT} {data : α}
    (stored : map name = some data) (isExpired : expired data = true)
    (long : HeadOfLongChain t name) {t' : HashTable α}
    (done : (cacheClear expired t).out = .ok t') : ¬ SweepExact expired t t' := by
  intro swept
  obtain ⟨names, collected, removed⟩ := Logged.bind_out_eq_ok.mp done
  have whole := isMap
  obtain ⟨contents, laid, means⟩ := isMap
  have inside := bucketIndex_lt laid.positive name
  obtain ⟨head, second, third, rest, isName, bucketIs⟩ := (headOfLongChain_iff laid).mp long
  have isData : head.data = data := by
    rw [means, meaning, bucketIs, lookupIn, List.find?_cons] at stored
    simpa [isName] using stored
  rw [collectExpired_laid laid t.count expired (Nat.zero_add _).le [], List.nil_append,
    Except.ok.injEq] at collected
  obtain ⟨before, after, split, apart⟩ :=
    collected_split laid expired inside bucketIs (by rw [isData]; exact isExpired)
  rw [← collected, split, isName] at removed
  obtain ⟨index, address, dangles⟩ := removeExpired_dangles whole long apart removed
  exact dangles.released (swept.live address dangles.linked)

theorem cacheClear_exact_iff {expired : α → Bool} {t : HashTable α}
    {map : StringT → Option α} (isMap : IsMap t map) :
    (∃ t', (cacheClear expired t).out = .ok t' ∧ SweepExact expired t t') ↔
      HeadsKept expired t := by
  constructor
  · rintro ⟨t', done, swept⟩
    rw [headsKept_iff isMap]
    intro name data stored isExpired long
    exact not_cacheClear_exact isMap stored isExpired long done swept
  · exact cacheClear_exact isMap

/-! ### Runs -/

/-- The tables reached from the fresh one by puts, by assignments to stored entries, and
by sweeps that find no expired entry at the head of a long chain. -/
inductive CacheReached (put : Int → HashTable α → StringT → α → Except Fault (HashTable α))
    (expired : Int → α → Bool) : HashTable α → Prop where
  | new (choices : List Nat) : CacheReached put expired (hashTableNew choices)
  | put {t t' : HashTable α} {now : Int} {name : StringT} {cache : α}
      (reached : CacheReached put expired t) (done : put now t name cache = .ok t') :
      CacheReached put expired t'
  | assign {t t' : HashTable α} {name : StringT} {cache : α}
      (reached : CacheReached put expired t) (done : writeThrough t name cache = .ok t') :
      CacheReached put expired t'
  | sweep {t t' : HashTable α} {now : Int} (reached : CacheReached put expired t)
      (heads : HeadsKept (expired now) t)
      (done : (cacheClear (expired now) t).out = .ok t') : CacheReached put expired t'

theorem CacheReached.isMap {put : Int → HashTable α → StringT → α → Except Fault (HashTable α)}
    {expired : Int → α → Bool} {t : HashTable α} (reached : CacheReached put expired t)
    (puts : ∀ now t name cache map, IsMap t map →
      ∃ t' map', put now t name cache = .ok t' ∧ IsMap t' map') : ∃ map, IsMap t map := by
  induction reached with
  | new choices => exact ⟨_, hashTableNew_isMap choices⟩
  | put _ done ih =>
      obtain ⟨map, isMap⟩ := ih
      obtain ⟨t', map', run, isMap'⟩ := puts _ _ _ _ map isMap
      rw [run] at done
      cases done
      exact ⟨map', isMap'⟩
  | assign _ done ih =>
      obtain ⟨map, isMap⟩ := ih
      exact hashTablePut_of_ok isMap (put_of_writeThrough done)
  | sweep _ heads done ih =>
      obtain ⟨map, isMap⟩ := ih
      exact ⟨_, cacheClear_isMap isMap (sweepSafe_of_heads isMap heads) done⟩

theorem CacheReached.exact_iff
    {put : Int → HashTable α → StringT → α → Except Fault (HashTable α)}
    {expired : Int → α → Bool} {t : HashTable α} (reached : CacheReached put expired t)
    (puts : ∀ now t name cache map, IsMap t map →
      ∃ t' map', put now t name cache = .ok t' ∧ IsMap t' map') (now : Int) :
    (∃ t', (cacheClear (expired now) t).out = .ok t' ∧ SweepExact (expired now) t t') ↔
      HeadsKept (expired now) t := by
  obtain ⟨map, isMap⟩ := reached.isMap puts
  exact cacheClear_exact_iff isMap

/-- After a run whose sweeps found no expired entry at the head of a long chain, a sweep
of either cache is right exactly when it finds none. -/
theorem sweeps_exact_iff (now : Int) :
    (∀ t : HashTable Ipv4Cache, CacheReached ipv4CachePut ipv4Expired t →
      ((∃ t', (ipv4CacheClear now t).out = .ok t' ∧ SweepExact (ipv4Expired now) t t') ↔
        HeadsKept (ipv4Expired now) t)) ∧
    (∀ t : HashTable Ipv6Cache, CacheReached ipv6CachePut ipv6Expired t →
      ((∃ t', (ipv6CacheClear now t).out = .ok t' ∧ SweepExact (ipv6Expired now) t t') ↔
        HeadsKept (ipv6Expired now) t)) := by
  constructor
  · intro t reached
    apply reached.exact_iff
    intro now t name cache map isMap
    obtain ⟨t', run, isMap'⟩ := ipv4CachePut_isMap isMap now name cache
    exact ⟨t', _, run, isMap'⟩
  · intro t reached
    apply reached.exact_iff
    intro now t name cache map isMap
    obtain ⟨t', run, isMap'⟩ := ipv6CachePut_isMap isMap now name cache
    exact ⟨t', _, run, isMap'⟩

private def putAt (time : Int) : Ipv4Cache :=
  { node := [0x01020304]
    ttl := 120
    timestamp := time
    manual := false }

private def twoTimes (first later : Int) : HashTable Ipv4Cache :=
  { table := (List.replicate 8 HashNode.empty).set 4
      { name := some [97], data := some (putAt first), next := some 0 }
    cells :=
      { cells := [some { name := some [100], data := some (putAt later), next := some 1 },
          some { name := some [103], data := some (putAt later), next := none }]
        choices := [] }
    count := 3
    capacity := 8
    threshold := 6 }

private theorem twoTimes_reached {first later : Int}
    (puts : (do
      let t ← ipv4CachePut first (hashTableNew []) [97] (putAt first)
      let t ← ipv4CachePut later t [100] (putAt later)
      ipv4CachePut later t [103] (putAt later)) = .ok (twoTimes first later)) :
    CacheReached ipv4CachePut ipv4Expired (twoTimes first later) := by
  obtain ⟨one, firstPut, rest⟩ := except_bind_eq_ok.mp puts
  obtain ⟨two, secondPut, thirdPut⟩ := except_bind_eq_ok.mp rest
  exact (((CacheReached.new []).put firstPut).put secondPut).put thirdPut

/-- Only entries behind the head are expired. -/
theorem sweeps_exact_laterExpired :
    (∃ t', (ipv4CacheClear 150 (twoTimes 100 0)).out = .ok t' ∧
        SweepExact (ipv4Expired 150) (twoTimes 100 0) t') ↔
      HeadsKept (ipv4Expired 150) (twoTimes 100 0) :=
  (sweeps_exact_iff 150).1 _ (twoTimes_reached (by decide +kernel))

/-- The head alone is expired: the last entry is released and still linked. -/
theorem not_sweepExact_headExpired :
    CacheReached ipv4CachePut ipv4Expired (twoTimes 0 100) ∧
      ipv4CacheGet (twoTimes 0 100) [103] = .ok (some (putAt 100)) ∧
      ((ipv4CacheClear 150 (twoTimes 0 100)).out.bind fun t' => ipv4CacheGet t' [103]) =
        .error .freedNode ∧
      ¬ ∃ t', (ipv4CacheClear 150 (twoTimes 0 100)).out = .ok t' ∧
        SweepExact (ipv4Expired 150) (twoTimes 0 100) t' := by
  have reached : CacheReached ipv4CachePut ipv4Expired (twoTimes 0 100) :=
    twoTimes_reached (by decide +kernel)
  have found : ipv4CacheGet (twoTimes 0 100) [103] = .ok (some (putAt 100)) := by
    decide +kernel
  have lost : ((ipv4CacheClear 150 (twoTimes 0 100)).out.bind
      fun t' => ipv4CacheGet t' [103]) = .error .freedNode := by
    decide +kernel
  refine ⟨reached, found, lost, ?_⟩
  rintro ⟨t', done, swept⟩
  have kept := swept.kept [103] (by
    intro data stored
    cases found.symm.trans stored
    decide)
  rw [done] at lost
  have same := lost.symm.trans (kept.trans found)
  cases same

end PostDns
