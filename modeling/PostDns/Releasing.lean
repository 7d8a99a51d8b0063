/-
Sweeps that release address lists (ipv4_cache.c and ipv6_cache.c, the `clear` functions).

The first pass of a sweep releases the list of every expired entry, and the second one
removes the entries.  A released list has no addresses any more.  As long as no removal
meets its name at the head of a long chain, the sweep ends like one that leaves the lists
alone, and no lookup finds an entry whose list was released.
-/

import PostDns.CacheMaps
import PostDns.CachedLists

namespace PostDns

open Foundation

variable {Address : Type}

/-! ### The sweep -/

def AddressCache.released (cache : AddressCache Address) : AddressCache Address :=
  { cache with node := [] }

/-- The body of the loop along a chain at a node with the name: the list of an expired
entry is released and the name noted in `result`. -/
def releaseExpired (size : Nat) (expired : AddressCache Address → Bool) (name : StringT)
    (ref : NodeRef) (node : HashNode (AddressCache Address))
    (t : HashTable (AddressCache Address)) (result : List StringT) :
    Exec (HashTable (AddressCache Address) × List StringT) :=
  match node.data with
  | none => Logged.fail .nullPointer
  | some cache =>
      if expired cache then do
        writeAt (.expired size) result.length
        pure (t.write ref { node with data := some cache.released }, result ++ [name])
      else pure (t, result)

def releaseChain (size : Nat) (expired : AddressCache Address → Bool) :
    Nat → Option NodeRef → HashTable (AddressCache Address) → List StringT →
      Exec (HashTable (AddressCache Address) × List StringT)
  | 0, _, _, _ => Logged.fail .outOfFuel
  | _ + 1, none, t, result => pure (t, result)
  | fuel + 1, some ref, t, result => do
      let node ← Logged.ofExcept (t.read ref)
      match node.name with
      | none => pure (t, result)
      | some name => do
          let swept ← releaseExpired size expired name ref node t result
          releaseChain size expired fuel (node.next.map .chain) swept.1 swept.2

def releaseBuckets (size : Nat) (expired : AddressCache Address → Bool) :
    Nat → Nat → HashTable (AddressCache Address) → List StringT →
      Exec (HashTable (AddressCache Address) × List StringT)
  | 0, _, t, result => pure (t, result)
  | count + 1, i, t, result => do
      let swept ← releaseChain size expired t.chainBound (some (.head i)) t result
      releaseBuckets size expired count (i + 1) swept.1 swept.2

def cacheClearReleasing (expired : AddressCache Address → Bool)
    (t : HashTable (AddressCache Address)) : Exec (HashTable (AddressCache Address)) := do
  let swept ← releaseBuckets t.count expired t.capacity 0 t []
  removeExpired swept.2 swept.1

def ipv4CacheClearReleasing (now : Int) (t : HashTable Ipv4Cache) :
    Exec (HashTable Ipv4Cache) :=
  cacheClearReleasing (fun cache => !cache.manual && decide (cache.timestamp + cache.ttl < now)) t

def ipv6CacheClearReleasing (now : Int) (t : HashTable Ipv6Cache) :
    Exec (HashTable Ipv6Cache) :=
  cacheClearReleasing (fun cache => decide (cache.timestamp + cache.ttl < now)) t

def clearCallbackReleasing (now : Int) (world : World) : Exec World := do
  let ipv4Table ← ipv4CacheClearReleasing now world.ipv4Table
  let ipv6Table ← ipv6CacheClearReleasing now world.ipv6Table
  let cnameTable ← cnameCacheClear world.cnameTable
  pure
    { world with
      ipv4Table := ipv4Table
      ipv6Table := ipv6Table
      cnameTable := cnameTable }

inductive ServeReleasing (before : World) : (Int × Occasion) × List Sent → World → Prop where
  | datagram {label : (Int × Occasion) × List Sent} {after : World}
      (received : label.1.2 ≠ .sweep) (step : Serve before label after) :
      ServeReleasing before label after
  | sweep {now : Int} {after : World}
      (done : (clearCallbackReleasing now before).out = .ok after) :
      ServeReleasing before ((now, .sweep), []) after

theorem releaseChain_read {t : HashTable (AddressCache Address)} {ref : NodeRef}
    {node : HashNode (AddressCache Address)} (readable : t.read ref = .ok node) (size : Nat)
    (expired : AddressCache Address → Bool) (fuel : Nat) (result : List StringT) :
    releaseChain size expired (fuel + 1) (some ref) t result =
      match node.name with
      | none => pure (t, result)
      | some name =>
          releaseExpired size expired name ref node t result >>= fun swept =>
            releaseChain size expired fuel (node.next.map .chain) swept.1 swept.2 := by
  rw [releaseChain, readable]
  rfl

/-! ### Tables -/

variable {expired : AddressCache Address → Bool}

/-- The same data, or the list of an expired entry has been released. -/
def DataReleased (expired : AddressCache Address → Bool)
    (before after : Option (AddressCache Address)) : Prop :=
  after = before ∨
    ∃ cache, before = some cache ∧ expired cache = true ∧ after = some cache.released

structure NodeReleased (expired : AddressCache Address → Bool)
    (before after : HashNode (AddressCache Address)) : Prop where
  name : after.name = before.name
  next : after.next = before.next
  data : DataReleased expired before.data after.data

theorem NodeReleased.refl (expired : AddressCache Address → Bool)
    (node : HashNode (AddressCache Address)) : NodeReleased expired node node :=
  { name := rfl
    next := rfl
    data := Or.inl rfl }

structure ListsReleased (expired : AddressCache Address → Bool)
    (t s : HashTable (AddressCache Address)) : Prop where
  size : s.cells.size = t.cells.size
  capacity : s.capacity = t.capacity
  read : ∀ ref, SameOutcome (NodeReleased expired) (t.read ref) (s.read ref)

theorem ListsReleased.refl (expired : AddressCache Address → Bool)
    (t : HashTable (AddressCache Address)) : ListsReleased expired t t := by
  constructor
  · rfl
  · rfl
  · intro ref
    cases t.read ref with
    | ok node => exact .ok (NodeReleased.refl expired node)
    | error fault => exact .error fault

namespace ListsReleased

variable {t s : HashTable (AddressCache Address)} (lists : ListsReleased expired t s)

include lists

theorem chainBound : s.chainBound = t.chainBound := by
  rw [HashTable.chainBound, HashTable.chainBound, lists.size]

theorem readable {ref : NodeRef} {node : HashNode (AddressCache Address)}
    (read : t.read ref = .ok node) :
    ∃ node', s.read ref = .ok node' ∧ NodeReleased expired node node' := by
  have same := lists.read ref
  rw [read] at same
  exact same.of_ok

theorem unreadable {ref : NodeRef} {fault : Fault} (read : t.read ref = .error fault) :
    s.read ref = .error fault := by
  have same := lists.read ref
  rw [read] at same
  exact same.of_error

theorem write {ref : NodeRef} {old : HashNode (AddressCache Address)}
    (read : t.read ref = .ok old) {node node' : HashNode (AddressCache Address)}
    (released : NodeReleased expired node node') :
    ListsReleased expired (t.write ref node) (s.write ref node') := by
  obtain ⟨old', readToo, _⟩ := lists.readable read
  constructor
  · rw [write_size, write_size, lists.size]
  · rw [write_capacity, write_capacity, lists.capacity]
  · intro other
    by_cases same : other = ref
    · rw [same, read_write_same read, read_write_same readToo]
      exact .ok released
    · rw [read_write_of_ne t same, read_write_of_ne s same]
      exact lists.read other

/-- One more list is released. -/
theorem release {ref : NodeRef} {node node' : HashNode (AddressCache Address)}
    (read : t.read ref = .ok node) (readToo : s.read ref = .ok node')
    (released : NodeReleased expired node node') {cache : AddressCache Address}
    (isCache : node.data = some cache) (isExpired : expired cache = true) :
    ListsReleased expired t (s.write ref { node' with data := some cache.released }) := by
  constructor
  · rw [write_size, lists.size]
  · rw [write_capacity, lists.capacity]
  · intro other
    by_cases same : other = ref
    · rw [same, read, read_write_same readToo]
      exact .ok ⟨released.name, released.next, Or.inr ⟨cache, isCache, isExpired, rfl⟩⟩
    · rw [read_write_of_ne s same]
      exact lists.read other

/-- Both tables are read, and what follows comes to the same end. -/
theorem read_bind {β γ : Type} {related : β → γ → Prop} {ref : NodeRef}
    {next : HashNode (AddressCache Address) → Except Fault β}
    {next' : HashNode (AddressCache Address) → Except Fault γ}
    (nextSame : ∀ node node', t.read ref = .ok node → s.read ref = .ok node' →
      NodeReleased expired node node' → SameOutcome related (next node) (next' node')) :
    SameOutcome related (t.read ref >>= next) (s.read ref >>= next') := by
  cases hRead : t.read ref with
  | ok node =>
      obtain ⟨node', readToo, released⟩ := lists.readable hRead
      rw [readToo]
      exact nextSame node node' hRead readToo released
  | error fault =>
      rw [lists.unreadable hRead]
      exact .error fault

/-! ### Removal -/

theorem freed (address : Nat) :
    ListsReleased expired { t with cells := t.cells.free address }
      { s with cells := s.cells.free address } := by
  constructor
  · rw [Heap.size_free, Heap.size_free, lists.size]
  · exact lists.capacity
  · intro ref
    cases ref with
    | head index => exact lists.read (.head index)
    | chain place =>
        by_cases same : place = address
        · subst same
          simp only [HashTable.read, readNode, Heap.read_free_same]
          exact .error Fault.freedNode
        · have kept := lists.read (.chain place)
          simp only [HashTable.read, readNode] at kept ⊢
          rw [Heap.read_free_of_ne _ same, Heap.read_free_of_ne _ same]
          exact kept

theorem free (place : Option Nat) :
    SameOutcome (ListsReleased expired) (t.free place) (s.free place) := by
  cases place with
  | none => exact .ok lists
  | some address =>
      have same := lists.read (.chain address)
      simp only [HashTable.read, readNode, HashTable.free] at same ⊢
      cases hCell : t.cells.read address with
      | none =>
          cases hCell' : s.cells.read address with
          | none => exact .error Fault.freedNode
          | some node' =>
              rw [hCell, hCell'] at same
              cases same
      | some node =>
          cases hCell' : s.cells.read address with
          | none =>
              rw [hCell, hCell'] at same
              cases same
          | some node' => exact .ok (lists.freed address)

theorem unlinkNode {ref : NodeRef} {node node' : HashNode (AddressCache Address)}
    (read : t.read ref = .ok node) (released : NodeReleased expired node node')
    (last : Option NodeRef) :
    SameOutcome (ListsReleased expired) (unlinkNode t last ref node)
      (PostDns.unlinkNode s last ref node') := by
  cases last with
  | none =>
      simp only [PostDns.unlinkNode, released.next]
      cases hNext : node.next with
      | none =>
          exact .ok (lists.write read { name := rfl, next := rfl, data := Or.inl rfl })
      | some second =>
          apply lists.read_bind
          intro next next' _ _ nextReleased
          rw [nextReleased.next]
          exact (lists.write read nextReleased).free next.next
  | some last =>
      apply lists.read_bind
      intro before before' lastRead _ beforeReleased
      have written : ListsReleased expired
          (t.write last { before with next := node.next })
          (s.write last { before' with next := node'.next }) :=
        lists.write lastRead
          { name := beforeReleased.name
            next := released.next
            data := beforeReleased.data }
      cases ref with
      | head index => exact .error Fault.freedNode
      | chain address => exact written.free (some address)

theorem removeLoop (name : StringT) (fuel : Nat) (last start : Option NodeRef) :
    SameOutcome (ListsReleased expired) (removeLoop t name fuel last start)
      (PostDns.removeLoop s name fuel last start) := by
  induction fuel generalizing last start with
  | zero => exact .error Fault.outOfFuel
  | succ fuel ih =>
      cases start with
      | none => exact .error Fault.nullPointer
      | some ref =>
          apply lists.read_bind
          intro node node' read _ released
          rw [released.name]
          cases node.name with
          | none => exact .ok lists
          | some other =>
              by_cases isName : stringEqual other name = true
              · simp only [if_pos isName]
                exact lists.unlinkNode read released last
              · simp only [if_neg isName, released.next]
                exact ih (some ref) _

theorem hashTableRemove (name : StringT) :
    SameOutcome (ListsReleased expired) (hashTableRemove t name)
      (PostDns.hashTableRemove s name) := by
  rw [PostDns.hashTableRemove, PostDns.hashTableRemove, lists.chainBound, lists.capacity]
  exact lists.removeLoop name _ _ _

theorem removeExpired (names : List StringT) :
    Logged.Parallel (ListsReleased expired) (removeExpired names t)
      (PostDns.removeExpired names s) := by
  induction names generalizing t s with
  | nil => exact Logged.parallel_pure lists
  | cons name names ih =>
      apply Logged.Parallel.bind (Logged.parallel_ofExcept (lists.hashTableRemove name))
      intro middle middle' kept
      exact ih kept

end ListsReleased

/-! ### The first pass -/

section FirstPass

variable (unchanged : ∀ cache, expired cache.released = expired cache)

include unchanged

theorem NodeReleased.releaseExpired {t s : HashTable (AddressCache Address)}
    (lists : ListsReleased expired t s) {ref : NodeRef}
    {node node' : HashNode (AddressCache Address)} (read : t.read ref = .ok node)
    (readToo : s.read ref = .ok node') (released : NodeReleased expired node node')
    (size : Nat) (name : StringT) (result : List StringT) :
    Logged.Parallel (fun names swept => swept.2 = names ∧ ListsReleased expired t swept.1)
      (noteExpired size expired name node.data result)
      (releaseExpired size expired name ref node' s result) := by
  unfold PostDns.releaseExpired
  cases released.data with
  | inl same =>
      rw [same]
      cases hData : node.data with
      | none => exact ⟨rfl, .error Fault.nullPointer⟩
      | some cache =>
          by_cases isExpired : expired cache = true
          · simp only [noteExpired, if_pos isExpired]
            have more := lists.release read readToo released hData isExpired
            exact ⟨rfl, .ok ⟨rfl, more⟩⟩
          · simp only [noteExpired, if_neg isExpired]
            exact Logged.parallel_pure ⟨rfl, lists⟩
  | inr gone =>
      obtain ⟨cache, isCache, isExpired, isReleased⟩ := gone
      have again : expired cache.released = true := by
        rw [unchanged, isExpired]
      have more := lists.release read readToo released isCache isExpired
      rw [isCache, isReleased]
      simp only [noteExpired, if_pos isExpired, if_pos again]
      exact ⟨rfl, .ok ⟨rfl, more⟩⟩

theorem ListsReleased.releaseChain {t s : HashTable (AddressCache Address)}
    (lists : ListsReleased expired t s) (size fuel : Nat) (start : Option NodeRef)
    (result : List StringT) :
    Logged.Parallel (fun names swept => swept.2 = names ∧ ListsReleased expired t swept.1)
      (collectChain size expired t fuel start result)
      (releaseChain size expired fuel start s result) := by
  induction fuel generalizing s start result with
  | zero => exact ⟨rfl, .error Fault.outOfFuel⟩
  | succ fuel ih =>
      cases start with
      | none => exact Logged.parallel_pure ⟨rfl, lists⟩
      | some ref =>
          cases hRead : t.read ref with
          | error fault =>
              rw [collectChain, PostDns.releaseChain, hRead, lists.unreadable hRead]
              exact ⟨rfl, .error fault⟩
          | ok node =>
              obtain ⟨node', readToo, released⟩ := lists.readable hRead
              rw [collectChain_read hRead, releaseChain_read readToo, released.name]
              cases node.name with
              | none => exact Logged.parallel_pure ⟨rfl, lists⟩
              | some name =>
                  apply Logged.Parallel.bind
                    (released.releaseExpired unchanged lists hRead readToo size name result)
                  intro names swept kept
                  rw [kept.1, released.next]
                  exact ih kept.2 _ _

theorem ListsReleased.releaseBuckets {t s : HashTable (AddressCache Address)}
    (lists : ListsReleased expired t s) (size count index : Nat) (result : List StringT) :
    Logged.Parallel (fun names swept => swept.2 = names ∧ ListsReleased expired t swept.1)
      (collectExpired size expired t count index result)
      (releaseBuckets size expired count index s result) := by
  induction count generalizing s index result with
  | zero => exact Logged.parallel_pure ⟨rfl, lists⟩
  | succ count ih =>
      rw [collectExpired, PostDns.releaseBuckets, lists.chainBound]
      apply Logged.Parallel.bind (lists.releaseChain unchanged size _ _ result)
      intro names swept kept
      rw [kept.1]
      exact ih kept.2 _ _

/-- A sweep makes the same writes and ends in the same way whether or not it releases
lists. -/
theorem cacheClear_releasing (t : HashTable (AddressCache Address)) :
    Logged.Parallel (ListsReleased expired) (cacheClear expired t)
      (cacheClearReleasing expired t) := by
  have firstPass := (ListsReleased.refl expired t).releaseBuckets unchanged t.count
    t.capacity 0 []
  apply firstPass.bind
  intro names swept kept
  rw [kept.1]
  exact kept.2.removeExpired names

end FirstPass

/-! ### The table that is left -/

namespace ListsReleased

variable {t s : HashTable (AddressCache Address)} (lists : ListsReleased expired t s)

include lists

theorem read_current {ref : NodeRef} {node : HashNode (AddressCache Address)}
    (read : t.read ref = .ok node)
    (current : ∀ cache, node.data = some cache → expired cache = false) :
    s.read ref = .ok node := by
  obtain ⟨node', readToo, released⟩ := lists.readable read
  have same : node'.data = node.data := by
    cases released.data with
    | inl same => exact same
    | inr gone =>
        obtain ⟨cache, isCache, isExpired, _⟩ := gone
        rw [current cache isCache] at isExpired
        cases isExpired
  have isNode : node' = node := by
    cases node
    cases node'
    cases same
    cases released.name
    cases released.next
    rfl
  rw [readToo, isNode]

/-- The map is the same when none of its entries has expired. -/
theorem isMap {map : StringT → Option (AddressCache Address)} (isMap : IsMap t map)
    (current : ∀ name cache, map name = some cache → expired cache = false) : IsMap s map := by
  obtain ⟨contents, laid, means⟩ := isMap
  have kept : ∀ index < t.capacity, ∀ entry ∈ contents index,
      s.read entry.ref = t.read entry.ref := by
    intro index inside entry member
    obtain ⟨next, read⟩ := (laid.bucket index inside).readable member
    rw [read]
    apply lists.read_current read
    intro cache isCache
    apply current entry.name
    rw [means, meaning_eq_some_iff laid]
    exact ⟨index, inside, entry, member, rfl, Option.some.inj isCache⟩
  have heads : ∀ index < t.capacity, s.read (.head index) = t.read (.head index) := by
    intro index inside
    have bucket := laid.bucket index inside
    cases hContents : contents index with
    | nil =>
        rw [hContents] at bucket
        have empty : t.read (.head index) = .ok HashNode.empty := bucket
        rw [empty]
        exact lists.read_current empty fun _ impossible => nomatch impossible
    | cons first rest =>
        rw [hContents] at bucket
        have isHead : first.ref = .head index := (Option.some.inj bucket.1).symm
        rw [← isHead]
        apply kept index inside
        rw [hContents]
        exact List.mem_cons_self
  refine ⟨contents, ?_, ?_⟩
  · rw [lists.capacity]
    exact laid.congr heads kept
  · rw [lists.capacity]
    exact means

end ListsReleased

/-- A safe sweep that releases lists leaves the entries that have not expired, with their
lists. -/
theorem cacheClearReleasing_isMap (unchanged : ∀ cache, expired cache.released = expired cache)
    {t s : HashTable (AddressCache Address)} {map : StringT → Option (AddressCache Address)}
    (isMap : IsMap t map) (safe : SweepSafe expired t)
    (done : (cacheClearReleasing expired t).out = .ok s) :
    IsMap s (fun name => (map name).filter fun cache => !expired cache) := by
  obtain ⟨t', cleared, lists⟩ := (cacheClear_releasing unchanged t).returned done
  apply lists.isMap (cacheClear_isMap isMap safe cleared)
  intro name cache stored
  have unexpired := (Option.filter_eq_some_iff.mp stored).2
  simpa using unexpired

/-! ### Runs -/

def SafeServeReleasing (before : World) (label : (Int × Occasion) × List Sent)
    (after : World) : Prop :=
  ServeReleasing before label after ∧ SafeWhen before label.1

def HoldsLists (t : HashTable (AddressCache Address)) : Prop :=
  ∃ map, IsMap t map ∧ EachCached (fun cache => cache.node ≠ []) map

theorem holdsLists_new (choices : List Nat) :
    HoldsLists (hashTableNew choices : HashTable (AddressCache Address)) :=
  ⟨_, hashTableNew_isMap choices, fun _ _ stored => nomatch stored⟩

theorem holdsLists_putsKeep :
    PutsKeep fun t : HashTable (AddressCache Address) => HoldsLists t := by
  intro t t' name cache lists filled done
  obtain ⟨map, isMap, each⟩ := lists
  obtain ⟨t'', put, isMap'⟩ := hashTablePut_isMap isMap name cache
  rw [done] at put
  cases put
  exact ⟨_, isMap', each.update filled⟩

theorem HoldsLists.clearReleasing (unchanged : ∀ cache, expired cache.released = expired cache)
    {t t' : HashTable (AddressCache Address)} (lists : HoldsLists t)
    (safe : SweepSafe expired t) (done : (cacheClearReleasing expired t).out = .ok t') :
    HoldsLists t' := by
  obtain ⟨map, isMap, each⟩ := lists
  refine ⟨_, cacheClearReleasing_isMap unchanged isMap safe done, ?_⟩
  intro name cache stored
  exact each name cache (Option.filter_eq_some_iff.mp stored).1

theorem HoldsLists.get {t : HashTable (AddressCache Address)} (lists : HoldsLists t)
    (name : StringT) :
    ∃ found, hashTableGet t name = .ok found ∧ ∀ cache, found = some cache → cache.node ≠ [] := by
  obtain ⟨map, isMap, each⟩ := lists
  exact ⟨map name, hashTableGet_isMap isMap name, each name⟩

theorem SafeServeReleasing.holdsLists {before after : World}
    {label : (Int × Occasion) × List Sent} (lists : TablesHold HoldsLists HoldsLists before)
    (step : SafeServeReleasing before label after) :
    TablesHold HoldsLists HoldsLists after := by
  obtain ⟨serve, safe⟩ := step
  cases serve with
  | datagram received step =>
      exact step.tablesHold holdsLists_putsKeep holdsLists_putsKeep lists received
  | sweep done =>
      obtain ⟨ipv4Table, clearIpv4, rest⟩ := Logged.bind_out_eq_ok.mp done
      obtain ⟨ipv6Table, clearIpv6, others⟩ := Logged.bind_out_eq_ok.mp rest
      obtain ⟨cnameTable, _, returned⟩ := Logged.bind_out_eq_ok.mp others
      cases returned
      have sweepsSafe := safe rfl
      exact
        { ipv4 := lists.ipv4.clearReleasing (fun _ => rfl) sweepsSafe.ipv4 clearIpv4
          ipv6 := lists.ipv6.clearReleasing (fun _ => rfl) sweepsSafe.ipv6 clearIpv6 }

/-- As long as no removal of a sweep meets its name at the head of a long chain: every
lookup returns, none finds an empty or a released list, and the first pass over the questions
gets past every list that it meets. -/
theorem foundLists_filled {env : Env} {malloc : Malloc} {began : Int}
    {file : Option (List UInt8)} {start world : World}
    {events : List ((Int × Occasion) × List Sent)}
    (started : (startUp env malloc began file).out = .ok start)
    (run : Run SafeServeReleasing start events world) :
    (∀ name, ∃ found, ipv4CacheGet world.ipv4Table name = .ok found ∧
      ∀ cache, found = some cache → cache.node ≠ []) ∧
    ∀ env questions pass domain cache answerCount,
      (countQueries env world questions (FirstPass.start world.ipv4Table)).out = .ok pass →
        ipv4CacheGet pass.ipv4Table domain = .ok (some cache) →
          ∃ pass', (countIpv4Cache pass domain answerCount cache).out = .ok pass' := by
  have lists : TablesHold HoldsLists HoldsLists world := by
    apply run.invariant (fun _ world => TablesHold HoldsLists HoldsLists world)
    · exact startUp_tablesHold holdsLists_putsKeep holdsLists_new holdsLists_new started
    · intro _ _ _ _ lists step
      exact step.holdsLists lists
  constructor
  · exact lists.ipv4.get
  · intro env questions pass domain cache answerCount counted found
    have passLists : HoldsLists pass.ipv4Table :=
      countQueries_kept holdsLists_putsKeep lists.ipv4 counted
    obtain ⟨t', written⟩ := writeThrough_of_get found cache.flagged
    cases hNode : cache.node with
    | nil =>
        obtain ⟨other, foundToo, filled⟩ := passLists.get domain
        have same : Except.ok other = .ok (some cache) := foundToo.symm.trans found
        exact absurd hNode (filled cache (Except.ok.inj same))
    | cons address addresses =>
        exact ⟨_, countIpv4Cache_out_eq_ok.mpr ⟨address, addresses, t', hNode, written, rfl⟩⟩

private def manyTurns : Env :=
  { fuel := 100
    junk := fun _ _ => 0 }

private def oneLineRead : World :=
  (startUp manyTurns .ascending 0 (some [97, 32, 49, 46, 50, 46, 51, 46, 52, 10])).resultOr
    (World.init .ascending)

private def sweptInTime : World :=
  (clearCallbackReleasing 1 oneLineRead).resultOr (World.init .ascending)

theorem foundLists_filled_sweptInTime :
    ipv4CacheGet sweptInTime.ipv4Table [97] = .ok (some
        { node := [0x01020304]
          ttl := 1
          timestamp := 0
          manual := false }) ∧
      ∀ name, ∃ found, ipv4CacheGet sweptInTime.ipv4Table name = .ok found ∧
        ∀ cache, found = some cache → cache.node ≠ [] := by
  have started : (startUp manyTurns .ascending 0
      (some [97, 32, 49, 46, 50, 46, 51, 46, 52, 10])).out = .ok oneLineRead :=
    Logged.out_eq_resultOr (by decide +kernel)
  have swept : (clearCallbackReleasing 1 oneLineRead).out = .ok sweptInTime :=
    Logged.out_eq_resultOr (by decide +kernel)
  have safe : SweepsSafe 1 oneLineRead := by
    constructor
    · intro names collected
      have none : (collectExpired oneLineRead.ipv4Table.count (ipv4Expired 1)
          oneLineRead.ipv4Table oneLineRead.ipv4Table.capacity 0 []).out = .ok [] := by
        decide +kernel
      rw [none] at collected
      cases collected
      trivial
    · intro names collected
      have none : (collectExpired oneLineRead.ipv6Table.count (ipv6Expired 1)
          oneLineRead.ipv6Table oneLineRead.ipv6Table.capacity 0 []).out = .ok [] := by
        decide +kernel
      rw [none] at collected
      cases collected
      trivial
  have filled := foundLists_filled started (Run.snoc Run.nil ⟨.sweep swept, fun _ => safe⟩)
  exact ⟨by decide +kernel, filled.1⟩

/-! ### A list that is found after its release -/

private def tells (letter : UInt8) : Datagram :=
  { buf :=
      { base := [0, 7, 0x81, 0, 0, 0, 0, 1, 0, 0, 0, 0, 1, letter, 0, 0, 1, 0, 1, 0, 0, 0, 120,
          0, 4, 1, 2, 3, 4]
        len := 29 }
    nonempty := Nat.succ_pos (nat_lit 28)
    fits := Nat.le_refl (nat_lit 29) }

private def happening : Int × Option UInt8 → World → Exec World
  | (now, some letter), world => do
      let done ← querySocketRead manyTurns now (tells letter) world
      pure done.1
  | (now, none), world => clearCallbackReleasing now world

private def happened (world : World) (event : Int × Option UInt8) : World :=
  reached (happening event world)

private def allHappen : World → List (Int × Option UInt8) → Bool
  | _, [] => true
  | world, event :: events =>
      (happening event world).out.isOk && allHappen (happened world event) events

private theorem happening_serve {world : World} {event : Int × Option UInt8}
    (done : (happening event world).out.isOk = true) :
    ∃ label, ServeReleasing world label (happened world event) := by
  have comes := out_eq_reached done
  rcases event with ⟨now, _ | letter⟩
  · exact ⟨_, .sweep comes⟩
  · obtain ⟨⟨after, sent⟩, read, returned⟩ := Logged.bind_out_eq_ok.mp comes
    obtain ⟨message, decoded, _⟩ := Logged.bind_out_eq_ok.mp read
    have isAfter : after = happened world (now, some letter) := Except.ok.inj returned
    rw [← isAfter]
    exact ⟨((now, .reply message), sent), .datagram nofun (.reply decoded read)⟩

private theorem allHappen_run {world : World} {events : List (Int × Option UInt8)}
    (done : allHappen world events = true) :
    ∃ labels, Run ServeReleasing world labels (events.foldl happened world) := by
  induction events generalizing world with
  | nil => exact ⟨[], Run.nil⟩
  | cons event events ih =>
      obtain ⟨first, others⟩ := Bool.and_eq_true_iff.mp done
      obtain ⟨label, serve⟩ := happening_serve first
      obtain ⟨labels, run⟩ := ih others
      exact ⟨[label] ++ labels, (Run.snoc Run.nil serve).append run⟩

/-- Replies about `h`, `n`, `k`, `T`, `o`, `L`, `a` and `f`, where `h`, `k`, `T` and `n`, `L`, `o`
come into one bucket each, with a sweep every 120 seconds.  Sweeps remove `h` and later `n`, and
the nodes of `T` and of `o` stay linked behind them.  `Q` gets the first of these nodes and `B`
the second, which hides `Q` from its own bucket; it is entered there again, but the old entry
stays in the other one. -/
private def course : List (Int × Option UInt8) :=
  [(0, some 104), (120, none), (130, some 110), (240, some 107), (240, some 84),
    (240, some 111), (240, some 76), (240, some 97), (240, some 102), (240, none),
    (241, some 81), (360, none), (361, some 66), (362, some 81), (370, some 107),
    -- the old entry has expired, its list is released, and the new entry is removed
    (480, none),
    -- the table grows, and the old entry comes back to its bucket
    (490, some 97)]

private def reused : Malloc := { Malloc.ascending with ipv4 := List.replicate 6 99 ++ [5, 3] }

private def afterCourse : World := course.foldl happened (World.init reused)

/-- The entry of `Q` is found with a list that a sweep has released. -/
theorem not_foundLists_filled_reused :
    (startUp manyTurns reused 0 none).out = .ok (World.init reused) ∧
      (∃ labels, Run ServeReleasing (World.init reused) labels afterCourse) ∧
        ∃ cache, ipv4CacheGet afterCourse.ipv4Table [81] = .ok (some cache) ∧
          cache.node = [] := by
  refine ⟨rfl, allHappen_run (by decide +kernel), ?_⟩
  exact ⟨{ node := [], ttl := 120, timestamp := 241, manual := false }, by decide +kernel, rfl⟩

end PostDns
