/-
Who releases what is stored (hash_table.c).

The table owns the names and the data that it stores: an insertion that overwrites releases
the old data, a removal the name and the data, and `hash_table_free` the rest.  A removal
that copies the second entry of a bucket into its head overwrites the pointers of the first
one, and these, with the node of the second entry, are never released.
-/

import PostDns.NodeCounts

namespace PostDns

open Foundation

variable {α : Type}

/-! ### The operations with what they release -/

def hashTablePutOwned (t : HashTable α) (name : Option StringT) (data : Option α) :
    Except Fault (HashTable α × List (Owned α)) :=
  match name, data with
  | some name, some data => do
      let found ← findNode t name t.chainBound
        (some (.head (bucketIndex name t.capacity)))
      match found with
      | some ref => do
          let node ← t.read ref
          pure (t.write ref { node with data := some data }, node.ownedData)
      | none => do
          let t ← addNode t name (some data)
          let t ← if t.threshold < t.count then resize t else pure t
          pure (t, [])
  | _, _ => pure (t, [])

/-- What the `if` in `hash_table_remove` releases besides nodes: nothing at a head that
another node follows. -/
def unlinkReleases (lastNode : Option NodeRef) (node : HashNode α) : List (Owned α) :=
  match lastNode, node.next with
  | none, some _ => []
  | _, _ => node.ownedName ++ node.ownedData

def removeLoopOwned (t : HashTable α) (name : StringT) :
    Nat → Option NodeRef → Option NodeRef → Except Fault (HashTable α × List (Owned α))
  | 0, _, _ => .error .outOfFuel
  | _ + 1, _, none => .error .nullPointer
  | fuel + 1, lastNode, some ref => do
      let node ← t.read ref
      match node.name with
      | none => pure (t, [])
      | some other =>
          if stringEqual other name then do
            let t ← unlinkNode t lastNode ref node
            pure (t, unlinkReleases lastNode node)
          else removeLoopOwned t name fuel (some ref) (node.next.map .chain)

def hashTableRemoveOwned (t : HashTable α) (name : StringT) :
    Except Fault (HashTable α × List (Owned α)) :=
  removeLoopOwned t name t.chainBound none (some (.head (bucketIndex name t.capacity)))

def Operation.applyOwned (t : HashTable α) :
    Operation α → Except Fault (HashTable α × List (Owned α))
  | .put name data => hashTablePutOwned t name data
  | .remove name => hashTableRemoveOwned t name

def Operation.given : Operation α → List α
  | .put (some _) (some data) => [data]
  | .put _ _ => []
  | .remove _ => []

/-- The data whose only pointer a removal overwrites: the name is at the head of its bucket
and another node follows. -/
def Operation.lost (t : HashTable α) : Operation α → List α
  | .put _ _ => []
  | .remove name =>
      match t.read (.head (bucketIndex name t.capacity)) with
      | .error _ => []
      | .ok node =>
          if node.name = some name ∧ node.next ≠ none then node.data.toList else []

/-! ### The same tables -/

theorem hashTablePutOwned_fst (t : HashTable α) (name : Option StringT) (data : Option α) :
    (hashTablePutOwned t name data).map Prod.fst = hashTablePut t name data := by
  cases name with
  | none => rfl
  | some name =>
      cases data with
      | none => rfl
      | some data =>
          simp only [hashTablePutOwned, hashTablePut]
          cases findNode t name t.chainBound (some (.head (bucketIndex name t.capacity))) with
          | error fault => rfl
          | ok found =>
              cases found with
              | some ref =>
                  change Except.map Prod.fst (t.read ref >>= _) = t.read ref >>= _
                  cases t.read ref with
                  | error fault => rfl
                  | ok node => rfl
              | none =>
                  change Except.map Prod.fst (addNode t name (some data) >>= _) =
                    addNode t name (some data) >>= _
                  cases addNode t name (some data) with
                  | error fault => rfl
                  | ok added =>
                      by_cases full : added.threshold < added.count
                      · change Except.map Prod.fst (if added.threshold < added.count then
                            resize added >>= fun t => pure (t, [])
                          else pure added >>= fun t => pure (t, [])) =
                          if added.threshold < added.count then resize added else pure added
                        rw [if_pos full, if_pos full]
                        cases resize added with
                        | error fault => rfl
                        | ok grown => rfl
                      · change Except.map Prod.fst (if added.threshold < added.count then
                            resize added >>= fun t => pure (t, [])
                          else pure added >>= fun t => pure (t, [])) =
                          if added.threshold < added.count then resize added else pure added
                        rw [if_neg full, if_neg full]
                        rfl

theorem removeLoopOwned_read {t : HashTable α} {ref : NodeRef} {node : HashNode α}
    (readable : t.read ref = .ok node) (name : StringT) (fuel : Nat)
    (previous : Option NodeRef) :
    removeLoopOwned t name (fuel + 1) previous (some ref) =
      match node.name with
      | none => .ok (t, [])
      | some other =>
          if stringEqual other name then
            unlinkNode t previous ref node >>= fun t => .ok (t, unlinkReleases previous node)
          else removeLoopOwned t name fuel (some ref) (node.next.map .chain) := by
  rw [removeLoopOwned, readable]
  rfl

theorem removeLoopOwned_fst (t : HashTable α) (name : StringT) (fuel : Nat)
    (previous start : Option NodeRef) :
    (removeLoopOwned t name fuel previous start).map Prod.fst =
      removeLoop t name fuel previous start := by
  induction fuel generalizing previous start with
  | zero => rfl
  | succ fuel ih =>
      cases start with
      | none => rfl
      | some ref =>
          cases hRead : t.read ref with
          | error fault =>
              rw [removeLoopOwned, removeLoop, hRead]
              rfl
          | ok node =>
              rw [removeLoopOwned_read hRead, removeLoop_read hRead]
              cases node.name with
              | none => rfl
              | some other =>
                  by_cases equal : stringEqual other name = true
                  · simp only [if_pos equal]
                    cases unlinkNode t previous ref node with
                    | error fault => rfl
                    | ok t' => rfl
                  · simp only [if_neg equal]
                    exact ih (some ref) (node.next.map .chain)

/-- With what it releases an operation is the one that was modelled before. -/
theorem applyOwned_fst (t : HashTable α) (operation : Operation α) :
    (operation.applyOwned t).map Prod.fst = operation.apply t := by
  cases operation with
  | put name data => exact hashTablePutOwned_fst t name data
  | remove name => exact removeLoopOwned_fst t name _ _ _

theorem apply_of_owned {t t' : HashTable α} {operation : Operation α}
    {freed : List (Owned α)} (done : operation.applyOwned t = .ok (t', freed)) :
    operation.apply t = .ok t' := by
  rw [← applyOwned_fst, done]
  rfl

theorem owned_of_apply {t t' : HashTable α} {operation : Operation α}
    (done : operation.apply t = .ok t') :
    ∃ freed, operation.applyOwned t = .ok (t', freed) := by
  rw [← applyOwned_fst] at done
  cases hOwned : operation.applyOwned t with
  | error fault =>
      rw [hOwned] at done
      cases done
  | ok after =>
      rw [hOwned] at done
      cases done
      exact ⟨after.2, rfl⟩

/-! ### Removals -/

structure Unlinks (t : HashTable α) (name : StringT) (previous : Option NodeRef)
    (ref : NodeRef) (node : HashNode α) (t' : HashTable α) (freed : List (Owned α)) :
    Prop where
  read : t.read ref = .ok node
  name : node.name = some name
  done : unlinkNode t previous ref node = .ok t'
  freed : freed = unlinkReleases previous node
  behind : ∀ last, previous = some last →
    ∃ before, t.read last = .ok before ∧ before.next.map .chain = some ref

theorem removeLoopOwned_cases {t t' : HashTable α} {name : StringT} {fuel : Nat}
    {previous start : Option NodeRef} {freed : List (Owned α)}
    (behind : ∀ last, previous = some last →
      ∃ before, t.read last = .ok before ∧ before.next.map .chain = start)
    (done : removeLoopOwned t name fuel previous start = .ok (t', freed)) :
    findNode t name fuel start = .ok none ∧ t' = t ∧ freed = [] ∨
      ∃ last ref node, findNode t name fuel start = .ok (some ref) ∧
        Unlinks t name last ref node t' freed ∧
        (last = none → previous = none ∧ start = some ref) := by
  induction fuel generalizing previous start with
  | zero => cases done
  | succ fuel ih =>
      cases start with
      | none => cases done
      | some ref =>
          obtain ⟨node, readable, _⟩ := except_bind_eq_ok.mp done
          rw [removeLoopOwned_read readable] at done
          rw [findNode_read readable]
          cases hName : node.name with
          | none =>
              simp only [hName] at done ⊢
              cases done
              exact Or.inl ⟨trivial, rfl, rfl⟩
          | some other =>
              simp only [hName] at done ⊢
              by_cases equal : stringEqual other name = true
              · rw [if_pos equal] at done ⊢
                obtain ⟨unlinked, run, returned⟩ := except_bind_eq_ok.mp done
                cases returned
                have isName : other = name := (stringEqual_iff other name).mp equal
                rw [isName] at hName
                exact Or.inr ⟨previous, ref, node, rfl, ⟨readable, hName, run, rfl, behind⟩,
                  fun isNone => ⟨isNone, rfl⟩⟩
              · rw [if_neg equal] at done ⊢
                have next : ∀ last, some ref = some last →
                    ∃ before, t.read last = .ok before ∧
                      before.next.map NodeRef.chain = node.next.map NodeRef.chain := by
                  intro last isLast
                  cases isLast
                  exact ⟨node, readable, rfl⟩
                have later := ih next done
                cases later with
                | inl missing => exact Or.inl missing
                | inr found =>
                    obtain ⟨last, place, gone, search, unlinks, atStart⟩ := found
                    refine Or.inr ⟨last, place, gone, search, unlinks, ?_⟩
                    intro isNone
                    cases (atStart isNone).1

/-! ### One operation -/

/-- The operation exchanges old data for new: what it takes out is released or lost, and
the nodes follow the number of entries but for the lost ones. -/
structure Exchanges (t : HashTable α) (operation : Operation α) (t' : HashTable α)
    (freed : List (Owned α)) (old entry : Option α) : Prop where
  given : operation.given = entry.toList
  data : dataOf freed ++ operation.lost t = old.toList
  neat : t'.Neat
  nodes : t'.nodeCount + old.toList.length =
    t.nodeCount + entry.toList.length + (operation.lost t).length

theorem dataOf_ownedData (node : HashNode α) : dataOf node.ownedData = node.data.toList := by
  rw [HashNode.ownedData]
  cases node.data <;> rfl

theorem dataOf_owned (node : HashNode α) :
    dataOf (node.ownedName ++ node.ownedData) = node.data.toList := by
  rw [dataOf_append, dataOf_ownedData, HashNode.ownedName]
  cases node.name <;> rfl

theorem get_of_findNode {t : HashTable α} {name : StringT} {ref : NodeRef}
    {node : HashNode α} (readable : t.read ref = .ok node)
    (found : findNode t name t.chainBound (some (.head (bucketIndex name t.capacity))) =
      .ok (some ref)) : hashTableGet t name = .ok node.data := by
  rw [hashTableGet, found]
  change (t.read ref >>= fun node => pure node.data) = _
  rw [readable]
  rfl

theorem get_of_not_found {t : HashTable α} {name : StringT}
    (missing : findNode t name t.chainBound (some (.head (bucketIndex name t.capacity))) =
      .ok none) : hashTableGet t name = .ok none := by
  rw [hashTableGet, missing]
  rfl

/-- The node behind a head is copied into it, or the head is emptied. -/
theorem unlinkHead_nodes {t t' : HashTable α} {index : Nat} {node : HashNode α}
    {name : StringT} (neat : t.Neat) (read : t.read (.head index) = .ok node)
    (isName : node.name = some name)
    (short : ∀ address second, node.next = some address →
      t.read (.chain address) = .ok second → second.next = none)
    (done : unlinkNode t none (.head index) node = .ok t') :
    t'.Neat ∧ t'.nodeCount + (if node.next = none then 1 else 0) = t.nodeCount := by
  have used : node.weight = 1 := by rw [HashNode.weight, isName]; rfl
  cases hNext : node.next with
  | none =>
      simp only [unlinkNode, hNext] at done
      cases done
      have counted := nodeCount_writeHead read { name := none, data := none, next := none }
      rw [used] at counted
      exact ⟨neat.write (fun _ isChain => by cases isChain), counted⟩
  | some address =>
      simp only [unlinkNode, hNext] at done
      obtain ⟨second, readSecond, freed⟩ := except_bind_eq_ok.mp done
      have last := short address second hNext readSecond
      rw [last] at freed
      cases freed
      have named : second.name ≠ none :=
        neat.named address second (read_chain_eq_ok.mp readSecond)
      have same : second.name.isSome = node.name.isSome := by
        rw [isName, Option.isSome_some, Option.isSome_iff_ne_none]
        exact named
      refine ⟨neat.write (fun _ isChain => by cases isChain), ?_⟩
      rw [nodeCount_write read same]
      rfl

/-- A node behind another one is unlinked and released. -/
theorem unlinkLater_nodes {t t' : HashTable α} {last ref : NodeRef} {node : HashNode α}
    (neat : t.Neat) (done : unlinkNode t (some last) ref node = .ok t') :
    t'.Neat ∧ t'.nodeCount + 1 = t.nodeCount := by
  obtain ⟨before, read, freeing⟩ := except_bind_eq_ok.mp done
  cases ref with
  | head index => cases freeing
  | chain address =>
      have kept : (t.write last { before with next := node.next }).Neat := by
        apply neat.write
        intro place isPlace
        rw [isPlace] at read
        exact neat.named place before (read_chain_eq_ok.mp read)
      have isFreed := free_of_ok freeing
      subst isFreed
      refine ⟨kept.free address, ?_⟩
      have same : (t.write last { before with next := node.next }).nodeCount = t.nodeCount :=
        nodeCount_write read rfl
      rw [← same]
      cases hCell : (t.write last { before with next := node.next }).cells.read address with
      | none =>
          simp only [HashTable.free, hCell] at freeing
          cases freeing
      | some cell => exact nodeCount_free hCell

theorem lost_of_head {t : HashTable α} {name : StringT} {head : HashNode α}
    (read : t.read (.head (bucketIndex name t.capacity)) = .ok head) :
    (Operation.remove name).lost t =
      if head.name = some name ∧ head.next ≠ none then head.data.toList else [] := by
  rw [Operation.lost, read]

/-- The node that a search finds holds the data of the map. -/
theorem found_data {t : HashTable α} {map : StringT → Option α} (isMap : IsMap t map)
    {name : StringT} {ref : NodeRef} {node : HashNode α} (readable : t.read ref = .ok node)
    (found : findNode t name t.chainBound (some (.head (bucketIndex name t.capacity))) =
      .ok (some ref)) : node.data = map name ∧ ∃ data, node.data = some data := by
  have get := get_of_findNode readable found
  have isData : node.data = map name :=
    Except.ok.inj (get.symm.trans (hashTableGet_isMap isMap name))
  refine ⟨isData, ?_⟩
  obtain ⟨contents, laid, means⟩ := isMap
  rw [findNode_laid laid name] at found
  obtain ⟨entry, isEntry, _⟩ := Option.map_eq_some_iff.mp (Except.ok.inj found)
  refine ⟨entry.data, ?_⟩
  rw [isData, means, meaning, lookupIn, isEntry]
  rfl

theorem unlinkReleases_only {node : HashNode α} (ended : node.next = none) :
    unlinkReleases none node = node.ownedName ++ node.ownedData := by
  simp only [unlinkReleases, ended]

theorem unlinkReleases_head {node : HashNode α} {address : Nat}
    (next : node.next = some address) : unlinkReleases none node = [] := by
  simp only [unlinkReleases, next]

theorem unlinkReleases_later (last : NodeRef) (node : HashNode α) :
    unlinkReleases (some last) node = node.ownedName ++ node.ownedData := rfl

/-- An operation that finds nothing to do. -/
theorem Exchanges.idle {t : HashTable α} {operation : Operation α} (neat : t.Neat)
    (given : operation.given = []) (lost : operation.lost t = []) :
    Exchanges t operation t [] none none := by
  constructor
  · exact given
  · rw [lost]
    rfl
  · exact neat
  · rw [lost]
    rfl

theorem remove_exchanges {t t' : HashTable α} {map : StringT → Option α}
    (isMap : IsMap t map) (neat : t.Neat) {name : StringT} {freed : List (Owned α)}
    (safe : ¬ HeadOfLongChain t name) (done : hashTableRemoveOwned t name = .ok (t', freed)) :
    Exchanges t (.remove name) t' freed (map name) none := by
  have stored := hashTableGet_isMap isMap name
  rw [hashTableRemoveOwned, HashTable.chainBound] at done
  obtain ⟨head, read, _⟩ := except_bind_eq_ok.mp done
  have lost := lost_of_head read
  rw [removeLoopOwned_read read] at done
  have first := findNode_read read name (t.cells.size + 1)
  cases hName : head.name with
  | none =>
      simp only [hName] at done first
      cases done
      have missing : map name = none :=
        Except.ok.inj (stored.symm.trans (get_of_not_found first))
      rw [missing]
      rw [hName, if_neg (fun both => by cases both.1)] at lost
      exact Exchanges.idle neat rfl lost
  | some other =>
      simp only [hName] at done first
      by_cases equal : stringEqual other name = true
      · rw [if_pos equal] at done first
        have isName : other = name := (stringEqual_iff other name).mp equal
        rw [isName] at hName
        obtain ⟨unlinked, run, returned⟩ := except_bind_eq_ok.mp done
        cases returned
        obtain ⟨isData, data, hData⟩ := found_data isMap read first
        have nodes := unlinkHead_nodes neat read hName (by
          intro address second isNext readSecond
          by_contra more
          exact safe ⟨head, second, address, read, hName, isNext, readSecond, more⟩) run
        have counted := nodes.2
        rw [← isData, hData]
        cases hNext : head.next with
        | none =>
            rw [hNext, if_neg (fun both => both.2 rfl)] at lost
            rw [hNext, if_pos rfl] at counted
            constructor
            · rfl
            · rw [lost, unlinkReleases_only hNext, dataOf_owned, hData, List.append_nil]
            · exact nodes.1
            · rw [lost]
              exact counted
        | some address =>
            rw [hNext, if_pos ⟨hName, Option.some_ne_none address⟩, hData] at lost
            rw [hNext, if_neg (Option.some_ne_none address)] at counted
            constructor
            · rfl
            · rw [lost, unlinkReleases_head hNext]
              rfl
            · exact nodes.1
            · have same : t'.nodeCount = t.nodeCount := counted
              rw [lost, same]
              rfl
      · rw [if_neg equal] at done first
        have different : head.name ≠ some name := by
          rw [hName]
          intro same
          exact equal ((stringEqual_iff other name).mpr (Option.some.inj same))
        rw [if_neg (fun both => different both.1)] at lost
        have behind : ∀ last, some (NodeRef.head (bucketIndex name t.capacity)) = some last →
            ∃ before, t.read last = .ok before ∧
              before.next.map NodeRef.chain = head.next.map NodeRef.chain := by
          intro last isLast
          cases isLast
          exact ⟨head, read, rfl⟩
        cases removeLoopOwned_cases behind done with
        | inl missing =>
            obtain ⟨notFound, isSame, nothing⟩ := missing
            subst isSame nothing
            have absent : map name = none :=
              Except.ok.inj (stored.symm.trans (get_of_not_found (first.trans notFound)))
            rw [absent]
            exact Exchanges.idle neat rfl lost
        | inr found =>
            obtain ⟨last, ref, node, there, unlinks, atStart⟩ := found
            obtain ⟨isData, data, hData⟩ := found_data isMap unlinks.read (first.trans there)
            have run := unlinks.done
            have isFreed := unlinks.freed
            cases last with
            | none => cases (atStart rfl).1
            | some last =>
                have nodes := unlinkLater_nodes neat run
                rw [← isData, hData]
                constructor
                · rfl
                · rw [lost, isFreed, unlinkReleases_later, dataOf_owned, hData, List.append_nil]
                · exact nodes.1
                · rw [lost]
                  exact nodes.2

/-- A name that the search does not find is added, and the table may grow. -/
theorem putNew_nodes {t added t' : HashTable α} {map : StringT → Option α}
    (isMap : IsMap t map) (neat : t.Neat) {name : StringT} {data : α}
    (missing : map name = none) (adding : addNode t name (some data) = .ok added)
    (growing : (if added.threshold < added.count then resize added else pure added) =
      .ok t') : t'.Neat ∧ t'.nodeCount = t.nodeCount + 1 := by
  have more := addNode_oneMore neat adding
  by_cases full : added.threshold < added.count
  · rw [if_pos full] at growing
    obtain ⟨contents, laid, means⟩ := isMap
    rw [means] at missing
    obtain ⟨other, ref, run, _, laid', extended⟩ :=
      addNode_laid laid (lookupIn_eq_none_iff.mp missing) data
    have same : other = added := Except.ok.inj (run.symm.trans adding)
    subst same
    have grown := resize_nodes more.neat (laid'.of_size extended.capacity) growing
    exact ⟨grown.1, grown.2.trans more.nodes⟩
  · rw [if_neg full] at growing
    cases growing
    exact ⟨more.neat, more.nodes⟩

theorem hashTablePutOwned_missing {t : HashTable α} {name : StringT} {data : α}
    (missing : findNode t name t.chainBound (some (.head (bucketIndex name t.capacity))) =
      .ok none) {t' : HashTable α} {freed : List (Owned α)}
    (done : hashTablePutOwned t (some name) (some data) = .ok (t', freed)) :
    freed = [] ∧ ∃ added, addNode t name (some data) = .ok added ∧
      (if added.threshold < added.count then resize added else pure added) = .ok t' := by
  simp only [hashTablePutOwned, missing] at done
  change (addNode t name (some data) >>= _) = _ at done
  obtain ⟨added, adding, growing⟩ := except_bind_eq_ok.mp done
  by_cases full : added.threshold < added.count
  · rw [if_pos full] at growing
    obtain ⟨grown, run, returned⟩ := except_bind_eq_ok.mp growing
    cases returned
    refine ⟨rfl, added, adding, ?_⟩
    rw [if_pos full]
    exact run
  · rw [if_neg full] at growing
    cases growing
    refine ⟨rfl, t', adding, ?_⟩
    rw [if_neg full]
    rfl

theorem put_exchanges {t t' : HashTable α} {map : StringT → Option α}
    (isMap : IsMap t map) (neat : t.Neat) {name : StringT} {data : α}
    {freed : List (Owned α)}
    (done : hashTablePutOwned t (some name) (some data) = .ok (t', freed)) :
    Exchanges t (.put (some name) (some data)) t' freed (map name) (some data) := by
  have stored := hashTableGet_isMap isMap name
  have searching := done
  obtain ⟨found, search, _⟩ := except_bind_eq_ok.mp searching
  cases found with
  | none =>
      have missing : map name = none :=
        Except.ok.inj (stored.symm.trans (get_of_not_found search))
      obtain ⟨nothing, added, adding, growing⟩ := hashTablePutOwned_missing search done
      have nodes := putNew_nodes isMap neat missing adding growing
      subst nothing
      rw [missing]
      constructor
      · rfl
      · rfl
      · exact nodes.1
      · exact nodes.2
  | some ref =>
      simp only [hashTablePutOwned, search] at done
      change (t.read ref >>= _) = _ at done
      obtain ⟨node, readable, returned⟩ := except_bind_eq_ok.mp done
      cases returned
      obtain ⟨isData, old, hData⟩ := found_data isMap readable search
      rw [← isData]
      have kept : (t.write ref { node with data := some data }).Neat := by
        apply neat.write
        intro address isChain
        rw [isChain] at readable
        exact neat.named address node (read_chain_eq_ok.mp readable)
      constructor
      · rfl
      · rw [dataOf_ownedData]
        exact List.append_nil _
      · exact kept
      · have same : (t.write ref { node with data := some data }).nodeCount = t.nodeCount :=
          nodeCount_write readable rfl
        rw [same, hData]
        rfl

end PostDns
