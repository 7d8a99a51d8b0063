/-
What the callbacks leave alone (socket.c).

The condition of the banned branch of `bind_socket_read` assigns to the flag it means to
test.  A request leaves every entry as it was exactly when the assignment never changes
the flag.  `query_socket_read` caches the answers before it looks for a pending request,
so a reply that nobody waits for is cached like any other.
-/

import PostDns.Lookups
import PostDns.HashTableSemantics
import PostDns.SocketSemantics

namespace PostDns

open Foundation

variable {α : Type}

/-! ### Assignments through pointers into a table -/

def NodeRevised (revise : α → α) (before after : Except Fault (HashNode α)) : Prop :=
  after = before ∨ ∃ node data, before = .ok node ∧ node.data = some data ∧
    after = .ok { node with data := some (revise data) }

structure Revised (revise : α → α) (before after : HashTable α) : Prop where
  capacity : after.capacity = before.capacity
  bound : after.chainBound = before.chainBound
  nodes : ∀ ref, NodeRevised revise (before.read ref) (after.read ref)

theorem Revised.refl (revise : α → α) (t : HashTable α) : Revised revise t t :=
  ⟨rfl, rfl, fun _ => Or.inl rfl⟩

theorem Revised.trans {revise : α → α} (idempotent : ∀ data, revise (revise data) = revise data)
    {first second third : HashTable α} (left : Revised revise first second)
    (right : Revised revise second third) : Revised revise first third := by
  refine ⟨right.capacity.trans left.capacity, right.bound.trans left.bound, ?_⟩
  intro ref
  rcases right.nodes ref with same | ⟨node, data, read, holds, changed⟩
  · rw [same]
    exact left.nodes ref
  · rcases left.nodes ref with same | ⟨node', data', read', holds', changed'⟩
    · rw [same] at read
      exact Or.inr ⟨node, data, read, holds, changed⟩
    · rw [changed'] at read
      cases read
      cases holds
      rw [idempotent] at changed
      exact Or.inr ⟨node', data', read', holds', changed⟩

theorem Revised.findNode {revise : α → α} {before after : HashTable α}
    (revised : Revised revise before after) (name : StringT) (fuel : Nat)
    (start : Option NodeRef) :
    findNode after name fuel start = findNode before name fuel start := by
  induction fuel generalizing start with
  | zero => rfl
  | succ fuel ih =>
      cases start with
      | none => rfl
      | some ref =>
          rcases revised.nodes ref with same | ⟨node, data, read, _, changed⟩
          · rw [PostDns.findNode, PostDns.findNode, same]
            simp only [ih]
          · rw [findNode_read changed, findNode_read read]
            simp only [ih]

theorem Revised.get {revise : α → α} {before after : HashTable α}
    (revised : Revised revise before after) (name : StringT) :
    hashTableGet after name = hashTableGet before name ∨
      ∃ data, hashTableGet before name = .ok (some data) ∧
        hashTableGet after name = .ok (some (revise data)) := by
  unfold hashTableGet
  rw [revised.findNode, revised.bound, revised.capacity]
  cases PostDns.findNode before name before.chainBound
      (some (.head (bucketIndex name before.capacity))) with
  | error fault => exact Or.inl rfl
  | ok found =>
      cases found with
      | none => exact Or.inl rfl
      | some ref =>
          change (after.read ref >>= _) = (before.read ref >>= _) ∨ ∃ data,
            (before.read ref >>= _) = _ ∧ (after.read ref >>= _) = _
          rcases revised.nodes ref with same | ⟨node, data, read, holds, changed⟩
          · rw [same]
            exact Or.inl rfl
          · rw [read, changed]
            exact Or.inr ⟨data, congrArg Except.ok holds, rfl⟩

theorem write_same {t : HashTable α} {ref : NodeRef} {node : HashNode α}
    (read : t.read ref = .ok node) : t.write ref node = t := by
  cases ref with
  | head index =>
      have here : t.table[index]? = some node := by
        cases hHead : t.table[index]? with
        | none => simp [HashTable.read, readNode, hHead] at read
        | some head =>
            simp only [HashTable.read, readNode, hHead] at read
            rw [Except.ok.inj read]
      have same : t.table.set index node = t.table := by
        apply List.ext_getElem?
        intro place
        by_cases isIndex : place = index
        · subst isIndex
          obtain ⟨inside, _⟩ := List.getElem?_eq_some_iff.mp here
          rw [List.getElem?_set_self inside, here]
        · rw [List.getElem?_set_ne (Ne.symm isIndex)]
      simp only [HashTable.write, same]
  | chain address =>
      simp only [HashTable.write, Heap.write_same (read_chain_eq_ok.mp read)]

/-- Revising what a lookup found gives the table in which the lookup finds the
revision; nothing changes where the revision is the same. -/
theorem writeThrough_revised {revise : α → α} {t t' : HashTable α} {name : StringT}
    {data : α} (found : hashTableGet t name = .ok (some data))
    (written : writeThrough t name (revise data) = .ok t') :
    Revised revise t t' ∧ hashTableGet t' name = .ok (some (revise data)) ∧
      (revise data = data → t' = t) := by
  unfold hashTableGet at found
  unfold writeThrough at written
  cases hFind : findNode t name t.chainBound (some (.head (bucketIndex name t.capacity))) with
  | error fault =>
      rw [hFind] at found
      cases found
  | ok result =>
      rw [hFind] at found written
      cases result with
      | none => cases found
      | some ref =>
          cases hRead : t.read ref with
          | error fault =>
              simp only [bind, Except.bind, hRead] at found
              cases found
          | ok node =>
              simp only [bind, Except.bind, hRead] at found written
              have holds : node.data = some data := Except.ok.inj found
              have isWritten : t.write ref { node with data := some (revise data) } = t' :=
                Except.ok.inj written
              subst isWritten
              have revised : Revised revise t
                  (t.write ref { node with data := some (revise data) }) := by
                refine ⟨write_capacity _ _ _, ?_, ?_⟩
                · rw [HashTable.chainBound, write_size, HashTable.chainBound]
                · intro other
                  by_cases same : other = ref
                  · subst same
                    exact Or.inr ⟨node, data, hRead, holds, read_write_same hRead _⟩
                  · exact Or.inl (read_write_of_ne t same _)
              refine ⟨revised, ?_, ?_⟩
              · unfold hashTableGet
                rw [revised.findNode, revised.bound, revised.capacity, hFind]
                change ((t.write ref _).read ref >>= _) = _
                rw [read_write_same hRead]
                rfl
              · intro same
                rw [same, ← holds]
                exact write_same hRead

/-! ### The flags that the first pass writes -/

/-- What the condition of the banned branch leaves in an entry. -/
def AddressCache.flagged (cache : Ipv4Cache) : Ipv4Cache :=
  { cache with manual := decide (cache.node.head? = some 0) }

theorem flagged_idempotent (cache : Ipv4Cache) : cache.flagged.flagged = cache.flagged := rfl

theorem flagged_eq_iff (cache : Ipv4Cache) :
    cache.flagged = cache ↔ cache.manual = decide (cache.node.head? = some 0) := by
  constructor
  · intro same
    rw [← same]
    rfl
  · intro agrees
    unfold AddressCache.flagged
    rw [← agrees]

structure Found (world : World) (query : Query) : Prop where
  address4 : query.type = 1 → ∃ links last cache,
    Chased world.cnameTable query.name links last ∧
      ipv4CacheGet world.ipv4Table last = .ok (some cache)
  name : query.type = 5 → ∃ cache,
    cnameCacheGet world.cnameTable query.name = .ok (some cache)
  address6 : query.type = 28 → ∃ links last cache,
    Chased world.cnameTable query.name links last ∧
      ipv6CacheGet world.ipv6Table last = .ok (some cache)

section FoundByType

variable {world : World} {query : Query} {links : List (StringT × CnameCache)}
  {last : StringT}

theorem found_inet4 {cache : Ipv4Cache} (isA : query.type = 1)
    (chased : Chased world.cnameTable query.name links last)
    (stored : ipv4CacheGet world.ipv4Table last = .ok (some cache)) : Found world query :=
  { address4 := fun _ => ⟨links, last, cache, chased, stored⟩
    name := fun isCname => by simp [isCname] at isA
    address6 := fun isAaaa => by simp [isAaaa] at isA }

theorem found_cname {cache : CnameCache} (isCname : query.type = 5)
    (stored : cnameCacheGet world.cnameTable query.name = .ok (some cache)) :
    Found world query :=
  { address4 := fun isA => by simp [isA] at isCname
    name := fun _ => ⟨cache, stored⟩
    address6 := fun isAaaa => by simp [isAaaa] at isCname }

theorem found_inet6 {cache : Ipv6Cache} (isAaaa : query.type = 28)
    (chased : Chased world.cnameTable query.name links last)
    (stored : ipv6CacheGet world.ipv6Table last = .ok (some cache)) : Found world query :=
  { address4 := fun isA => by simp [isA] at isAaaa
    name := fun isCname => by simp [isCname] at isAaaa
    address6 := fun _ => ⟨links, last, cache, chased, stored⟩ }

end FoundByType

/-- The entry that an address question ends at is marked as manual exactly when its
first address is zero. -/
def FlagKept (world : World) (query : Query) : Prop :=
  query.type = 1 → ∀ links last cache, Chased world.cnameTable query.name links last →
    ipv4CacheGet world.ipv4Table last = .ok (some cache) →
    cache.manual = decide (cache.node.head? = some 0)

def FlagsKept (world : World) : List Query → Prop
  | [] => True
  | query :: queries =>
      FlagKept world query ∧ (Found world query → FlagsKept world queries)

theorem countIpv4Cache_out_eq_ok {pass pass' : FirstPass} {domain : StringT}
    {answerCount : Nat} {cache : Ipv4Cache} :
    (countIpv4Cache pass domain answerCount cache).out = .ok pass' ↔
      ∃ address addresses t', cache.node = address :: addresses ∧
        writeThrough pass.ipv4Table domain cache.flagged = .ok t' ∧
        pass' =
          if address = 0 then
            { pass with answerCount := answerCount, banned := true, ipv4Table := t' }
          else { pass with answerCount := answerCount + cache.node.length, ipv4Table := t' } := by
  unfold countIpv4Cache AddressCache.flagged
  cases hNode : cache.node with
  | nil =>
      constructor
      · intro done
        cases done
      · rintro ⟨_, _, _, impossible, _⟩
        cases impossible
  | cons address addresses =>
      have flag : decide ((address :: addresses).head? = some 0) = decide (address = 0) := by
        simp
      rw [flag]
      dsimp only
      rw [ofExcept_bind_out_eq_ok]
      constructor
      · rintro ⟨t', written, returned⟩
        refine ⟨address, addresses, t', rfl, written, ?_⟩
        by_cases isZero : address = 0
        · simp only [isZero, decide_true, if_true] at returned ⊢
          exact (Except.ok.inj returned).symm
        · simp only [isZero, decide_false, Bool.false_eq_true, if_false] at returned ⊢
          exact (Except.ok.inj returned).symm
      · rintro ⟨first, rest, t', isNode, written, isPass⟩
        cases isNode
        refine ⟨t', written, ?_⟩
        subst isPass
        by_cases isZero : address = 0
        · simp only [isZero, decide_true, if_true]
          rfl
        · simp only [isZero, decide_false, Bool.false_eq_true, if_false]
          rfl

inductive TableStep (world : World) (query : Query) (t' : HashTable Ipv4Cache) : Prop where
  | same (table : t' = world.ipv4Table) (kept : FlagKept world query)
  | flagged {last : StringT} {cache : Ipv4Cache}
      (found : ipv4CacheGet world.ipv4Table last = .ok (some cache))
      (written : writeThrough world.ipv4Table last cache.flagged = .ok t')
      (kept : FlagKept world query ↔ cache.flagged = cache)

theorem CountStep.cached_iff {env : Env} {world : World} {query : Query}
    {pass pass' : FirstPass} (step : CountStep env world query pass pass')
    (cached : pass.cached = true) (table : pass.ipv4Table = world.ipv4Table) :
    pass'.cached = true ↔ Found world query := by
  cases step with
  | missing4 isA chased _ missing =>
      refine ⟨nofun, fun found => ?_⟩
      obtain ⟨links, last, cache, chased', stored⟩ := found.address4 isA
      rw [(chased.unique chased').2, ← table, missing] at stored
      cases stored
  | found4 isA chased _ found counted =>
      obtain ⟨address, _, t', _, _, isPass⟩ := countIpv4Cache_out_eq_ok.mp counted
      rw [table] at found
      apply iff_of_true _ (found_inet4 isA chased found)
      rw [isPass]
      by_cases isZero : address = 0
      · rw [if_pos isZero]
        exact cached
      · rw [if_neg isZero]
        exact cached
  | missingAlias isCname missing =>
      refine ⟨nofun, fun found => ?_⟩
      obtain ⟨cache, stored⟩ := found.name isCname
      rw [missing] at stored
      cases stored
  | foundAlias isCname found _ _ => exact iff_of_true cached (found_cname isCname found)
  | missing6 isAaaa chased _ missing =>
      refine ⟨nofun, fun found => ?_⟩
      obtain ⟨links, last, cache, chased', stored⟩ := found.address6 isAaaa
      rw [(chased.unique chased').2, missing] at stored
      cases stored
  | found6 isAaaa chased _ found =>
      exact iff_of_true cached (found_inet6 isAaaa chased found)
  | unsupported notA notCname notAaaa =>
      exact iff_of_true cached ⟨fun isA => absurd isA notA,
        fun isCname => absurd isCname notCname, fun isAaaa => absurd isAaaa notAaaa⟩

theorem CountStep.tableStep {env : Env} {world : World} {query : Query}
    {pass pass' : FirstPass} (step : CountStep env world query pass pass')
    (table : pass.ipv4Table = world.ipv4Table) : TableStep world query pass'.ipv4Table := by
  have notAddress (notA : query.type ≠ 1) : FlagKept world query :=
    fun isA => absurd isA notA
  cases step with
  | missing4 isA chased _ missing =>
      refine .same table ?_
      intro _ links last cache chased' stored
      rw [(chased.unique chased').2, ← table, missing] at stored
      cases stored
  | @found4 links last cache _ isA chased _ found counted =>
      obtain ⟨address, _, t', _, written, isPass⟩ := countIpv4Cache_out_eq_ok.mp counted
      have isTable : pass'.ipv4Table = t' := by
        rw [isPass]
        by_cases isZero : address = 0
        · rw [if_pos isZero]
        · rw [if_neg isZero]
      rw [table] at found written
      rw [isTable]
      refine .flagged found written ?_
      rw [flagged_eq_iff]
      constructor
      · intro kept
        exact kept isA links last cache chased found
      · intro agrees _ _ _ _ chased' stored
        rw [(chased.unique chased').2, found] at stored
        cases stored
        exact agrees
  | missingAlias isCname _ => exact .same table (notAddress (by simp [isCname]))
  | foundAlias isCname _ _ _ => exact .same table (notAddress (by simp [isCname]))
  | missing6 isAaaa _ _ _ => exact .same table (notAddress (by simp [isAaaa]))
  | found6 isAaaa _ _ _ => exact .same table (notAddress (by simp [isAaaa]))
  | unsupported notA _ _ => exact .same table (notAddress notA)

/-- A flag that was set stays set. -/
theorem Revised.keeps_flagged {t t' : HashTable Ipv4Cache}
    (revised : Revised AddressCache.flagged t t') {name : StringT} {cache : Ipv4Cache}
    (flagged : hashTableGet t name = .ok (some cache.flagged)) :
    hashTableGet t' name = .ok (some cache.flagged) := by
  rcases revised.get name with same | ⟨data, stored, changed⟩
  · rw [same]
    exact flagged
  · rw [flagged] at stored
    cases stored
    exact changed

/-- The first pass revises flags, and none of them changes exactly when all agree. -/
theorem countQueries_frame {env : Env} {world : World} {queries : List Query}
    {pass pass' : FirstPass} (cached : pass.cached = true)
    (table : pass.ipv4Table = world.ipv4Table)
    (done : (countQueries env world queries pass).out = .ok pass') :
    Revised AddressCache.flagged world.ipv4Table pass'.ipv4Table ∧
      ((∀ name, ipv4CacheGet pass'.ipv4Table name = ipv4CacheGet world.ipv4Table name) ↔
        FlagsKept world queries) ∧
      (FlagsKept world queries → pass'.ipv4Table = world.ipv4Table) := by
  induction queries generalizing world pass with
  | nil =>
      cases done
      rw [table]
      exact ⟨Revised.refl _ _, iff_of_true (fun _ => rfl) trivial, fun _ => rfl⟩
  | cons query queries ih =>
      obtain ⟨middle, step, rest⟩ := (countQueries_cached cached).mp done
      have isCached := step.cached_iff cached table
      -- the rest of the loop starts from the table that this question leaves
      have later : Revised AddressCache.flagged middle.ipv4Table pass'.ipv4Table ∧
          (middle.ipv4Table = world.ipv4Table →
            ((∀ name, ipv4CacheGet pass'.ipv4Table name =
                ipv4CacheGet world.ipv4Table name) ↔
              (Found world query → FlagsKept world queries)) ∧
            ((Found world query → FlagsKept world queries) →
              pass'.ipv4Table = world.ipv4Table)) := by
        cases hCached : middle.cached with
        | true =>
            have found := isCached.mp hCached
            rw [← countQueries_moved env world middle.ipv4Table] at rest
            obtain ⟨revised, kept, same⟩ := ih hCached rfl rest
            refine ⟨revised, fun unchanged => ?_⟩
            have isWorld : { world with ipv4Table := middle.ipv4Table } = world := by
              rw [unchanged]
            rw [isWorld] at kept same
            rw [forall_prop_of_true found]
            exact ⟨kept, same⟩
        | false =>
            rw [countQueries_uncached hCached] at rest
            cases rest
            have missing : ¬ Found world query := fun found => by
              rw [isCached.mpr found] at hCached
              cases hCached
            refine ⟨Revised.refl _ _, fun unchanged => ?_⟩
            exact ⟨iff_of_true (fun _ => by rw [unchanged]) fun found => absurd found missing,
              fun _ => unchanged⟩
      obtain ⟨revised, onward⟩ := later
      cases step.tableStep table with
      | same unchanged kept =>
          obtain ⟨iffKept, same⟩ := onward unchanged
          rw [unchanged] at revised
          refine ⟨revised, ?_, fun flags => same flags.2⟩
          rw [iffKept, FlagsKept, and_iff_right kept]
      | @flagged last cache found written kept =>
          obtain ⟨first, isFlagged, unchanged⟩ :=
            writeThrough_revised found written
          refine ⟨first.trans flagged_idempotent revised, ?_, ?_⟩
          · constructor
            · intro all
              have agrees : cache.flagged = cache := by
                have atLast : hashTableGet pass'.ipv4Table last = .ok (some cache) :=
                  (all last).trans found
                rw [revised.keeps_flagged isFlagged] at atLast
                exact Option.some.inj (Except.ok.inj atLast)
              exact ⟨kept.mpr agrees, (onward (unchanged agrees)).1.mp all⟩
            · intro flags
              exact (onward (unchanged (kept.mp flags.1))).1.mpr flags.2
          · intro flags
            exact (onward (unchanged (kept.mp flags.1))).2 flags.2

/-! ### Requests -/

structure EntriesKept (before after : World) : Prop where
  ipv4 : ∀ name, ipv4CacheGet after.ipv4Table name = ipv4CacheGet before.ipv4Table name
  ipv6 : ∀ name, ipv6CacheGet after.ipv6Table name = ipv6CacheGet before.ipv6Table name
  cname : ∀ name, cnameCacheGet after.cnameTable name = cnameCacheGet before.cnameTable name

/-- In any state, a client datagram leaves the entries of the caches as they are exactly
when each address question that is looked at ends at an entry whose flag says whether
its first address is zero.  Then it leaves the tables themselves as they are. -/
theorem entriesKept_iff {env : Env} {datagram : Datagram} {address : SockAddr}
    {message : Message} {before after : World} {sent : List Sent}
    (decoded : (buf2message env datagram.buf).out = .ok message)
    (done : (bindSocketRead env datagram address before).out = .ok (after, sent)) :
    (EntriesKept before after ↔ FlagsKept before (questionsOf message)) ∧
      (FlagsKept before (questionsOf message) → after.ipv4Table = before.ipv4Table) ∧
      after.ipv6Table = before.ipv6Table ∧ after.cnameTable = before.cnameTable := by
  rw [bindSocketRead, Logged.bind_out_of_ok decoded] at done
  obtain ⟨pass, counted, ipv4, ipv6, cname⟩ := (handled_of_handleRequest done).tables
  obtain ⟨_, kept, same⟩ := countQueries_frame rfl rfl counted
  rw [ipv4]
  refine ⟨?_, same, ipv6, cname⟩
  rw [← kept]
  constructor
  · intro entries
    rw [← ipv4]
    exact entries.ipv4
  · intro ipv4Kept
    refine ⟨?_, fun _ => by rw [ipv6], fun _ => by rw [cname]⟩
    rw [ipv4]
    exact ipv4Kept

private def fourTurns : Env := { fuel := 4, junk := fun _ _ => 0 }

private def lastOctetOfA (octet : UInt8) : Datagram :=
  { buf :=
      { base := [0, 7, 0x81, 0x80, 0, 1, 0, 1, 0, 0, 0, 0, 1, 97, 0, 0, 1, 0, 1,
          0xc0, 12, 0, 1, 0, 1, 0, 0, 0, 60, 0, 4, 0, 0, 0, octet]
        len := 35 }
    nonempty := Nat.succ_pos (nat_lit 34)
    fits := Nat.le_refl (nat_lit 35) }

private def asksForA : Datagram :=
  { buf :=
      { base := [0, 7, 1, 0, 0, 1, 0, 0, 0, 0, 0, 0, 1, 97, 0, 0, 1, 0, 1]
        len := 19 }
    nonempty := Nat.succ_pos (nat_lit 18)
    fits := Nat.le_refl (nat_lit 19) }

private def asksForAMessage : Message :=
  { id := 7
    flags :=
      { qr := 0, opcode := 0, aa := 0, tc := 0, rd := 1, ra := 0, z := 0, rcode := 0 }
    queryCount := 1
    answerCount := 0
    authorityCount := 0
    additionalCount := 0
    queries := [{ name := [97], type := 1, cls := 1 }]
    answers := [] }

private def lastOctetMessage (octet : UInt8) : Message :=
  { asksForAMessage with
    flags :=
      { qr := 1, opcode := 0, aa := 0, tc := 0, rd := 1, ra := 1, z := 0, rcode := 0 }
    answerCount := 1
    answers :=
      [{ name := [97]
         type := 1
         cls := 1
         ttl := 60
         responseDataLength := 4
         responseData := .inet4 octet.toUInt32 }] }

private def knowsA (octet : UInt8) : World × List Sent :=
  returned (querySocketRead fourTurns 0 (lastOctetOfA octet) (World.init .ascending))

private def askedForA (octet : UInt8) : World × List Sent :=
  returned (bindSocketRead fourTurns asksForA [1] (knowsA octet).1)

private theorem knowsA_run {octet : UInt8}
    (told : (buf2message fourTurns (lastOctetOfA octet).buf).out = .ok (lastOctetMessage octet))
    (done : (querySocketRead fourTurns 0 (lastOctetOfA octet)
      (World.init .ascending)).out.isOk = true) :
    ServerRun .ascending [(.reply (lastOctetMessage octet), (knowsA octet).2)] (knowsA octet).1 :=
  Run.snoc Run.nil (.reply told (out_eq_returned done))

theorem entriesKept_one : EntriesKept (knowsA 1).1 (askedForA 1).1 := by
  have done : (bindSocketRead fourTurns asksForA [1] (knowsA 1).1).out =
      .ok ((askedForA 1).1, (askedForA 1).2) := out_eq_returned (by decide +kernel)
  have decoded : (buf2message fourTurns asksForA.buf).out = .ok asksForAMessage := by rfl
  refine (entriesKept_iff decoded done).1.mpr ⟨?_, fun _ => trivial⟩
  intro _ links last cache chased stored
  have missing : cnameCacheGet (knowsA 1).1.cnameTable [97] = .ok none := by decide +kernel
  obtain ⟨_, isLast⟩ := (Chased.last missing).unique chased
  have present : ipv4CacheGet (knowsA 1).1.ipv4Table [97] =
      .ok (some { node := [1], ttl := 120, timestamp := 0, manual := false }) := by
    decide +kernel
  rw [isLast, present] at stored
  cases stored
  decide

/-- After one upstream answer with the address 0.0.0.0, a client request marks the
entry as manual. -/
theorem not_entriesKept_zero :
    ServerRun .ascending [(.reply (lastOctetMessage 0), (knowsA 0).2)] (knowsA 0).1 ∧
      (bindSocketRead fourTurns asksForA [1] (knowsA 0).1).out =
        .ok ((askedForA 0).1, (askedForA 0).2) ∧
      ¬ EntriesKept (knowsA 0).1 (askedForA 0).1 := by
  refine ⟨knowsA_run (by rfl) (by decide +kernel), out_eq_returned (by decide +kernel), ?_⟩
  intro kept
  have same := kept.ipv4 [97]
  revert same
  decide +kernel

/-! ### Unsolicited replies -/

/-- In any state, a reply that matches no pending request sends nothing and leaves the
pending requests alone; its answers are cached as they are with any other requests
pending, and the tables stay as they are when there is no answer to cache. -/
theorem unsolicited_reply {env : Env} {now : Int} {datagram : Datagram} {message : Message}
    {before after : World} {sent : List Sent}
    (decoded : (buf2message env datagram.buf).out = .ok message)
    (unsolicited : before.clients (featureOf message) = none)
    (done : (querySocketRead env now datagram before).out = .ok (after, sent)) :
    sent = [] ∧ after.clients = before.clients ∧
      (∀ clients after' sent',
        (querySocketRead env now datagram { before with clients := clients }).out =
          .ok (after', sent') →
        after'.ipv4Table = after.ipv4Table ∧ after'.ipv6Table = after.ipv6Table ∧
          after'.cnameTable = after.cnameTable) ∧
      ((∀ answer ∈ message.answers.take message.answerCount.toNat, Uncacheable answer) →
        after.ipv4Table = before.ipv4Table ∧ after.ipv6Table = before.ipv6Table ∧
          after.cnameTable = before.cnameTable) := by
  rw [querySocketRead, Logged.bind_out_of_ok decoded] at done
  have stored := handleReply_stored done
  have silent : sent = [] ∧ after.clients = before.clients := by
    rcases handleReply_eq_ok done with ⟨_, nothing, same⟩ | ⟨_, _, waiting, _, _⟩
    · exact ⟨nothing, same⟩
    · rw [unsolicited] at waiting
      cases waiting
  refine ⟨silent.1, silent.2, ?_, fun uncacheable => stored.of_uncacheable uncacheable⟩
  intro clients after' sent' done'
  rw [querySocketRead, Logged.bind_out_of_ok decoded] at done'
  have stored' := handleReply_stored done'
  refine stored.unique ?_ ?_ ?_ stored' <;> rfl

theorem unsolicited_reply_sample :
    (knowsA 1).2 = [] ∧ (knowsA 1).1.clients = (World.init .ascending).clients := by
  have decoded : (buf2message fourTurns (lastOctetOfA 1).buf).out =
      .ok (lastOctetMessage 1) := by rfl
  have done : (querySocketRead fourTurns 0 (lastOctetOfA 1) (World.init .ascending)).out =
      .ok ((knowsA 1).1, (knowsA 1).2) := out_eq_returned (by decide +kernel)
  obtain ⟨nothing, same, _⟩ := unsolicited_reply decoded rfl done
  exact ⟨nothing, same⟩

/-- Before any request has come in, one datagram puts an address into the cache. -/
theorem not_cachesKept_unsolicited :
    (buf2message fourTurns (lastOctetOfA 1).buf).out = .ok (lastOctetMessage 1) ∧
      (World.init .ascending).clients (featureOf (lastOctetMessage 1)) = none ∧
      (querySocketRead fourTurns 0 (lastOctetOfA 1) (World.init .ascending)).out =
        .ok ((knowsA 1).1, (knowsA 1).2) ∧
      ¬ EntriesKept (World.init .ascending) (knowsA 1).1 := by
  refine ⟨by rfl, rfl, out_eq_returned (by decide +kernel), ?_⟩
  intro kept
  have same := kept.ipv4 [97]
  revert same
  decide +kernel

end PostDns
