/-
The caches as three maps.

A reply, a request and a sweep each have a counterpart on maps, and as long as no
removal of a sweep goes wrong the tables of the server show what the counterparts
compute.  What a run leaves in the caches is then a matter of maps alone.
-/

import PostDns.CacheRuns
import PostDns.Frame
import PostDns.Server
import PostDns.Sweeping

namespace PostDns

open Foundation

structure CacheMaps where
  ipv4 : StringT → Option Ipv4Cache
  ipv6 : StringT → Option Ipv6Cache
  cname : StringT → Option CnameCache

structure Shows (world : World) (maps : CacheMaps) : Prop where
  ipv4 : IsMap world.ipv4Table maps.ipv4
  ipv6 : IsMap world.ipv6Table maps.ipv6
  cname : IsMap world.cnameTable maps.cname

def CacheMaps.empty : CacheMaps :=
  { ipv4 := fun _ => none
    ipv6 := fun _ => none
    cname := fun _ => none }

theorem shows_init (malloc : Malloc) : Shows (World.init malloc) CacheMaps.empty :=
  { ipv4 := hashTableNew_isMap malloc.ipv4
    ipv6 := hashTableNew_isMap malloc.ipv6
    cname := hashTableNew_isMap malloc.cname }

section Lookups

variable {world : World} {maps : CacheMaps} (shows : Shows world maps)

include shows

theorem Shows.ipv4Get (name : StringT) :
    ipv4CacheGet world.ipv4Table name = .ok (maps.ipv4 name) :=
  hashTableGet_isMap shows.ipv4 name

theorem Shows.ipv6Get (name : StringT) :
    ipv6CacheGet world.ipv6Table name = .ok (maps.ipv6 name) :=
  hashTableGet_isMap shows.ipv6 name

theorem Shows.cnameGet (name : StringT) :
    cnameCacheGet world.cnameTable name = .ok (maps.cname name) :=
  hashTableGet_isMap shows.cname name

end Lookups

/-! ### Replies -/

def answerAddress4 (answer : ResourceRecord) : Option UInt32 :=
  match answer.responseData with
  | .inet4 address => if answer.type = 1 then some address else none
  | _ => none

def answerAddress6 (answer : ResourceRecord) : Option (List UInt8) :=
  match answer.responseData with
  | .inet6 address => if answer.type = 28 then some address else none
  | _ => none

/-- The last answer of the type gives the owner of all addresses. -/
def ownerAfter (type : UInt16) (owner : Option StringT) (answer : ResourceRecord) :
    Option StringT :=
  if answer.type = type then some answer.name else owner

def lastOwner (type : UInt16) (answers : List ResourceRecord) : Option StringT :=
  answers.foldl (ownerAfter type) none

def enterCname (now : Int) (map : StringT → Option CnameCache) (answer : ResourceRecord) :
    StringT → Option CnameCache :=
  match answer.responseData with
  | .domain name =>
      if answer.type = 5 then
        Function.update map answer.name
          (some { name := name, ttl := 120, timestamp := now, manual := false })
      else map
  | _ => map

def collectedCache {Address : Type} (now : Int) (node : List Address) :
    AddressCache Address :=
  { node := node
    ttl := 120
    timestamp := now
    manual := false }

def CacheMaps.reply (now : Int) (answers : List ResourceRecord) (maps : CacheMaps) :
    CacheMaps :=
  { ipv4 :=
      match lastOwner 1 answers with
      | none => maps.ipv4
      | some domain =>
          ipv4MapPut now maps.ipv4 domain
            (collectedCache now (answers.filterMap answerAddress4))
    ipv6 :=
      match lastOwner 28 answers with
      | none => maps.ipv6
      | some domain =>
          Function.update maps.ipv6 domain
            (some (collectedCache now (answers.filterMap answerAddress6)))
    cname := answers.foldl (enterCname now) maps.cname }

/-- The first map is as it was, or the addresses are put under their last owner. -/
theorem CacheMaps.reply_ipv4 {holds : (StringT → Option Ipv4Cache) → Prop} {now : Int}
    {answers : List ResourceRecord} {maps : CacheMaps} (kept : holds maps.ipv4)
    (put : ∀ owner, lastOwner 1 answers = some owner →
      holds (ipv4MapPut now maps.ipv4 owner
        (collectedCache now (answers.filterMap answerAddress4)))) :
    holds (maps.reply now answers).ipv4 := by
  unfold CacheMaps.reply
  cases hOwner : lastOwner 1 answers with
  | none => exact kept
  | some owner => exact put owner hOwner

structure Gathered (now : Int) (answers : List ResourceRecord) (before after : Collected) :
    Prop where
  domain4 : after.ipv4Domain = answers.foldl (ownerAfter 1) before.ipv4Domain
  cache4 : after.ipv4Cache =
    { before.ipv4Cache with
      node := before.ipv4Cache.node ++ answers.filterMap answerAddress4 }
  domain6 : after.ipv6Domain = answers.foldl (ownerAfter 28) before.ipv6Domain
  cache6 : after.ipv6Cache =
    { before.ipv6Cache with
      node := before.ipv6Cache.node ++ answers.filterMap answerAddress6 }
  cname : ∀ map, IsMap before.cnameTable map →
    IsMap after.cnameTable (answers.foldl (enterCname now) map)

theorem AnswerStep.gathered {now : Int} {collected collected' : Collected}
    {answer : ResourceRecord} (step : AnswerStep now collected answer collected') :
    Gathered now [answer] collected collected' := by
  have enters (notCname : answer.type ≠ 5) (map : StringT → Option CnameCache) :
      enterCname now map answer = map := by
    unfold enterCname
    cases answer.responseData with
    | domain name => exact if_neg notCname
    | _ => rfl
  cases step with
  | inet4 isA data =>
      have notCname : answer.type ≠ 5 := by simp [isA]
      constructor
      · simp [ownerAfter, isA]
      · simp [answerAddress4, data, isA]
      · simp [ownerAfter, isA]
      · simp [answerAddress6, data]
      · intro map isMap
        rw [List.foldl_cons, List.foldl_nil, enters notCname]
        exact isMap
  | @domain name cnameTable isCname data put =>
      constructor
      · simp [ownerAfter, isCname]
      · simp [answerAddress4, data]
      · simp [ownerAfter, isCname]
      · simp [answerAddress6, data]
      · intro map isMap
        obtain ⟨table, run, isMap'⟩ := cnameCachePut_isMap isMap now answer.name
          { name := name, ttl := 120, timestamp := now, manual := false }
        have same : table = cnameTable := Except.ok.inj (run.symm.trans put)
        subst same
        rw [List.foldl_cons, List.foldl_nil, enterCname, data]
        simp only [isCname, if_true]
        exact isMap'
  | inet6 isAaaa data =>
      have notCname : answer.type ≠ 5 := by simp [isAaaa]
      constructor
      · simp [ownerAfter, isAaaa]
      · simp [answerAddress4, data]
      · simp [ownerAfter, isAaaa]
      · simp [answerAddress6, data, isAaaa]
      · intro map isMap
        rw [List.foldl_cons, List.foldl_nil, enters notCname]
        exact isMap
  | skipped uncacheable =>
      obtain ⟨notA, notCname, notAaaa⟩ := uncacheable
      have no4 : answerAddress4 answer = none := by
        unfold answerAddress4
        cases answer.responseData with
        | inet4 address => exact if_neg notA
        | _ => rfl
      have no6 : answerAddress6 answer = none := by
        unfold answerAddress6
        cases answer.responseData with
        | inet6 address => exact if_neg notAaaa
        | _ => rfl
      constructor
      · simp [ownerAfter, notA]
      · simp [no4]
      · simp [ownerAfter, notAaaa]
      · simp [no6]
      · intro map isMap
        rw [List.foldl_cons, List.foldl_nil, enters notCname]
        exact isMap

theorem gathered_of_cacheAnswers {now : Int} {answers : List ResourceRecord}
    {collected collected' : Collected}
    (done : (cacheAnswers now answers collected).out = .ok collected') :
    Gathered now answers collected collected' := by
  induction answers generalizing collected with
  | nil =>
      cases done
      exact ⟨rfl, by simp, rfl, by simp, fun _ isMap => isMap⟩
  | cons answer answers ih =>
      obtain ⟨middle, first, rest⟩ := Logged.bind_out_eq_ok.mp done
      have here := (answerStep_of_cacheAnswer first).gathered
      have later := ih rest
      have joined {Address : Type} (address : ResourceRecord → Option Address) :
          (answer :: answers).filterMap address =
            [answer].filterMap address ++ answers.filterMap address := by
        rw [← List.filterMap_append]
        rfl
      constructor
      · rw [later.domain4, here.domain4]
        rfl
      · rw [later.cache4, here.cache4, joined, ← List.append_assoc]
      · rw [later.domain6, here.domain6]
        rfl
      · rw [later.cache6, here.cache6, joined, ← List.append_assoc]
      · intro map isMap
        exact later.cname _ (here.cname map isMap)

theorem ReplyStored.shows {now : Int} {message : Message} {before after : World}
    {maps : CacheMaps} (shows : Shows before maps)
    (stored : ReplyStored now message before after) :
    Shows after (maps.reply now (message.answers.take message.answerCount.toNat)) := by
  obtain ⟨_, collected, collecting, putIpv4, putIpv6, isCname⟩ := stored
  have gathered := gathered_of_cacheAnswers collecting
  have owner4 : collected.ipv4Domain =
      lastOwner 1 (message.answers.take message.answerCount.toNat) := gathered.domain4
  have owner6 : collected.ipv6Domain =
      lastOwner 28 (message.answers.take message.answerCount.toNat) := gathered.domain6
  constructor
  · unfold CacheMaps.reply
    rw [gathered.cache4] at putIpv4
    rcases putNamed_cases putIpv4 with ⟨unnamed, same⟩ | ⟨domain, named, put⟩
    · rw [owner4] at unnamed
      simp only [unnamed]
      rw [same]
      exact shows.ipv4
    · rw [owner4] at named
      simp only [named]
      obtain ⟨t', run, isMap⟩ := ipv4CachePut_isMap shows.ipv4 now domain
        { (Collected.start now before.cnameTable).ipv4Cache with
          node := (Collected.start now before.cnameTable).ipv4Cache.node ++
            (message.answers.take message.answerCount.toNat).filterMap answerAddress4 }
      have sameTable : t' = after.ipv4Table := Except.ok.inj (run.symm.trans put)
      rw [← sameTable]
      exact isMap
  · unfold CacheMaps.reply
    rw [gathered.cache6] at putIpv6
    rcases putNamed_cases putIpv6 with ⟨unnamed, same⟩ | ⟨domain, named, put⟩
    · rw [owner6] at unnamed
      simp only [unnamed]
      rw [same]
      exact shows.ipv6
    · rw [owner6] at named
      simp only [named]
      obtain ⟨t', run, isMap⟩ := ipv6CachePut_isMap shows.ipv6 now domain
        { (Collected.start now before.cnameTable).ipv6Cache with
          node := (Collected.start now before.cnameTable).ipv6Cache.node ++
            (message.answers.take message.answerCount.toNat).filterMap answerAddress6 }
      have sameTable : t' = after.ipv6Table := Except.ok.inj (run.symm.trans put)
      rw [← sameTable]
      exact isMap
  · rw [isCname]
    exact gathered.cname maps.cname shows.cname

/-! ### Requests -/

/-- Entries differ in their flags at most, and then the flag says whether the first
address is zero. -/
def FlagsRevised (before after : StringT → Option Ipv4Cache) : Prop :=
  ∀ name, after name = before name ∨ after name = (before name).map AddressCache.flagged

theorem Handled.shows {env : Env} {address : SockAddr} {message : Message}
    {before after : World} {sent : List Sent} {maps : CacheMaps} (shows : Shows before maps)
    (handled : Handled env address message before after sent) :
    ∃ ipv4, FlagsRevised maps.ipv4 ipv4 ∧ Shows after { maps with ipv4 := ipv4 } := by
  obtain ⟨pass, counted, ipv4Table, ipv6Table, cnameTable⟩ := handled.tables
  have starts : IsMap (FirstPass.start before.ipv4Table).ipv4Table maps.ipv4 := shows.ipv4
  obtain ⟨ipv4, isMap⟩ := countQueries_isMap starts counted
  obtain ⟨revised, _⟩ := countQueries_frame rfl rfl counted
  refine ⟨ipv4, ?_, ?_⟩
  · intro name
    have new : hashTableGet pass.ipv4Table name = .ok (ipv4 name) :=
      hashTableGet_isMap isMap name
    have old : hashTableGet before.ipv4Table name = .ok (maps.ipv4 name) :=
      shows.ipv4Get name
    rcases revised.get name with same | ⟨cache, found, flagged⟩
    · rw [new, old] at same
      exact Or.inl (Except.ok.inj same)
    · rw [old] at found
      rw [new] at flagged
      right
      rw [Except.ok.inj found, Except.ok.inj flagged]
      rfl
  · constructor
    · rw [ipv4Table]
      exact isMap
    · rw [ipv6Table]
      exact shows.ipv6
    · rw [cnameTable]
      exact shows.cname

/-! ### Sweeps -/

def ipv4Expired (now : Int) (cache : Ipv4Cache) : Bool :=
  !cache.manual && decide (cache.timestamp + cache.ttl < now)

def ipv6Expired (now : Int) (cache : Ipv6Cache) : Bool :=
  decide (cache.timestamp + cache.ttl < now)

def CacheMaps.sweep (now : Int) (maps : CacheMaps) : CacheMaps :=
  { ipv4 := fun name => (maps.ipv4 name).filter fun cache => !ipv4Expired now cache
    ipv6 := fun name => (maps.ipv6 name).filter fun cache => !ipv6Expired now cache
    cname := maps.cname }

/-- No removal of the sweep meets its name at the head of a long chain. -/
structure SweepsSafe (now : Int) (world : World) : Prop where
  ipv4 : SweepSafe (ipv4Expired now) world.ipv4Table
  ipv6 : SweepSafe (ipv6Expired now) world.ipv6Table

theorem clearCallback_shows {now : Int} {before after : World} {maps : CacheMaps}
    (shows : Shows before maps) (safe : SweepsSafe now before)
    (done : (clearCallback now before).out = .ok after) : Shows after (maps.sweep now) := by
  obtain ⟨ipv4Table, clearIpv4, rest⟩ := Logged.bind_out_eq_ok.mp done
  obtain ⟨ipv6Table, clearIpv6, others⟩ := Logged.bind_out_eq_ok.mp rest
  obtain ⟨cnameTable, clearCname, returned⟩ := Logged.bind_out_eq_ok.mp others
  cases clearCname
  cases returned
  exact
    { ipv4 := cacheClear_isMap shows.ipv4 safe.ipv4 clearIpv4
      ipv6 := cacheClear_isMap shows.ipv6 safe.ipv6 clearIpv6
      cname := shows.cname }

/-! ### Callbacks -/

inductive MapStep (before : CacheMaps) : Int × Occasion → CacheMaps → Prop where
  | request {now : Int} {message : Message} {address : SockAddr}
      {ipv4 : StringT → Option Ipv4Cache} (flags : FlagsRevised before.ipv4 ipv4) :
      MapStep before (now, .request message address) { before with ipv4 := ipv4 }
  | reply {now : Int} {message : Message} :
      MapStep before (now, .reply message)
        (before.reply now (message.answers.take message.answerCount.toNat))
  | sweep {now : Int} : MapStep before (now, .sweep) (before.sweep now)

def SafeWhen (before : World) (event : Int × Occasion) : Prop :=
  event.2 = .sweep → SweepsSafe event.1 before

theorem Serve.mapStep {before after : World} {maps : CacheMaps}
    {label : (Int × Occasion) × List Sent} (shows : Shows before maps)
    (safe : SafeWhen before label.1) (step : Serve before label after) :
    ∃ maps', Shows after maps' ∧ MapStep maps label.1 maps' := by
  cases step with
  | request decoded done =>
      rw [bindSocketRead, Logged.bind_out_of_ok decoded] at done
      obtain ⟨ipv4, flags, shows'⟩ := (handled_of_handleRequest done).shows shows
      exact ⟨_, shows', .request flags⟩
  | reply decoded done =>
      rw [querySocketRead, Logged.bind_out_of_ok decoded] at done
      exact ⟨_, (handleReply_stored done).shows shows, .reply⟩
  | sweep done => exact ⟨_, clearCallback_shows shows (safe rfl) done, .sweep⟩

theorem Serve.reply_shows {before after : World} {maps : CacheMaps} {now : Int}
    {message : Message} {sent : List Sent} (shows : Shows before maps)
    (step : Serve before ((now, .reply message), sent) after) :
    Shows after (maps.reply now (message.answers.take message.answerCount.toNat)) := by
  have safe : SafeWhen before (now, .reply message) := by
    intro isSweep
    cases isSweep
  obtain ⟨maps', shows', mapStep⟩ := step.mapStep shows safe
  cases mapStep
  exact shows'

/-- What every callback of a kind with safe removals keeps of the maps holds after a run
of such callbacks. -/
theorem showsInvariant {step : World → (Int × Occasion) × List Sent → World → Prop}
    (serves : ∀ world label world', step world label world' →
      Serve world label world' ∧ SafeWhen world label.1)
    (holds : CacheMaps → Prop)
    (keeps : ∀ world label world' before after, Shows world before → holds before →
      step world label world' → MapStep before label.1 after → holds after)
    {start world : World} {maps : CacheMaps} (shows : Shows start maps) (starts : holds maps)
    {events : List ((Int × Occasion) × List Sent)} (run : Run step start events world) :
    ∃ maps', Shows world maps' ∧ holds maps' := by
  apply run.invariant (fun _ world => ∃ maps, Shows world maps ∧ holds maps)
    ⟨maps, shows, starts⟩
  intro _ label world world' earlier taken
  obtain ⟨before, showsBefore, held⟩ := earlier
  obtain ⟨served, safe⟩ := serves world label world' taken
  obtain ⟨after, showsAfter, mapStep⟩ := served.mapStep showsBefore safe
  exact ⟨after, showsAfter, keeps world label world' before after showsBefore held taken mapStep⟩

/-! ### What all entries have in common -/

section Each

variable {α : Type} {holds holds' : α → Prop} {map : StringT → Option α}

def EachCached (holds : α → Prop) (map : StringT → Option α) : Prop :=
  ∀ name data, map name = some data → holds data

theorem EachCached.mono (each : EachCached holds map) (weaker : ∀ data, holds data → holds' data) :
    EachCached holds' map :=
  fun name data stored => weaker data (each name data stored)

theorem EachCached.update (each : EachCached holds map) {name : StringT} {data : α}
    (new : holds data) : EachCached holds (Function.update map name (some data)) := by
  intro other found stored
  by_cases same : other = name
  · rw [same, Function.update_self] at stored
    cases stored
    exact new
  · rw [Function.update_of_ne same] at stored
    exact each other found stored

theorem EachCached.filter (each : EachCached holds map) {keep : α → Bool}
    (kept : ∀ data, holds data → keep data = true → holds' data) :
    EachCached holds' (fun name => (map name).filter keep) := by
  intro name data stored
  obtain ⟨found, keeps⟩ := Option.filter_eq_some_iff.mp stored
  exact kept data (each name data found) keeps

theorem EachCached.mapPut {holds : Ipv4Cache → Prop} {map : StringT → Option Ipv4Cache}
    (each : EachCached holds map) {now : Int} {name : StringT} {cache : Ipv4Cache}
    (new : holds (cache.stored now)) : EachCached holds (ipv4MapPut now map name cache) := by
  unfold ipv4MapPut
  split
  · exact each
  · exact each.update new

theorem EachCached.flags {holds : Ipv4Cache → Prop} {map map' : StringT → Option Ipv4Cache}
    (each : EachCached holds map) (flags : FlagsRevised map map')
    (flagged : ∀ cache, holds cache → holds cache.flagged) : EachCached holds map' := by
  intro name cache stored
  rcases flags name with same | revised
  · rw [same] at stored
    exact each name cache stored
  · rw [revised] at stored
    obtain ⟨old, found, isFlagged⟩ := Option.map_eq_some_iff.mp stored
    rw [← isFlagged]
    exact flagged old (each name old found)

theorem EachCached.enterCname {holds : CnameCache → Prop} {map : StringT → Option CnameCache}
    (each : EachCached holds map) {now : Int}
    (new : ∀ name, holds { name := name, ttl := 120, timestamp := now, manual := false })
    (answers : List ResourceRecord) :
    EachCached holds (answers.foldl (PostDns.enterCname now) map) := by
  induction answers generalizing map with
  | nil => exact each
  | cons answer answers ih =>
      rw [List.foldl_cons]
      apply ih
      unfold PostDns.enterCname
      split
      · split
        · exact each.update (new _)
        · exact each
      · exact each

end Each

end PostDns
