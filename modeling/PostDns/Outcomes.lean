/-
The outcome of a request (socket.c, `bind_socket_read`).

As long as the tables are maps and the aliases end, every decoded request with
initialised questions comes to one send: a reply to its sender, or the query upstream.
-/

import PostDns.Agreement
import PostDns.Chase
import PostDns.LocalReplies
import PostDns.TwoPasses

namespace PostDns

open Foundation
open Foundation.Walk (Acyclic Halts after)

/-! ### Finite tables -/

/-- A table holds finitely many names. -/
theorem IsMap.finite {α : Type} {t : HashTable α} {map : StringT → Option α}
    (isMap : IsMap t map) : {name | (map name).isSome}.Finite := by
  obtain ⟨contents, laid, means⟩ := isMap
  refine (List.finite_toSet
    ((List.range t.capacity).flatMap fun index => (contents index).map Entry.name)).subset ?_
  intro name stored
  obtain ⟨data, found⟩ := Option.isSome_iff_exists.mp stored
  rw [means, meaning_eq_some_iff laid] at found
  obtain ⟨index, inside, entry, member, isName, _⟩ := found
  exact List.mem_flatMap.mpr ⟨index, List.mem_range.mpr inside,
    List.mem_map.mpr ⟨entry, member, isName⟩⟩

/-! ### The aliases of a state -/

def cachedAliases (world : World) (name : StringT) : Option StringT :=
  match cnameCacheGet world.cnameTable name with
  | .ok (some cache) => some cache.name
  | _ => none

theorem Shows.cachedAliases {world : World} {maps : CacheMaps} (shows : Shows world maps) :
    cachedAliases world = aliasesIn maps.cname := by
  funext name
  rw [PostDns.cachedAliases, shows.cnameGet, aliasesIn]
  cases maps.cname name <;> rfl

theorem Shows.chased {world : World} {maps : CacheMaps} (shows : Shows world maps)
    {domain : StringT} (halts : Halts (aliasesIn maps.cname) domain) :
    ∃ links last, Chased world.cnameTable domain links last := by
  obtain ⟨count, ended⟩ := halts
  induction count generalizing domain with
  | zero => cases ended
  | succ count ih =>
      have found := shows.cnameGet domain
      cases hAlias : maps.cname domain with
      | none =>
          rw [hAlias] at found
          exact ⟨[], domain, .last found⟩
      | some cache =>
          rw [hAlias] at found
          have next : aliasesIn maps.cname domain = some cache.name := by
            rw [aliasesIn, hAlias]
            rfl
          rw [Walk.after_succ_of_step next] at ended
          obtain ⟨links, last, chased⟩ := ih ended
          exact ⟨_, last, .link found chased⟩

def AliasesEnd (world : World) (query : Query) : Prop :=
  Supported query → ∃ links last, Chased world.cnameTable query.name links last

theorem Shows.aliasesEnd {world : World} {maps : CacheMaps} (shows : Shows world maps)
    (acyclic : Acyclic (PostDns.cachedAliases world)) (query : Query) :
    AliasesEnd world query := by
  rw [shows.cachedAliases] at acyclic
  have finite : {name | (aliasesIn maps.cname name).isSome}.Finite := by
    refine shows.cname.finite.subset ?_
    intro name isAlias
    change ((maps.cname name).map fun cache => cache.name).isSome = true at isAlias
    rw [Option.isSome_map] at isAlias
    exact isAlias
  intro _
  exact shows.chased (acyclic.halts finite query.name)

theorem Readable.mono {world : World} {bound bound' : Nat} {query : Query}
    (readable : Readable world bound query) (larger : bound ≤ bound') :
    Readable world bound' query :=
  { ends := by
      intro supported
      obtain ⟨links, last, chased, short⟩ := readable.ends supported
      exact ⟨links, last, chased, by omega⟩
    name := readable.name
    address6 := readable.address6 }

theorem Shows.readable {world : World} {maps : CacheMaps} (shows : Shows world maps)
    {query : Query} (ended : AliasesEnd world query) : ∃ bound, Readable world bound query := by
  have looked : (query.type = 5 → ∃ found, cnameCacheGet world.cnameTable query.name = .ok found) ∧
      ∀ links last, query.type = 28 → Chased world.cnameTable query.name links last →
        ∃ found, ipv6CacheGet world.ipv6Table last = .ok found :=
    ⟨fun _ => ⟨_, shows.cnameGet query.name⟩, fun _ last _ _ => ⟨_, shows.ipv6Get last⟩⟩
  by_cases supported : Supported query
  · obtain ⟨links, last, chased⟩ := ended supported
    exact ⟨links.length + 1,
      { ends := fun _ => ⟨links, last, chased, Nat.lt_succ_self _⟩
        name := looked.1
        address6 := looked.2 }⟩
  · exact ⟨0,
      { ends := fun impossible => absurd impossible supported
        name := looked.1
        address6 := looked.2 }⟩

/-- One bound does for all questions. -/
theorem Shows.readableAll {world : World} {maps : CacheMaps} (shows : Shows world maps)
    {queries : List Query} (ended : UpToMissing world (AliasesEnd world) queries) :
    ∃ bound, UpToMissing world (Readable world bound) queries := by
  induction queries with
  | nil => exact ⟨0, trivial⟩
  | cons query queries ih =>
      obtain ⟨first, readable⟩ := shows.readable ended.1
      by_cases found : Found world query
      · obtain ⟨rest, others⟩ := ih (ended.2 found)
        exact ⟨max first rest, readable.mono (Nat.le_max_left first rest), fun _ =>
          others.imp fun _ readable => readable.mono (Nat.le_max_right first rest)⟩
      · exact ⟨first, readable, fun impossible => absurd impossible found⟩

/-! ### Requests that return -/

/-- What is sent fits the packet: the query itself when a question is not found, an error
when one is blocked, and else the records that the caches hold. -/
structure SendFits (world : World) (message : Message) : Prop where
  forwarded : (∃ query ∈ questionsOf message, ¬ Found world query) → FitsPacket message
  blocked : (∀ query ∈ questionsOf message, Found world query) →
    (∃ query ∈ questionsOf message, Blocked world query) → FitsPacket (blockedReply message)
  answered : (∀ query ∈ questionsOf message, Found world query) →
    (¬ ∃ query ∈ questionsOf message, Blocked world query) → ∀ env records,
      List.Forall₂ (QueryRecords env world) (questionsOf message) records →
        FitsPacket (cachedReply message records.flatten.length records.flatten)

theorem handleRequest_returns {env : Env} {world : World} {message : Message} {bound : Nat}
    {map : StringT → Option Ipv4Cache} (full : FullyInitialised message)
    (isMap : IsMap world.ipv4Table map)
    (filled : world.ipv4Table.Every fun cache => cache.node ≠ [])
    (readable : UpToMissing world (Readable world bound) (questionsOf message))
    (enough : bound ≤ env.fuel) (fits : SendFits world message) (address : SockAddr) :
    ∃ after sent, (handleRequest env address message world).out = .ok (after, sent) := by
  have ready := full.logReady
  obtain ⟨pass, counted⟩ := @countQueries_returns env world bound (questionsOf message)
    (FirstPass.start world.ipv4Table) map rfl isMap filled readable enough
  obtain ⟨isCached, isBanned⟩ := pass_decided counted
  cases cached : pass.cached with
  | false =>
      rw [cached, Bool.false_eq_true, false_iff] at isCached
      push Not at isCached
      obtain ⟨buf, encoded⟩ := (@message2buf_returns_iff env (clearReserved message)
        full.queries.ge full.answers.ge
        fun answer member => (full.shapes answer member).carries).mpr
        ((fitsPacket_clearReserved _).mpr (fits.forwarded isCached))
      exact ⟨_, _, (handleRequest_out_eq_ok ready).mpr (.forwarded counted cached encoded)⟩
  | true =>
      have allFound := isCached.mp cached
      cases banned : pass.banned with
      | true =>
          obtain ⟨after, buf, done⟩ := handleRequest_of_banned ready counted cached banned
            (fits.blocked allFound ((isBanned cached).mp banned)) address
          exact ⟨after, _, done⟩
      | false =>
          have unblocked : ¬ ∃ query ∈ questionsOf message, Blocked world query := by
            rw [← isBanned cached, banned]
            exact Bool.false_ne_true
          obtain ⟨records, made⟩ := countQueries_records rfl rfl counted cached
          obtain ⟨after, buf, done⟩ := handleRequest_of_made ready counted cached banned made
            (fits.answered allFound unblocked env records made) address
          exact ⟨after, _, done⟩

theorem sendFits_of_handleRequest {env : Env} {address : SockAddr} {message : Message}
    {before after : World} {sent : List Sent}
    (done : (handleRequest env address message before).out = .ok (after, sent)) :
    SendFits before message := by
  cases handled_of_handleRequest done with
  | forwarded counted uncached encoded =>
      have missing : ¬ ∀ query ∈ questionsOf message, Found before query := by
        rw [← (pass_decided counted).1, uncached]
        exact Bool.false_ne_true
      exact
        { forwarded := fun _ => (fitsPacket_clearReserved _).mp (message2buf_out_eq_ok.mp encoded).1
          blocked := fun allFound => absurd allFound missing
          answered := fun allFound => absurd allFound missing }
  | blocked counted cached banned encoded =>
      have allFound := (pass_decided counted).1.mp cached
      have blocked := ((pass_decided counted).2 cached).mp banned
      exact
        { forwarded := fun missing => by
            obtain ⟨query, asks, notFound⟩ := missing
            exact absurd (allFound query asks) notFound
          blocked := fun _ _ =>
            (fitsPacket_clearReserved _).mp (message2buf_out_eq_ok.mp encoded).1
          answered := fun _ unblocked => absurd blocked unblocked }
  | answered counted cached unbanned made encoded =>
      have allFound := (pass_decided counted).1.mp cached
      obtain ⟨revised, _⟩ := countQueries_frame rfl rfl counted
      have made' := (forall₂_queryRecords_revised revised).mp made
      have count := countQueries_counts rfl rfl counted cached unbanned made'
      have fits := (fitsPacket_clearReserved _).mp (message2buf_out_eq_ok.mp encoded).1
      rw [count, show (FirstPass.start before.ipv4Table).answerCount = 0 from rfl,
        Nat.zero_add] at fits
      exact
        { forwarded := fun missing => by
            obtain ⟨query, asks, notFound⟩ := missing
            exact absurd (allFound query asks) notFound
          blocked := fun _ blocked => by
            have banned := ((pass_decided counted).2 cached).mpr blocked
            rw [unbanned] at banned
            cases banned
          answered := fun _ _ env records others => by
            rw [forall₂_queryRecords_unique others made']
            exact fits }

theorem sendFits_of_missing {world : World} {message : Message} {query : Query}
    (asks : query ∈ questionsOf message) (missing : ¬ Found world query)
    (fits : FitsPacket message) : SendFits world message :=
  { forwarded := fun _ => fits
    blocked := fun allFound => absurd (allFound query asks) missing
    answered := fun allFound => absurd (allFound query asks) missing }

/-- What the larger bound lets the decoder return is what it has returned already. -/
theorem buf2message_fuel {machine : Env} {buf : UvBuf} {message : Message}
    (decoded : (buf2message machine buf).out = .ok message) {fuel : Nat}
    (more : machine.fuel ≤ fuel) :
    (buf2message ⟨fuel, machine.junk⟩ buf).out = .ok message := by
  have same : buf2message machine buf = buf2message ⟨fuel, machine.junk⟩ buf :=
    (buf2message_mono buf machine.junk machine.fuel fuel more).eq_of_ne (by simp [decoded])
  rw [← same]
  exact decoded

structure Returnable (world : World) (buf : UvBuf) (message : Message) : Prop where
  asked : 12 < buf.len ∨ queryCountOf buf = 0
  labelled : ∀ answer ∈ message.answers, ¬ RootTarget answer
  ended : UpToMissing world (AliasesEnd world) (questionsOf message)
  fits : SendFits world message

theorem bindSocketRead_returns {world : World} {maps : CacheMaps} (shows : Shows world maps)
    (filled : ListsFilled world) {machine : Env} {datagram : Datagram} {message : Message}
    (decoded : (buf2message machine datagram.buf).out = .ok message)
    (returnable : Returnable world datagram.buf message) (address : SockAddr) :
    ∃ enough, ∀ fuel, enough ≤ fuel → ∃ after sent,
      (bindSocketRead ⟨fuel, machine.junk⟩ datagram address world).out = .ok (after, sent) ∧
        (handleRequest ⟨fuel, machine.junk⟩ address message world).out = .ok (after, sent) := by
  have decodedFrom := decodedFrom decoded
  have full := decodedFrom.full_iff.mpr
    (decodedFrom.logReady_iff.mpr ⟨returnable.asked, returnable.labelled⟩)
  obtain ⟨bound, readable⟩ := shows.readableAll returnable.ended
  refine ⟨max bound machine.fuel, ?_⟩
  intro fuel enough
  obtain ⟨after, sent, done⟩ := @handleRequest_returns ⟨fuel, machine.junk⟩ world message
    bound maps.ipv4 full shows.ipv4 filled.ipv4 readable ((Nat.le_max_left _ _).trans enough)
    returnable.fits address
  refine ⟨after, sent, ?_, done⟩
  rw [bindSocketRead,
    Logged.bind_out_of_ok (buf2message_fuel decoded ((Nat.le_max_right _ _).trans enough))]
  exact done

theorem returnable_of_handleRequest {env : Env} {address : SockAddr} {before after : World}
    {sent : List Sent} {machine : Env} {buf : UvBuf} {message : Message}
    (decoded : (buf2message machine buf).out = .ok message)
    (done : (handleRequest env address message before).out = .ok (after, sent)) :
    Returnable before buf message := by
  have ready := (decodedFrom decoded).logReady_iff.mp (logReady_of_handleRequest done)
  have ended : UpToMissing before (AliasesEnd before) (questionsOf message) := by
    have counted : ∃ pass, (countQueries env before (questionsOf message)
        (FirstPass.start before.ipv4Table)).out = .ok pass := by
      cases handled_of_handleRequest done with
      | forwarded counted _ _ => exact ⟨_, counted⟩
      | blocked counted _ _ _ => exact ⟨_, counted⟩
      | answered counted _ _ _ _ => exact ⟨_, counted⟩
    obtain ⟨pass, counted⟩ := counted
    apply (countQueries_chased rfl rfl counted).imp
    intro query chases supported
    obtain ⟨links, last, chased, _⟩ := chases supported
    exact ⟨links, last, chased⟩
  exact
    { asked := ready.1
      labelled := ready.2
      ended := ended
      fits := sendFits_of_handleRequest done }

/-! ### One outcome -/

/-- The request is replied to and waits no longer, or the query goes upstream and its
sender waits for the reply. -/
inductive Outcome (message : Message) (address : SockAddr) (after : World) :
    List Sent → Prop where
  | replied {reply : Message} {buf : UvBuf} (same : SameQuestion reply message)
      (left : after.clients (featureOf message) = none) :
      Outcome message address after [.response address reply buf]
  | forwarded {buf : UvBuf} (waits : after.clients (featureOf message) = some address) :
      Outcome message address after [.query (clearReserved message) buf]

theorem outcome_of_handleRequest {env : Env} {address : SockAddr} {message : Message}
    {before after : World} {sent : List Sent}
    (done : (handleRequest env address message before).out = .ok (after, sent)) :
    Outcome message address after sent := by
  rcases handleRequest_eq_ok done with
    ⟨buf, isSent, clients⟩ | ⟨reply, buf, isSent, same, clients⟩
  · rw [isSent]
    apply Outcome.forwarded
    rw [clients, Function.update_self]
  · rw [isSent]
    apply Outcome.replied same
    rw [clients, Function.update_self]

def OneOutcome (junk : Site → Nat → UInt8) (world : World) (datagram : Datagram)
    (address : SockAddr) (message : Message) : Prop :=
  ∃ enough, ∀ fuel, enough ≤ fuel → ∃ after sent,
    (bindSocketRead ⟨fuel, junk⟩ datagram address world).out = .ok (after, sent) ∧
      Outcome message address after sent

/-- In every run whose sweeps are safe, as long as the cached aliases form no cycle, a
decoded datagram comes to exactly one outcome just when its questions are there, it
announces no alias of the root, and what is sent fits the packet. -/
theorem oneOutcome_iff {env : Env} {began : Int} {file : Option (List UInt8)}
    {start world : World} {malloc : Malloc}
    (started : (startUp env malloc began file).out = .ok start)
    {events : List ((Int × Occasion) × List Sent)} (run : Run SafeServe start events world)
    (acyclic : Acyclic (cachedAliases world)) {machine : Env} {datagram : Datagram}
    {message : Message} (decoded : (buf2message machine datagram.buf).out = .ok message)
    (address : SockAddr) :
    OneOutcome machine.junk world datagram address message ↔
      (12 < datagram.buf.len ∨ queryCountOf datagram.buf = 0) ∧
        (∀ answer ∈ message.answers, ¬ RootTarget answer) ∧ SendFits world message := by
  obtain ⟨maps, shows, _⟩ := safeRun_manualZero started run
  constructor
  · rintro ⟨enough, comes⟩
    obtain ⟨after, sent, done, _⟩ :=
      comes (max enough machine.fuel) (Nat.le_max_left _ _)
    rw [bindSocketRead, Logged.bind_out_of_ok
      (buf2message_fuel decoded (Nat.le_max_right enough _))] at done
    have returnable := returnable_of_handleRequest decoded done
    exact ⟨returnable.asked, returnable.labelled, returnable.fits⟩
  · rintro ⟨asked, labelled, fits⟩
    have lists : ListsFilled world :=
      Reachable.listsFilled (.intro started (run.mono fun _ _ _ step => step.1))
    obtain ⟨enough, returns⟩ := bindSocketRead_returns shows lists decoded
      { asked := asked
        labelled := labelled
        ended := upToMissing_of_all fun query _ => shows.aliasesEnd acyclic query
        fits := fits } address
    refine ⟨enough, ?_⟩
    intro fuel more
    obtain ⟨after, sent, read, done⟩ := returns fuel more
    exact ⟨after, sent, read, outcome_of_handleRequest done⟩

theorem acyclic_init : Acyclic (cachedAliases (World.init .ascending)) := by
  rw [(shows_init .ascending).cachedAliases]
  exact Walk.acyclic_none

/-- An address question about a name with neither alias nor addresses is not found. -/
theorem not_found_of_uncached {world : World} {query : Query} (isA : query.type = 1)
    (unaliased : cnameCacheGet world.cnameTable query.name = .ok none)
    (uncached : ipv4CacheGet world.ipv4Table query.name = .ok none) : ¬ Found world query := by
  intro found
  obtain ⟨links, last, cache, chased, stored⟩ := found.address4 isA
  rw [((Chased.last unaliased).unique chased).2, uncached] at stored
  cases stored

private theorem missing_init :
    ¬ Found (World.init .ascending) { name := [97], type := 1, cls := 1 } :=
  not_found_of_uncached rfl (by decide +kernel) (by decide +kernel)

theorem oneOutcome_oneAddress :
    OneOutcome patient.junk (World.init .ascending) oneAddress [1] oneAddressMessage := by
  have started : (startUp patient .ascending 0 none).out = .ok (World.init .ascending) := rfl
  apply (oneOutcome_iff started Run.nil acyclic_init oneAddress_decoded [1]).mpr
  refine ⟨Or.inl (by decide), ?_, sendFits_of_missing List.mem_cons_self missing_init (by decide)⟩
  rintro answer member ⟨isCname, _⟩
  rw [List.mem_singleton.mp member] at isCname
  exact absurd isCname (by decide)

/-- A header that announces a question it does not carry comes to no outcome. -/
theorem not_oneOutcome_headerOnly :
    (startUp patient .ascending 0 none).out = .ok (World.init .ascending) ∧
      Acyclic (cachedAliases (World.init .ascending)) ∧
      (buf2message patient headerOnly.buf).out = .ok headerOnlyMessage ∧
      ¬ OneOutcome patient.junk (World.init .ascending) headerOnly [1] headerOnlyMessage := by
  refine ⟨rfl, acyclic_init, headerOnly_decoded, ?_⟩
  intro outcome
  obtain ⟨enough, comes⟩ := outcome
  obtain ⟨after, sent, done, _⟩ := comes (max enough patient.fuel) (Nat.le_max_left _ _)
  rw [bindSocketRead, Logged.bind_out_of_ok
    (buf2message_fuel headerOnly_decoded (Nat.le_max_right enough _))] at done
  exact absurd (logReady_of_handleRequest done).queries (by decide)

/-! ### Answered or forwarded -/

end PostDns
