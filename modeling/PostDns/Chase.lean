/-
Following cached aliases.

The loops that follow the aliases of a name come to an end for every name exactly when
the graph of the cached aliases has no cycle.
-/

import PostDns.Foundation.Walk
import PostDns.CacheRuns
import PostDns.Termination

namespace PostDns

open Foundation
open Foundation.Walk (Acyclic Halts after)

/-! ### The loop over the aliases of a name -/

def Total {β : Type} (visit : StringT → CnameCache → β → Exec β) : Prop :=
  ∀ domain cache made, ∃ made', (visit domain cache made).out = .ok made'

theorem countAlias_total : Total countAlias :=
  fun _ _ answerCount => ⟨answerCount + 1, rfl⟩

theorem putAlias_total (size : Nat) : Total (putAlias size) :=
  fun _ _ _ => ⟨_, rfl⟩

section Loop

variable {β : Type} {visit : StringT → CnameCache → β → Exec β}
  {t : HashTable CnameCache} {map : StringT → Option CnameCache} (isMap : IsMap t map)

include isMap

theorem cnameLoop_succ (fuel : Nat) (domain : StringT) (made : β) :
    cnameLoop visit t (fuel + 1) domain made =
      match map domain with
      | none => pure (domain, made)
      | some cache => visit domain cache made >>= cnameLoop visit t fuel cache.name := by
  have found : cnameCacheGet t domain = .ok (map domain) := hashTableGet_isMap isMap domain
  rw [cnameLoop, found]
  cases map domain <;> rfl

/-- With as many turns as the walk needs, the loop ends at a name without alias. -/
theorem cnameLoop_of_after (total : Total visit) {count : Nat} {domain : StringT}
    (halts : after (aliasesIn map) count domain = none) (made : β) :
    ∃ last made' log, map last = none ∧ ∀ fuel, count ≤ fuel →
      cnameLoop visit t fuel domain made = { log := log, out := .ok (last, made') } := by
  induction count generalizing domain made with
  | zero => cases halts
  | succ count ih =>
      cases hAlias : map domain with
      | none =>
          refine ⟨domain, made, [], hAlias, ?_⟩
          intro fuel enough
          obtain ⟨fuel, rfl⟩ := Nat.exists_eq_succ_of_ne_zero
            (Nat.ne_of_gt (Nat.lt_of_lt_of_le (Nat.succ_pos count) enough))
          rw [cnameLoop_succ isMap, hAlias]
          rfl
      | some cache =>
          have next : aliasesIn map domain = some cache.name := by
            rw [aliasesIn, hAlias]
            rfl
          rw [Walk.after_succ_of_step next] at halts
          obtain ⟨visited, isVisited⟩ := total domain cache made
          obtain ⟨last, made', log, isLast, rest⟩ := ih halts visited
          refine ⟨last, made', (visit domain cache made).log ++ log, isLast, ?_⟩
          intro fuel enough
          obtain ⟨fuel, rfl⟩ := Nat.exists_eq_succ_of_ne_zero
            (Nat.ne_of_gt (Nat.lt_of_lt_of_le (Nat.succ_pos count) enough))
          rw [cnameLoop_succ isMap, hAlias]
          change visit domain cache made >>= cnameLoop visit t fuel cache.name = _
          rw [Logged.bind_of_ok isVisited, rest fuel (Nat.le_of_succ_le_succ enough)]

/-- A loop that returns has walked to the end of the aliases. -/
theorem halts_of_cnameLoop {fuel : Nat} {domain : StringT} {made : β}
    {result : StringT × β} (done : (cnameLoop visit t fuel domain made).out = .ok result) :
    Halts (aliasesIn map) domain := by
  induction fuel generalizing domain made with
  | zero => cases done
  | succ fuel ih =>
      rw [cnameLoop_succ isMap] at done
      cases hAlias : map domain with
      | none =>
          apply Walk.halts_of_stuck
          rw [aliasesIn, hAlias]
          rfl
      | some cache =>
          simp only [hAlias] at done
          obtain ⟨visited, _, rest⟩ := Logged.bind_out_eq_ok.mp done
          have next : aliasesIn map domain = some cache.name := by
            rw [aliasesIn, hAlias]
            rfl
          exact (Walk.halts_step_iff next).mpr (ih rest)

theorem cnameLoop_endless (total : Total visit) {domain : StringT}
    (endless : ¬ Halts (aliasesIn map) domain) (fuel : Nat) (made : β) :
    (cnameLoop visit t fuel domain made).out = .error .outOfFuel := by
  induction fuel generalizing domain made with
  | zero => rfl
  | succ fuel ih =>
      rw [cnameLoop_succ isMap]
      cases hAlias : map domain with
      | none =>
          refine absurd (Walk.halts_of_stuck ?_) endless
          rw [aliasesIn, hAlias]
          rfl
      | some cache =>
          obtain ⟨visited, isVisited⟩ := total domain cache made
          have next : aliasesIn map domain = some cache.name := by
            rw [aliasesIn, hAlias]
            rfl
          change (visit domain cache made >>= cnameLoop visit t fuel cache.name).out = _
          rw [Logged.bind_out_of_ok isVisited]
          exact ih (fun halts => endless ((Walk.halts_step_iff next).mpr halts)) visited

theorem cnameLoop_ends (total : Total visit) {domain : StringT}
    (halts : Halts (aliasesIn map) domain) (made : β) :
    Ends (fun env => cnameLoop visit t env.fuel domain made) := by
  intro junk
  obtain ⟨count, ended⟩ := halts
  obtain ⟨last, made', log, _, done⟩ := cnameLoop_of_after isMap total ended made
  exact ⟨count, _, by simp, done⟩

end Loop

/-! ### Requests come to an end -/

theorem sendResponseFrom_ends (world : World) (message : Message) :
    Ends (fun env => sendResponseFrom env world message) := by
  refine Ends.of_avoids (fun junk fuel => ?_) fun env => ?_
  · simp only [sendResponseFrom, sendResponse, message2buf_fuel]
  have responds : Logged.Avoids Fault.outOfFuel (sendResponse env world.clients message) := by
    apply (message2featureString_avoids message).bind
    intro feature
    cases world.clients feature with
    | none => exact Logged.avoids_pure _ _
    | some address =>
        exact (message2buf_avoids env (clearReserved message)).bind fun _ =>
          Logged.avoids_pure _ _
  apply responds.bind
  rintro ⟨sent, clients⟩
  cases sent with
  | none => exact Logged.avoids_pure _ _
  | some pair => exact Logged.avoids_pure _ _

theorem sendQueryFrom_ends (world : World) (message : Message) :
    Ends (fun env => sendQueryFrom env world message) :=
  Ends.of_avoids (fun _ _ => by simp only [sendQueryFrom, sendQuery, message2buf_fuel])
    fun env => (message2buf_avoids env (clearReserved message)).bind fun _ => Logged.avoids_pure _ _

theorem putAddresses_avoids {Address : Type} (size : Nat)
    (generate : Address → ResourceRecord) (addresses : List Address)
    (answers : List ResourceRecord) :
    Logged.Avoids Fault.outOfFuel (putAddresses size generate addresses answers) := by
  induction addresses generalizing answers with
  | nil => exact Logged.avoids_pure _ answers
  | cons address addresses ih =>
      have put : Logged.Avoids Fault.outOfFuel
          (putAnswer size answers (generate address)) :=
        (writeAt_avoids _ _).bind fun _ => Logged.avoids_pure _ _
      exact put.bind ih

/-- A lookup in a table that is a map ends. -/
theorem lookup_avoids {α β : Type} {t : HashTable α} {map : StringT → Option α}
    (isMap : IsMap t map) {name : StringT} {next : Option α → Exec β}
    (continues : Logged.Avoids Fault.outOfFuel (next (map name))) :
    Logged.Avoids Fault.outOfFuel (Logged.ofExcept (hashTableGet t name) >>= next) := by
  rw [hashTableGet_isMap isMap, Logged.ofExcept_ok, Logged.pure_bind]
  exact continues

section Requests

variable {world : World} {aliases : StringT → Option StringT} (tables : Tables world aliases)
  (halts : ∀ domain, Halts aliases domain)

include tables

include halts in
theorem Tables.loop_ends {β : Type} {visit : StringT → CnameCache → β → Exec β}
    (total : Total visit) (domain : StringT) (made : β) :
    Ends (fun env => cnameLoop visit world.cnameTable env.fuel domain made) := by
  obtain ⟨map, isMap, rfl⟩ := tables.cname
  exact cnameLoop_ends isMap total (halts domain) made

include halts in
theorem countQuery_ends {pass : FirstPass} {map : StringT → Option Ipv4Cache}
    (isMap : IsMap pass.ipv4Table map) (query : Query) :
    Ends (fun env => countQuery env world query pass) := by
  have chase := tables.loop_ends halts countAlias_total query.name pass.answerCount
  unfold countQuery
  by_cases isA : query.type = 1
  · simp only [if_pos isA]
    refine chase.bind fun _ chased _ => Ends.const (lookup_avoids isMap ?_)
    cases hCache : map chased.1 with
    | none => exact Logged.avoids_pure _ _
    | some cache =>
        intro stopped
        rcases countIpv4Cache_out isMap hCache chased.2 with missing | ⟨_, _, run, _⟩
        · rw [missing] at stopped
          cases stopped
        · rw [run] at stopped
          cases stopped
  · simp only [if_neg isA]
    by_cases isCname : query.type = 5
    · simp only [if_pos isCname]
      obtain ⟨cname, isCnameMap, _⟩ := tables.cname
      have found : cnameCacheGet world.cnameTable query.name = .ok (cname query.name) :=
        hashTableGet_isMap isCnameMap query.name
      rw [found]
      simp only [Logged.ofExcept_ok, Logged.pure_bind]
      cases cname query.name with
      | none => exact Ends.const (Logged.avoids_pure _ _)
      | some cache =>
          exact chase.bind fun _ chased _ => Ends.const (Logged.avoids_pure _ _)
    · simp only [if_neg isCname]
      by_cases isAaaa : query.type = 28
      · simp only [if_pos isAaaa]
        obtain ⟨ipv6, isIpv6⟩ := tables.ipv6
        refine chase.bind fun _ chased _ => Ends.const (lookup_avoids isIpv6 ?_)
        cases ipv6 chased.1 with
        | none => exact Logged.avoids_pure _ _
        | some cache => exact Logged.avoids_pure _ _
      · simp only [if_neg isAaaa]
        exact Ends.const (Logged.avoids_pure _ _)

include halts in
theorem countQueries_ends {pass : FirstPass} {map : StringT → Option Ipv4Cache}
    (isMap : IsMap pass.ipv4Table map) (queries : List Query) :
    Ends (fun env => countQueries env world queries pass) := by
  induction queries generalizing pass map with
  | nil => exact Ends.const (Logged.avoids_pure _ _)
  | cons query queries ih =>
      unfold countQueries
      cases hCached : pass.cached with
      | true =>
          simp only [if_true]
          refine (countQuery_ends tables halts isMap query).bind ?_
          intro env middle counted
          obtain ⟨map', isMap'⟩ := countQuery_isMap isMap counted
          exact ih isMap'
      | false =>
          simp only [Bool.false_eq_true, if_false]
          exact Ends.const (Logged.avoids_pure _ _)

include halts in
theorem answerQuery_ends (size : Nat) (query : Query) (answers : List ResourceRecord) :
    Ends (fun env => answerQuery env world size query answers) := by
  have chase := tables.loop_ends halts (putAlias_total size) query.name answers
  unfold answerQuery
  by_cases isA : query.type = 1
  · simp only [if_pos isA]
    obtain ⟨ipv4, isIpv4⟩ := tables.ipv4
    refine chase.bind fun _ chased _ => Ends.const (lookup_avoids isIpv4 ?_)
    cases ipv4 chased.1 with
    | none => exact Logged.avoids_pure _ _
    | some cache => exact putAddresses_avoids size _ cache.node chased.2
  · simp only [if_neg isA]
    by_cases isCname : query.type = 5
    · simp only [if_pos isCname]
      exact chase.bind fun _ chased _ => Ends.const (Logged.avoids_pure _ _)
    · simp only [if_neg isCname]
      by_cases isAaaa : query.type = 28
      · simp only [if_pos isAaaa]
        obtain ⟨ipv6, isIpv6⟩ := tables.ipv6
        refine chase.bind fun _ chased _ => Ends.const (lookup_avoids isIpv6 ?_)
        cases ipv6 chased.1 with
        | none => exact Logged.avoids_pure _ _
        | some cache => exact putAddresses_avoids size _ cache.node chased.2
      · simp only [if_neg isAaaa]
        exact Ends.const (Logged.avoids_pure _ _)

include halts in
theorem answerLocally_ends (pass : FirstPass) (message : Message) (queries : List Query) :
    Ends (fun env => answerLocally env world pass message queries) := by
  have answers (answers : List ResourceRecord) :
      Ends (fun env => answerQueries env world pass.answerCount queries answers) := by
    induction queries generalizing answers with
    | nil => exact Ends.const (Logged.avoids_pure _ _)
    | cons query queries ih =>
        exact (answerQuery_ends tables halts pass.answerCount query answers).bind
          fun _ answers _ => ih answers
  unfold answerLocally
  cases hBanned : pass.banned with
  | true =>
      simp only [if_true]
      exact sendResponseFrom_ends world _
  | false =>
      simp only [Bool.false_eq_true, if_false]
      exact (answers []).bind fun _ made _ => sendResponseFrom_ends world _

end Requests

/-- A decoded request is handled when no walk along the aliases goes on for ever. -/
theorem handleRequest_ends {world : World} {aliases : StringT → Option StringT}
    (tables : Tables world aliases) (halts : ∀ domain, Halts aliases domain)
    (address : SockAddr) (message : Message) :
    Ends (fun env => handleRequest env address message world) := by
  refine (Ends.const (messageLog_avoids message)).bind fun _ _ _ => ?_
  refine (Ends.const (message2featureString_avoids message)).bind fun _ feature _ => ?_
  refine (Ends.const (initialised_avoids message.queryCount message.queries)).bind
    fun _ queries _ => ?_
  obtain ⟨map, isMap⟩ := tables.ipv4
  have starts : IsMap (FirstPass.start world.ipv4Table).ipv4Table map := isMap
  have entered : Tables
      { world with clients := Function.update world.clients feature (some address) } aliases :=
    ⟨tables.ipv4, tables.ipv6, tables.cname⟩
  refine (countQueries_ends entered halts starts queries).bind fun _ pass passed => ?_
  have here : Tables
      { world with
        clients := Function.update world.clients feature (some address)
        ipv4Table := pass.ipv4Table } aliases :=
    ⟨countQueries_isMap starts passed, tables.ipv6, tables.cname⟩
  cases hCached : pass.cached with
  | true =>
      simp only [if_true]
      exact answerLocally_ends here halts pass message queries
  | false =>
      simp only [Bool.false_eq_true, if_false]
      exact sendQueryFrom_ends _ message

/-! ### Acyclic alias graphs -/

/-- An alias closes a cycle exactly when the aliases of its target lead back to its
owner. -/
theorem enterAlias_acyclic_iff {aliases : StringT → Option StringT} (acyclic : Acyclic aliases)
    {answer : ResourceRecord} {name : StringT} (isCname : answer.type = 5)
    (target : answer.responseData = .domain name) :
    Acyclic (enterAlias aliases answer) ↔ ¬ Walk.Reaches aliases name answer.name := by
  unfold enterAlias
  rw [if_pos isCname, target]
  exact acyclic.update_iff answer.name name

/-- The loops along the aliases reach a name without one, and a client request that
`buf2message` gets through is handled. -/
structure QueriesProcessed (world : World) : Prop where
  chases : ∀ {β : Type} (visit : StringT → CnameCache → β → Exec β), Total visit →
    ∀ domain made, ∃ fuel last made',
      (cnameLoop visit world.cnameTable fuel domain made).out = .ok (last, made') ∧
        cnameCacheGet world.cnameTable last = .ok none
  requests : ∀ (datagram : Datagram) (address : SockAddr),
    Finishes (fun env => buf2message env datagram.buf) →
      Finishes (fun env => bindSocketRead env datagram address world)

theorem buf2message_mono (buf : UvBuf) : FuelMono (fun env => buf2message env buf) :=
  FuelMono.bind (FuelMono.const fun _ => buf2messageHeader buf.base) fun message =>
    FuelMono.bind (questionSection_mono buf message.queryCount) fun questions =>
      FuelMono.bind (answerSection_mono buf message.answerCount questions.2) fun _ =>
        FuelMono.const fun _ => pure _

/-- After every run, the aliases of every name can be followed to their end, and every
request is processed, exactly when the aliases entered in the run form no cycle. -/
theorem queriesProcessed_iff {malloc : Malloc} {events : List (Event × List Sent)}
    {world : World} (run : ServerRun malloc events world) :
    QueriesProcessed world ↔ Acyclic (aliasesOf events) := by
  have tables := serverRun_tables run
  obtain ⟨map, isMap, isAliases⟩ := tables.cname
  constructor
  · intro processed place cycle
    obtain ⟨fuel, last, made, done, _⟩ :=
      processed.chases countAlias countAlias_total place 0
    have halts := halts_of_cnameLoop isMap done
    rw [isAliases] at halts
    exact Walk.not_halts_of_cycle cycle halts
  · intro acyclic
    have halts (domain : StringT) : Halts (aliasesOf events) domain :=
      acyclic.halts (aliasesOf_finite events) domain
    constructor
    · intro β visit total domain made
      obtain ⟨count, ended⟩ := halts domain
      rw [← isAliases] at ended
      obtain ⟨last, made', log, isLast, done⟩ :=
        cnameLoop_of_after isMap total ended made
      refine ⟨count, last, made', ?_, ?_⟩
      · rw [done count (Nat.le_refl count)]
      · rw [← isLast]
        exact hashTableGet_isMap isMap last
    · intro datagram address decoding
      exact ((decoding.ends (buf2message_mono datagram.buf)).bind fun _ message _ =>
        handleRequest_ends tables halts address message).finishes

/-- An address query for a name whose aliases have no end is never handled. -/
theorem handleRequest_endless {world : World} {aliases : StringT → Option StringT}
    (tables : Tables world aliases) {message : Message} (ready : LogReady message)
    {query : Query} {queries : List Query}
    (asked : (initialised message.queryCount message.queries).out = .ok (query :: queries))
    (isA : query.type = 1) (endless : ¬ Halts aliases query.name) (env : Env)
    (address : SockAddr) :
    (handleRequest env address message world).out = .error .outOfFuel := by
  obtain ⟨map, isMap, rfl⟩ := tables.cname
  have featured : (message2featureString message).out =
      .ok ((query :: queries).flatMap queryFeature ++ littleEndian16 message.id) :=
    Logged.bind_out_of_ok asked _
  unfold handleRequest
  rw [ready.messageLog_bind, Logged.bind_out_of_ok featured, Logged.bind_out_of_ok asked]
  rw [Logged.bind_out_eq_error]
  left
  unfold countQueries
  simp only [FirstPass.start, if_true, countQuery, isA]
  rw [Logged.bind_out_eq_error]
  left
  rw [Logged.bind_out_eq_error]
  left
  exact cnameLoop_endless isMap countAlias_total endless env.fuel 0

private def steady (fuel : Nat) : Env := { fuel := fuel, junk := fun _ _ => 0 }

private def aliasOfA (letter : UInt8) : Datagram :=
  { buf :=
      { base := [0, 7, 0x81, 0x80, 0, 1, 0, 1, 0, 0, 0, 0, 1, 97, 0, 0, 5, 0, 1,
          0xc0, 12, 0, 5, 0, 1, 0, 0, 0, 60, 0, 3, 1, letter, 0]
        len := 34 }
    nonempty := Nat.succ_pos (nat_lit 33)
    fits := Nat.le_refl (nat_lit 34) }

private def addressOfA : Datagram :=
  { buf :=
      { base := [0, 7, 1, 0, 0, 1, 0, 0, 0, 0, 0, 0, 1, 97, 0, 0, 1, 0, 1]
        len := 19 }
    nonempty := Nat.succ_pos (nat_lit 18)
    fits := Nat.le_refl (nat_lit 19) }

private def aliasMessage (letter : UInt8) : Message :=
  { id := 7
    flags :=
      { qr := 1, opcode := 0, aa := 0, tc := 0, rd := 1, ra := 1, z := 0, rcode := 0 }
    queryCount := 1
    answerCount := 1
    authorityCount := 0
    additionalCount := 0
    queries := [{ name := [97], type := 5, cls := 1 }]
    answers :=
      [{ name := [97]
         type := 5
         cls := 1
         ttl := 60
         responseDataLength := 3
         responseData := .domain [letter] }] }

private def addressOfAMessage : Message :=
  { id := 7
    flags :=
      { qr := 0, opcode := 0, aa := 0, tc := 0, rd := 1, ra := 0, z := 0, rcode := 0 }
    queryCount := 1
    answerCount := 0
    authorityCount := 0
    additionalCount := 0
    queries := [{ name := [97], type := 1, cls := 1 }]
    answers := [] }

private theorem addressOfA_ready : LogReady addressOfAMessage :=
  { queries := Nat.le_refl 1
    answers := Nat.le_refl 0
    loggable := nofun }

private def afterAlias (letter : UInt8) : World × List Sent :=
  returned (querySocketRead (steady 4) 0 (aliasOfA letter) (World.init .ascending))

private theorem alias_run {letter : UInt8}
    (told : (buf2message (steady 4) (aliasOfA letter).buf).out = .ok (aliasMessage letter))
    (done : (querySocketRead (steady 4) 0 (aliasOfA letter)
      (World.init .ascending)).out.isOk = true) :
    ServerRun .ascending [(.reply (aliasMessage letter), (afterAlias letter).2)]
      (afterAlias letter).1 :=
  Run.snoc Run.nil (.reply told (out_eq_returned done))

private theorem addressOfA_decoded (fuel : Nat) :
    (buf2message (steady fuel) addressOfA.buf).out = .ok addressOfAMessage ∨
      (buf2message (steady fuel) addressOfA.buf).out = .error .outOfFuel := by
  have enough : (buf2message (steady (max fuel 4)) addressOfA.buf).out =
      .ok addressOfAMessage := by
    have four : (buf2message (steady 4) addressOfA.buf).out = .ok addressOfAMessage := by
      rfl
    rcases buf2message_mono addressOfA.buf (fun _ _ => 0) 4 (max fuel 4)
      (Nat.le_max_right fuel 4) with same | ⟨stopped, _⟩
    · rw [← four]
      exact congrArg Logged.out same.symm
    · cases four.symm.trans stopped
  rcases buf2message_mono addressOfA.buf (fun _ _ => 0) fuel (max fuel 4)
    (Nat.le_max_left fuel 4) with same | ⟨stopped, _⟩
  · left
    rw [← enough]
    exact congrArg Logged.out same
  · exact Or.inr stopped

theorem queriesProcessed_alias : QueriesProcessed (afterAlias 98).1 := by
  refine (queriesProcessed_iff (alias_run (by rfl) (by decide +kernel))).mpr ?_
  have empty : Acyclic (aliasesOf []) := Walk.acyclic_none
  refine (empty.update_iff [97] [98]).mpr ?_
  intro back
  rcases Relation.ReflTransGen.cases_head back with impossible | ⟨next, taken, _⟩
  · cases impossible
  · cases taken

/-- After one response with a CNAME record from `a` to itself, a query for the address
of `a` is never processed. -/
theorem not_queriesProcessed_selfAlias :
    ServerRun .ascending [(.reply (aliasMessage 97), (afterAlias 97).2)] (afterAlias 97).1 ∧
      ¬ QueriesProcessed (afterAlias 97).1 ∧
      Finishes (fun env => buf2message env addressOfA.buf) ∧
      ¬ Finishes (fun env => bindSocketRead env addressOfA [1] (afterAlias 97).1) := by
  have run := @alias_run 97 (by rfl) (by decide +kernel)
  have tables := serverRun_tables run
  have cycle : Walk.ReachesLater
      (aliasesOf [(.reply (aliasMessage 97), (afterAlias 97).2)]) [97] [97] := by
    apply Relation.TransGen.single
    rfl
  have decoding : Finishes (fun env => buf2message env addressOfA.buf) := by
    intro junk
    refine ⟨4, ?_⟩
    have decoded : (buf2message ⟨4, junk⟩ addressOfA.buf).out = .ok addressOfAMessage := by
      rfl
    rw [decoded]
    exact nofun
  have endless : ¬ Finishes
      (fun env => bindSocketRead env addressOfA [1] (afterAlias 97).1) := by
    intro finishes
    obtain ⟨fuel, finished⟩ := finishes (fun _ _ => 0)
    apply finished
    change (buf2message (steady fuel) addressOfA.buf >>= fun message =>
      handleRequest (steady fuel) [1] message (afterAlias 97).1).out = _
    rcases addressOfA_decoded fuel with decoded | stopped
    · rw [Logged.bind_out_of_ok decoded]
      exact handleRequest_endless tables addressOfA_ready rfl rfl
        (Walk.not_halts_of_cycle cycle) _ [1]
    · rw [Logged.bind_of_error stopped]
  exact ⟨run, fun processed => endless (processed.requests _ _ decoding), decoding, endless⟩

end PostDns
