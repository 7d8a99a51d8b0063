/-
The shutdown of the server (main.c and socket.c).

On SIGINT the four hash tables are released one after another.  As long as no removal of the
run went wrong, each of them is a map then, and what it was given has been accounted for.
-/

import PostDns.CacheHistory
import PostDns.HashedRuns
import PostDns.Ledger

namespace PostDns

open Foundation
open Foundation.PendingTable (Moment tableAfter)

/-! ### The callback -/

def SIGINT : Nat := 2

/-- What the release of the tables hands to `string_free` and `free`, table by table. -/
structure Releases where
  clients : List (Owned SockAddr)
  ipv4 : List (Owned Ipv4Cache)
  ipv6 : List (Owned Ipv6Cache)
  cname : List (Owned CnameCache)

/-- `socket_free` and the three `free` functions of the caches. -/
def releaseTables (world : HashedWorld) : Except Fault Releases := do
  let clients ← hashTableFree world.clientsHashTable
  let ipv4 ← hashTableFree world.ipv4Table
  let ipv6 ← hashTableFree world.ipv6Table
  let cname ← hashTableFree world.cnameTable
  pure
    { clients := clients.2
      ipv4 := ipv4.2
      ipv6 := ipv6.2
      cname := cname.2 }

/-- Another signal than SIGINT is ignored; after this one the process exits. -/
def sigintCallback (signum : Nat) (world : HashedWorld) : Except Fault (Option Releases) :=
  if signum = SIGINT then some <$> releaseTables world else pure none

/-! ### Runs with safe removals -/

theorem Matches.tables {hashed : HashedWorld} {world : World} (matching : Matches hashed world) :
    hashed.ipv4Table = world.ipv4Table ∧ hashed.ipv6Table = world.ipv6Table ∧
      hashed.cnameTable = world.cnameTable := by
  cases matching
  exact ⟨rfl, rfl, rfl⟩

theorem Matches.safeWhen {hashed : HashedWorld} {world : World} (matching : Matches hashed world)
    {event : Int × Occasion} (safe : SafeWhen hashed.caches event) : SafeWhen world event := by
  cases matching
  intro isSweep
  exact ⟨(safe isSweep).ipv4, (safe isSweep).ipv6⟩

/-- Such a run is a safe one of the server with a finite map. -/
theorem fullySafe_plain {env : Env} {malloc : Malloc} {now : Int} {file : Option (List UInt8)}
    {start hashed : HashedWorld} {events : List ((Int × Occasion) × List Sent)}
    (started : (startUpHashed env malloc now file).out = .ok start)
    (run : Run FullySafe start events hashed) :
    ∃ plainStart world, (startUp env malloc now file).out = .ok plainStart ∧
      Run SafeServe plainStart events world ∧ Matches hashed world := by
  obtain ⟨plainStart, plainStarted, matching⟩ :=
    (startUpHashed_parallel env malloc now file).returns started
  have simulated : ∃ world, Matches hashed world ∧
      Run SafeServe plainStart (events.flatMap fun label => [label]) world := by
    refine run.simulation matching ?_
    rintro before label after world matches' ⟨step, safe⟩
    obtain ⟨world', onward, serve⟩ := step.serve matches'
    exact ⟨world', onward, Run.snoc Run.nil ⟨serve, matches'.safeWhen safe⟩⟩
  rw [List.flatMap_singleton'] at simulated
  obtain ⟨world, onward, plainRun⟩ := simulated
  exact ⟨plainStart, world, plainStarted, plainRun, onward⟩

/-! ### The tables of clients and of aliases -/

def clientOperation : Moment StringT SockAddr → Operation SockAddr
  | .requested feature address => .put (some feature) (some address)
  | .replied feature _ => .remove feature

def clientOperations (events : List ((Int × Occasion) × List Sent)) :
    List (Operation SockAddr) :=
  (historyOf events).map clientOperation

def requesters (events : List ((Int × Occasion) × List Sent)) : List SockAddr :=
  (clientOperations events).flatMap Operation.given

theorem TableExchange.operation {t t' : HashTable SockAddr} {moment : Moment StringT SockAddr}
    (exchange : TableExchange t moment t') : SafeStep t (clientOperation moment) t' := by
  cases exchange with
  | requested put => exact ⟨trivial, put⟩
  | replied get safe removed => exact ⟨safe, removed⟩

theorem clientSteps {t t' : HashTable SockAddr} {history : List (Moment StringT SockAddr)}
    (run : Run TableExchange t history t') :
    Run SafeStep t (history.map clientOperation) t' := by
  refine run.invariant (fun history t' => Run SafeStep t (history.map clientOperation) t')
    Run.nil ?_
  intro history moment middle final soFar exchange
  rw [List.map_append, List.map_singleton]
  exact Run.snoc soFar exchange.operation

def aliasOperation (entry : StringT × CnameCache) : Operation CnameCache :=
  .put (some entry.1) (some entry.2)

def aliasOperations (events : List ((Int × Occasion) × List Sent)) :
    List (Operation CnameCache) :=
  (aliasEntries events).map aliasOperation

theorem AnswerStep.operations {now : Int} {collected collected' : Collected}
    {answer : ResourceRecord} (step : AnswerStep now collected answer collected') :
    Run SafeStep collected.cnameTable
      ((aliasEntry now answer).toList.map aliasOperation) collected'.cnameTable := by
  have nothing (notCname : answer.type ≠ 5) : aliasEntry now answer = none := by
    unfold aliasEntry
    cases answer.responseData with
    | domain name => exact if_neg notCname
    | _ => rfl
  cases step with
  | inet4 isA _ =>
      rw [nothing (by simp [isA])]
      exact Run.nil
  | @domain name cnameTable isCname data put =>
      have entered : aliasEntry now answer = some (answer.name,
          { name := name, ttl := 120, timestamp := now, manual := false }) := by
        rw [aliasEntry, data]
        exact if_pos isCname
      rw [entered]
      exact Run.snoc Run.nil ⟨trivial, put⟩
  | inet6 isAaaa _ =>
      rw [nothing (by simp [isAaaa])]
      exact Run.nil
  | skipped uncacheable =>
      rw [nothing uncacheable.2.1]
      exact Run.nil

theorem cacheAnswers_operations {now : Int} {answers : List ResourceRecord}
    {collected collected' : Collected}
    (done : (cacheAnswers now answers collected).out = .ok collected') :
    Run SafeStep collected.cnameTable
      ((answers.filterMap (aliasEntry now)).map aliasOperation) collected'.cnameTable := by
  induction answers generalizing collected with
  | nil =>
      cases done
      exact Run.nil
  | cons answer answers ih =>
      obtain ⟨middle, first, rest⟩ := Logged.bind_out_eq_ok.mp done
      have both := (answerStep_of_cacheAnswer first).operations.append (ih rest)
      rw [← List.map_append] at both
      cases hEntry : aliasEntry now answer with
      | none =>
          rw [hEntry] at both
          rw [List.filterMap_cons_none hEntry]
          exact both
      | some entry =>
          rw [hEntry] at both
          rw [List.filterMap_cons_some hEntry]
          exact both

theorem Serve.aliasSteps {before after : World} {label : (Int × Occasion) × List Sent}
    (step : Serve before label after) :
    Run SafeStep before.cnameTable ((label.1.2.aliases label.1.1).map aliasOperation)
      after.cnameTable := by
  cases step with
  | request decoded done =>
      rw [bindSocketRead, Logged.bind_out_of_ok decoded] at done
      obtain ⟨_, _, _, _, same⟩ := (handled_of_handleRequest done).tables
      rw [same]
      exact Run.nil
  | reply decoded done =>
      rw [querySocketRead, Logged.bind_out_of_ok decoded] at done
      obtain ⟨_, collected, collecting, _, _, same⟩ := handleReply_stored done
      rw [same]
      exact cacheAnswers_operations collecting
  | sweep done =>
      obtain ⟨ipv4Table, _, rest⟩ := Logged.bind_out_eq_ok.mp done
      obtain ⟨ipv6Table, _, others⟩ := Logged.bind_out_eq_ok.mp rest
      obtain ⟨cnameTable, clearCname, returned⟩ := Logged.bind_out_eq_ok.mp others
      cases clearCname
      cases returned
      exact Run.nil

theorem aliasSteps {start world : World} {events : List ((Int × Occasion) × List Sent)}
    (run : Run Serve start events world) :
    Run SafeStep start.cnameTable (aliasOperations events) world.cnameTable := by
  refine run.invariant (fun events world =>
    Run SafeStep start.cnameTable (aliasOperations events) world.cnameTable) Run.nil ?_
  intro events label middle final soFar step
  rw [aliasOperations, aliasEntries, List.flatMap_append, List.flatMap_singleton,
    List.map_append]
  exact soFar.append step.aliasSteps

/-! ### What the shutdown accounts for -/

theorem hashTableFree_isMap {α : Type} {t : HashTable α} {map : StringT → Option α}
    (isMap : IsMap t map) : ∃ left, hashTableFree t = .ok left := by
  obtain ⟨contents, laid, _⟩ := isMap
  obtain ⟨cells, freed, done, _⟩ := hashTableFree_laid laid
  exact ⟨_, done⟩

/-- On SIGINT, after any run whose removals were safe, the tables are released.  The clients
that are released with their table are those whose requests wait; every address that was
memorized for a request has been released once, or was lost to a removal; and every alias
that was entered has been released once. -/
theorem sigintCallback_accounts {env : Env} {malloc : Malloc} {now : Int}
    {file : Option (List UInt8)} {start hashed : HashedWorld}
    {events : List ((Int × Occasion) × List Sent)}
    (started : (startUpHashed env malloc now file).out = .ok start)
    (run : Run FullySafe start events hashed) :
    ∃ (releases : Releases) (clients : Ledger SockAddr) (aliases : Ledger CnameCache),
      sigintCallback SIGINT hashed = .ok (some releases) ∧
        Run SafeLedgerStep (hashTableNew malloc.clients, Ledger.empty)
          (clientOperations events) (hashed.clientsHashTable, clients) ∧
        Run SafeLedgerStep (hashTableNew malloc.cname, Ledger.empty)
          (aliasOperations events) (hashed.cnameTable, aliases) ∧
        (∀ feature, feature ∈ namesOf releases.clients ↔
          (tableAfter ((historyOf events).map Moment.action) feature).isSome) ∧
        (dataOf (clients.released ++ releases.clients) ++ clients.lost).Perm
          (requesters events) ∧
        (dataOf (aliases.released ++ releases.cname)).Perm
          ((aliasEntries events).map Prod.snd) := by
  obtain ⟨plainStart, world, plainStarted, plainRun, matching⟩ := fullySafe_plain started run
  obtain ⟨sameIpv4, sameIpv6, sameCname⟩ := matching.tables
  obtain ⟨maps, shows, _⟩ := safeRun_manualZero plainStarted plainRun
  have safeRun : Run SafeServeHashed start events hashed := run.mono fun _ _ _ step => step.1
  have exchanges := hashedRun_exchanges started safeRun
  have aliasRun := aliasSteps (plainRun.mono fun _ _ _ step => step.1)
  rw [startUp_cnameTable plainStarted] at aliasRun
  obtain ⟨clients, clientLedger⟩ := ledgerRun_of_safeRun (clientSteps exchanges)
  obtain ⟨aliases, aliasLedger⟩ := ledgerRun_of_safeRun aliasRun
  have noneLost : aliases.lost = [] := by
    refine ledgerRun_puts rfl aliasLedger ?_
    intro operation member
    obtain ⟨entry, _, isOperation⟩ := List.mem_map.mp member
    exact ⟨some entry.1, some entry.2, isOperation.symm⟩
  have aliasesGiven : (aliasOperations events).flatMap Operation.given =
      (aliasEntries events).map Prod.snd := by
    rw [aliasOperations, List.flatMap_map]
    exact List.flatMap_pure_eq_map Prod.snd (aliasEntries events)
  obtain ⟨_, clientsBalanced⟩ := ledgerRun_balanced clientLedger
  obtain ⟨_, aliasesBalanced⟩ := ledgerRun_balanced aliasLedger
  obtain ⟨_, fromClients, freeClients, names, clientData, _⟩ := clientsBalanced.free
  obtain ⟨_, fromAliases, freeAliases, _, aliasData, _⟩ := aliasesBalanced.free
  rw [noneLost, List.append_nil, aliasesGiven] at aliasData
  obtain ⟨ipv4, freeIpv4⟩ := hashTableFree_isMap shows.ipv4
  obtain ⟨ipv6, freeIpv6⟩ := hashTableFree_isMap shows.ipv6
  let releases : Releases :=
    { clients := fromClients
      ipv4 := ipv4.2
      ipv6 := ipv6.2
      cname := fromAliases }
  have released : releaseTables hashed = .ok releases := by
    rw [releaseTables, sameIpv4, sameIpv6, sameCname, freeClients, freeIpv4, freeIpv6,
      freeAliases]
    rfl
  refine ⟨releases, clients, aliases, ?_, clientLedger, ?_, ?_, clientData, aliasData⟩
  · rw [sigintCallback, if_pos rfl, released]
    rfl
  · rw [sameCname]
    exact aliasLedger
  · intro feature
    rw [names, (storedNames_isMap clientsBalanced.isMap).2]
    have get := hashTableGet_isMap clientsBalanced.isMap feature
    rw [hashedRun_table started safeRun] at get
    rw [Except.ok.inj get]

/-! ### A client that waits -/

private def asksForC : Datagram :=
  { buf :=
      { base := [0, 9, 1, 0, 0, 1, 0, 0, 0, 0, 0, 0, 1, 99, 0, 0, 1, 0, 1]
        len := 19 }
    nonempty := Nat.succ_pos (nat_lit 18)
    fits := Nat.le_refl (nat_lit 19) }

private def asksForCMessage : Message :=
  { id := 9
    flags :=
      { qr := 0, opcode := 0, aa := 0, tc := 0, rd := 1, ra := 0, z := 0, rcode := 0 }
    queryCount := 1
    answerCount := 0
    authorityCount := 0
    additionalCount := 0
    queries := [{ name := [99], type := 1, cls := 1 }]
    answers := [] }

private def toldHashed : HashedWorld × List Sent :=
  HashedWorld.returned
    (querySocketReadHashed fiveSteps 100 tellsAddress6 (HashedWorld.init .ascending))

private def leftWaiting : HashedWorld × List Sent :=
  HashedWorld.returned (bindSocketReadHashed fiveSteps asksForC [1] toldHashed.1)

private def toldThenAsked : List ((Int × Occasion) × List Sent) :=
  [((100, .reply tellsAddress6Message), toldHashed.2),
    ((110, .request asksForCMessage [1]), leftWaiting.2)]

private theorem toldThenAsked_run :
    Run FullySafe (HashedWorld.init .ascending) toldThenAsked leftWaiting.1 := by
  have told : ServeHashed (HashedWorld.init .ascending)
      ((100, .reply tellsAddress6Message), toldHashed.2) toldHashed.1 := by
    have decoded : (buf2message fiveSteps tellsAddress6.buf).out = .ok tellsAddress6Message := rfl
    exact .reply decoded (HashedWorld.out_eq_returned (by decide +kernel))
  have asked : ServeHashed toldHashed.1
      ((110, .request asksForCMessage [1]), leftWaiting.2) leftWaiting.1 := by
    have decoded : (buf2message fiveSteps asksForC.buf).out = .ok asksForCMessage := rfl
    exact .request decoded (HashedWorld.out_eq_returned (by decide +kernel))
  have entered : (hashTablePut toldHashed.1.clientsHashTable
      (some (featureOf asksForCMessage)) (some [1])).map (fun t => t.cells.cells) = .ok [] := by
    decide +kernel
  have first : RemovalSafe (HashedWorld.init .ascending) (.reply tellsAddress6Message) :=
    not_headOfLongChain_of_cells rfl _
  have second : RemovalSafe toldHashed.1 (.request asksForCMessage [1]) := by
    intro t put
    rw [put] at entered
    exact not_headOfLongChain_of_cells (Except.ok.inj entered) _
  refine Run.snoc (Run.snoc Run.nil ⟨⟨told, first⟩, ?_⟩) ⟨⟨asked, second⟩, ?_⟩
  · intro isSweep
    cases isSweep
  · intro isSweep
    cases isSweep

/-- The address of the client that waits and the alias of the reply are released on SIGINT. -/
theorem sigintCallback_accounts_waiting :
    ∃ (releases : Releases) (clients : Ledger SockAddr) (aliases : Ledger CnameCache),
      sigintCallback SIGINT leftWaiting.1 = .ok (some releases) ∧
        featureOf asksForCMessage ∈ namesOf releases.clients ∧
        (dataOf (clients.released ++ releases.clients) ++ clients.lost).Perm [[1]] ∧
        (dataOf (aliases.released ++ releases.cname)).Perm
          [{ name := [98], ttl := 120, timestamp := 100, manual := false }] := by
  have started : (startUpHashed fiveSteps .ascending 0 none).out =
      .ok (HashedWorld.init .ascending) := rfl
  obtain ⟨releases, clients, aliases, done, _, _, waits, clientData, aliasData⟩ :=
    sigintCallback_accounts started toldThenAsked_run
  have noneSent : historyOf toldThenAsked = [.requested (featureOf asksForCMessage) [1]] := by
    decide +kernel
  refine ⟨releases, clients, aliases, done, ?_, ?_, aliasData⟩
  · rw [waits, noneSent]
    rfl
  · rw [requesters, clientOperations, noneSent] at clientData
    exact clientData

end PostDns
