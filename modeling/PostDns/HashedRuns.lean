/-
Runs of the server with its hash table of clients (socket.c, hash_table.c and main.c).

As long as no removal meets its feature string at the head of a long chain, the server with
the hash table is the one with a finite map: no reply goes astray and none is duplicated.
What the table keeps of the requests that were answered is its size.
-/

import PostDns.CacheMaps
import PostDns.HashedClients
import PostDns.Wear

namespace PostDns

open Foundation
open Foundation.PendingTable (Moment exchanges_table tableAfter)

/-! ### Away from long chains -/

/-- The removal that a callback may make does not meet the feature string at the head of a
long chain. -/
def RemovalSafe (hashed : HashedWorld) : Occasion → Prop
  | .request message address => ∀ t, hashTablePut hashed.clientsHashTable
      (some (featureOf message)) (some address) = .ok t →
        ¬ HeadOfLongChain t (featureOf message)
  | .reply message => ¬ HeadOfLongChain hashed.clientsHashTable (featureOf message)
  | .sweep => True

structure CallbacksAgree (hashed : HashedWorld) (world : World) : Prop where
  request : ∀ (env : Env) (datagram : Datagram) (address : SockAddr),
    (∀ message, (buf2message env datagram.buf).out = .ok message →
      RemovalSafe hashed (.request message address)) →
    Logged.Parallel ResultsMatch (bindSocketReadHashed env datagram address hashed)
      (bindSocketRead env datagram address world)
  reply : ∀ (env : Env) (now : Int) (datagram : Datagram),
    (∀ message, (buf2message env datagram.buf).out = .ok message →
      RemovalSafe hashed (.reply message)) →
    Logged.Parallel ResultsMatch (querySocketReadHashed env now datagram hashed)
      (querySocketRead env now datagram world)
  sweep : ∀ now, Logged.Parallel Matches (clearCallbackHashed now hashed)
    (clearCallback now world)

theorem Matches.callbacks {hashed : HashedWorld} {world : World}
    (matching : Matches hashed world) : CallbacksAgree hashed world := by
  obtain ⟨isMap⟩ := matching
  constructor
  · intro env datagram address safe
    refine (Logged.parallel_self _).bind ?_
    rintro message _ ⟨decoded, rfl⟩
    exact handleRequestHashed_parallel isMap (safe message decoded)
  · intro env now datagram safe
    refine (Logged.parallel_self _).bind ?_
    rintro message _ ⟨decoded, rfl⟩
    exact handleReplyHashed_parallel isMap (safe message decoded)
  · intro now
    rw [← Logged.bind_pure (clearCallback now _)]
    refine (clearCallback_parallel now _ _).bind ?_
    rintro caches _ rfl
    exact Logged.parallel_pure (.intro isMap)

def SafeServeHashed (before : HashedWorld) (label : (Int × Occasion) × List Sent)
    (after : HashedWorld) : Prop :=
  ServeHashed before label after ∧ RemovalSafe before label.1.2

/-- A callback none of whose removals, from the table of clients or in a sweep, meets its
name at the head of a long chain. -/
def FullySafe (before : HashedWorld) (label : (Int × Occasion) × List Sent)
    (after : HashedWorld) : Prop :=
  SafeServeHashed before label after ∧ SafeWhen before.caches label.1

theorem SafeServeHashed.serve {before after : HashedWorld} {world : World}
    {label : (Int × Occasion) × List Sent} (matching : Matches before world)
    (step : SafeServeHashed before label after) :
    ∃ world', Matches after world' ∧ Serve world label world' := by
  obtain ⟨serve, safe⟩ := step
  have agree := matching.callbacks
  cases serve with
  | @request env now datagram address message sent after decoded done =>
      have safeToo (other : Message) (decodedToo : (buf2message env datagram.buf).out = .ok other) :
          RemovalSafe before (.request other address) := by
        rw [decoded] at decodedToo
        cases decodedToo
        exact safe
      obtain ⟨⟨world', sent'⟩, doneToo, states, same⟩ :=
        (agree.request env datagram address safeToo).returns done
      cases same
      exact ⟨world', states, .request decoded doneToo⟩
  | @reply env now datagram message sent after decoded done =>
      have safeToo (other : Message) (decodedToo : (buf2message env datagram.buf).out = .ok other) :
          RemovalSafe before (.reply other) := by
        rw [decoded] at decodedToo
        cases decodedToo
        exact safe
      obtain ⟨⟨world', sent'⟩, doneToo, states, same⟩ :=
        (agree.reply env now datagram safeToo).returns done
      cases same
      exact ⟨world', states, .reply decoded doneToo⟩
  | sweep done =>
      obtain ⟨world', doneToo, states⟩ := (agree.sweep _).returns done
      exact ⟨world', states, .sweep doneToo⟩

theorem startUpHashed_parallel (env : Env) (malloc : Malloc) (now : Int)
    (file : Option (List UInt8)) :
    Logged.Parallel Matches (startUpHashed env malloc now file) (startUp env malloc now file) := by
  rw [← Logged.bind_pure (startUp env malloc now file)]
  refine (Logged.parallel_self _).bind ?_
  rintro world _ ⟨started, rfl⟩
  have noClients := startUp_clients started
  have isPlain : world = ((HashedWorld.init malloc).withCaches world).plain fun _ => none := by
    rw [← noClients]
    rfl
  apply Logged.parallel_pure
  rw [isPlain]
  exact .intro (hashTableNew_isMap malloc.clients)

/-- A run whose removals are safe is a run of the server with a finite map. -/
theorem hashedRun_plain {env : Env} {malloc : Malloc} {now : Int} {file : Option (List UInt8)}
    {start hashed : HashedWorld} {events : List ((Int × Occasion) × List Sent)}
    (started : (startUpHashed env malloc now file).out = .ok start)
    (run : Run SafeServeHashed start events hashed) :
    ∃ plainStart world, (startUp env malloc now file).out = .ok plainStart ∧
      Run Serve plainStart events world ∧ Matches hashed world := by
  obtain ⟨plainStart, plainStarted, matching⟩ :=
    (startUpHashed_parallel env malloc now file).returns started
  have simulated : ∃ world, Matches hashed world ∧
      Run Serve plainStart (events.flatMap fun label => [label]) world := by
    refine run.simulation matching ?_
    intro before label after world matches' step
    obtain ⟨world', onward, serve⟩ := step.serve matches'
    exact ⟨world', onward, Run.snoc Run.nil serve⟩
  rw [List.flatMap_singleton'] at simulated
  obtain ⟨world, onward, plainRun⟩ := simulated
  exact ⟨plainStart, world, plainStarted, plainRun, onward⟩

/-- The hash table names exactly the requests that wait. -/
theorem hashedRun_table {env : Env} {malloc : Malloc} {now : Int} {file : Option (List UInt8)}
    {start hashed : HashedWorld} {events : List ((Int × Occasion) × List Sent)}
    (started : (startUpHashed env malloc now file).out = .ok start)
    (run : Run SafeServeHashed start events hashed) (feature : StringT) :
    hashTableGet hashed.clientsHashTable feature =
      .ok (tableAfter ((historyOf events).map Moment.action) feature) := by
  obtain ⟨plainStart, world, plainStarted, plainRun, onward⟩ := hashedRun_plain started run
  have exchanges := run_exchanges plainRun
  rw [startUp_clients plainStarted] at exchanges
  rw [onward.get, exchanges_table exchanges]

/-! ### A reply that comes twice -/

private def hashedSteps : Env := { fuel := 3, junk := fun _ _ => 0 }

private def aboutB (flags : UInt8) : Datagram :=
  { buf :=
      { base := [0, 9, flags, 0, 0, 1, 0, 0, 0, 0, 0, 0, 1, 98, 0, 0, 1, 0, 1]
        len := 19 }
    nonempty := Nat.succ_pos (nat_lit 18)
    fits := Nat.le_refl (nat_lit 19) }

private def aboutBMessage (qr : UInt8) : Message :=
  { id := 9
    flags :=
      { qr := qr, opcode := 0, aa := 0, tc := 0, rd := 1, ra := 0, z := 0, rcode := 0 }
    queryCount := 1
    answerCount := 0
    authorityCount := 0
    additionalCount := 0
    queries := [{ name := [98], type := 1, cls := 1 }]
    answers := [] }

def HashedWorld.returned (run : Exec (HashedWorld × List Sent)) : HashedWorld × List Sent :=
  run.resultOr ((HashedWorld.init .ascending), [])

theorem HashedWorld.out_eq_returned {run : Exec (HashedWorld × List Sent)}
    (done : run.out.isOk = true) : run.out = .ok ((returned run).1, (returned run).2) :=
  Logged.out_eq_resultOr done

private def asked : HashedWorld × List Sent :=
  HashedWorld.returned
    (bindSocketReadHashed hashedSteps (aboutB 1) [1] (HashedWorld.init .ascending))

private def told : HashedWorld × List Sent :=
  HashedWorld.returned (querySocketReadHashed hashedSteps 0 (aboutB 0x81) asked.1)

private def toldAgain : HashedWorld × List Sent :=
  HashedWorld.returned (querySocketReadHashed hashedSteps 0 (aboutB 0x81) told.1)

private def toldTwice : List ((Int × Occasion) × List Sent) :=
  [((0, .request (aboutBMessage 0) [1]), asked.2), ((0, .reply (aboutBMessage 1)), told.2),
    ((0, .reply (aboutBMessage 1)), toldAgain.2)]

private theorem aboutB_decoded :
    (buf2message hashedSteps (aboutB 1).buf).out = .ok (aboutBMessage 0) ∧
      (buf2message hashedSteps (aboutB 0x81).buf).out = .ok (aboutBMessage 1) :=
  ⟨rfl, rfl⟩

private theorem asked_served :
    ServeHashed (HashedWorld.init .ascending) ((0, .request (aboutBMessage 0) [1]), asked.2)
      asked.1 :=
  .request aboutB_decoded.1 (HashedWorld.out_eq_returned (by decide +kernel))

private theorem told_served :
    ServeHashed asked.1 ((0, .reply (aboutBMessage 1)), told.2) told.1 :=
  .reply aboutB_decoded.2 (HashedWorld.out_eq_returned (by decide +kernel))

private theorem toldAgain_served :
    ServeHashed told.1 ((0, .reply (aboutBMessage 1)), toldAgain.2) toldAgain.1 :=
  .reply aboutB_decoded.2 (HashedWorld.out_eq_returned (by decide +kernel))

/-- Without chain nodes there are no long chains. -/
theorem not_headOfLongChain_of_cells {α : Type} {t : HashTable α} (none : t.cells.cells = [])
    (name : StringT) : ¬ HeadOfLongChain t name := by
  rintro ⟨head, second, address, _, _, _, read, _⟩
  rw [HashTable.read, readNode, Heap.read, none] at read
  cases read

private theorem toldTwice_run :
    Run FullySafe (HashedWorld.init .ascending) toldTwice toldAgain.1 := by
  have entered : (hashTablePut (HashedWorld.init .ascending).clientsHashTable
      (some (featureOf (aboutBMessage 0))) (some [1])).map (fun t => t.cells.cells) = .ok [] := by
    decide +kernel
  have first : RemovalSafe (HashedWorld.init .ascending) (.request (aboutBMessage 0) [1]) := by
    intro t put
    rw [put] at entered
    exact not_headOfLongChain_of_cells (Except.ok.inj entered) _
  have second : RemovalSafe asked.1 (.reply (aboutBMessage 1)) :=
    not_headOfLongChain_of_cells (by decide +kernel) _
  have third : RemovalSafe told.1 (.reply (aboutBMessage 1)) :=
    not_headOfLongChain_of_cells (by decide +kernel) _
  exact Run.snoc (Run.snoc (Run.snoc Run.nil
    ⟨⟨asked_served, first⟩, nofun⟩) ⟨⟨told_served, second⟩, nofun⟩)
    ⟨⟨toldAgain_served, third⟩, nofun⟩

/-- As long as removals stay away from the heads of long chains, the server with its hash
table is the one with a finite map: its runs are runs of the latter, the table names exactly
the requests that wait, and the next callback makes the same accesses, sends the same and
ends in the same way. -/
theorem hashedRun_refines {env : Env} {malloc : Malloc} {now : Int} {file : Option (List UInt8)}
    {start hashed : HashedWorld} {events : List ((Int × Occasion) × List Sent)}
    (started : (startUpHashed env malloc now file).out = .ok start)
    (run : Run SafeServeHashed start events hashed) :
    ∃ plainStart world, (startUp env malloc now file).out = .ok plainStart ∧
      Run Serve plainStart events world ∧ CallbacksAgree hashed world ∧
      ∀ feature, hashTableGet hashed.clientsHashTable feature =
        .ok (tableAfter ((historyOf events).map Moment.action) feature) := by
  obtain ⟨plainStart, world, plainStarted, plainRun, onward⟩ := hashedRun_plain started run
  exact ⟨plainStart, world, plainStarted, plainRun, onward.callbacks,
    hashedRun_table started run⟩

theorem hashedRun_refines_twice :
    ∃ plainStart world, (startUp hashedSteps .ascending 0 none).out = .ok plainStart ∧
      Run Serve plainStart toldTwice world ∧ CallbacksAgree toldAgain.1 world ∧
      ∀ feature, hashTableGet toldAgain.1.clientsHashTable feature =
        .ok (tableAfter ((historyOf toldTwice).map Moment.action) feature) := by
  have started : (startUpHashed hashedSteps .ascending 0 none).out =
      .ok (HashedWorld.init .ascending) := rfl
  exact hashedRun_refines started (toldTwice_run.mono fun _ _ _ step => step.1)

/-! ### No reply goes astray -/

/-- As long as no removal goes wrong, no reply is duplicated and none goes astray, and whom the
hash table still names waits for a reply. -/
theorem hashedReplies_match {env : Env} {malloc : Malloc} {now : Int} {file : Option (List UInt8)}
    {start hashed : HashedWorld} {events : List ((Int × Occasion) × List Sent)}
    (started : (startUpHashed env malloc now file).out = .ok start)
    (run : Run FullySafe start events hashed) :
    RepliesMatch (historyOf events) ∧
      ∀ feature address, hashTableGet hashed.clientsHashTable feature = .ok (some address) →
        tableAfter ((historyOf events).map Moment.action) feature = some address := by
  have safeRun : Run SafeServeHashed start events hashed := run.mono fun _ _ _ step => step.1
  obtain ⟨plainStart, world, plainStarted, plainRun, _⟩ := hashedRun_plain started safeRun
  refine ⟨replies_match plainStarted plainRun, ?_⟩
  intro feature address get
  rw [hashedRun_table started safeRun] at get
  exact Except.ok.inj get

theorem hashedReplies_match_twice :
    RepliesMatch (historyOf toldTwice) ∧
      ∀ feature address,
        hashTableGet toldAgain.1.clientsHashTable feature = .ok (some address) →
        tableAfter ((historyOf toldTwice).map Moment.action) feature = some address := by
  have started : (startUpHashed hashedSteps .ascending 0 none).out =
      .ok (HashedWorld.init .ascending) := rfl
  exact hashedReplies_match started toldTwice_run

/-! ### The hash table as a desk -/

inductive TableExchange (t : HashTable SockAddr) :
    Moment StringT SockAddr → HashTable SockAddr → Prop where
  | requested {feature : StringT} {address : SockAddr} {t' : HashTable SockAddr} :
      hashTablePut t (some feature) (some address) = .ok t' →
        TableExchange t (.requested feature address) t'
  | replied {feature : StringT} {address : SockAddr} {t' : HashTable SockAddr} :
      hashTableGet t feature = .ok (some address) → ¬ HeadOfLongChain t feature →
        hashTableRemove t feature = .ok t' → TableExchange t (.replied feature address) t'

theorem sendResponseHashed_exchanges {env : Env} {before after : HashedWorld}
    {message : Message} {sent : List Sent}
    (safe : ¬ HeadOfLongChain before.clientsHashTable (featureOf message))
    (done : (sendResponseHashed env before message).out = .ok (after, sent)) :
    Run TableExchange before.clientsHashTable (sent.flatMap Sent.replied)
      after.clientsHashTable := by
  obtain ⟨feature, featured, looked⟩ := Logged.bind_out_eq_ok.mp done
  have isFeature := message2featureString_eq_ok featured
  subst isFeature
  obtain ⟨found, get, answered⟩ := ofExcept_bind_out_eq_ok.mp looked
  cases found with
  | none =>
      cases answered
      exact Run.nil
  | some address =>
      obtain ⟨buf, _, removing⟩ := Logged.bind_out_eq_ok.mp answered
      obtain ⟨t, removed, returned⟩ := ofExcept_bind_out_eq_ok.mp removing
      cases returned
      have left : TableExchange before.clientsHashTable
          (.replied (featureOf (clearReserved message)) address) t := by
        rw [(sameQuestion_clearReserved message).feature]
        exact .replied get safe removed
      exact Run.snoc Run.nil left

theorem handleReplyHashed_exchanges {env : Env} {now : Int} {message : Message}
    {before after : HashedWorld} {sent : List Sent}
    (safe : ¬ HeadOfLongChain before.clientsHashTable (featureOf message))
    (done : (handleReplyHashed env now message before).out = .ok (after, sent)) :
    Run TableExchange before.clientsHashTable (momentsOf ((now, .reply message), sent))
      after.clientsHashTable := by
  obtain ⟨_, _, done⟩ := Logged.bind_out_eq_ok.mp done
  obtain ⟨answers, _, cached⟩ := Logged.bind_out_eq_ok.mp done
  obtain ⟨collected, _, stored⟩ := Logged.bind_out_eq_ok.mp cached
  obtain ⟨caches, _, sending⟩ := Logged.bind_out_eq_ok.mp stored
  have exchanges := @sendResponseHashed_exchanges _ (before.withCaches caches) _ _ _ safe sending
  exact exchanges

theorem answerLocallyHashed_exchanges {env : Env} {before after : HashedWorld}
    {pass : FirstPass} {message : Message} {sent : List Sent}
    (safe : ¬ HeadOfLongChain before.clientsHashTable (featureOf message))
    (done : (answerLocallyHashed env before pass message (questionsOf message)).out =
      .ok (after, sent)) :
    Run TableExchange before.clientsHashTable (sent.flatMap Sent.replied)
      after.clientsHashTable := by
  rw [← (sameQuestion_backMessage message).feature] at safe
  unfold answerLocallyHashed at done
  cases hBanned : pass.banned with
  | true =>
      simp only [hBanned, if_true] at done
      refine sendResponseHashed_exchanges ?_ done
      exact safe
  | false =>
      simp only [hBanned, Bool.false_eq_true, if_false] at done
      obtain ⟨answers, _, sending⟩ := Logged.bind_out_eq_ok.mp done
      refine sendResponseHashed_exchanges ?_ sending
      exact safe

theorem handleRequestHashed_exchanges {env : Env} {now : Int} {address : SockAddr}
    {message : Message} {before after : HashedWorld} {sent : List Sent}
    (safe : RemovalSafe before (.request message address))
    (done : (handleRequestHashed env address message before).out = .ok (after, sent)) :
    Run TableExchange before.clientsHashTable
      (momentsOf ((now, .request message address), sent)) after.clientsHashTable := by
  obtain ⟨_, _, done⟩ := Logged.bind_out_eq_ok.mp done
  obtain ⟨feature, featured, entering⟩ := Logged.bind_out_eq_ok.mp done
  have isFeature := message2featureString_eq_ok featured
  subst isFeature
  obtain ⟨t, put, entered⟩ := ofExcept_bind_out_eq_ok.mp entering
  obtain ⟨queries, ready, counted⟩ := Logged.bind_out_eq_ok.mp entered
  have isQuestions : queries = questionsOf message := initialised_eq_ok ready
  subst isQuestions
  obtain ⟨pass, _, decided⟩ := Logged.bind_out_eq_ok.mp counted
  have requested : Run TableExchange before.clientsHashTable
      [.requested (featureOf message) address] t := Run.snoc Run.nil (.requested put)
  cases hCached : pass.cached with
  | true =>
      simp only [hCached, if_true] at decided
      exact requested.append (answerLocallyHashed_exchanges (safe t put) decided)
  | false =>
      simp only [hCached, Bool.false_eq_true, if_false] at decided
      obtain ⟨buf, _, returned⟩ := Logged.bind_out_eq_ok.mp decided
      cases returned
      exact requested

/-- What one callback takes in and sends out are steps of the hash table. -/
theorem SafeServeHashed.exchanges {before after : HashedWorld}
    {label : (Int × Occasion) × List Sent} (step : SafeServeHashed before label after) :
    Run TableExchange before.clientsHashTable (momentsOf label) after.clientsHashTable := by
  obtain ⟨serve, safe⟩ := step
  cases serve with
  | request decoded done =>
      rw [bindSocketReadHashed, Logged.bind_out_of_ok decoded] at done
      exact handleRequestHashed_exchanges safe done
  | reply decoded done =>
      rw [querySocketReadHashed, Logged.bind_out_of_ok decoded] at done
      exact handleReplyHashed_exchanges safe done
  | sweep done =>
      obtain ⟨caches, _, returned⟩ := Logged.bind_out_eq_ok.mp done
      cases returned
      exact Run.nil

theorem startUpHashed_clients {env : Env} {malloc : Malloc} {now : Int}
    {file : Option (List UInt8)} {start : HashedWorld}
    (started : (startUpHashed env malloc now file).out = .ok start) :
    start.clientsHashTable = hashTableNew malloc.clients := by
  obtain ⟨caches, _, returned⟩ := Logged.bind_out_eq_ok.mp started
  cases returned
  rfl

theorem hashedRun_exchanges {env : Env} {malloc : Malloc} {now : Int}
    {file : Option (List UInt8)} {start hashed : HashedWorld}
    (started : (startUpHashed env malloc now file).out = .ok start)
    {events : List ((Int × Occasion) × List Sent)}
    (run : Run SafeServeHashed start events hashed) :
    Run TableExchange (hashTableNew malloc.clients) (historyOf events)
      hashed.clientsHashTable := by
  refine run.invariant
    (fun events hashed => Run TableExchange (hashTableNew malloc.clients) (historyOf events)
      hashed.clientsHashTable) ?_ ?_
  · rw [startUpHashed_clients started]
    exact Run.nil
  · intro earlier label middle final soFar serve
    rw [historyOf, List.flatMap_append, List.flatMap_singleton]
    exact soFar.append serve.exchanges

/-! ### The table grows with the replies -/

def Sent.isResponse : Sent → Bool
  | .query _ _ => false
  | .response _ _ _ => true

def responsesSent (events : List ((Int × Occasion) × List Sent)) : Nat :=
  (events.flatMap Prod.snd).countP Sent.isResponse

theorem momentsOf_replies (label : (Int × Occasion) × List Sent) :
    (momentsOf label).countP Moment.isReply = label.2.countP Sent.isResponse := by
  have asked : label.1.2.requested.countP Moment.isReply = 0 := by
    cases label.1.2 with
    | request message address => rfl
    | reply message => rfl
    | sweep => rfl
  rw [momentsOf, List.countP_append, asked, Nat.zero_add]
  induction label.2 with
  | nil => rfl
  | cons first rest ih =>
      rw [List.flatMap_cons, List.countP_append, ih, List.countP_cons]
      cases first with
      | query message buf => exact Nat.zero_add _
      | response address message buf => exact Nat.add_comm _ _

theorem historyOf_replies (events : List ((Int × Occasion) × List Sent)) :
    (historyOf events).countP Moment.isReply = responsesSent events := by
  induction events with
  | nil => rfl
  | cons label rest ih =>
      rw [historyOf, List.flatMap_cons, List.countP_append, momentsOf_replies,
        responsesSent, List.flatMap_cons, List.countP_append]
      exact congrArg _ ih

theorem tableRun_worn {choices : List Nat} {history : List (Moment StringT SockAddr)}
    {t : HashTable SockAddr} (run : Run TableExchange (hashTableNew choices) history t) :
    ∃ clients, IsMap t clients ∧ Worn (history.countP Moment.isReply) t := by
  refine run.invariant (fun history t => ∃ clients, IsMap t clients ∧
    Worn (history.countP Moment.isReply) t) ⟨_, hashTableNew_isMap choices, worn_new choices⟩ ?_
  rintro earlier moment middle final ⟨clients, isMap, worn⟩ exchange
  rw [List.countP_append, List.countP_singleton]
  cases exchange with
  | @requested feature address _ put =>
      obtain ⟨t', putToo, isMap'⟩ := hashTablePut_isMap isMap feature address
      obtain ⟨t'', again, worn'⟩ := worn.put isMap feature address
      rw [put] at putToo again
      cases putToo
      cases again
      exact ⟨_, isMap', worn'⟩
  | replied get safe removed =>
      exact ⟨_, hashTableRemove_of_ok isMap safe removed, worn.remove isMap get safe removed⟩

/-- As long as no removal goes wrong, every reply that was ever sent, and every request that
waits, has its share in the size of the pending table: the table only ever grows with the
traffic. -/
theorem responses_le_capacity {env : Env} {malloc : Malloc} {now : Int} {file : Option (List UInt8)}
    {start hashed : HashedWorld} {events : List ((Int × Occasion) × List Sent)}
    (started : (startUpHashed env malloc now file).out = .ok start)
    (run : Run FullySafe start events hashed) :
    responsesSent events + (storedNames hashed.clientsHashTable).length ≤
      loadThreshold hashed.clientsHashTable.capacity + 2 := by
  have safeRun : Run SafeServeHashed start events hashed := run.mono fun _ _ _ step => step.1
  obtain ⟨_, _, worn⟩ := tableRun_worn (hashedRun_exchanges started safeRun)
  rw [← historyOf_replies]
  exact worn.removals_le

theorem responses_le_capacity_twice :
    responsesSent toldTwice + (storedNames toldAgain.1.clientsHashTable).length ≤
      loadThreshold toldAgain.1.clientsHashTable.capacity + 2 := by
  have started : (startUpHashed hashedSteps .ascending 0 none).out =
      .ok (HashedWorld.init .ascending) := rfl
  exact responses_le_capacity started toldTwice_run

end PostDns
