/-
What comes in at the sockets (socket.c, from the datagram on).

Whether the callback returns is a matter of the datagram and of the state it meets.  When
it does for each datagram that comes in, and nothing takes the place of a request that
waits, each request is replied to exactly once.
-/

import PostDns.Outcomes
import PostDns.Replies
import PostDns.Routing
import PostDns.Turns
import PostDns.WriteBounds

namespace PostDns

open Foundation

/-! ### Replies that return -/

theorem cacheAnswer_returns (now : Int) {answer : ResourceRecord} (loggable : Loggable answer)
    {collected : Collected} {map : StringT → Option CnameCache}
    (isMap : IsMap collected.cnameTable map) :
    ∃ after map', (cacheAnswer now collected answer).out = .ok after ∧
      IsMap after.cnameTable map' := by
  unfold cacheAnswer
  split_ifs with isA isCname isAaaa
  · obtain ⟨address, data⟩ := loggable.inet4 isA
    rw [data]
    exact ⟨_, map, rfl, isMap⟩
  · obtain ⟨name, data⟩ := loggable.domain isCname
    obtain ⟨t, put, isMap'⟩ := cnameCachePut_isMap isMap now answer.name
      { name := name, ttl := 120, timestamp := now, manual := false }
    simp only [data]
    rw [put]
    exact ⟨_, _, rfl, isMap'⟩
  · obtain ⟨address, data⟩ := loggable.inet6 isAaaa
    rw [data]
    exact ⟨_, map, rfl, isMap⟩
  · exact ⟨_, map, rfl, isMap⟩

theorem cacheAnswers_returns (now : Int) {answers : List ResourceRecord}
    (loggable : ∀ answer ∈ answers, Loggable answer) {collected : Collected}
    {map : StringT → Option CnameCache} (isMap : IsMap collected.cnameTable map) :
    ∃ after, (cacheAnswers now answers collected).out = .ok after := by
  induction answers generalizing collected map with
  | nil => exact ⟨collected, rfl⟩
  | cons answer answers ih =>
      have later := fun other member => loggable other (List.mem_cons_of_mem _ member)
      obtain ⟨middle, map', cached, isMap'⟩ :=
        cacheAnswer_returns now (loggable answer List.mem_cons_self) isMap
      obtain ⟨after, done⟩ := ih later isMap'
      refine ⟨after, ?_⟩
      rw [cacheAnswers, Logged.bind_out_of_ok cached]
      exact done

theorem storeAddresses_returns {world : World} {maps : CacheMaps} (shows : Shows world maps)
    (now : Int) (collected : Collected) :
    ∃ after, (storeAddresses now world collected).out = .ok after := by
  have first : ∃ t, (putNamed world.ipv4Table (fun domain =>
      ipv4CachePut now world.ipv4Table domain collected.ipv4Cache)
        collected.ipv4Domain).out = .ok t := by
    cases collected.ipv4Domain with
    | none => exact ⟨_, rfl⟩
    | some domain =>
        obtain ⟨t, put, _⟩ := ipv4CachePut_isMap shows.ipv4 now domain collected.ipv4Cache
        exact ⟨t, put⟩
  have second : ∃ t, (putNamed world.ipv6Table (fun domain =>
      ipv6CachePut now world.ipv6Table domain collected.ipv6Cache)
        collected.ipv6Domain).out = .ok t := by
    cases collected.ipv6Domain with
    | none => exact ⟨_, rfl⟩
    | some domain =>
        obtain ⟨t, put, _⟩ := ipv6CachePut_isMap shows.ipv6 now domain collected.ipv6Cache
        exact ⟨t, put⟩
  obtain ⟨ipv4Table, stored4⟩ := first
  obtain ⟨ipv6Table, stored6⟩ := second
  rw [storeAddresses, Logged.bind_out_of_ok stored4, Logged.bind_out_of_ok stored6]
  exact ⟨_, rfl⟩

theorem sendResponseFrom_returns {env : Env} {reply : Message} (full : FullyInitialised reply)
    {world : World} (fits : world.clients (featureOf reply) ≠ none → FitsPacket reply) :
    ∃ after sent, (sendResponseFrom env world reply).out = .ok (after, sent) := by
  have asked := full.queries.ge
  cases hClient : world.clients (featureOf reply) with
  | none =>
      refine ⟨world, [], ?_⟩
      rw [sendResponseFrom, sendResponse, message2featureString_asked asked, Logged.pure_bind]
      simp only [hClient]
      rfl
  | some address =>
      have waits : world.clients (featureOf reply) ≠ none := by
        rw [hClient]
        exact Option.some_ne_none address
      obtain ⟨buf, encoded⟩ := (@message2buf_returns_iff env (clearReserved reply) asked
        full.answers.ge fun answer member => (full.shapes answer member).carries).mpr
          ((fitsPacket_clearReserved _).mpr (fits waits))
      exact ⟨_, _, (sendResponseFrom_out_eq_ok asked hClient).mpr ⟨buf, encoded, rfl, rfl⟩⟩

/-- On tables that are maps, an initialised reply is handled when it fits the packet or
nobody waits for it. -/
theorem handleReply_returns {env : Env} {message : Message} (full : FullyInitialised message)
    {world : World} {maps : CacheMaps} (shows : Shows world maps)
    (fits : world.clients (featureOf message) ≠ none → FitsPacket message) (now : Int) :
    ∃ after sent, (handleReply env now message world).out = .ok (after, sent) := by
  have ready := full.logReady
  obtain ⟨collected, cached⟩ := @cacheAnswers_returns now _ ready.loggable
    (Collected.start now world.cnameTable) maps.cname shows.cname
  obtain ⟨stored, storing⟩ := storeAddresses_returns shows now collected
  rw [← storeAddresses_clients storing] at fits
  obtain ⟨after, sent, sending⟩ := @sendResponseFrom_returns env _ full stored fits
  refine ⟨after, sent, ?_⟩
  rw [handleReply, ready.messageLog_bind, initialised_of_le full.answers.ge, Logged.pure_bind,
    Logged.bind_out_of_ok cached, Logged.bind_out_of_ok storing]
  exact sending

structure Passable (world : World) (buf : UvBuf) (message : Message) : Prop where
  asked : 12 < buf.len ∨ queryCountOf buf = 0
  labelled : ∀ answer ∈ message.answers, ¬ RootTarget answer
  fits : world.clients (featureOf message) ≠ none → FitsPacket message

theorem querySocketRead_returns {world : World} {maps : CacheMaps} (shows : Shows world maps)
    {machine : Env} {datagram : Datagram} {message : Message}
    (decoded : (buf2message machine datagram.buf).out = .ok message)
    (passable : Passable world datagram.buf message) (now : Int) :
    ∃ after sent, (querySocketRead machine now datagram world).out = .ok (after, sent) := by
  have decodedFrom := decodedFrom decoded
  have full := decodedFrom.full_iff.mpr
    (decodedFrom.logReady_iff.mpr ⟨passable.asked, passable.labelled⟩)
  rw [querySocketRead, Logged.bind_out_of_ok decoded]
  exact handleReply_returns full shows passable.fits now

/-! ### Datagrams one after the other -/

/-- A datagram that comes in, with what the memory held before. -/
inductive Arrival where
  | request (junk : Site → Nat → UInt8) (datagram : Datagram) (address : SockAddr)
  | reply (junk : Site → Nat → UInt8) (now : Int) (datagram : Datagram)

inductive Handles (before : World) : Arrival × Event × List Sent → World → Prop where
  | request {fuel : Nat} {junk : Site → Nat → UInt8} {datagram : Datagram}
      {address : SockAddr} {message : Message} {sent : List Sent} {after : World} :
      (buf2message ⟨fuel, junk⟩ datagram.buf).out = .ok message →
      (bindSocketRead ⟨fuel, junk⟩ datagram address before).out = .ok (after, sent) →
      Handles before (.request junk datagram address, .request message address, sent) after
  | reply {fuel : Nat} {junk : Site → Nat → UInt8} {now : Int} {datagram : Datagram}
      {message : Message} {sent : List Sent} {after : World} :
      (buf2message ⟨fuel, junk⟩ datagram.buf).out = .ok message →
      (querySocketRead ⟨fuel, junk⟩ now datagram before).out = .ok (after, sent) →
      Handles before (.reply junk now datagram, .reply message, sent) after

/-- The datagram decodes, and the callback comes to its end in this state. -/
def Manageable (world : World) : Arrival → Prop
  | .request junk datagram _ => ∃ fuel message,
      (buf2message ⟨fuel, junk⟩ datagram.buf).out = .ok message ∧
        Returnable world datagram.buf message
  | .reply junk _ datagram => ∃ fuel message,
      (buf2message ⟨fuel, junk⟩ datagram.buf).out = .ok message ∧
        Passable world datagram.buf message

def EachManageable : World → List Arrival → Prop
  | _, [] => True
  | world, arrival :: arrivals => Manageable world arrival ∧
      ∀ label after, Handles world (arrival, label) after → EachManageable after arrivals

/-- What a datagram comes to is determined by the state that it meets. -/
theorem Handles.unique {before after after' : World} {arrival : Arrival}
    {label label' : Event × List Sent} (first : Handles before (arrival, label) after)
    (second : Handles before (arrival, label') after') : label = label' ∧ after = after' := by
  cases first with
  | @request fuel junk datagram address message sent after decoded done =>
      cases second with
      | request decoded' done' =>
          cases (buf2message_mono datagram.buf).unique decoded decoded'
          cases (bindSocketRead_mono datagram address before).unique done done'
          exact ⟨rfl, rfl⟩
  | @reply fuel junk now datagram message sent after decoded done =>
      cases second with
      | reply decoded' done' =>
          cases (buf2message_mono datagram.buf).unique decoded decoded'
          cases (querySocketRead_mono now datagram before).unique done done'
          exact ⟨rfl, rfl⟩

theorem EachManageable.cons {before after : World} {arrival : Arrival}
    {label : Event × List Sent} {arrivals : List Arrival}
    (manageable : Manageable before arrival) (handles : Handles before (arrival, label) after)
    (later : EachManageable after arrivals) : EachManageable before (arrival :: arrivals) := by
  refine ⟨manageable, ?_⟩
  intro label' after' handles'
  rw [← (handles.unique handles').2]
  exact later

theorem Handles.callback {before after : World} {label : Arrival × Event × List Sent}
    (handles : Handles before label after) : Callback before label.2 after := by
  cases handles with
  | request decoded done => exact .request decoded done
  | reply decoded done => exact .reply decoded done

theorem Callback.serve {before after : World} {label : Event × List Sent}
    (callback : Callback before label after) :
    ∃ event, SafeServe before (event, label.2) after := by
  cases callback with
  | @request env datagram address message sent after decoded done =>
      refine ⟨(0, .request message address), .request decoded done, ?_⟩
      intro isSweep
      cases isSweep
  | @reply env now datagram message sent after decoded done =>
      refine ⟨(now, .reply message), .reply decoded done, ?_⟩
      intro isSweep
      cases isSweep

/-- Without sweeps nothing is removed, so every removal is safe. -/
theorem callbacks_safe {start world : World} {events : Trace}
    (run : Run Callback start events world) :
    ∃ served, Run SafeServe start served world := by
  apply run.invariant (fun _ world => ∃ served, Run SafeServe start served world) ⟨[], Run.nil⟩
  intro _ label middle final earlier callback
  obtain ⟨served, safe⟩ := earlier
  obtain ⟨event, last⟩ := callback.serve
  exact ⟨_, Run.snoc safe last⟩

theorem handlesRun_callbacks {start world : World}
    {steps : List (Arrival × Event × List Sent)} (run : Run Handles start steps world) :
    Run Callback start (steps.map Prod.snd) world := by
  apply run.invariant (fun steps world => Run Callback start (steps.map Prod.snd) world) Run.nil
  intro earlier label middle final soFar handles
  rw [List.map_append]
  exact Run.snoc soFar handles.callback

section Handled

variable {env : Env} {malloc : Malloc} {began : Int} {file : Option (List UInt8)}
  {start : World} (started : (startUp env malloc began file).out = .ok start)

include started

theorem Manageable.handled {events : Trace} {world : World}
    (run : Run Callback start events world) {arrival : Arrival}
    (manageable : Manageable world arrival) :
    ∃ label after, Handles world (arrival, label) after := by
  obtain ⟨served, safe⟩ := callbacks_safe run
  obtain ⟨maps, shows, _⟩ := safeRun_manualZero started safe
  cases arrival with
  | request junk datagram address =>
      obtain ⟨fuel, message, decoded, returnable⟩ := manageable
      have lists : ListsFilled world :=
        Reachable.listsFilled (.intro started (safe.mono fun _ _ _ step => step.1))
      obtain ⟨enough, returns⟩ := bindSocketRead_returns shows lists decoded returnable address
      obtain ⟨after, sent, done, _⟩ :=
        returns (max enough fuel) (Nat.le_max_left enough fuel)
      have decoded' := buf2message_fuel decoded (Nat.le_max_right enough fuel)
      exact ⟨(.request message address, sent), after, .request decoded' done⟩
  | reply junk now datagram =>
      obtain ⟨fuel, message, decoded, passable⟩ := manageable
      obtain ⟨after, sent, done⟩ := querySocketRead_returns shows decoded passable now
      exact ⟨(.reply message, sent), after, .reply decoded done⟩

/-- Manageable datagrams are handled one after the other. -/
theorem eachManageable_run {earlier : List (Arrival × Event × List Sent)} {world : World}
    (run : Run Handles start earlier world) {arrivals : List Arrival}
    (manageable : EachManageable world arrivals) :
    ∃ steps after, Run Handles start (earlier ++ steps) after ∧
      steps.map Prod.fst = arrivals := by
  induction arrivals generalizing earlier world with
  | nil =>
      refine ⟨[], world, ?_, rfl⟩
      rw [List.append_nil]
      exact run
  | cons arrival arrivals ih =>
      obtain ⟨label, middle, first⟩ := manageable.1.handled started (handlesRun_callbacks run)
      obtain ⟨steps, after, further, isArrivals⟩ :=
        ih (Run.snoc run first) (manageable.2 label middle first)
      refine ⟨(arrival, label) :: steps, after, ?_, ?_⟩
      · rw [List.append_cons]
        exact further
      · rw [List.map_cons, isArrivals]

end Handled

def AnsweredOnce (steps : List (Arrival × Event × List Sent)) : Arrival → Prop
  | .request junk datagram address => ∃ fuel message,
      (buf2message ⟨fuel, junk⟩ datagram.buf).out = .ok message ∧
        ServedOnce (steps.map Prod.snd) message address
  | .reply _ _ _ => True

/-- When each datagram is manageable where it comes in, all of them are handled; and when
nothing else with the feature string of a forwarded request comes in before its reply, each
request is replied to exactly once. -/
theorem each_request_servedOnce {env : Env} {malloc : Malloc} {began : Int}
    {file : Option (List UInt8)} {start : World}
    (started : (startUp env malloc began file).out = .ok start) {arrivals : List Arrival}
    (manageable : EachManageable start arrivals) :
    (∃ steps world, Run Handles start steps world ∧ steps.map Prod.fst = arrivals) ∧
      ∀ steps world, Run Handles start steps world → steps.map Prod.fst = arrivals →
        DistinctRequests (steps.map Prod.snd) →
          ∀ answer, EachAnswered (steps.map Prod.snd) answer →
            Exclusive (steps.map Prod.snd) answer →
              ∀ arrival ∈ arrivals, AnsweredOnce steps arrival := by
  constructor
  · obtain ⟨steps, world, run, isArrivals⟩ := eachManageable_run started Run.nil manageable
    exact ⟨steps, world, run, isArrivals⟩
  · intro steps world run isArrivals distinct answer each exclusive arrival member
    have callbacks := handlesRun_callbacks run
    rw [← isArrivals] at member
    obtain ⟨⟨_, event, sent⟩, inSteps, rfl⟩ := List.mem_map.mp member
    obtain ⟨index, here⟩ := List.getElem?_of_mem inSteps
    obtain ⟨before, after, _, handles, _⟩ := run.at here
    cases handles with
    | @request fuel junk datagram address message sent after decoded done =>
        refine ⟨fuel, message, decoded, ?_⟩
        apply servedOnce_of_exclusive (startUp_clients started) callbacks each exclusive
          distinct index
        refine ⟨sent, ?_⟩
        rw [List.getElem?_map, here]
        rfl
    | reply decoded done => trivial

/-! ### Two clients -/

private def machine : Env := { fuel := 3, junk := fun _ _ => 0 }

private def aboutA (id flags : UInt8) : Datagram :=
  { buf :=
      { base := [0, id, flags, 0, 0, 1, 0, 0, 0, 0, 0, 0, 1, 97, 0, 0, 1, 0, 1]
        len := 19 }
    nonempty := Nat.succ_pos (nat_lit 18)
    fits := Nat.le_refl (nat_lit 19) }

private def decodedA (id : UInt16) (qr : UInt8) : Message :=
  { id := id
    flags :=
      { qr := qr, opcode := 0, aa := 0, tc := 0, rd := 1, ra := 0, z := 0, rcode := 0 }
    queryCount := 1
    answerCount := 0
    authorityCount := 0
    additionalCount := 0
    queries := [{ name := [97], type := 1, cls := 1 }]
    answers := [] }

private def afterRequest (id : UInt8) (address : SockAddr) (world : World) :
    World × List Sent :=
  returned (bindSocketRead machine (aboutA id 1) address world)

private def afterReply (id : UInt8) (world : World) : World × List Sent :=
  returned (querySocketRead machine 0 (aboutA id 0x81) world)

private def arrivalsOf (id id' : UInt8) : List Arrival :=
  [.request machine.junk (aboutA id 1) [1], .request machine.junk (aboutA id' 1) [2],
    .reply machine.junk 0 (aboutA id 0x81), .reply machine.junk 0 (aboutA id' 0x81)]

private def stepsOf (id id' : UInt8) : List (Arrival × Event × List Sent) × World :=
  let first := afterRequest id [1] (World.init .ascending)
  let second := afterRequest id' [2] first.1
  let third := afterReply id second.1
  let fourth := afterReply id' third.1
  ([(.request machine.junk (aboutA id 1) [1], .request (decodedA id.toUInt16 0) [1], first.2),
    (.request machine.junk (aboutA id' 1) [2], .request (decodedA id'.toUInt16 0) [2],
      second.2),
    (.reply machine.junk 0 (aboutA id 0x81), .reply (decodedA id.toUInt16 1), third.2),
    (.reply machine.junk 0 (aboutA id' 0x81), .reply (decodedA id'.toUInt16 1), fourth.2)],
    fourth.1)

private theorem asks_manageable {id : UInt8} {world : World}
    (decoded : (buf2message machine (aboutA id 1).buf).out = .ok (decodedA id.toUInt16 0))
    (unaliased : cnameCacheGet world.cnameTable [97] = .ok none)
    (uncached : ipv4CacheGet world.ipv4Table [97] = .ok none) (address : SockAddr) :
    Manageable world (.request machine.junk (aboutA id 1) address) := by
  have missing : ¬ Found world { name := [97], type := 1, cls := 1 } :=
    not_found_of_uncached rfl unaliased uncached
  have fits : FitsPacket (decodedA id.toUInt16 0) := of_decide_eq_true rfl
  refine ⟨machine.fuel, decodedA id.toUInt16 0, decoded, ?_⟩
  exact
    { asked := Or.inl (by decide : 12 < 19)
      labelled := nofun
      ended := ⟨fun _ => ⟨[], [97], .last unaliased⟩, fun _ => trivial⟩
      fits := sendFits_of_missing List.mem_cons_self missing fits }

private theorem tells_manageable {id : UInt8}
    (decoded : (buf2message machine (aboutA id 0x81).buf).out = .ok (decodedA id.toUInt16 1))
    (world : World) : Manageable world (.reply machine.junk 0 (aboutA id 0x81)) := by
  have fits : FitsPacket (decodedA id.toUInt16 1) := of_decide_eq_true rfl
  refine ⟨machine.fuel, decodedA id.toUInt16 1, decoded, ?_⟩
  exact
    { asked := Or.inl (by decide : 12 < 19)
      labelled := nofun
      fits := fun _ => fits }

private def traceOf (id id' : UInt8) : Trace :=
  (stepsOf id id').1.map Prod.snd

private theorem traceOf_requested {id id' : UInt8} {index : Nat} {message : Message}
    {address : SockAddr} (requested : Requested (traceOf id id') index message address) :
    (index = 0 ∧ message = decodedA id.toUInt16 0 ∧ address = [1]) ∨
      (index = 1 ∧ message = decodedA id'.toUInt16 0 ∧ address = [2]) := by
  obtain ⟨sent, here⟩ := requested
  rcases index with _ | _ | _ | _ | index
  · cases here
    exact Or.inl ⟨rfl, rfl, rfl⟩
  · cases here
    exact Or.inr ⟨rfl, rfl, rfl⟩
  all_goals cases here

private theorem traceOf_distinct (id id' : UInt8) : DistinctRequests (traceOf id id') := by
  intro first second message other address inFirst inSecond _
  rcases traceOf_requested inFirst with ⟨rfl, _, rfl⟩ | ⟨rfl, _, rfl⟩
  · rcases traceOf_requested inSecond with ⟨rfl, _, _⟩ | ⟨rfl, _, impossible⟩
    · rfl
    · cases impossible
  · rcases traceOf_requested inSecond with ⟨rfl, _, impossible⟩ | ⟨rfl, _, _⟩
    · cases impossible
    · rfl

private theorem traceOf_answered {id id' : UInt8}
    (first : Forwarded (traceOf id id') 0 (decodedA id.toUInt16 0) [1])
    (second : Forwarded (traceOf id id') 1 (decodedA id'.toUInt16 0) [2]) :
    EachAnswered (traceOf id id') (· + 2) :=
  { later := fun index _ _ _ => Nat.lt_add_of_pos_right (Nat.succ_pos 1)
    answered := by
      intro index message address isForwarded
      rcases traceOf_requested isForwarded.requested with
        ⟨rfl, rfl, _⟩ | ⟨rfl, rfl, _⟩
      · exact ⟨_, ⟨_, rfl⟩, rfl, rfl⟩
      · exact ⟨_, ⟨_, rfl⟩, rfl, rfl⟩
    own := fun _ _ _ _ _ _ _ _ same => Nat.add_right_cancel same
    only := by
      rintro _ _ _ _ place reply ⟨sent, here⟩ _
      rcases place with _ | _ | _ | _ | place
      · cases here
      · cases here
      · exact ⟨0, _, _, first, rfl⟩
      · exact ⟨1, _, _, second, rfl⟩
      · cases here }

private theorem traceOf_exclusive : Exclusive (traceOf 7 8) (· + 2) := by
  intro index message address isForwarded other label after before here same
  rcases traceOf_requested isForwarded.requested with ⟨rfl, rfl, _⟩ | ⟨rfl, rfl, _⟩
  · have isNext : other = 1 := Nat.le_antisymm (Nat.le_of_lt_succ before) after
    subst isNext
    cases here
    exact absurd same (by decide)
  · have isNext : other = 2 := Nat.le_antisymm (Nat.le_of_lt_succ before) after
    subst isNext
    cases here
    exact absurd same (by decide)

private structure Passes (id id' : UInt8) : Prop where
  decoded : ∀ one ∈ [id, id'],
    (buf2message machine (aboutA one 1).buf).out = .ok (decodedA one.toUInt16 0) ∧
      (buf2message machine (aboutA one 0x81).buf).out = .ok (decodedA one.toUInt16 1)
  uncached : ∀ world ∈ [World.init .ascending, (afterRequest id [1] (World.init .ascending)).1],
    cnameCacheGet world.cnameTable [97] = .ok none ∧
      ipv4CacheGet world.ipv4Table [97] = .ok none
  first : (bindSocketRead machine (aboutA id 1) [1] (World.init .ascending)).out.isOk = true
  second : (bindSocketRead machine (aboutA id' 1) [2]
    (afterRequest id [1] (World.init .ascending)).1).out.isOk = true
  third : (querySocketRead machine 0 (aboutA id 0x81)
    (afterRequest id' [2] (afterRequest id [1] (World.init .ascending)).1).1).out.isOk = true
  fourth : (querySocketRead machine 0 (aboutA id' 0x81) (afterReply id
    (afterRequest id' [2] (afterRequest id [1] (World.init .ascending)).1).1).1).out.isOk = true

private theorem Passes.run {id id' : UInt8} (passes : Passes id id') :
    Run Handles (World.init .ascending) (stepsOf id id').1 (stepsOf id id').2 := by
  have first := passes.decoded id List.mem_cons_self
  have second := passes.decoded id' (List.mem_cons_of_mem _ List.mem_cons_self)
  exact Run.snoc (Run.snoc (Run.snoc (Run.snoc Run.nil
    (.request first.1 (out_eq_returned passes.first)))
    (.request second.1 (out_eq_returned passes.second)))
    (.reply first.2 (out_eq_returned passes.third)))
    (.reply second.2 (out_eq_returned passes.fourth))

private theorem Passes.manageable {id id' : UInt8} (passes : Passes id id') :
    EachManageable (World.init .ascending) (arrivalsOf id id') := by
  have first := passes.decoded id List.mem_cons_self
  have second := passes.decoded id' (List.mem_cons_of_mem _ List.mem_cons_self)
  have empty := passes.uncached _ List.mem_cons_self
  have still := passes.uncached _ (List.mem_cons_of_mem _ List.mem_cons_self)
  apply EachManageable.cons (asks_manageable first.1 empty.1 empty.2 [1])
    (.request first.1 (out_eq_returned passes.first))
  apply EachManageable.cons (asks_manageable second.1 still.1 still.2 [2])
    (.request second.1 (out_eq_returned passes.second))
  apply EachManageable.cons (tells_manageable first.2 _)
    (.reply first.2 (out_eq_returned passes.third))
  apply EachManageable.cons (tells_manageable second.2 _)
    (.reply second.2 (out_eq_returned passes.fourth))
  trivial

private theorem passes_seven {id : UInt8} (isId : id = 7 ∨ id = 8) : Passes 7 id := by
  rcases isId with rfl | rfl
  all_goals
    constructor
    · simp only [List.forall_mem_cons]
      exact ⟨⟨rfl, rfl⟩, ⟨rfl, rfl⟩, nofun⟩
    · simp only [List.forall_mem_cons]
      exact ⟨⟨by decide +kernel, by decide +kernel⟩, ⟨by decide +kernel, by decide +kernel⟩,
        nofun⟩
    all_goals decide +kernel

theorem each_request_servedOnce_twoIds :
    ∃ steps world, Run Handles (World.init .ascending) steps world ∧
      steps.map Prod.fst = arrivalsOf 7 8 ∧
        ∀ arrival ∈ arrivalsOf 7 8, AnsweredOnce steps arrival := by
  have started : (startUp machine .ascending 0 none).out = .ok (World.init .ascending) := rfl
  have passes : Passes 7 8 := passes_seven (Or.inr rfl)
  obtain ⟨_, served⟩ := each_request_servedOnce started passes.manageable
  refine ⟨(stepsOf 7 8).1, (stepsOf 7 8).2, passes.run, rfl, ?_⟩
  apply served _ _ passes.run rfl (traceOf_distinct 7 8) (· + 2) ?_ traceOf_exclusive
  exact traceOf_answered ⟨_, rfl, by decide +kernel⟩ ⟨_, rfl, by decide +kernel⟩

/-- The decoder does not come back from a question about the root. -/
private theorem rootQuestion_undecoded (env : Env) (message : Message) :
    (buf2message env rootQuestion.buf).out ≠ .ok message := by
  intro decoded
  have enough := buf2message_fuel decoded (Nat.le_succ env.fuel)
  have stopped : (buf2message ⟨env.fuel + 1, env.junk⟩ rootQuestion.buf).out =
      .error .emptyName := rfl
  rw [stopped] at enough
  cases enough

/-- The first of two clients with the same id and question gets no reply, although
both requests are answered by the upstream server; and a question about the root is never
handled. -/
theorem not_servedOnce_sameId :
    (EachManageable (World.init .ascending) (arrivalsOf 7 7) ∧
      Run Handles (World.init .ascending) (stepsOf 7 7).1 (stepsOf 7 7).2 ∧
      (stepsOf 7 7).1.map Prod.fst = arrivalsOf 7 7 ∧
      DistinctRequests (traceOf 7 7) ∧ EachAnswered (traceOf 7 7) (· + 2) ∧
      ¬ AnsweredOnce (stepsOf 7 7).1 (.request machine.junk (aboutA 7 1) [1])) ∧
    ∀ world junk address label after,
      ¬ Handles world (.request junk rootQuestion address, label) after := by
  have passes : Passes 7 7 := passes_seven (Or.inl rfl)
  refine ⟨⟨passes.manageable, passes.run, rfl, traceOf_distinct 7 7, ?_, ?_⟩, ?_⟩
  · exact traceOf_answered ⟨_, rfl, by decide +kernel⟩ ⟨_, rfl, by decide +kernel⟩
  · rintro ⟨fuel, message, decoded, once⟩
    have isDecoded := (buf2message_mono (aboutA 7 1).buf).unique decoded
      (passes.decoded 7 List.mem_cons_self).1
    subst isDecoded
    revert once
    unfold ServedOnce
    decide +kernel
  · intro world junk address label after handles
    cases handles with
    | request decoded _ => exact rootQuestion_undecoded _ _ decoded

end PostDns
