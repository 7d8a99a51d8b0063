/-
From a request to the datagram that its client gets (socket.c and message.c).

A request is forwarded as it is, or answered at once.  A reply that is passed on goes to the
latest request with its feature string, and in plain speech that string is the id and the
question.  So every client gets an answer to a question that it has asked and that was still
open, and reads it as it was meant.
-/

import PostDns.CalmRuns
import PostDns.Features

namespace PostDns

open Foundation
open Foundation.PendingTable (Exchange Moment)
open Rfc1035 (NameAt WellFormed)

/-! ### Feature strings of plain messages -/

/-- One question after an id can be read in one way. -/
theorem Spoken.sameQuestion {message other : Message} (spoken : Spoken message)
    (otherSpoken : Spoken other) (same : featureOf message = featureOf other) :
    message.id = other.id ∧ message.queries = other.queries := by
  obtain ⟨questions, id⟩ := List.append_inj' same rfl
  rw [spoken.questions, otherSpoken.questions] at questions
  obtain ⟨query, isQuery, _⟩ := spoken.single
  obtain ⟨query', isQuery', _⟩ := otherSpoken.single
  refine ⟨littleEndian16_injective id, ?_⟩
  rw [isQuery, isQuery'] at questions ⊢
  apply queries_eq_of_lengths _ questions
  have size := congrArg List.length questions
  rw [List.flatMap_singleton, List.flatMap_singleton, queryFeature_length,
    queryFeature_length] at size
  rw [List.map_singleton, List.map_singleton]
  congr 1
  omega

/-! ### Open requests -/

def Concerns (feature : StringT) (label : (Int × Occasion) × List Sent) : Prop :=
  ∃ moment ∈ momentsOf label, moment.key = feature

/-- The request has been forwarded, and its feature string has not come up since. -/
structure OpenSince (events : List ((Int × Occasion) × List Sent)) (asked : Nat)
    (request : Message) (address : SockAddr) : Prop where
  forwarded : ∃ now buf, events[asked]? =
    some ((now, .request request address), [.query (clearReserved request) buf])
  quiet : ∀ other label, asked < other → events[other]? = some label →
    ¬ Concerns (featureOf request) label

theorem OpenSince.snoc {events : List ((Int × Occasion) × List Sent)} {asked : Nat}
    {request : Message} {address : SockAddr} (isOpen : OpenSince events asked request address)
    {label : (Int × Occasion) × List Sent} (silent : ¬ Concerns (featureOf request) label) :
    OpenSince (events ++ [label]) asked request address := by
  obtain ⟨now, buf, there⟩ := isOpen.forwarded
  obtain ⟨inside, _⟩ := List.getElem?_eq_some_iff.mp there
  constructor
  · refine ⟨now, buf, ?_⟩
    rw [List.getElem?_append_left inside]
    exact there
  · intro other later after here
    by_cases before : other < events.length
    · rw [List.getElem?_append_left before] at here
      exact isOpen.quiet other later after here
    · rw [List.getElem?_append_right (Nat.le_of_not_lt before)] at here
      have isLast := List.mem_of_getElem? here
      rw [List.mem_singleton.mp isLast]
      exact silent

def NamesOpen (events : List ((Int × Occasion) × List Sent)) (clients : Clients) : Prop :=
  ∀ feature address, clients feature = some address →
    ∃ asked request, featureOf request = feature ∧ OpenSince events asked request address

section Steps

variable {events : List ((Int × Occasion) × List Sent)} {clients : Clients}
  (names : NamesOpen events clients)

include names

theorem NamesOpen.quiet {label : (Int × Occasion) × List Sent}
    (silent : ∀ feature, ¬ Concerns feature label) : NamesOpen (events ++ [label]) clients := by
  intro feature address named
  obtain ⟨asked, request, isFeature, isOpen⟩ := names feature address named
  exact ⟨asked, request, isFeature, isOpen.snoc (silent _)⟩

/-- The entry of the feature string that comes up is gone. -/
theorem NamesOpen.left {label : (Int × Occasion) × List Sent} {feature : StringT}
    (only : ∀ other, Concerns other label → other = feature) :
    NamesOpen (events ++ [label]) (Function.update clients feature none) := by
  intro other address named
  by_cases same : other = feature
  · rw [same, Function.update_self] at named
    cases named
  · rw [Function.update_of_ne same] at named
    obtain ⟨asked, request, isFeature, isOpen⟩ := names other address named
    refine ⟨asked, request, isFeature, isOpen.snoc ?_⟩
    intro concerns
    rw [isFeature] at concerns
    exact same (only other concerns)

theorem NamesOpen.entered {now : Int} {request : Message} {address : SockAddr} {buf : UvBuf} :
    NamesOpen
      (events ++ [((now, .request request address), [.query (clearReserved request) buf])])
      (Function.update clients (featureOf request) (some address)) := by
  intro other client named
  by_cases same : other = featureOf request
  · rw [same, Function.update_self] at named
    cases named
    refine ⟨events.length, request, same.symm, ⟨now, buf, ?_⟩, ?_⟩
    · rw [List.getElem?_append_right (Nat.le_refl _), Nat.sub_self]
      rfl
    · intro later label after there
      obtain ⟨inside, _⟩ := List.getElem?_eq_some_iff.mp there
      rw [List.length_append, List.length_singleton] at inside
      omega
  · rw [Function.update_of_ne same] at named
    obtain ⟨asked, earlier, isFeature, isOpen⟩ := names other client named
    refine ⟨asked, earlier, isFeature, isOpen.snoc ?_⟩
    intro concerns
    obtain ⟨moment, member, isKey⟩ := concerns
    rw [List.mem_singleton.mp member] at isKey
    exact same (isFeature.symm.trans isKey.symm)

end Steps

theorem Serve.namesOpen {events : List ((Int × Occasion) × List Sent)} {before after : World}
    {label : (Int × Occasion) × List Sent} (names : NamesOpen events before.clients)
    (serve : Serve before label after) : NamesOpen (events ++ [label]) after.clients := by
  cases serve with
  | @request env now datagram address message sent after decoded done =>
      rw [bindSocketRead, Logged.bind_out_of_ok decoded] at done
      rcases handleRequest_eq_ok done with
        ⟨buf, isSent, clients⟩ | ⟨reply, buf, isSent, same, clients⟩
      · rw [isSent, clients]
        exact names.entered
      · rw [isSent, clients]
        apply names.left
        intro other concerns
        obtain ⟨moment, member, isKey⟩ := concerns
        rcases List.mem_cons.mp member with asked | replied
        · rw [← isKey, asked]
          rfl
        · rw [← isKey, List.mem_singleton.mp replied]
          exact same.feature
  | @reply env now datagram message sent after decoded done =>
      rw [querySocketRead, Logged.bind_out_of_ok decoded] at done
      rcases handleReply_eq_ok done with
        ⟨_, isSent, clients⟩ | ⟨address, buf, _, isSent, clients⟩
      · rw [isSent, clients]
        apply names.quiet
        intro feature concerns
        obtain ⟨moment, member, _⟩ := concerns
        cases member
      · rw [isSent, clients]
        apply names.left
        intro other concerns
        obtain ⟨moment, member, isKey⟩ := concerns
        rw [← isKey, List.mem_singleton.mp member]
        exact (sameQuestion_clearReserved message).feature
  | sweep done =>
      rw [clearCallback_clients done]
      apply names.quiet
      intro feature concerns
      obtain ⟨moment, member, _⟩ := concerns
      cases member

theorem run_namesOpen {env : Env} {malloc : Malloc} {began : Int} {file : Option (List UInt8)}
    {start world : World} {events : List ((Int × Occasion) × List Sent)}
    (started : (startUp env malloc began file).out = .ok start)
    (run : Run Serve start events world) :
    NamesOpen events world.clients := by
  apply run.invariant (fun events world => NamesOpen events world.clients)
  · intro feature address named
    rw [startUp_clients started] at named
    cases named
  · exact fun _ _ _ _ names serve => serve.namesOpen names

/-! ### Open requests are named -/

/-- An entry stays as long as its feature string does not come up. -/
theorem exchanges_other {table after : Clients} {moments : List (Moment StringT SockAddr)}
    (run : Run Exchange table moments after) {feature : StringT}
    (others : ∀ moment ∈ moments, moment.key ≠ feature) : after feature = table feature := by
  induction run with
  | nil => rfl
  | @snoc moments moment middle final _ exchange ih =>
      have kept := ih fun other member => others other (List.mem_append_left _ member)
      have different := others moment (List.mem_append_right _ (List.mem_singleton_self _))
      cases exchange with
      | requested key address => exact (Function.update_of_ne different.symm _ _).trans kept
      | replied named => exact (Function.update_of_ne different.symm _ _).trans kept

theorem Serve.openNamed {events : List ((Int × Occasion) × List Sent)} {before after : World}
    {label : (Int × Occasion) × List Sent}
    (named : ∀ asked request address, OpenSince events asked request address →
      before.clients (featureOf request) = some address)
    (serve : Serve before label after) {asked : Nat} {request : Message} {address : SockAddr}
    (isOpen : OpenSince (events ++ [label]) asked request address) :
    after.clients (featureOf request) = some address := by
  obtain ⟨now, buf, there⟩ := isOpen.forwarded
  by_cases earlier : asked < events.length
  · have isLast : (events ++ [label])[events.length]? = some label := by
      rw [List.getElem?_append_right (Nat.le_refl _), Nat.sub_self]
      rfl
    have silent := isOpen.quiet events.length label earlier isLast
    have kept : after.clients (featureOf request) = before.clients (featureOf request) :=
      exchanges_other serve.exchanges fun moment member isKey => silent ⟨moment, member, isKey⟩
    rw [kept]
    apply named asked request address
    constructor
    · rw [List.getElem?_append_left earlier] at there
      exact ⟨now, buf, there⟩
    · intro other label' later here
      obtain ⟨inside, _⟩ := List.getElem?_eq_some_iff.mp here
      apply isOpen.quiet other label' later
      rw [List.getElem?_append_left inside]
      exact here
  · rw [List.getElem?_append_right (Nat.le_of_not_lt earlier)] at there
    have isLabel := List.mem_singleton.mp (List.mem_of_getElem? there)
    subst isLabel
    cases serve with
    | request decoded done =>
        rw [bindSocketRead, Logged.bind_out_of_ok decoded] at done
        rcases handleRequest_eq_ok done with
          ⟨_, _, clients⟩ | ⟨reply, _, isSent, _⟩
        · rw [clients, Function.update_self]
        · cases isSent

/-- Whoever has an open request is named by the table. -/
theorem run_openNamed {start world : World} {events : List ((Int × Occasion) × List Sent)}
    (run : Run Serve start events world) {asked : Nat} {request : Message}
    {address : SockAddr} (isOpen : OpenSince events asked request address) :
    world.clients (featureOf request) = some address := by
  have always : ∀ asked request address, OpenSince events asked request address →
      world.clients (featureOf request) = some address := by
    apply run.invariant (fun events world => ∀ asked request address,
      OpenSince events asked request address →
        world.clients (featureOf request) = some address)
    · intro asked request address isOpen
      obtain ⟨_, _, there⟩ := isOpen.forwarded
      cases there
    · exact fun _ _ _ _ named serve _ _ _ isOpen => serve.openNamed named isOpen
  exact always asked request address isOpen

/-! ### What is delivered -/

/-- The reply answers a request of its client, and nothing under its feature string has gone
back and forth in between. -/
structure Answers (events : List ((Int × Occasion) × List Sent)) (place : Nat)
    (address : SockAddr) (reply : Message) : Prop where
  asked : ∃ asked now request sent, asked ≤ place ∧
    events[asked]? = some ((now, .request request address), sent) ∧
    (asked < place → sent.flatMap Sent.replied = []) ∧
    reply.id = request.id ∧ reply.queries = request.queries ∧
    ∀ other label, asked < other → other < place → events[other]? = some label →
      ¬ Concerns (featureOf request) label

inductive Content (said : StringT → UInt32 → Prop)
    (earlier : List ((Int × Occasion) × List Sent)) : Occasion → Message → Prop where
  | relayed (message : Message) : Content said earlier (.reply message) (clearReserved message)
  | local {message reply : Message} {address : SockAddr}
      (told : ∀ record ∈ reply.answers, Told said earlier record) :
      Content said earlier (.request message address) reply

inductive Accounted (said : StringT → UInt32 → Prop)
    (events : List ((Int × Occasion) × List Sent)) (place : Nat) (occasion : Occasion) :
    Sent → Prop where
  | query {message : Message} {address : SockAddr} {buf : UvBuf}
      (asks : occasion = .request message address) :
      Accounted said events place occasion (.query (clearReserved message) buf)
  | response {address : SockAddr} {reply : Message} {buf : UvBuf}
      (answers : Answers events place address reply)
      (content : Content said (events.take place) occasion reply) :
      Accounted said events place occasion (.response address reply buf)

/-- A reply that is passed on answers a request that was open. -/
theorem NamesOpen.answers {events : List ((Int × Occasion) × List Sent)} {place : Nat}
    {clients : Clients} (names : NamesOpen (events.take place) clients)
    (allSpoken : ∀ event ∈ events.take place, event.1.2.Spoken) {message : Message}
    (spoken : Spoken message) {address : SockAddr}
    (named : clients (featureOf message) = some address) :
    Answers events place address (clearReserved message) := by
  obtain ⟨asked, request, isFeature, isOpen⟩ := names _ address named
  obtain ⟨now, buf, there⟩ := isOpen.forwarded
  obtain ⟨inside, _⟩ := List.getElem?_eq_some_iff.mp there
  rw [List.length_take] at inside
  have before : asked < place := by omega
  have requestSpoken : Spoken request := allSpoken _ (List.mem_of_getElem? there)
  have same := spoken.sameQuestion requestSpoken isFeature.symm
  rw [List.getElem?_take_of_lt before] at there
  refine ⟨asked, now, request, _, Nat.le_of_lt before, there, fun _ => rfl, same.1, same.2, ?_⟩
  intro other label later earlier here
  apply isOpen.quiet other label later
  rw [List.getElem?_take_of_lt earlier]
  exact here

theorem Handled.accounted {env : Env} {now : Int} {address : SockAddr} {message : Message}
    {before after : World} {sent : List Sent} {said : StringT → UInt32 → Prop}
    {events : List ((Int × Occasion) × List Sent)} {place : Nat}
    (handled : Handled env address message before after sent) (spoken : Spoken message)
    (here : events[place]? = some ((now, .request message address), sent))
    (told : ∀ record timestamp ttl manual, Uses before record timestamp ttl manual →
      Told said (events.take place) record) {one : Sent} (isSent : one ∈ sent) :
    Accounted said events place (.request message address) one := by
  have own {reply : Message} (id : reply.id = message.id)
      (queries : reply.queries = questionsOf message) :
      Answers events place address reply := by
    rw [spoken.questions] at queries
    refine ⟨place, now, message, sent, Nat.le_refl _, here, ?_, id, queries, ?_⟩
    · exact fun impossible => absurd impossible (Nat.lt_irrefl place)
    · intro other label later earlier
      omega
  have content {client : SockAddr} {reply : Message} {buf : UvBuf}
      (isReply : .response client reply buf ∈ sent) :
      Content said (events.take place) (.request message address) reply := by
    apply Content.local
    intro record member
    obtain ⟨timestamp, ttl, manual, uses⟩ := handled.uses isReply member
    exact told record timestamp ttl manual uses
  cases handled with
  | forwarded _ _ _ =>
      cases List.mem_singleton.mp isSent
      exact .query rfl
  | blocked _ _ _ _ =>
      cases List.mem_singleton.mp isSent
      exact .response (own rfl rfl) (content (List.mem_singleton_self _))
  | answered _ _ _ _ _ =>
      cases List.mem_singleton.mp isSent
      exact .response (own rfl rfl) (content (List.mem_singleton_self _))

def NamesHosts (lines : List (List UInt8)) : Prop :=
  ∀ line ∈ lines, ∀ words, splitLine line = some words → HostName words.1

theorem ReadsLines.hosts {env : Env} {lines : List (List UInt8)} {file : Option (List UInt8)}
    (reads : ReadsLines env lines file) (hosts : NamesHosts lines) :
    ∀ entry ∈ fileEntries env file, HostName entry.1 := by
  intro entry member
  rw [reads.entries] at member
  obtain ⟨line, inFile, isEntry⟩ := List.mem_filterMap.mp member
  obtain ⟨token, split, _⟩ := configLine_eq_some.mp isEntry
  exact hosts line inFile _ split

/-- From end to end: as long as no removal goes wrong and the datagrams that come in are in
plain speech, each query that goes upstream is the request that came in, and each reply that
goes to a client has the id and the question of a request that it made and that was open, with
what upstream has said or what the lines of the file say.  What fits the packet is read so from
the wire. -/
theorem sent_accounted {env : Env} {malloc : Malloc} {began : Int} {lines : List (List UInt8)}
    {file : Option (List UInt8)} (reads : ReadsLines env lines file) (hosts : NamesHosts lines)
    {start hashed : HashedWorld} {events : List ((Int × Occasion) × List Sent)}
    (started : (startUpHashed env malloc began file).out = .ok start)
    (run : Run FullySafe start events hashed)
    (allSpoken : ∀ event ∈ events, event.1.2.Spoken) {place : Nat}
    {label : (Int × Occasion) × List Sent} (here : events[place]? = some label) :
    ∀ one ∈ label.2, Accounted (SaidIn lines) events place label.1.2 one ∧
      (encodedLength one.message ≤ 1500 → Carries one.buf one.message) := by
  obtain ⟨plainStart, world, plainStarted, plainRun, _⟩ := fullySafe_plain started run
  obtain ⟨before, after, earlier, ⟨step, _⟩, _⟩ := plainRun.at here
  have earlierSpoken : ∀ other ∈ events.take place, other.1.2.Spoken :=
    fun other inTake => allSpoken other (List.mem_of_mem_take inTake)
  have spoken := allSpoken label (List.mem_of_getElem? here)
  have names := run_namesOpen plainStarted (earlier.mono fun _ _ _ step => step.1)
  intro one isSent
  refine ⟨?_, step.carries plainStarted (reads.hosts hosts) earlier earlierSpoken spoken isSent⟩
  cases step with
  | request decoded done =>
      obtain ⟨maps, shows, all⟩ := run_allTold plainStarted earlier
      rw [bindSocketRead, Logged.bind_out_of_ok decoded] at done
      exact (handled_of_handleRequest done).accounted spoken here
        (fun _ _ _ _ uses => reads.told (uses.told shows all)) isSent
  | @reply env now datagram message sent after decoded done =>
      rw [querySocketRead, Logged.bind_out_of_ok decoded] at done
      rcases handleReply_eq_ok done with
        ⟨_, nothing, _⟩ | ⟨address, buf, named, answered, _⟩
      · rw [nothing] at isSent
        cases isSent
      · rw [answered] at isSent
        rw [List.mem_singleton.mp isSent]
        exact .response (names.answers earlierSpoken spoken named) (.relayed message)
  | sweep done => cases isSent

private def sentOn : HashedWorld × List Sent :=
  HashedWorld.returned
    (bindSocketReadHashed fiveSteps asksForAddress6 [1] (HashedWorld.init .ascending))

private def passedOn : HashedWorld × List Sent :=
  HashedWorld.returned (querySocketReadHashed fiveSteps 1 tellsAddress6 sentOn.1)

private def askedAndTold : List ((Int × Occasion) × List Sent) :=
  [((0, .request asksForAddress6Message [1]), sentOn.2),
    ((1, .reply tellsAddress6Message), passedOn.2)]

private theorem sentOn_safe : FullySafe (HashedWorld.init .ascending)
    ((0, .request asksForAddress6Message [1]), sentOn.2) sentOn.1 := by
  have asks : (buf2message fiveSteps asksForAddress6.buf).out = .ok asksForAddress6Message := rfl
  have entered : (hashTablePut (HashedWorld.init .ascending).clientsHashTable
      (some (featureOf asksForAddress6Message)) (some [1])).map (fun t => t.cells.cells) =
        .ok [] := by
    decide +kernel
  refine ⟨⟨?_, ?_⟩, ?_⟩
  · exact .request asks (HashedWorld.out_eq_returned (by decide +kernel))
  · intro t put
    rw [put] at entered
    exact not_headOfLongChain_of_cells (Except.ok.inj entered) _
  · intro isSweep
    cases isSweep

private theorem askedAndTold_run :
    Run FullySafe (HashedWorld.init .ascending) askedAndTold passedOn.1 := by
  have tells : (buf2message fiveSteps tellsAddress6.buf).out = .ok tellsAddress6Message := rfl
  have served : ServeHashed sentOn.1 ((1, .reply tellsAddress6Message), passedOn.2)
      passedOn.1 := .reply tells (HashedWorld.out_eq_returned (by decide +kernel))
  have safe : RemovalSafe sentOn.1 (.reply tellsAddress6Message) :=
    not_headOfLongChain_of_cells (by decide +kernel) _
  refine Run.snoc (Run.snoc Run.nil sentOn_safe) ⟨⟨served, safe⟩, ?_⟩
  intro isSweep
  cases isSweep

theorem sent_accounted_passedOn : passedOn.2.length = 1 ∧
    ∀ one ∈ passedOn.2,
      Accounted (SaidIn []) askedAndTold 1 (.reply tellsAddress6Message) one ∧
        (encodedLength one.message ≤ 1500 → Carries one.buf one.message) := by
  have started : (startUpHashed fiveSteps .ascending 0 none).out =
      .ok (HashedWorld.init .ascending) := rfl
  have spoken : ∀ event ∈ askedAndTold, event.1.2.Spoken := by
    simpa [askedAndTold, Occasion.Spoken] using
      ⟨asksForAddress6Message_spoken, tellsAddress6Message_spoken⟩
  have hosts : NamesHosts [] := by
    intro line inFile
    cases inFile
  have here : askedAndTold[1]? = some ((1, .reply tellsAddress6Message), passedOn.2) := rfl
  exact ⟨by decide +kernel, sent_accounted .absent hosts started askedAndTold_run spoken here⟩

/-! ### No request is forgotten -/

/-- After any calm run, when the reply to an open request comes in, in plain speech, it is passed
on to the client that has made the request. -/
theorem openRequest_answered {env : Env} {malloc : Malloc} {began : Int}
    {file : Option (List UInt8)} {start hashed : HashedWorld}
    {events : List ((Int × Occasion) × List Sent)}
    (started : (startUpHashed env malloc began file).out = .ok start)
    (run : Run CalmServe start events hashed) {asked : Nat} {request : Message}
    {address : SockAddr} (isOpen : OpenSince events asked request address)
    {datagram : Datagram} {source : Rfc1035.Message} {rdlengths : List UInt16}
    (plain : PlainMessage source) (wellFormed : WellFormed datagram.octets source rdlengths)
    (same : SameQuestion (decodedMessage source rdlengths) request)
    (safe : RemovalSafe hashed (.reply (decodedMessage source rdlengths)))
    (fits : encodedLength (decodedMessage source rdlengths) ≤ 1500)
    (junk : Site → Nat → UInt8) (now : Int) :
    ∃ enough, ∀ fuel, enough ≤ fuel → ∃ after buf,
      ServedWell datagram.buf.len (querySocketReadHashed ⟨fuel, junk⟩ now datagram hashed)
        after [.response address (clearReserved (decodedMessage source rdlengths)) buf] := by
  obtain ⟨world, beside⟩ := calmRun_beside started run
  obtain ⟨_, _, plainRun⟩ := beside.run
  have named := run_openNamed (plainRun.mono fun _ _ _ step => step.1) isOpen
  rw [← same.feature] at named
  obtain ⟨enough, serves⟩ := beside.reply plain wellFormed (fun _ => fits) junk now
  refine ⟨enough, ?_⟩
  intro fuel more
  obtain ⟨decoded, after, sent, well⟩ := serves fuel more
  have done := well.returns
  rw [querySocketRead, Logged.bind_out_of_ok decoded] at done
  have agree := beside.matching.callbacks.reply ⟨fuel, junk⟩ now datagram
    fun message isMessage => by
      rw [decoded] at isMessage
      cases isMessage
      exact safe
  obtain ⟨hashed', well'⟩ := well.hashed agree
  rcases handleReply_eq_ok done with ⟨dropped, _, _⟩ | ⟨client, buf, found, isSent, _⟩
  · rw [named] at dropped
    cases dropped
  · rw [named] at found
    cases found
    rw [isSent] at well'
    exact ⟨hashed', buf, well'⟩

private def tellsOfA : Rfc1035.Message :=
  { id := 7
    flags :=
      { qr := true, opcode := 0, aa := false, tc := false, rd := true, ra := true, z := 0,
        rcode := 0 }
    questions := [{ name := letterName 97, qtype := 28, qclass := 1 }]
    answers :=
      [{ owner := letterName 97, rclass := 1, ttl := 60, data := .cname (letterName 98) },
        { owner := letterName 98
          rclass := 1
          ttl := 60
          data := .aaaa ⟨[0, 0, 0, 0, 0, 0, 0, 0, 0, 0, 0, 0, 0, 0, 0, 1], rfl⟩ }]
    authorityCount := 0
    additionalCount := 0 }

private theorem nameAt_letter {bytes : List UInt8} {offset : Nat} {letter : UInt8}
    (spelled : HoldsAt bytes offset [1, letter])
    (zero : HoldsAt bytes (offset + 2) [0]) :
    NameAt bytes offset (letterName letter).labels (offset + 3) :=
  .label (Nat.le_refl 1) (by simp) spelled (.root zero)

private theorem tellsOfA_plain : PlainMessage tellsOfA := by
  have hostA := @hostLabels_letter 97 (by decide) (by decide)
  have hostB := @hostLabels_letter 98 (by decide) (by decide)
  constructor
  · exact ⟨_, rfl, hostA⟩
  · simpa [tellsOfA] using ⟨hostA, hostB⟩
  · simpa [tellsOfA] using hostB
  · simp [tellsOfA, Unsupported]

private theorem tellsOfA_wellFormed : WellFormed tellsAddress6.octets tellsOfA [3, 16] := by
  have owner : NameAt tellsAddress6.octets 19 (letterName 97).labels 21 := by
    have target : NameAt tellsAddress6.octets 12 (letterName 97).labels 15 :=
      nameAt_letter (by decide) (by decide)
    have pointer : HoldsAt tellsAddress6.octets 19 [192, 12] := by decide
    exact .pointer (by decide) pointer target
  have target : NameAt tellsAddress6.octets 31 (letterName 98).labels 34 :=
    nameAt_letter (by decide) (by decide)
  have aliased : NameAt tellsAddress6.octets 34 (letterName 98).labels 37 :=
    nameAt_letter (by decide) (by decide)
  constructor
  · decide
  · decide
  · decide
  · decide
  · refine ⟨34, ⟨21, owner, by decide, target, by decide, rfl⟩, 63, ⟨37, aliased, by decide, ?_⟩,
      trivial⟩
    exact ⟨⟨rfl, by decide⟩, by decide, rfl⟩

theorem openRequest_answered_told : ∃ enough, ∀ fuel, enough ≤ fuel → ∃ after buf,
    ServedWell tellsAddress6.buf.len
      (querySocketReadHashed ⟨fuel, fiveSteps.junk⟩ 1 tellsAddress6 sentOn.1) after
      [.response [1] (clearReserved (decodedMessage tellsOfA [3, 16])) buf] := by
  have started : (startUpHashed fiveSteps .ascending 0 none).out =
      .ok (HashedWorld.init .ascending) := rfl
  have run : Run CalmServe (HashedWorld.init .ascending)
      [((0, .request asksForAddress6Message [1]), sentOn.2)] sentOn.1 :=
    Run.snoc Run.nil ⟨sentOn_safe, asksForAddress6Message_spoken⟩
  have isOpen : OpenSince [((0, .request asksForAddress6Message [1]), sentOn.2)] 0
      asksForAddress6Message [1] := by
    constructor
    · exact ⟨0, _, rfl⟩
    · intro other label later there
      rw [List.getElem?_eq_none (Nat.succ_le_of_lt later)] at there
      cases there
  have same : SameQuestion (decodedMessage tellsOfA [3, 16]) asksForAddress6Message := by
    decide
  have safe : RemovalSafe sentOn.1 (.reply (decodedMessage tellsOfA [3, 16])) :=
    not_headOfLongChain_of_cells (by decide +kernel) _
  exact openRequest_answered started run isOpen tellsOfA_plain tellsOfA_wellFormed same safe
    (by decide) fiveSteps.junk 1

end PostDns
