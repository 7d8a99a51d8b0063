/-
The next callback of a calm run (socket.c, hash_table.c and main.c).

A run is calm when its datagrams are in plain speech and none of its removals meets its name at
the head of a long chain.  Then the server with its hash tables is never stuck: whatever plain
datagram comes next, and whenever the timer fires, the callback returns, stays within its
arrays, and sends what it means, as far as what it sends fits the packet.
-/

import PostDns.Arrivals
import PostDns.CallbackBounds
import PostDns.Interrupt
import PostDns.Relay

namespace PostDns

open Foundation
open Foundation.Logged (Always)
open Foundation.Walk (Acyclic acyclic_none)
open Rfc1035 (WellFormed)

/-! ### Plain messages -/

/-- One question, host names, and records of the three types. -/
structure PlainMessage (source : Rfc1035.Message) : Prop where
  single : ∃ question, source.questions = [question] ∧ HostLabels question.name.labels
  owners : ∀ record ∈ source.answers, HostLabels record.owner.labels
  targets : ∀ record ∈ source.answers, ∀ target, record.data = .cname target →
    HostLabels target.labels
  supported : ∀ record ∈ source.answers, ¬ Unsupported record

theorem HostLabels.hostName {name : Rfc1035.DomainName} (host : HostLabels name.labels) :
    HostName (dotJoin name.labels) := by
  have size := dotJoin_length host.nonempty
  have fits := name.fits
  exact ⟨name.labels, host, rfl, by omega⟩

theorem PlainMessage.text {source : Rfc1035.Message} (plain : PlainMessage source) :
    TextNames source := by
  constructor
  · obtain ⟨question, isQuestion, host⟩ := plain.single
    rw [isQuestion]
    intro other member
    rw [List.mem_singleton.mp member]
    exact host.text
  · exact fun record member => (plain.owners record member).text
  · exact fun record member target isTarget => (plain.targets record member target isTarget).text

theorem hasPayload_of_announced {record : Rfc1035.Record} {rdlength : UInt16}
    (announces : AnnouncesLength rdlength record.data) (supported : ¬ Unsupported record)
    (target : ∀ target, record.data = .cname target → HostLabels target.labels) :
    HasPayload (decodedRecord record rdlength) := by
  unfold decodedRecord
  cases hData : record.data with
  | a address =>
      rw [hData] at announces
      exact ⟨rfl, announces⟩
  | cname name => exact ⟨rfl, (target name hData).hostName⟩
  | aaaa address =>
      rw [hData] at announces
      refine ⟨rfl, ?_, address.property⟩
      rw [show rdlength = Rfc1035.dataLength (.aaaa address) from announces,
        Rfc1035.dataLength, Rfc1035.dataOctets, address.property]
      rfl
  | other rtype unstructured octets =>
      exact absurd ⟨rtype, unstructured, octets, hData⟩ supported

/-- What the decoder makes of a plain message is in plain speech. -/
theorem PlainMessage.spoken {source : Rfc1035.Message} (plain : PlainMessage source)
    {bytes : List UInt8} {rdlengths : List UInt16}
    (wellFormed : WellFormed bytes source rdlengths) :
    Spoken (decodedMessage source rdlengths) := by
  obtain ⟨sameLength, announced⟩ := announcesLength_of_answersAt wellFormed.answers
  have records (answer : ResourceRecord)
      (member : answer ∈ (decodedMessage source rdlengths).answers) :
      ∃ pair ∈ source.answers.zip rdlengths, decodedRecord pair.1 pair.2 = answer := by
    change answer ∈ List.zipWith decodedRecord source.answers rdlengths at member
    rw [← List.map_uncurry_zip_eq_zipWith] at member
    exact List.mem_map.mp member
  constructor
  · obtain ⟨question, isQuestion, host⟩ := plain.single
    refine ⟨decodedQuery question, ?_, host.hostName⟩
    rw [decodedMessage, isQuestion]
    rfl
  · obtain ⟨question, isQuestion, _⟩ := plain.single
    rw [decodedMessage, isQuestion]
    rfl
  · change (UInt16.ofNat source.answers.length).toNat =
      (List.zipWith decodedRecord source.answers rdlengths).length
    rw [List.length_zipWith, ← sameLength, Nat.min_self, UInt16.toNat_ofNat']
    exact Nat.mod_eq_of_lt wellFormed.answerCount
  · intro answer member
    obtain ⟨pair, inZip, isAnswer⟩ := records answer member
    rw [← isAnswer]
    exact (plain.owners pair.1 (List.of_mem_zip inZip).1).hostName
  · intro answer member
    obtain ⟨pair, inZip, isAnswer⟩ := records answer member
    have inSource := (List.of_mem_zip inZip).1
    rw [← isAnswer]
    exact hasPayload_of_announced (announced pair inZip) (plain.supported pair.1 inSource)
      (plain.targets pair.1 inSource)

/-- The decoder returns what the message means, and reads no further than the datagram. -/
theorem PlainMessage.decodes {source : Rfc1035.Message} (plain : PlainMessage source)
    {datagram : Datagram} {rdlengths : List UInt16}
    (wellFormed : WellFormed datagram.octets source rdlengths) :
    ∃ enough, ∀ env : Env, enough ≤ env.fuel →
      (buf2message env datagram.buf).out = .ok (decodedMessage source rdlengths) ∧
        Always (Access.InBounds datagram.buf.len) (buf2message env datagram.buf) := by
  have whole : datagram.buf.octets.length = datagram.buf.len := by
    rw [UvBuf.octets, List.length_take, Nat.min_eq_left datagram.fits]
  have alone : datagram.buf.trim.octets = datagram.buf.octets := by
    change datagram.buf.octets.take datagram.buf.len = datagram.buf.octets
    rw [← whole, List.take_length]
  let trimmed : Datagram :=
    { buf := datagram.buf.trim
      nonempty := datagram.nonempty
      fits := whole.ge }
  have wellFormed' : WellFormed trimmed.octets source rdlengths := by
    change WellFormed datagram.buf.trim.octets source rdlengths
    rw [alone]
    exact wellFormed
  obtain ⟨enough, decodes⟩ := buf2message_yields trimmed wellFormed' plain.text.decodable
  refine ⟨enough, ?_⟩
  intro env more
  have done := decodes env more
  obtain ⟨same, inside⟩ := buf2message_inBounds done (plain.spoken wellFormed)
  refine ⟨?_, inside⟩
  rw [same]
  exact done

theorem Spoken.logReady {message : Message} (spoken : Spoken message) : LogReady message := by
  obtain ⟨query, isQuery, _⟩ := spoken.single
  constructor
  · rw [isQuery, spoken.queryCount]
    exact Nat.le_refl 1
  · exact spoken.answerCount.le
  · intro answer member
    have payload := spoken.payloads answer (List.mem_of_mem_take member)
    unfold HasPayload at payload
    cases hData : answer.responseData with
    | unset | rootDomain =>
        rw [hData] at payload
        exact absurd payload not_false
    | inet4 address =>
        simp only [hData] at payload
        exact
          { inet4 := fun _ => ⟨address, hData⟩
            domain := fun isCname => by simp [payload.1] at isCname
            inet6 := fun isAaaa => by simp [payload.1] at isAaaa }
    | domain name =>
        simp only [hData] at payload
        exact
          { inet4 := fun isA => by simp [payload.1] at isA
            domain := fun _ => ⟨name, hData⟩
            inet6 := fun isAaaa => by simp [payload.1] at isAaaa }
    | inet6 address =>
        simp only [hData] at payload
        exact
          { inet4 := fun isA => by simp [payload.1] at isA
            domain := fun isCname => by simp [payload.1] at isCname
            inet6 := fun _ => ⟨address, hData⟩ }

theorem Spoken.fitsPacket_iff {message : Message} (spoken : Spoken message) :
    FitsPacket message ↔ encodedLength message ≤ 1500 := by
  obtain ⟨query, isQuery, _⟩ := spoken.single
  exact fitsPacket_iff_encodedLength isQuery spoken.queryCount spoken.answerCount
    fun record member => (spoken.payloads record member).contiguous

/-! ### Callbacks that go well -/

/-- The callback returns and stays within its arrays, and what it sends carries its message. -/
structure ServedWell {State : Type} (limit : Nat) (run : Exec (State × List Sent))
    (after : State) (sent : List Sent) : Prop where
  returns : run.out = .ok (after, sent)
  inBounds : Always (Access.InBounds limit) run
  carried : ∀ one ∈ sent, encodedLength one.message ≤ 1500 → Carries one.buf one.message

theorem ServedWell.hashed {limit : Nat} {left : Exec (HashedWorld × List Sent)}
    {right : Exec (World × List Sent)} {after : World} {sent : List Sent}
    (well : ServedWell limit right after sent)
    (same : Logged.Parallel ResultsMatch left right) :
    ∃ hashed, ServedWell limit left hashed sent := by
  obtain ⟨⟨hashed, sent'⟩, done, results⟩ := same.returned well.returns
  cases results.sent
  exact ⟨hashed, done, same.always_iff.mpr well.inBounds, well.carried⟩

/-- Decoding in front of the rest of a callback. -/
theorem ServedWell.decoded {limit : Nat} {decoding : Exec Message} {message : Message}
    {rest : Message → Exec (World × List Sent)} {after : World} {sent : List Sent}
    (done : decoding.out = .ok message) (inside : Always (Access.InBounds limit) decoding)
    (well : ServedWell limit (rest message) after sent) :
    ServedWell limit (decoding >>= rest) after sent := by
  constructor
  · rw [Logged.bind_out_of_ok done]
    exact well.returns
  · rw [Logged.always_bind_of_ok done]
    exact ⟨inside, well.inBounds⟩
  · exact well.carried

/-! ### Requests and replies -/

theorem handleRequest_servedWell {env : Env} {address : SockAddr} {message : Message}
    {before after : World} {sent : List Sent} (limit : Nat)
    (done : (handleRequest env address message before).out = .ok (after, sent))
    (spoken : Spoken message) (flags : ({ message.flags with z := 0 } : Flags).InRange)
    (whole : ∀ record timestamp ttl manual, Uses before record timestamp ttl manual →
      HostName record.name ∧ HasPayload record) :
    ServedWell limit (handleRequest env address message before) after sent := by
  have handled := handled_of_handleRequest done
  constructor
  · exact done
  · refine handled.always spoken.logReady ?_ ?_
    · intro size index inside
      exact ⟨Int.natCast_nonneg index, Int.ofNat_lt.mpr inside⟩
    · intro one isSent
      obtain ⟨queries, answers⟩ := handled.plain spoken whole isSent
      exact message2buf_inBounds limit queries answers (handled.encoded isSent)
  · intro one isSent fits
    exact (handled.encodable spoken whole flags isSent fits).carries (handled.encoded isSent)

theorem handleReply_servedWell {env : Env} {now : Int} {message : Message}
    {before after : World} {sent : List Sent} (limit : Nat)
    (done : (handleReply env now message before).out = .ok (after, sent))
    (spoken : Spoken message) (flags : ({ message.flags with z := 0 } : Flags).InRange) :
    ServedWell limit (handleReply env now message before) after sent := by
  have queries : ∀ query ∈ message.queries, HostName query.name := by
    obtain ⟨query, isQuery, host⟩ := spoken.single
    rw [isQuery]
    intro other member
    rw [List.mem_singleton.mp member]
    exact host
  have answers (record : ResourceRecord) (member : record ∈ message.answers) :
      HostName record.name ∧ HasPayload record :=
    ⟨spoken.owners record member, spoken.payloads record member⟩
  constructor
  · exact done
  · refine handleReply_always done ?_
    intro one isSent
    obtain ⟨isMessage, encoded⟩ := handleReply_encoded done isSent
    rw [isMessage]
    exact @message2buf_inBounds env limit (clearReserved message) _ queries answers encoded
  · intro one isSent fits
    obtain ⟨isMessage, encoded⟩ := handleReply_encoded done isSent
    rw [isMessage] at fits ⊢
    exact spoken.carries flags encoded fits

/-! ### Sweeps -/

def NamesCounted {α : Type} (t : HashTable α) : Prop :=
  ∃ map, IsMap t map ∧ (storedNames t).length ≤ t.count

theorem namesCounted_new {α : Type} (choices : List Nat) :
    NamesCounted (hashTableNew choices : HashTable α) :=
  ⟨_, hashTableNew_isMap choices, Nat.zero_le _⟩

theorem NamesCounted.step {α : Type} {t t' : HashTable α} (counted : NamesCounted t)
    {operation : Operation α} (step : SafeStep t operation t') : NamesCounted t' := by
  obtain ⟨map, isMap, behind⟩ := counted
  obtain ⟨map', isMap', drift⟩ := step_drift isMap step
  exact ⟨map', isMap', drift.behind behind⟩

theorem namesCounted_putsKeep {Address : Type} :
    PutsKeep fun t : HashTable (AddressCache Address) => NamesCounted t := by
  intro t t' name cache counted _ done
  have step : SafeStep t (.put (some name) (some cache)) t' := ⟨trivial, done⟩
  exact counted.step step

theorem NamesCounted.clear {α : Type} {expired : α → Bool} {t t' : HashTable α}
    (counted : NamesCounted t) (safe : SweepSafe expired t)
    (done : (cacheClear expired t).out = .ok t') : NamesCounted t' := by
  obtain ⟨names, collected, removing⟩ := Logged.bind_out_eq_ok.mp done
  have removals := safe names collected
  clear safe done collected
  induction names generalizing t with
  | nil =>
      cases removing
      exact counted
  | cons name names ih =>
      obtain ⟨middle, removed, rest⟩ := ofExcept_bind_out_eq_ok.mp removing
      have step : SafeStep t (.remove name) middle := ⟨removals.1, removed⟩
      exact ih (counted.step step) rest (removals.2 middle removed)

/-- In every run without a wrong removal the address tables count all their names. -/
theorem safeRun_namesCounted {env : Env} {malloc : Malloc} {now : Int}
    {file : Option (List UInt8)} {start world : World}
    {events : List ((Int × Occasion) × List Sent)}
    (started : (startUp env malloc now file).out = .ok start)
    (run : Run SafeServe start events world) : TablesHold NamesCounted NamesCounted world := by
  apply run.invariant (fun _ world => TablesHold NamesCounted NamesCounted world)
  · exact startUp_tablesHold namesCounted_putsKeep namesCounted_new namesCounted_new started
  · rintro _ label before after counted ⟨serve, safe⟩
    by_cases swept : label.1.2 = .sweep
    · have sweepsSafe := safe swept
      cases serve with
      | request decoded done => cases swept
      | reply decoded done => cases swept
      | sweep done =>
          obtain ⟨ipv4Table, clearIpv4, rest⟩ := Logged.bind_out_eq_ok.mp done
          obtain ⟨ipv6Table, clearIpv6, others⟩ := Logged.bind_out_eq_ok.mp rest
          obtain ⟨cnameTable, _, returned⟩ := Logged.bind_out_eq_ok.mp others
          cases returned
          exact ⟨counted.ipv4.clear sweepsSafe.ipv4 clearIpv4,
            counted.ipv6.clear sweepsSafe.ipv6 clearIpv6⟩
    · exact serve.tablesHold namesCounted_putsKeep namesCounted_putsKeep counted swept

theorem NamesCounted.cacheClear_inBounds {α : Type} {expired : α → Bool} {t : HashTable α}
    (counted : NamesCounted t) (limit : Nat) :
    Always (Access.InBounds limit) (cacheClear expired t) := by
  obtain ⟨map, isMap, behind⟩ := counted
  exact PostDns.cacheClear_inBounds isMap behind limit

/-- Sweeps that are safe return, and stay within the arrays of names. -/
theorem clearCallback_servedWell {now : Int} {world : World} {maps : CacheMaps}
    (shows : Shows world maps) (counted : TablesHold NamesCounted NamesCounted world)
    (safe : SweepsSafe now world) :
    ∃ after, (clearCallback now world).out = .ok after ∧
      ∀ limit, Always (Access.InBounds limit) (clearCallback now world) := by
  obtain ⟨ipv4Table, cleared4⟩ := cacheClear_returns shows.ipv4 safe.ipv4
  obtain ⟨ipv6Table, cleared6⟩ := cacheClear_returns shows.ipv6 safe.ipv6
  have done4 : (ipv4CacheClear now world.ipv4Table).out = .ok ipv4Table := cleared4
  have done6 : (ipv6CacheClear now world.ipv6Table).out = .ok ipv6Table := cleared6
  refine ⟨{ world with ipv4Table := ipv4Table, ipv6Table := ipv6Table }, ?_, ?_⟩
  · rw [clearCallback, Logged.bind_out_of_ok done4, Logged.bind_out_of_ok done6]
    rfl
  · intro limit
    rw [clearCallback, Logged.always_bind_of_ok done4, Logged.always_bind_of_ok done6]
    exact ⟨counted.ipv4.cacheClear_inBounds limit, counted.ipv6.cacheClear_inBounds limit,
      Logged.always_bind.mpr
        ⟨Logged.always_pure _ _, fun _ _ => Logged.always_pure _ _⟩⟩

/-! ### Calm runs -/

structure CalmServe (before : HashedWorld) (label : (Int × Occasion) × List Sent)
    (after : HashedWorld) : Prop where
  safe : FullySafe before label after
  spoken : label.1.2.Spoken

structure ServesNext (hashed : HashedWorld) : Prop where
  request : ∀ (junk : Site → Nat → UInt8) (datagram : Datagram) (source : Rfc1035.Message)
    (rdlengths : List UInt16) (address : SockAddr), PlainMessage source →
    WellFormed datagram.octets source rdlengths →
    RemovalSafe hashed (.request (decodedMessage source rdlengths) address) →
    Acyclic (cachedAliases hashed.caches) →
    SendFits hashed.caches (decodedMessage source rdlengths) →
      ∃ enough, ∀ fuel, enough ≤ fuel → ∃ after sent, sent.length = 1 ∧
        ServedWell datagram.buf.len
          (bindSocketReadHashed ⟨fuel, junk⟩ datagram address hashed) after sent
  reply : ∀ (junk : Site → Nat → UInt8) (now : Int) (datagram : Datagram)
    (source : Rfc1035.Message) (rdlengths : List UInt16), PlainMessage source →
    WellFormed datagram.octets source rdlengths →
    RemovalSafe hashed (.reply (decodedMessage source rdlengths)) →
    (hashTableGet hashed.clientsHashTable (featureOf (decodedMessage source rdlengths)) ≠
      .ok none → encodedLength (decodedMessage source rdlengths) ≤ 1500) →
      ∃ enough, ∀ fuel, enough ≤ fuel → ∃ after sent,
        ServedWell datagram.buf.len
          (querySocketReadHashed ⟨fuel, junk⟩ now datagram hashed) after sent
  sweep : ∀ now, SweepsSafe now hashed.caches →
    ∃ after, (clearCallbackHashed now hashed).out = .ok after ∧
      ∀ limit, Always (Access.InBounds limit) (clearCallbackHashed now hashed)

structure RunsBeside (env : Env) (malloc : Malloc) (began : Int) (file : Option (List UInt8))
    (events : List ((Int × Occasion) × List Sent)) (hashed : HashedWorld) (world : World) :
    Prop where
  matching : Matches hashed world
  run : ∃ start, (startUp env malloc began file).out = .ok start ∧
    Run SafeServe start events world
  spoken : ∀ event ∈ events, event.1.2.Spoken

theorem calmRun_spoken {start hashed : HashedWorld}
    {events : List ((Int × Occasion) × List Sent)} (run : Run CalmServe start events hashed) :
    ∀ event ∈ events, event.1.2.Spoken := by
  refine run.invariant (fun events _ => ∀ event ∈ events, event.1.2.Spoken) ?_ ?_
  · intro event member
    cases member
  · intro earlier label _ _ soFar calm event member
    rcases List.mem_append.mp member with before | last
    · exact soFar event before
    · rw [List.mem_singleton.mp last]
      exact calm.spoken

theorem calmRun_beside {env : Env} {malloc : Malloc} {began : Int} {file : Option (List UInt8)}
    {start hashed : HashedWorld} {events : List ((Int × Occasion) × List Sent)}
    (started : (startUpHashed env malloc began file).out = .ok start)
    (run : Run CalmServe start events hashed) :
    ∃ world, RunsBeside env malloc began file events hashed world := by
  obtain ⟨plainStart, world, plainStarted, plainRun, matching⟩ :=
    fullySafe_plain started (run.mono fun _ _ _ calm => calm.safe)
  exact ⟨world, matching, ⟨plainStart, plainStarted, plainRun⟩, calmRun_spoken run⟩

section Next

variable {env : Env} {malloc : Malloc} {began : Int} {file : Option (List UInt8)}
  {events : List ((Int × Occasion) × List Sent)} {hashed : HashedWorld} {world : World}
  (beside : RunsBeside env malloc began file events hashed world)

include beside

theorem RunsBeside.whole (hosts : ∀ entry ∈ fileEntries env file, HostName entry.1)
    (record : ResourceRecord) (timestamp ttl : Int) (manual : Bool)
    (uses : Uses world record timestamp ttl manual) :
    HostName record.name ∧ HasPayload record := by
  obtain ⟨start, started, run⟩ := beside.run
  obtain ⟨maps, shows, all⟩ := run_allTold started run
  exact (uses.told shows all).spoken (fun domain address entry => hosts (domain, address) entry)
    beside.spoken

theorem RunsBeside.request (hosts : ∀ entry ∈ fileEntries env file, HostName entry.1)
    (acyclic : Acyclic (cachedAliases world)) {datagram : Datagram}
    {source : Rfc1035.Message} {rdlengths : List UInt16} (plain : PlainMessage source)
    (wellFormed : WellFormed datagram.octets source rdlengths)
    (fits : SendFits world (decodedMessage source rdlengths))
    (junk : Site → Nat → UInt8) (address : SockAddr) :
    ∃ enough, ∀ fuel, enough ≤ fuel →
      (buf2message ⟨fuel, junk⟩ datagram.buf).out = .ok (decodedMessage source rdlengths) ∧
      ∃ after sent, sent.length = 1 ∧
        ServedWell datagram.buf.len (bindSocketRead ⟨fuel, junk⟩ datagram address world)
          after sent := by
  obtain ⟨start, started, run⟩ := beside.run
  obtain ⟨maps, shows, _⟩ := safeRun_manualZero started run
  have lists : ListsFilled world :=
    Reachable.listsFilled (.intro started (run.mono fun _ _ _ step => step.1))
  have spoken := plain.spoken wellFormed
  obtain ⟨bound, readable⟩ := shows.readableAll
    (upToMissing_of_all fun query (_ : query ∈ questionsOf (decodedMessage source rdlengths)) =>
      shows.aliasesEnd acyclic query)
  obtain ⟨enough, decodes⟩ := plain.decodes wellFormed
  refine ⟨max bound enough, ?_⟩
  intro fuel more
  obtain ⟨decoded, inside⟩ := decodes ⟨fuel, junk⟩ ((Nat.le_max_right _ _).trans more)
  have full := (decodedFrom decoded).full_iff.mpr spoken.logReady
  obtain ⟨after, sent, done⟩ := @handleRequest_returns ⟨fuel, junk⟩ world _ bound maps.ipv4
    full shows.ipv4 lists.ipv4 readable ((Nat.le_max_left _ _).trans more) fits address
  have one : sent.length = 1 := by
    cases outcome_of_handleRequest done with
    | replied _ _ => rfl
    | forwarded _ => rfl
  refine ⟨decoded, after, sent, one, ?_⟩
  exact ServedWell.decoded decoded inside (handleRequest_servedWell _ done spoken
    (buf2message_flags decoded) (beside.whole hosts))

theorem RunsBeside.reply {datagram : Datagram} {source : Rfc1035.Message}
    {rdlengths : List UInt16} (plain : PlainMessage source)
    (wellFormed : WellFormed datagram.octets source rdlengths)
    (fits : world.clients (featureOf (decodedMessage source rdlengths)) ≠ none →
      encodedLength (decodedMessage source rdlengths) ≤ 1500)
    (junk : Site → Nat → UInt8) (now : Int) :
    ∃ enough, ∀ fuel, enough ≤ fuel →
      (buf2message ⟨fuel, junk⟩ datagram.buf).out = .ok (decodedMessage source rdlengths) ∧
      ∃ after sent,
        ServedWell datagram.buf.len (querySocketRead ⟨fuel, junk⟩ now datagram world)
          after sent := by
  obtain ⟨start, started, run⟩ := beside.run
  obtain ⟨maps, shows, _⟩ := safeRun_manualZero started run
  have spoken := plain.spoken wellFormed
  obtain ⟨enough, decodes⟩ := plain.decodes wellFormed
  refine ⟨enough, ?_⟩
  intro fuel more
  obtain ⟨decoded, inside⟩ := decodes ⟨fuel, junk⟩ more
  have full := (decodedFrom decoded).full_iff.mpr spoken.logReady
  obtain ⟨after, sent, done⟩ := @handleReply_returns ⟨fuel, junk⟩ _ full world maps shows
    (fun waits => spoken.fitsPacket_iff.mpr (fits waits)) now
  exact ⟨decoded, after, sent, ServedWell.decoded decoded inside
    (handleReply_servedWell _ done spoken (buf2message_flags decoded))⟩

end Next

theorem Matches.cachedAliases {hashed : HashedWorld} {world : World}
    (matching : Matches hashed world) :
    PostDns.cachedAliases hashed.caches = PostDns.cachedAliases world := by
  cases matching
  rfl

theorem found_plain {hashed : HashedWorld} (clients : Clients) {query : Query} :
    Found (hashed.plain clients) query ↔ Found hashed.caches query :=
  ⟨fun found => { found with }, fun found => { found with }⟩

theorem queryRecords_of_plain {env : Env} {hashed : HashedWorld} {clients : Clients}
    {query : Query} {records : List ResourceRecord}
    (made : QueryRecords env (hashed.plain clients) query records) :
    QueryRecords env hashed.caches query records := by
  cases made with
  | missing4 isA chased short missing => exact .missing4 isA chased short missing
  | found4 isA chased short found => exact .found4 isA chased short found
  | aliases isCname chased short => exact .aliases isCname chased short
  | missing6 isAaaa chased short missing => exact .missing6 isAaaa chased short missing
  | found6 isAaaa chased short found => exact .found6 isAaaa chased short found
  | unsupported notA notCname notAaaa => exact .unsupported notA notCname notAaaa

/-- What is sent does not depend on who waits. -/
theorem Matches.sendFits {hashed : HashedWorld} {world : World} (matching : Matches hashed world)
    {message : Message} (fits : SendFits hashed.caches message) : SendFits world message := by
  cases matching
  constructor
  · simp only [found_plain]
    exact fits.forwarded
  · simp only [found_plain]
    exact fits.blocked
  · simp only [found_plain]
    intro allFound unblocked env records made
    exact fits.answered allFound unblocked env records
      (made.imp fun _ _ => queryRecords_of_plain)

/-- After any calm run the server is ready for what comes next: a plain request (as long as the
cached aliases form no cycle), a plain reply, or the timer. -/
theorem calmRun_servesNext {env : Env} {malloc : Malloc} {began : Int}
    {file : Option (List UInt8)} {start hashed : HashedWorld}
    {events : List ((Int × Occasion) × List Sent)}
    (started : (startUpHashed env malloc began file).out = .ok start)
    (hosts : ∀ entry ∈ fileEntries env file, HostName entry.1)
    (run : Run CalmServe start events hashed) : ServesNext hashed := by
  obtain ⟨world, beside⟩ := calmRun_beside started run
  have agree := beside.matching.callbacks
  constructor
  · intro junk datagram source rdlengths address plain wellFormed safe acyclic fits
    rw [beside.matching.cachedAliases] at acyclic
    obtain ⟨enough, serves⟩ := beside.request hosts acyclic plain wellFormed
      (beside.matching.sendFits fits) junk address
    refine ⟨enough, ?_⟩
    intro fuel more
    obtain ⟨decoded, after, sent, one, well⟩ := serves fuel more
    have same := agree.request ⟨fuel, junk⟩ datagram address fun message isMessage => by
      rw [decoded] at isMessage
      cases isMessage
      exact safe
    obtain ⟨hashed', well'⟩ := well.hashed same
    exact ⟨hashed', sent, one, well'⟩
  · intro junk now datagram source rdlengths plain wellFormed safe fits
    have fitsToo (waits : world.clients (featureOf (decodedMessage source rdlengths)) ≠ none) :
        encodedLength (decodedMessage source rdlengths) ≤ 1500 := by
      apply fits
      rw [beside.matching.get]
      intro none
      exact waits (Except.ok.inj none)
    obtain ⟨enough, serves⟩ := beside.reply plain wellFormed fitsToo junk now
    refine ⟨enough, ?_⟩
    intro fuel more
    obtain ⟨decoded, after, sent, well⟩ := serves fuel more
    have same := agree.reply ⟨fuel, junk⟩ now datagram fun message isMessage => by
      rw [decoded] at isMessage
      cases isMessage
      exact safe
    obtain ⟨hashed', well'⟩ := well.hashed same
    exact ⟨hashed', sent, well'⟩
  · intro now safe
    obtain ⟨first, firstStarted, plainRun⟩ := beside.run
    obtain ⟨maps, shows, _⟩ := safeRun_manualZero firstStarted plainRun
    have safeWhen : SafeWhen hashed.caches (now, .sweep) := fun _ => safe
    obtain ⟨after, done, inside⟩ := clearCallback_servedWell shows
      (safeRun_namesCounted firstStarted plainRun) (beside.matching.safeWhen safeWhen rfl)
    have same := agree.sweep now
    obtain ⟨hashed', doneToo, _⟩ := same.returned done
    exact ⟨hashed', doneToo, fun limit => same.always_iff.mpr (inside limit)⟩

def letterName (letter : UInt8) : Rfc1035.DomainName :=
  { labels := [[letter]]
    labelSizes := by simp
    fits := by simp [Rfc1035.nameLength] }

theorem hostLabels_letter {letter : UInt8} (notDot : letter ≠ dot) (notZero : letter ≠ 0) :
    HostLabels (letterName letter).labels := by
  constructor
  · exact List.cons_ne_nil _ _
  · exact (letterName letter).labelSizes
  · simpa [letterName] using notDot.symm
  · simpa [letterName] using notZero.symm

private def calmlyTold : HashedWorld × List Sent :=
  HashedWorld.returned
    (querySocketReadHashed fiveSteps 100 tellsAddress6 (HashedWorld.init .ascending))

private def plainlyAsked : Rfc1035.Message :=
  { id := 7
    flags :=
      { qr := false, opcode := 0, aa := false, tc := false, rd := true, ra := false, z := 0,
        rcode := 0 }
    questions := [{ name := letterName 97, qtype := 28, qclass := 1 }]
    answers := []
    authorityCount := 0
    additionalCount := 0 }

private theorem plainlyAsked_plain : PlainMessage plainlyAsked :=
  { single := ⟨_, rfl, hostLabels_letter (by decide) (by decide)⟩
    owners := nofun
    targets := nofun
    supported := nofun }

private theorem plainlyAsked_wellFormed : WellFormed asksForAddress6.octets plainlyAsked [] :=
  { questionCount := by decide
    answerCount := by decide
    header := by decide
    questions := by decide
    answers := trivial }

private theorem calmlyTold_acyclic : Acyclic (cachedAliases calmlyTold.1.caches) := by
  have shows := toldAddress6_served.reply_shows (shows_init .ascending)
  have same : calmlyTold.1.caches.cnameTable = knowsAddress6.1.cnameTable := by rfl
  have alike : cachedAliases calmlyTold.1.caches = cachedAliases knowsAddress6.1 := by
    funext name
    rw [cachedAliases, cachedAliases, same]
  rw [alike, shows.cachedAliases]
  have onlyAlias : Acyclic (Function.update (fun _ : StringT => none) [97] (some [98])) := by
    apply acyclic_none.update
    intro reached
    rcases Relation.ReflTransGen.cases_head reached with isSame | ⟨_, taken, _⟩
    · cases isSame
    · cases taken
  change Acyclic (aliasesIn (Function.update (fun _ => none) [97]
    (some { name := [98], ttl := 120, timestamp := 100, manual := false })))
  rw [aliasesIn_update]
  exact onlyAlias

theorem calmRun_servesNext_told : ∃ enough, ∀ fuel, enough ≤ fuel →
    ∃ after sent, sent.length = 1 ∧ ServedWell asksForAddress6.buf.len
      (bindSocketReadHashed ⟨fuel, fiveSteps.junk⟩ asksForAddress6 [1] calmlyTold.1)
        after sent := by
  have started : (startUpHashed fiveSteps .ascending 0 none).out =
      .ok (HashedWorld.init .ascending) := rfl
  have decoded : (buf2message fiveSteps tellsAddress6.buf).out = .ok tellsAddress6Message := rfl
  have served : ServeHashed (HashedWorld.init .ascending)
      ((100, .reply tellsAddress6Message), calmlyTold.2)
      calmlyTold.1 := .reply decoded (HashedWorld.out_eq_returned (by decide +kernel))
  have safe : RemovalSafe (HashedWorld.init .ascending) (.reply tellsAddress6Message) :=
    not_headOfLongChain_of_cells rfl _
  have noSweep :
      SafeWhen (HashedWorld.init .ascending).caches (100, .reply tellsAddress6Message) := by
    intro isSweep
    cases isSweep
  have next := calmRun_servesNext started nofun
    (Run.snoc Run.nil ⟨⟨⟨served, safe⟩, noSweep⟩, tellsAddress6Message_spoken⟩)
  have entered : (hashTablePut calmlyTold.1.clientsHashTable
      (some (featureOf (decodedMessage plainlyAsked []))) (some [1])).map (fun t => t.cells.cells) =
        .ok [] := by
    decide +kernel
  have safeToo : RemovalSafe calmlyTold.1 (.request (decodedMessage plainlyAsked []) [1]) := by
    intro t put
    rw [put] at entered
    exact not_headOfLongChain_of_cells (Except.ok.inj entered) _
  have handled : (handleRequest fiveSteps [1] (decodedMessage plainlyAsked [])
      calmlyTold.1.caches).out.isOk = true := by decide +kernel
  have fits : SendFits calmlyTold.1.caches (decodedMessage plainlyAsked []) :=
    sendFits_of_handleRequest (out_eq_returned handled)
  exact next.request fiveSteps.junk asksForAddress6 plainlyAsked [] [1] plainlyAsked_plain
    plainlyAsked_wellFormed safeToo calmlyTold_acyclic fits

end PostDns
