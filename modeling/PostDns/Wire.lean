/-
What a run puts on the wire (socket.c and message.c).

The encoder and the decoder agree on messages with one question, host names and addresses of
the right length.  The caches only repeat what came in, so as long as what comes in is of this
kind, everything that goes out is: the queries, the replies passed on and the replies made
from the caches.
-/

import PostDns.Provenance
import PostDns.ReplyOwners
import PostDns.RoundTrip

namespace PostDns

open Foundation
open Rfc1035 (WellFormed)

/-! ### Messages in plain speech -/

/-- One question for a host name, and answers that carry what their types promise. -/
structure Spoken (message : Message) : Prop where
  single : ∃ query, message.queries = [query] ∧ HostName query.name
  queryCount : message.queryCount = 1
  answerCount : message.answerCount.toNat = message.answers.length
  owners : ∀ record ∈ message.answers, HostName record.name
  payloads : ∀ record ∈ message.answers, HasPayload record

theorem HostName.length_le {name : StringT} (host : HostName name) : name.length ≤ 253 := by
  obtain ⟨labels, _, _, short⟩ := host
  exact short

def Occasion.Spoken : Occasion → Prop
  | .request message _ => PostDns.Spoken message
  | .reply message => PostDns.Spoken message
  | .sweep => True

theorem Spoken.questions {message : Message} (spoken : Spoken message) :
    questionsOf message = message.queries := by
  cases spoken.single with
  | intro query isQuery =>
      rw [questionsOf, isQuery.1, spoken.queryCount]
      rfl

theorem Spoken.answers {message : Message} (spoken : Spoken message) :
    answersIn message = message.answers := by
  rw [answersIn, spoken.answerCount, List.take_length]

/-! ### Decoded flags -/

private theorem char2bit_bits :
    ∀ value < 256, ∀ index < 8, (char2bit (UInt8.ofNat value)).getD index 0 < 2 := by
  decide +kernel

private theorem bits_below :
    ∀ a < 2, ∀ b < 2, ∀ c < 2, ∀ d < 2,
      (UInt8.ofNat a <<< 3) + (UInt8.ofNat b <<< 2) + (UInt8.ofNat c <<< 1) + UInt8.ofNat d
        < 16 := by
  decide +kernel

theorem char2bit_lt (octet : UInt8) {index : Nat} (inside : index < 8) :
    (char2bit octet).getD index 0 < 2 := by
  have bits := char2bit_bits octet.toNat octet.toNat_lt index inside
  rw [UInt8.ofNat_toNat] at bits
  exact bits

theorem fourBits_lt {a b c d : UInt8} (ha : a < 2) (hb : b < 2) (hc : c < 2) (hd : d < 2) :
    (a <<< 3) + (b <<< 2) + (c <<< 1) + d < 16 := by
  have below := bits_below a.toNat ha b.toNat hb c.toNat hc d.toNat hd
  simp only [UInt8.ofNat_toNat] at below
  exact below

/-- Whatever the two octets are, the flags fit their fields once Z is cleared. -/
theorem bits2flags_inRange (first second : UInt8) :
    ({ bits2flags (char2bit first ++ char2bit second) with z := 0 } : Flags).InRange := by
  have one (index : Nat) (inside : index < 8) := char2bit_lt first inside
  have two (index : Nat) (inside : index < 8) := char2bit_lt second inside
  constructor
  · exact one 0 (by omega)
  · exact fourBits_lt (one 1 (by omega)) (one 2 (by omega)) (one 3 (by omega))
      (one 4 (by omega))
  · exact one 5 (by omega)
  · exact one 6 (by omega)
  · exact one 7 (by omega)
  · exact two 0 (by omega)
  · rfl
  · exact fourBits_lt (two 4 (by omega)) (two 5 (by omega)) (two 6 (by omega))
      (two 7 (by omega))

theorem buf2message_flags {env : Env} {buf : UvBuf} {message : Message}
    (decoded : (buf2message env buf).out = .ok message) :
    ({ message.flags with z := 0 } : Flags).InRange := by
  obtain ⟨header, headed, sections⟩ := Logged.bind_out_eq_ok.mp decoded
  obtain ⟨questions, _, others⟩ := Logged.bind_out_eq_ok.mp sections
  obtain ⟨answers, _, returned⟩ := Logged.bind_out_eq_ok.mp others
  obtain ⟨id, _, afterId⟩ := Logged.bind_out_eq_ok.mp headed
  obtain ⟨first, _, afterFirst⟩ := Logged.bind_out_eq_ok.mp afterId
  obtain ⟨second, _, afterSecond⟩ := Logged.bind_out_eq_ok.mp afterFirst
  obtain ⟨queryCount, _, afterQueries⟩ := Logged.bind_out_eq_ok.mp afterSecond
  obtain ⟨answerCount, _, afterAnswers⟩ := Logged.bind_out_eq_ok.mp afterQueries
  obtain ⟨authorityCount, _, afterAuthority⟩ := Logged.bind_out_eq_ok.mp afterAnswers
  obtain ⟨additionalCount, _, isHeader⟩ := Logged.bind_out_eq_ok.mp afterAuthority
  cases isHeader
  cases returned
  exact bits2flags_inRange first second

/-! ### What a reader finds -/

def onWire (message : Message) : Message :=
  { message with answers := message.answers.map announced }

def Sent.message : Sent → Message
  | .query message _ => message
  | .response _ message _ => message

def Sent.buf : Sent → UvBuf
  | .query _ buf => buf
  | .response _ _ buf => buf

/-- The datagram is as long as the message takes, it is the message of the grammar, and the
decoder reads it back. -/
structure Carries (buf : UvBuf) (message : Message) : Prop where
  len : buf.len = encodedLength message
  grammar : ∃ source rdlengths, WellFormed buf.octets source rdlengths ∧
    decodedMessage source rdlengths = onWire message
  decodes : Yields (fun env => buf2message env buf) (onWire message)

theorem Encodable.carries {env : Env} {message : Message} {buf : UvBuf}
    (encodable : Encodable message) (encoded : (message2buf env message).out = .ok buf) :
    Carries buf message := by
  obtain ⟨source, rdlengths, writable, text, all, oneQuestion, isMessage, size⟩ :=
    encodable.source
  obtain ⟨written, done, octetsAre, lenIs, whole⟩ :=
    writeMessage_out env writable all.length_eq.2 all.announces
  subst isMessage
  rw [(message2buf_out_eq_ok.mp encoded).2] at done
  cases done
  rw [octetsAre, size] at lenIs
  have fits (record : Rfc1035.Record) (member : record ∈ source.answers) :
      record.data.Fits :=
    Rfc1035.RData.fits_of_structured (writable.answers record member).supported
  have wellFormed : WellFormed buf.octets source
      (source.answers.map fun record => Rfc1035.dataLength record.data) := by
    rw [octetsAre, ← List.append_nil (Rfc1035.encode source)]
    exact Rfc1035.wellFormed_encode source (by omega) writable.answerCount fits []
  have isOnWire : decodedMessage source
      (source.answers.map fun record => Rfc1035.dataLength record.data) =
        onWire (decodedMessage source rdlengths) :=
    congrArg (fun answers => { decodedMessage source rdlengths with answers := answers })
      all.written
  refine ⟨lenIs, ⟨source, _, wellFormed, isOnWire⟩, ?_⟩
  rw [← isOnWire]
  have nonempty : 0 < buf.len := by
    rw [lenIs, encodedLength]
    omega
  exact buf2message_yields ⟨buf, nonempty, whole⟩ wellFormed text.decodable

/-- With Z cleared, a message of this kind that fits can be encoded. -/
theorem Spoken.encodable {message : Message} (spoken : Spoken message)
    (flags : ({ message.flags with z := 0 } : Flags).InRange)
    (fits : encodedLength (clearReserved message) ≤ 1500) :
    Encodable (clearReserved message) :=
  { flags := flags
    single := spoken.single
    queryCount := spoken.queryCount
    answerCount := spoken.answerCount
    owners := spoken.owners
    payloads := spoken.payloads
    fits := fits }

theorem Spoken.carries {env : Env} {message : Message} {buf : UvBuf} (spoken : Spoken message)
    (flags : ({ message.flags with z := 0 } : Flags).InRange)
    (encoded : (message2buf env (clearReserved message)).out = .ok buf)
    (fits : encodedLength (clearReserved message) ≤ 1500) :
    Carries buf (clearReserved message) :=
  (spoken.encodable flags fits).carries encoded

/-! ### Records that were told -/

section Told

variable {said : StringT → UInt32 → Prop} {events : List ((Int × Occasion) × List Sent)}
  (hosts : ∀ domain address, said domain address → HostName domain)
  (allSpoken : ∀ event ∈ events, event.1.2.Spoken)

include allSpoken

theorem spoken_reply {now : Int} {message : Message} {sent : List Sent}
    (told : ((now, .reply message), sent) ∈ events) : Spoken message :=
  allSpoken _ told

/-- The owner of the addresses owns a record of the reply. -/
theorem host_of_lastOwner {now : Int} {message : Message} {sent : List Sent}
    (told : ((now, .reply message), sent) ∈ events) {type : UInt16} {domain : StringT}
    (owner : lastOwner type (answersIn message) = some domain) : HostName domain := by
  have isSpoken := spoken_reply allSpoken told
  rw [isSpoken.answers] at owner
  obtain ⟨answer, member, _, isOwner⟩ := owned_of_lastOwner owner
  rw [← isOwner]
  exact isSpoken.owners answer member

include hosts

/-- Records made of what was told have host names and whole addresses again. -/
theorem Told.spoken {record : ResourceRecord} (told : Told said events record) :
    HostName record.name ∧ HasPayload record := by
  cases told with
  | configured isSaid => exact ⟨hosts _ _ isSaid, rfl, rfl⟩
  | inet4 told owner _ => exact ⟨host_of_lastOwner allSpoken told owner, rfl, rfl⟩
  | inet6 told owner among =>
      refine ⟨host_of_lastOwner allSpoken told owner, rfl, rfl, ?_⟩
      have isSpoken := spoken_reply allSpoken told
      rw [isSpoken.answers] at among
      obtain ⟨answer, member, isAddress⟩ := List.mem_filterMap.mp among
      have payload := isSpoken.payloads answer member
      unfold HasPayload at payload
      unfold answerAddress6 at isAddress
      cases hData : answer.responseData with
      | inet6 address =>
          simp only [hData] at payload isAddress
          rw [if_pos payload.1] at isAddress
          cases isAddress
          exact payload.2.2
      | _ =>
          simp only [hData] at isAddress
          cases isAddress
  | @cname now message sent answer name told among _ data =>
      have isSpoken := spoken_reply allSpoken told
      rw [isSpoken.answers] at among
      have payload := isSpoken.payloads answer among
      rw [HasPayload, data] at payload
      exact ⟨isSpoken.owners answer among, rfl, payload.2⟩

end Told

/-! ### What the callbacks send -/

theorem handleReply_encoded {env : Env} {now : Int} {message : Message}
    {before after : World} {sent : List Sent}
    (done : (handleReply env now message before).out = .ok (after, sent)) {one : Sent}
    (isSent : one ∈ sent) :
    one.message = clearReserved message ∧
      (message2buf env (clearReserved message)).out = .ok one.buf := by
  obtain ⟨_, _, done⟩ := Logged.bind_out_eq_ok.mp done
  obtain ⟨answers, _, cached⟩ := Logged.bind_out_eq_ok.mp done
  obtain ⟨collected, _, stored⟩ := Logged.bind_out_eq_ok.mp cached
  obtain ⟨world, _, sending⟩ := Logged.bind_out_eq_ok.mp stored
  obtain ⟨result, responded, returned⟩ := Logged.bind_out_eq_ok.mp sending
  obtain ⟨feature, _, looked⟩ := Logged.bind_out_eq_ok.mp responded
  cases hClient : world.clients feature with
  | none =>
      simp only [hClient] at looked
      cases looked
      cases returned
      cases isSent
  | some address =>
      simp only [hClient] at looked
      obtain ⟨buf, encoded, paired⟩ := Logged.bind_out_eq_ok.mp looked
      cases paired
      cases returned
      cases List.mem_singleton.mp isSent
      exact ⟨rfl, encoded⟩

/-- A record takes at least its fixed fields and the ends of its name. -/
theorem twelve_mul_le_encodedLength (message : Message) :
    12 * message.answers.length ≤ encodedLength message := by
  have each : 12 * message.answers.length ≤ (message.answers.map fun record =>
      record.name.length + 12 + payloadLength record.responseData).sum := by
    induction message.answers with
    | nil => exact Nat.le_refl 0
    | cons record records ih =>
        rw [List.length_cons, List.map_cons, List.sum_cons]
        omega
  unfold encodedLength
  omega

theorem Spoken.blockedReply {message : Message} (spoken : Spoken message) :
    Spoken (PostDns.blockedReply message) :=
  { single := by
      have single := spoken.single
      rw [← spoken.questions] at single
      exact single
    queryCount := spoken.queryCount
    answerCount := rfl
    owners := nofun
    payloads := nofun }

theorem Spoken.cachedReply {message : Message} (spoken : Spoken message)
    {records : List ResourceRecord}
    (plain : ∀ record ∈ records, HostName record.name ∧ HasPayload record)
    (fits : encodedLength (PostDns.cachedReply message records.length records) ≤ 1500) :
    Spoken (PostDns.cachedReply message records.length records) := by
  have few : 12 * records.length ≤ 1500 := (twelve_mul_le_encodedLength _).trans fits
  constructor
  · have single := spoken.single
    rw [← spoken.questions] at single
    exact single
  · exact spoken.queryCount
  · change (UInt16.ofNat records.length).toNat = records.length
    rw [UInt16.toNat_ofNat']
    exact Nat.mod_eq_of_lt (by omega)
  · exact fun record member => (plain record member).1
  · exact fun record member => (plain record member).2

/-- A reply of its own has the flags of the request, but for those it sets. -/
theorem backFlags_inRange {flags : Flags} (inRange : ({ flags with z := 0 } : Flags).InRange)
    {rcode : UInt8} (small : rcode < 16) :
    ({ flags with qr := 1, rd := 0, z := 0, rcode := rcode } : Flags).InRange :=
  { qr := show (1 : UInt8) < 2 by decide
    opcode := inRange.opcode
    aa := inRange.aa
    tc := inRange.tc
    rd := show (0 : UInt8) < 2 by decide
    ra := inRange.ra
    z := rfl
    rcode := small }

theorem Handled.encoded {env : Env} {address : SockAddr} {message : Message}
    {before after : World} {sent : List Sent}
    (handled : Handled env address message before after sent) {one : Sent}
    (isSent : one ∈ sent) : (message2buf env one.message).out = .ok one.buf := by
  cases handled with
  | forwarded _ _ encoded =>
      cases List.mem_singleton.mp isSent
      exact encoded
  | blocked _ _ _ encoded =>
      cases List.mem_singleton.mp isSent
      exact encoded
  | answered _ _ _ _ encoded =>
      cases List.mem_singleton.mp isSent
      exact encoded

section Requests

variable {env : Env} {address : SockAddr} {message : Message} {before after : World}
  {sent : List Sent} (handled : Handled env address message before after sent)
  (spoken : Spoken message)
  (whole : ∀ record timestamp ttl manual, Uses before record timestamp ttl manual →
    HostName record.name ∧ HasPayload record)

include handled spoken whole

/-- Whatever a request sends, its names are host names and its records are whole. -/
theorem Handled.plain {one : Sent} (isSent : one ∈ sent) :
    (∀ query ∈ one.message.queries, HostName query.name) ∧
      ∀ record ∈ one.message.answers, HostName record.name ∧ HasPayload record := by
  have asked : ∀ query ∈ message.queries, HostName query.name := by
    obtain ⟨query, isQuery, host⟩ := spoken.single
    rw [isQuery]
    intro other member
    rw [List.mem_singleton.mp member]
    exact host
  have askedBack : ∀ query ∈ questionsOf message, HostName query.name :=
    fun query member => asked query (List.mem_of_mem_take member)
  have used := fun {client : SockAddr} {reply : Message} {buf : UvBuf}
    (isReply : .response client reply buf ∈ sent) {record : ResourceRecord}
    (member : record ∈ reply.answers) => handled.uses isReply member
  cases handled with
  | forwarded _ _ _ =>
      cases List.mem_singleton.mp isSent
      exact ⟨asked, fun record member =>
        ⟨spoken.owners record member, spoken.payloads record member⟩⟩
  | blocked _ _ _ _ =>
      cases List.mem_singleton.mp isSent
      exact ⟨askedBack, nofun⟩
  | answered _ _ _ _ _ =>
      cases List.mem_singleton.mp isSent
      refine ⟨askedBack, ?_⟩
      intro record member
      obtain ⟨timestamp, ttl, manual, uses⟩ := used (List.mem_singleton_self _) member
      exact whole record timestamp ttl manual uses

/-- Each message that a request sends can be encoded, as far as it fits the packet. -/
theorem Handled.encodable (flags : ({ message.flags with z := 0 } : Flags).InRange)
    {one : Sent} (isSent : one ∈ sent) (fits : encodedLength one.message ≤ 1500) :
    Encodable one.message := by
  have allPlain := (handled.plain spoken whole isSent).2
  cases handled with
  | forwarded _ _ _ =>
      cases List.mem_singleton.mp isSent
      exact spoken.encodable flags fits
  | blocked _ _ _ _ =>
      cases List.mem_singleton.mp isSent
      have refused : (3 : UInt8) < 16 := by decide
      exact spoken.blockedReply.encodable (backFlags_inRange flags refused) fits
  | @answered pass records buf counted cached unbanned made _ =>
      cases List.mem_singleton.mp isSent
      obtain ⟨revised, _⟩ := countQueries_frame rfl rfl counted
      have count : pass.answerCount = records.flatten.length :=
        (countQueries_counts rfl rfl counted cached unbanned
          ((forall₂_queryRecords_revised revised).mp made)).trans (Nat.zero_add _)
      rw [count] at allPlain fits ⊢
      have answered : (0 : UInt8) < 16 := by decide
      exact (spoken.cachedReply allPlain fits).encodable (backFlags_inRange flags answered) fits

end Requests

/-! ### Runs -/

/-- The next callback of a run sends what a reader reads back. -/
theorem Serve.carries {env : Env} {began : Int} {file : Option (List UInt8)}
    {start world after : World} {events : List ((Int × Occasion) × List Sent)} {malloc : Malloc}
    (started : (startUp env malloc began file).out = .ok start)
    (hosts : ∀ entry ∈ fileEntries env file, HostName entry.1)
    (run : Run SafeServe start events world) (allSpoken : ∀ event ∈ events, event.1.2.Spoken)
    {event : (Int × Occasion) × List Sent} (step : Serve world event after)
    (spoken : event.1.2.Spoken) {one : Sent} (isSent : one ∈ event.2)
    (fits : encodedLength one.message ≤ 1500) : Carries one.buf one.message := by
  cases step with
  | request decoded done =>
      obtain ⟨maps, shows, all⟩ := run_allTold started run
      rw [bindSocketRead, Logged.bind_out_of_ok decoded] at done
      have plain (record : ResourceRecord) (timestamp ttl : Int) (manual : Bool)
          (uses : Uses world record timestamp ttl manual) :
          HostName record.name ∧ HasPayload record :=
        (uses.told shows all).spoken (fun domain address entry => hosts (domain, address) entry)
          allSpoken
      have handled := handled_of_handleRequest done
      exact (handled.encodable spoken plain (buf2message_flags decoded) isSent fits).carries
        (handled.encoded isSent)
  | reply decoded done =>
      rw [querySocketRead, Logged.bind_out_of_ok decoded] at done
      have encoded := handleReply_encoded done isSent
      rw [encoded.1] at fits ⊢
      exact Spoken.carries spoken (buf2message_flags decoded) encoded.2 fits
  | sweep _ => cases isSent

/-- What a run sends is what it means: as long as the datagrams that come in have one
question, host names and whole addresses, each datagram that goes out and fits the packet is
read back, by the grammar and by the decoder, as the message it was made from. -/
theorem sent_carried {env : Env} {began : Int} {file : Option (List UInt8)}
    {start world : World} {events : List ((Int × Occasion) × List Sent)} {malloc : Malloc}
    (started : (startUp env malloc began file).out = .ok start)
    (hosts : ∀ entry ∈ fileEntries env file, HostName entry.1)
    (run : Run SafeServe start events world) (allSpoken : ∀ event ∈ events, event.1.2.Spoken) :
    ∀ event ∈ events, ∀ one ∈ event.2, encodedLength one.message ≤ 1500 →
      Carries one.buf one.message := by
  intro event member one isSent fits
  obtain ⟨index, label⟩ := List.getElem?_of_mem member
  obtain ⟨before, after, earlier, step, _⟩ := run.at label
  have earlierSpoken : ∀ other ∈ events.take index, other.1.2.Spoken :=
    fun other inTake => allSpoken other (List.mem_of_mem_take inTake)
  exact step.1.carries started hosts earlier earlierSpoken (allSpoken event member) isSent fits

private theorem hostName_letter {letter : UInt8} (notDot : letter ≠ dot) (notZero : letter ≠ 0) :
    HostName [letter] := by
  refine ⟨[[letter]], ⟨List.cons_ne_nil _ _, ?_, ?_, ?_⟩, rfl, by simp⟩
  · intro label member
    rw [List.mem_singleton.mp member]
    exact ⟨Nat.le_refl 1, by simp⟩
  · intro label member isDot
    rw [List.mem_singleton.mp member] at isDot
    exact notDot (List.mem_singleton.mp isDot).symm
  · intro label member isZero
    rw [List.mem_singleton.mp member] at isZero
    exact notZero (List.mem_singleton.mp isZero).symm

private theorem hostName_a : HostName [97] := hostName_letter (by decide) (by decide)

private theorem hostName_b : HostName [98] := hostName_letter (by decide) (by decide)

theorem tellsAddress6Message_spoken : Spoken tellsAddress6Message := by
  refine ⟨⟨_, rfl, hostName_a⟩, rfl, rfl, ?_, ?_⟩
  · simpa [tellsAddress6Message] using ⟨hostName_a, hostName_b⟩
  · simpa [tellsAddress6Message, HasPayload] using hostName_b

theorem asksForAddress6Message_spoken : Spoken asksForAddress6Message :=
  { single := ⟨_, rfl, hostName_a⟩
    queryCount := rfl
    answerCount := rfl
    owners := nofun
    payloads := nofun }

/-- The reply of the caches, with an alias and an IPv6 address. -/
theorem sent_carried_asked : askedForAddress6.2.length = 1 ∧
    ∀ one ∈ askedForAddress6.2, encodedLength one.message = 64 ∧
      Carries one.buf one.message := by
  have sizes : askedForAddress6.2.map (fun one => encodedLength one.message) = [64] := by
    decide +kernel
  have size (one : Sent) (isSent : one ∈ askedForAddress6.2) :
      encodedLength one.message = 64 := by
    have member : encodedLength one.message ∈
        askedForAddress6.2.map (fun one => encodedLength one.message) :=
      List.mem_map_of_mem isSent
    rw [sizes] at member
    exact List.mem_singleton.mp member
  have spoken : ∀ event ∈ toldAddress6 ++
      [((200, .request asksForAddress6Message [1]), askedForAddress6.2)],
      event.1.2.Spoken := by
    simpa [toldAddress6, Occasion.Spoken] using
      ⟨tellsAddress6Message_spoken, asksForAddress6Message_spoken⟩
  have carried := sent_carried startUp_fiveSteps nofun
    (Run.snoc toldAddress6_safeRun ⟨askedForAddress6_served, by
      intro isSweep
      cases isSweep⟩) spoken
  constructor
  · have counted := congrArg List.length sizes
    rw [List.length_map] at counted
    exact counted
  · intro one isSent
    refine ⟨size one isSent, carried _ (List.mem_append_right _ (List.mem_singleton_self _))
      one isSent ?_⟩
    rw [size one isSent]
    decide

end PostDns
