/-
The two directions of the codec against the wire grammar and against each other.

The decoder agrees with the grammar on every message whose names are free of
zero octets.  The encoder writes the uncompressed form of such a message, so
decoding what was encoded gives it back.
-/

import PostDns.Packet

namespace PostDns

open Foundation
open Rfc1035 (Label DomainName WellFormed NameAt nameLength)

/-! ### Decoding what the grammar accepts -/

/-- A name with at least one label and no zero octet in its labels. -/
structure TextName (name : DomainName) : Prop where
  nonempty : name.labels ≠ []
  noZeros : ∀ label ∈ name.labels, (0 : UInt8) ∉ label

structure TextNames (message : Rfc1035.Message) : Prop where
  questions : ∀ question ∈ message.questions, TextName question.name
  owners : ∀ record ∈ message.answers, TextName record.owner
  targets : ∀ record ∈ message.answers, ∀ target, record.data = .cname target →
    TextName target

theorem zero_notMem_dotJoin {labels : List Label}
    (noZeros : ∀ label ∈ labels, (0 : UInt8) ∉ label) :
    (0 : UInt8) ∉ dotJoin labels := by
  induction labels with
  | nil => simp [dotJoin]
  | cons label rest ih =>
      cases rest with
      | nil => simpa [dotJoin] using noZeros label (by simp)
      | cons next others =>
          have here := noZeros label (by simp)
          have later := ih (fun other member => noZeros other (by simp [member]))
          rw [dotJoin_cons_cons, List.mem_append, List.mem_append]
          rintro (inLabel | isDot | inRest)
          · exact here inLabel
          · exact absurd isDot (by decide)
          · exact later inRest

theorem TextNames.decodable {message : Rfc1035.Message} (text : TextNames message) :
    Decodable message :=
  { questions := fun question member => (text.questions question member).nonempty
    owners := fun record member => (text.owners record member).nonempty
    ownerOctets := fun record member inside =>
      zero_notMem_dotJoin (text.owners record member).noZeros
        (List.mem_of_mem_dropLast inside)
    targets := fun record member target isCname =>
      (text.targets record member target isCname).nonempty }

/-- The decoder returns what the grammar assigns to a datagram. -/
theorem buf2message_reads_grammar (datagram : Datagram) (message : Rfc1035.Message)
    (rdlengths : List UInt16)
    (wellFormed : WellFormed datagram.octets message rdlengths)
    (text : TextNames message) :
    Yields (fun env => buf2message env datagram.buf)
      (decodedMessage message rdlengths) :=
  buf2message_yields datagram wellFormed text.decodable

private def sampleName : DomainName :=
  { labels := [[97, 98], [99]], labelSizes := by decide, fits := by decide }

private def sampleAlias : DomainName :=
  { labels := [[100], [99]], labelSizes := by decide, fits := by decide }

private def sampleMessage : Rfc1035.Message :=
  { id := 0x1234
    flags :=
      { qr := true, opcode := 0, aa := false, tc := false, rd := true, ra := true
        z := 0, rcode := 0 }
    questions := [{ name := sampleName, qtype := 1, qclass := 1 }]
    answers :=
      [{ owner := sampleName, rclass := 1, ttl := 300, data := .cname sampleAlias },
        { owner := sampleAlias, rclass := 1, ttl := 300
          data := .other 16 (by decide) [2, 104, 105] },
        { owner := sampleAlias, rclass := 1, ttl := 300, data := .a 0xc0000201 }]
    authorityCount := 0
    additionalCount := 1 }

/-- Owners and the end of the alias are compressed, and the answers are followed
by the start of another record. -/
private def sampleDatagram : Datagram :=
  { buf :=
      { base :=
          [0x12, 0x34, 0x81, 0x80, 0, 1, 0, 3, 0, 0, 0, 1,
            2, 97, 98, 1, 99, 0, 0, 1, 0, 1,
            0xc0, 12, 0, 5, 0, 1, 0, 0, 1, 44, 0, 4, 1, 100, 0xc0, 15,
            0xc0, 34, 0, 16, 0, 1, 0, 0, 1, 44, 0, 3, 2, 104, 105,
            0xc0, 34, 0, 1, 0, 1, 0, 0, 1, 44, 0, 4, 192, 0, 2, 1,
            0, 0, 41, 255]
        len := 72 }
    nonempty := by decide
    fits := by decide }

private theorem sampleAlias_spelled :
    NameAt sampleDatagram.octets 34 sampleAlias.labels 38 :=
  NameAt.label (by decide) (by decide) (by decide)
    (@NameAt.pointer _ 36 18 0xc0 15 _ (by decide) (by decide)
      (NameAt.label (by decide) (by decide) (by decide) (NameAt.root (by decide))))

private theorem sampleDatagram_wellFormed :
    WellFormed sampleDatagram.octets sampleMessage [4, 3, 4] :=
  { questionCount := by decide
    answerCount := by decide
    header := by decide
    questions := by decide
    answers := by
      refine ⟨38, ⟨24, ?_, by decide, sampleAlias_spelled, by decide, rfl⟩,
        53, ⟨40, ?_, by decide, ⟨rfl, by decide⟩, by decide, rfl⟩,
        69, ⟨55, ?_, by decide, ⟨rfl, by decide⟩, by decide, rfl⟩, trivial⟩
      · exact @NameAt.pointer _ 22 18 0xc0 12 _ (by decide) (by decide)
          (NameAt.label (by decide) (by decide) (by decide)
            (NameAt.label (by decide) (by decide) (by decide)
              (NameAt.root (by decide))))
      · exact @NameAt.pointer _ 38 38 0xc0 34 _ (by decide) (by decide)
          sampleAlias_spelled
      · exact @NameAt.pointer _ 53 38 0xc0 34 _ (by decide) (by decide)
          sampleAlias_spelled }

private theorem sampleMessage_text : TextNames sampleMessage := by
  have nameText : TextName sampleName := ⟨by decide, by decide⟩
  have aliasText : TextName sampleAlias := ⟨by decide, by decide⟩
  constructor
  · simpa [sampleMessage] using nameText
  · simpa [sampleMessage] using ⟨nameText, aliasText⟩
  · simp only [sampleMessage, List.mem_cons, List.not_mem_nil, or_false]
    rintro record (rfl | rfl | rfl) target isCname
    · cases isCname
      exact aliasText
    · cases isCname
    · cases isCname

theorem buf2message_reads_sample :
    Yields (fun env => buf2message env sampleDatagram.buf)
      (decodedMessage sampleMessage [4, 3, 4]) :=
  buf2message_reads_grammar sampleDatagram sampleMessage [4, 3, 4]
    sampleDatagram_wellFormed sampleMessage_text

/-! ### Decoding what was encoded -/

structure HostLabels (labels : List Label) : Prop where
  nonempty : labels ≠ []
  sizes : ∀ label ∈ labels, 1 ≤ label.length ∧ label.length ≤ 63
  noDots : ∀ label ∈ labels, dot ∉ label
  noZeros : ∀ label ∈ labels, (0 : UInt8) ∉ label

def HostName (name : StringT) : Prop :=
  ∃ labels, HostLabels labels ∧ name = dotJoin labels ∧ name.length ≤ 253

def HasPayload (record : ResourceRecord) : Prop :=
  match record.responseData with
  | .unset | .rootDomain => False
  | .inet4 _ => record.type = 1 ∧ record.responseDataLength = 4
  | .domain target => record.type = 5 ∧ HostName target
  | .inet6 address =>
      record.type = 28 ∧ record.responseDataLength = 16 ∧ address.length = 16

structure Flags.InRange (flags : Flags) : Prop where
  qr : flags.qr < 2
  opcode : flags.opcode < 16
  aa : flags.aa < 2
  tc : flags.tc < 2
  rd : flags.rd < 2
  ra : flags.ra < 2
  z : flags.z = 0
  rcode : flags.rcode < 16

structure Encodable (message : Message) : Prop where
  flags : message.flags.InRange
  single : ∃ query, message.queries = [query] ∧ HostName query.name
  queryCount : message.queryCount = 1
  answerCount : message.answerCount.toNat = message.answers.length
  owners : ∀ record ∈ message.answers, HostName record.name
  payloads : ∀ record ∈ message.answers, HasPayload record
  fits : encodedLength message ≤ 1500

def announced (record : ResourceRecord) : ResourceRecord :=
  { record with
    responseDataLength :=
      match record.responseData with
      | .domain target => UInt16.ofNat (target.length + 2)
      | _ => record.responseDataLength }

/-- The domain name that a host name spells. -/
theorem HostName.source {name : StringT} (host : HostName name) :
    ∃ source : DomainName, HostLabels source.labels ∧ name = dotJoin source.labels := by
  rcases host with ⟨labels, good, rfl, short⟩
  have size := dotJoin_length good.nonempty
  exact ⟨{ labels := labels, labelSizes := good.sizes, fits := by omega }, good, rfl⟩

theorem HostLabels.rejoinable {labels : List Label} (host : HostLabels labels) :
    Rejoinable labels :=
  { nonempty := host.nonempty
    noDots := host.noDots
    noZeros := fun label member inside =>
      host.noZeros label member (List.mem_of_mem_dropLast inside) }

theorem HostLabels.text {name : DomainName} (host : HostLabels name.labels) :
    TextName name :=
  ⟨host.nonempty, host.noZeros⟩

structure Represents (record : Rfc1035.Record) (rdlength : UInt16)
    (answer : ResourceRecord) : Prop where
  decoded : decodedRecord record rdlength = answer
  announces : AnnouncesLength rdlength record.data
  written : decodedRecord record (Rfc1035.dataLength record.data) = announced answer
  owner : HostLabels record.owner.labels
  target : ∀ target, record.data = .cname target → HostLabels target.labels
  supported : ∀ rtype unstructured octets,
    record.data ≠ .other rtype unstructured octets
  size : (Rfc1035.encodeRecord record).length =
    answer.name.length + 12 + payloadLength answer.responseData

theorem encodeRecord_length (record : Rfc1035.Record)
    (nonempty : record.owner.labels ≠ []) :
    (Rfc1035.encodeRecord record).length =
      (dotJoin record.owner.labels).length + 12 +
        (Rfc1035.dataOctets record.data).length := by
  have size := dotJoin_length nonempty
  rw [Rfc1035.encodeRecord, List.length_append, List.length_append,
    Rfc1035.encodeLabels_length, Rfc1035.fixedFields_length]
  omega

theorem exists_represents {answer : ResourceRecord} (owner : HostName answer.name)
    (payload : HasPayload answer) :
    ∃ record rdlength, Represents record rdlength answer := by
  rcases owner.source with ⟨ownerName, ownerHost, ownerIs⟩
  rcases answer with ⟨name, type, cls, ttl, length, data⟩
  simp only at ownerIs
  subst ownerIs
  cases data with
  | unset | rootDomain => exact absurd payload not_false
  | inet4 address =>
      rcases payload with ⟨rfl, rfl⟩
      refine ⟨⟨ownerName, cls, ttl, .a address⟩, 4, rfl, rfl, rfl, ownerHost, ?_, ?_, ?_⟩
      · intro target impossible
        cases impossible
      · intro rtype unstructured octets impossible
        cases impossible
      · exact encodeRecord_length _ ownerHost.nonempty
  | domain target =>
      rcases payload with ⟨rfl, targetHost⟩
      rcases targetHost.source with ⟨targetName, targetLabels, targetIs⟩
      have size := dotJoin_length targetLabels.nonempty
      have nameSize :
          (Rfc1035.encodeLabels targetName.labels).length = target.length + 2 := by
        rw [Rfc1035.encodeLabels_length, targetIs, size]
      refine ⟨⟨ownerName, cls, ttl, .cname targetName⟩, length, ?_, trivial, ?_,
        ownerHost, ?_, ?_, ?_⟩
      · rw [targetIs]
        rfl
      · rw [Rfc1035.dataLength, Rfc1035.dataOctets, nameSize, targetIs]
        rfl
      · intro other same
        cases same
        exact targetLabels
      · intro rtype unstructured octets impossible
        cases impossible
      · rw [encodeRecord_length _ ownerHost.nonempty, Rfc1035.dataOctets, nameSize]
        rfl
  | inet6 address =>
      rcases payload with ⟨rfl, rfl, sixteen⟩
      have announcedLength :
          Rfc1035.dataLength (.aaaa ⟨address, sixteen⟩) = 16 := by
        rw [Rfc1035.dataLength, Rfc1035.dataOctets, sixteen]
        rfl
      refine ⟨⟨ownerName, cls, ttl, .aaaa ⟨address, sixteen⟩⟩, 16, rfl,
        announcedLength.symm, ?_, ownerHost, ?_, ?_, ?_⟩
      · rw [announcedLength]
        rfl
      · intro target impossible
        cases impossible
      · intro rtype unstructured octets impossible
        cases impossible
      · exact encodeRecord_length _ ownerHost.nonempty

inductive RepresentsAll :
    List Rfc1035.Record → List UInt16 → List ResourceRecord → Prop where
  | nil : RepresentsAll [] [] []
  | cons {record : Rfc1035.Record} {rdlength : UInt16} {answer : ResourceRecord}
      {records : List Rfc1035.Record} {rdlengths : List UInt16}
      {answers : List ResourceRecord} (head : Represents record rdlength answer)
      (tail : RepresentsAll records rdlengths answers) :
      RepresentsAll (record :: records) (rdlength :: rdlengths) (answer :: answers)

theorem exists_representsAll {answers : List ResourceRecord}
    (owners : ∀ record ∈ answers, HostName record.name)
    (payloads : ∀ record ∈ answers, HasPayload record) :
    ∃ records rdlengths, RepresentsAll records rdlengths answers := by
  induction answers with
  | nil => exact ⟨[], [], RepresentsAll.nil⟩
  | cons answer answers ih =>
      rcases exists_represents (owners answer (by simp)) (payloads answer (by simp))
        with ⟨record, rdlength, head⟩
      rcases ih (fun other member => owners other (by simp [member]))
        (fun other member => payloads other (by simp [member]))
        with ⟨records, rdlengths, tail⟩
      exact ⟨_, _, RepresentsAll.cons head tail⟩

section Represented

variable {records : List Rfc1035.Record} {rdlengths : List UInt16}
  {answers : List ResourceRecord} (all : RepresentsAll records rdlengths answers)

include all

theorem RepresentsAll.length_eq :
    records.length = answers.length ∧ records.length = rdlengths.length := by
  induction all with
  | nil => exact ⟨rfl, rfl⟩
  | cons head tail ih =>
      exact ⟨congrArg Nat.succ ih.1, congrArg Nat.succ ih.2⟩

theorem RepresentsAll.decoded :
    List.zipWith decodedRecord records rdlengths = answers := by
  induction all with
  | nil => rfl
  | cons head tail ih => rw [List.zipWith_cons_cons, head.decoded, ih]

theorem RepresentsAll.written :
    List.zipWith decodedRecord records
        (records.map (fun record => Rfc1035.dataLength record.data)) =
      answers.map announced := by
  induction all with
  | nil => rfl
  | cons head tail ih =>
      rw [List.map_cons, List.zipWith_cons_cons, head.written, ih, List.map_cons]

theorem RepresentsAll.announces :
    ∀ pair ∈ records.zip rdlengths, AnnouncesLength pair.2 pair.1.data := by
  induction all with
  | nil => simp
  | cons head tail ih =>
      simp only [List.zip_cons_cons, List.mem_cons]
      rintro pair (rfl | member)
      · exact head.announces
      · exact ih pair member

theorem RepresentsAll.hosts :
    ∀ record ∈ records, HostLabels record.owner.labels ∧
      ∀ target, record.data = .cname target → HostLabels target.labels := by
  induction all with
  | nil => simp
  | cons head tail ih =>
      simp only [List.mem_cons]
      rintro record (rfl | member)
      · exact ⟨head.owner, head.target⟩
      · exact ih record member

theorem RepresentsAll.relayable : ∀ record ∈ records, Relayable record := by
  induction all with
  | nil => simp
  | cons head tail ih =>
      simp only [List.mem_cons]
      rintro record (rfl | member)
      · exact
          { supported := head.supported
            owner := head.owner.rejoinable
            target := fun target isCname => (head.target target isCname).rejoinable }
      · exact ih record member

theorem RepresentsAll.size :
    (records.flatMap Rfc1035.encodeRecord).length =
      (answers.map (fun answer =>
        answer.name.length + 12 + payloadLength answer.responseData)).sum := by
  induction all with
  | nil => rfl
  | cons head tail ih =>
      rw [List.flatMap_cons, List.length_append, List.map_cons, List.sum_cons, ih,
        head.size]

end Represented

theorem oneBit_source {bit : UInt8} (small : bit < 2) :
    UInt8.ofNat (decide (bit = 1)).toNat = bit := by
  have bound : bit.toNat < 2 := small
  have cases : bit = 0 ∨ bit = 1 := by
    rcases Nat.lt_or_ge bit.toNat 1 with below | above
    · exact Or.inl (UInt8.toNat.inj (Nat.lt_one_iff.mp below))
    · exact Or.inr (UInt8.toNat.inj (Nat.le_antisymm (Nat.le_of_lt_succ bound) above))
  rcases cases with rfl | rfl <;> rfl

theorem Flags.InRange.source {flags : Flags} (inRange : flags.InRange) :
    ∃ source : Rfc1035.Flags, source.z = 0 ∧ decodedFlags source = flags := by
  rcases flags with ⟨qr, opcode, aa, tc, rd, ra, z, rcode⟩
  rcases inRange with ⟨hQr, hOpcode, hAa, hTc, hRd, hRa, hZ, hRcode⟩
  simp only at hQr hOpcode hAa hTc hRd hRa hZ hRcode
  subst hZ
  refine ⟨{ qr := decide (qr = 1), opcode := ⟨opcode.toNat, hOpcode⟩
            aa := decide (aa = 1), tc := decide (tc = 1), rd := decide (rd = 1)
            ra := decide (ra = 1), z := 0, rcode := ⟨rcode.toNat, hRcode⟩ }, rfl, ?_⟩
  simp only [decodedFlags, oneBit_source hQr, oneBit_source hAa, oneBit_source hTc,
    oneBit_source hRd, oneBit_source hRa, UInt8.ofNat_toNat]
  rfl

/-- The message of the grammar that an encodable message stands for. -/
theorem Encodable.source {message : Message} (encodable : Encodable message) :
    ∃ (source : Rfc1035.Message) (rdlengths : List UInt16),
      Writable source ∧ TextNames source ∧
        RepresentsAll source.answers rdlengths message.answers ∧
        source.questions.length = 1 ∧ decodedMessage source rdlengths = message ∧
        (Rfc1035.encode source).length = encodedLength message := by
  rcases encodable.flags.source with ⟨flags, cleared, flagsAre⟩
  rcases encodable.single with ⟨query, queriesAre, host⟩
  rcases host.source with ⟨name, nameHost, nameIs⟩
  rcases exists_representsAll encodable.owners encodable.payloads
    with ⟨records, rdlengths, all⟩
  have count : UInt16.ofNat records.length = message.answerCount := by
    rw [all.length_eq.1, ← encodable.answerCount, UInt16.ofNat_toNat]
  have answersAre := all.decoded
  have queryIs : decodedQuery ⟨name, query.type, query.cls⟩ = query := by
    rw [decodedQuery, ← nameIs]
  refine ⟨{ id := message.id, flags := flags
            questions := [⟨name, query.type, query.cls⟩], answers := records
            authorityCount := message.authorityCount
            additionalCount := message.additionalCount },
    rdlengths, ?_, ?_, all, rfl, ?_, ?_⟩
  · exact
      { cleared := cleared
        single := ⟨_, rfl⟩
        question := by simpa using nameHost.rejoinable
        answers := all.relayable
        answerCount := by
          have bound := message.answerCount.toNat_lt
          rw [encodable.answerCount, ← all.length_eq.1] at bound
          exact bound }
  · exact
      { questions := by simpa using nameHost.text
        owners := fun record member => (all.hosts record member).1.text
        targets := fun record member target isCname =>
          ((all.hosts record member).2 target isCname).text }
  · rcases message with ⟨id, messageFlags, queryCount, answerCount, authorityCount,
      additionalCount, queries, answers⟩
    have single := encodable.queryCount
    simp only at flagsAre queriesAre count answersAre single
    simp only [decodedMessage, flagsAre, count, answersAre, List.map_cons,
      List.map_nil, queryIs, queriesAre, single]
    rfl
  · have size := dotJoin_length nameHost.nonempty
    have nameSize : query.name.length + 2 = nameLength name.labels := by
      rw [nameIs, size]
    simp only [Rfc1035.encode, encodedLength, List.length_append,
      Rfc1035.header_length, all.size, queriesAre, List.flatMap_cons,
      List.flatMap_nil, Rfc1035.encodeQuestion, Rfc1035.encodeLabels_length,
      split16_length, List.map_cons, List.map_nil, List.sum_cons, List.sum_nil,
      List.length_nil]
    omega

theorem HasPayload.contiguous {record : ResourceRecord} (payload : HasPayload record) :
    Contiguous record := by
  unfold HasPayload at payload
  cases data : record.responseData with
  | unset | rootDomain =>
      rw [data] at payload
      cases payload
  | inet4 address =>
      rw [data] at payload
      obtain ⟨isA, length⟩ := payload
      exact
        { carries := by simp [CarriesData, data, isA]
          extent := by simp [dataExtent, payloadLength, data, isA]
          advance := by simp [dataAdvance, payloadLength, data, isA, length] }
  | domain target =>
      rw [data] at payload
      have isCname := payload.1
      exact
        { carries := by simp [CarriesData, data, isCname]
          extent := by simp [dataExtent, payloadLength, data, isCname]
          advance := by simp [dataAdvance, payloadLength, data, isCname] }
  | inet6 address =>
      rw [data] at payload
      obtain ⟨isAaaa, length, size⟩ := payload
      exact
        { carries := by simp [CarriesData, data, isAaaa]
          extent := by simp [dataExtent, payloadLength, data, isAaaa]
          advance := by simp [dataAdvance, payloadLength, data, isAaaa, length, size] }

theorem Encodable.fitsPacket {message : Message} (encodable : Encodable message) :
    FitsPacket message := by
  obtain ⟨query, single, _⟩ := encodable.single
  exact (fitsPacket_iff_encodedLength single encodable.queryCount encodable.answerCount
    fun record member => (encodable.payloads record member).contiguous).mpr encodable.fits

/-- Decoding an encoded message gives the message back, with the length fields
that its data has on the wire. -/
theorem buf2message_message2buf (message : Message) (encodable : Encodable message)
    (env : Env) :
    ∃ buf, (message2buf env message).out = .ok buf ∧ buf.len ≤ 1500 ∧
      Yields (fun env => buf2message env buf)
        { message with answers := message.answers.map announced } := by
  rcases encodable.source with
    ⟨source, rdlengths, writable, text, all, oneQuestion, rfl, size⟩
  rcases writeMessage_out env writable all.length_eq.2 all.announces
    with ⟨buf, writing, octetsAre, lenIs, whole⟩
  have written := message2buf_out_eq_ok.mpr ⟨encodable.fitsPacket, writing⟩
  have fits := encodable.fits
  rw [octetsAre] at lenIs
  refine ⟨buf, written, by omega, ?_⟩
  have wellFormed : WellFormed buf.octets source
      (source.answers.map (fun record => Rfc1035.dataLength record.data)) := by
    rw [octetsAre, ← List.append_nil (Rfc1035.encode source)]
    exact Rfc1035.wellFormed_encode source (by omega) writable.answerCount
      (fun record member => Rfc1035.RData.fits_of_structured
        (writable.answers record member).supported) []
  have twelve := wellFormed.twelve_le
  rw [octetsAre] at twelve
  have announcedIs :
      { decodedMessage source rdlengths with
          answers := (decodedMessage source rdlengths).answers.map announced } =
        decodedMessage source
          (source.answers.map (fun record => Rfc1035.dataLength record.data)) :=
    congrArg (fun answers => { decodedMessage source rdlengths with answers := answers })
      all.written.symm
  rw [announcedIs]
  exact buf2message_yields { buf := buf, nonempty := by omega, fits := whole }
    wellFormed text.decodable

private def sampleReply : Message :=
  { id := 0x1234
    flags :=
      { qr := 1, opcode := 2, aa := 0, tc := 0, rd := 1, ra := 1, z := 0, rcode := 3 }
    queryCount := 1
    answerCount := 3
    authorityCount := 0
    additionalCount := 7
    queries := [{ name := [97, 98, 46, 99], type := 1, cls := 1 }]
    answers :=
      [{ name := [97, 98, 46, 99], type := 5, cls := 1, ttl := 120
         responseDataLength := 4, responseData := .domain [100, 46, 99] },
        { name := [100, 46, 99], type := 1, cls := 1, ttl := 0xfffffffe
          responseDataLength := 4, responseData := .inet4 0xc0000201 },
        { name := [100, 46, 99], type := 28, cls := 1, ttl := 120
          responseDataLength := 16
          responseData := .inet6 [0x20, 1, 0xd, 0xb8, 0, 0, 0, 0, 0, 0, 0, 0, 0, 0, 0, 1] }] }

private theorem sampleReply_encodable : Encodable sampleReply := by
  have first : HostName [97, 98, 46, 99] :=
    ⟨[[97, 98], [99]], ⟨by decide, by decide, by decide, by decide⟩, rfl, by decide⟩
  have second : HostName [100, 46, 99] :=
    ⟨[[100], [99]], ⟨by decide, by decide, by decide, by decide⟩, rfl, by decide⟩
  exact
    { flags := ⟨by decide, by decide, by decide, by decide, by decide, by decide, rfl,
        by decide⟩
      single := ⟨_, rfl, first⟩
      queryCount := rfl
      answerCount := rfl
      owners := by simpa [sampleReply] using ⟨first, second⟩
      payloads := by simpa [sampleReply, HasPayload] using second
      fits := by decide }

theorem buf2message_message2buf_sample :
    ∃ buf, (message2buf { fuel := 0, junk := fun _ _ => 255 } sampleReply).out = .ok buf ∧
      buf.len ≤ 1500 ∧
      Yields (fun env => buf2message env buf)
        { sampleReply with answers := sampleReply.answers.map announced } :=
  buf2message_message2buf sampleReply sampleReply_encodable
    { fuel := 0, junk := fun _ _ => 255 }

end PostDns
