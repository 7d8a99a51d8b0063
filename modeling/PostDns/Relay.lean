/-
What a client is told when an upstream reply is relayed.

Replies whose answers the encoder supports reach the client as the same records,
uncompressed.  A record of any other type is counted but written without its
length and data, so nothing behind it stands where a reader looks for it.
-/

import PostDns.Forward

namespace PostDns

open Foundation
open Rfc1035 (Label DomainName RData nameLength encodeLabels encodeQuestion encodeRecord
  NameAt DataAt RecordAt AnswersAt WellFormed fixedFields dataLength)

/-- What `query_socket_read` hands to `uv_udp_send` for a reply to a known
client. -/
def relayedOctets (env : Env) (buf : UvBuf) : Exec (List UInt8) := do
  let message ← buf2message env buf
  let sent ← message2buf env (clearReserved message)
  pure sent.octets

def RelayedFaithfully (datagram : Datagram) (message : Rfc1035.Message) : Prop :=
  ∃ enough, ∀ env : Env, enough ≤ env.fuel →
    ∃ octets rdlengths, (relayedOctets env datagram.buf).out = .ok octets ∧
      octets.length ≤ 1500 ∧ WellFormed octets (asSent message) rdlengths

structure Relayed (message : Rfc1035.Message) : Prop where
  questions : ∀ question ∈ message.questions, Rejoinable question.name.labels
  answers : ∀ record ∈ message.answers, Relayable record
  ownerOctets :
    ∀ record ∈ message.answers, (0 : UInt8) ∉ (dotJoin record.owner.labels).dropLast
  fits : (Rfc1035.encode message).length ≤ 1500

theorem Relayed.decodable {message : Rfc1035.Message} (relayed : Relayed message) :
    Decodable message :=
  { questions := fun question member => (relayed.questions question member).nonempty
    owners := fun record member => (relayed.answers record member).owner.nonempty
    ownerOctets := relayed.ownerOctets
    targets := fun record member target isCname =>
      ((relayed.answers record member).target target isCname).nonempty }

theorem announcesLength_of_dataAt {bytes : List UInt8} {offset : Nat}
    {rdlength : UInt16} {data : RData} (located : DataAt bytes offset rdlength data) :
    AnnouncesLength rdlength data := by
  cases data with
  | a address => exact located.1
  | cname target => trivial
  | aaaa address =>
      rcases located with ⟨rfl, _⟩
      change 16 = dataLength (.aaaa address)
      rw [dataLength, Rfc1035.dataOctets, address.property]
      rfl
  | other rtype unstructured octets =>
      apply UInt16.toNat.inj
      have fits : (RData.other rtype unstructured octets).Fits := by
        have bound := rdlength.toNat_lt
        rw [located.1] at bound
        exact bound
      rw [located.1, Rfc1035.dataLength_toNat fits]
      rfl

theorem announcesLength_of_answersAt {bytes : List UInt8} {offset : Nat}
    {records : List Rfc1035.Record} {rdlengths : List UInt16}
    (located : AnswersAt bytes offset records rdlengths) :
    records.length = rdlengths.length ∧
      ∀ pair ∈ records.zip rdlengths, AnnouncesLength pair.2 pair.1.data := by
  induction records generalizing offset rdlengths with
  | nil =>
      cases rdlengths with
      | nil => simp
      | cons rdlength rdlengths => exact absurd located not_false
  | cons record records ih =>
      cases rdlengths with
      | nil => exact absurd located not_false
      | cons rdlength rdlengths =>
          rcases located with ⟨next, ⟨fields, _, _, dataAt, _, _⟩, later⟩
          rcases ih later with ⟨sameLength, announced⟩
          refine ⟨congrArg Nat.succ sameLength, ?_⟩
          simp only [List.zip_cons_cons, List.mem_cons]
          rintro pair (rfl | member)
          · exact announcesLength_of_dataAt dataAt
          · exact announced pair member

theorem encode_asSent_length (message : Rfc1035.Message) :
    (Rfc1035.encode (asSent message)).length = (Rfc1035.encode message).length := rfl

/-- Replies with supported answers and surviving names are relayed faithfully. -/
theorem relayed_faithfully (datagram : Datagram) (message : Rfc1035.Message)
    (rdlengths : List UInt16) (question : Rfc1035.Question)
    (single : message.questions = [question])
    (wellFormed : WellFormed datagram.octets message rdlengths)
    (relayed : Relayed message) : RelayedFaithfully datagram message := by
  have writable : Writable (asSent message) :=
    { cleared := rfl
      single := ⟨question, single⟩
      question := relayed.questions
      answers := relayed.answers
      answerCount := wellFormed.answerCount }
  have named : question.name.labels ≠ [] :=
    (relayed.questions question (single ▸ List.mem_singleton_self question)).nonempty
  rcases announcesLength_of_answersAt wellFormed.answers with ⟨sameLength, announced⟩
  rcases buf2message_yields datagram wellFormed relayed.decodable
    with ⟨enough, decoded⟩
  refine ⟨enough, ?_⟩
  intro env more
  rcases writeMessage_out env writable sameLength announced
    with ⟨buf, written, octetsAre, _⟩
  have fits : FitsPacket (decodedMessage (asSent message) rdlengths) :=
    (@fitsPacket_decodedMessage_iff (asSent message) question rdlengths single named
      wellFormed.answerCount sameLength relayed.answers announced).mpr relayed.fits
  have encoded := message2buf_out_eq_ok.mpr ⟨fits, written⟩
  refine ⟨buf.octets, message.answers.map (fun record => dataLength record.data),
    ?_, ?_, ?_⟩
  · unfold relayedOctets
    rw [Logged.bind_out_of_ok (decoded env more), clearReserved_decodedMessage,
      Logged.bind_out_of_ok encoded]
    rfl
  · rw [octetsAre, encode_asSent_length]
    exact relayed.fits
  · rw [octetsAre, ← List.append_nil (Rfc1035.encode (asSent message))]
    exact Rfc1035.wellFormed_encode (asSent message) wellFormed.questionCount
      wellFormed.answerCount
      (fun record member =>
        RData.fits_of_structured (relayed.answers record member).supported) []

/-! ### An unsupported record -/

/-- What is written of a record of any other type, up to the cursor. -/
def cutRecord (record : Rfc1035.Record) : List UInt8 :=
  encodeLabels record.owner.labels ++ (split16 record.data.rtype ++
    (split16 record.rclass ++ split16 (highHalf record.ttl)))

def Unsupported (record : Rfc1035.Record) : Prop :=
  ∃ rtype unstructured octets, record.data = .other rtype unstructured octets

theorem wroteTo_message2bufRecord_cut (env : Env) {start bufPos : Nat}
    {record : Rfc1035.Record} (owner : Rejoinable record.owner.labels)
    (unsupported : Unsupported record) (rdlength : UInt16)
    {cells : Nat → UInt8} {written : List UInt8} (starts : Starts cells written)
    (atEnd : start + bufPos = written.length) :
    WroteTo (message2bufRecord env start (decodedRecord record rdlength) bufPos cells)
      (bufPos + (cutRecord record).length) (written ++ cutRecord record) := by
  rcases record with ⟨name, rclass, ttl, data⟩
  rcases unsupported with ⟨rtype, unstructured, octets, rfl⟩
  have size := dotJoin_length owner.nonempty
  have nameSize : (encodeLabels name.labels).length = (dotJoin name.labels).length + 2 := by
    rw [Rfc1035.encodeLabels_length, size]
  have cursor :
      bufPos + (cutRecord ⟨name, rclass, ttl, .other rtype unstructured octets⟩).length =
        bufPos + ((dotJoin name.labels).length + 2) + 2 + 2 + 2 := by
    simp only [cutRecord, List.length_append, nameSize, split16_length]
    omega
  have isOther :
      (decodedRecord ⟨name, rclass, ttl, .other rtype unstructured octets⟩
        rdlength).type = rtype := rfl
  rw [cursor]
  refine wroteTo_message2bufRecord_of_data env owner rdlength starts atEnd ?_
  intro cells starts
  refine ⟨cells, ?_, starts.of_prefix ⟨split16 (lowHalf ttl), ?_⟩⟩
  · unfold message2bufData
    rw [isOther, if_neg unstructured.1, if_neg unstructured.2.1, if_neg unstructured.2.2]
    rfl
  · simp [cutRecord, recordFields, split32]

/-- Supported records followed by one that is not. -/
theorem wroteTo_message2bufAnswer_cut (env : Env) (start bufPos : Nat)
    {front : List Rfc1035.Record} {last : Rfc1035.Record} {rdlengths : List UInt16}
    (sameLength : (front ++ [last]).length = rdlengths.length)
    (relayable : ∀ record ∈ front, Relayable record)
    (owner : Rejoinable last.owner.labels) (unsupported : Unsupported last)
    (announced :
      ∀ pair ∈ (front ++ [last]).zip rdlengths, AnnouncesLength pair.2 pair.1.data)
    {cells : Nat → UInt8} {written : List UInt8} (starts : Starts cells written)
    (atEnd : start + bufPos = written.length) :
    WroteTo
      (message2bufAnswer env start
        (List.zipWith decodedRecord (front ++ [last]) rdlengths) bufPos cells)
      (written ++ front.flatMap encodeRecord ++ cutRecord last).length
      (written ++ front.flatMap encodeRecord ++ cutRecord last) := by
  induction front generalizing rdlengths bufPos cells written with
  | nil =>
      rcases rdlengths with _ | ⟨rdlength, _ | ⟨other, others⟩⟩
      · simp at sameLength
      · unfold message2bufAnswer
        refine (wroteTo_message2bufRecord_cut env owner unsupported rdlength starts
          atEnd).bind ?_
        intro cells starts
        refine ⟨cells, ?_, by simpa using starts⟩
        simp only [List.flatMap_nil, List.append_nil, List.length_append, ← atEnd,
          Nat.add_assoc]
        rfl
      · simp at sameLength
  | cons record records ih =>
      cases rdlengths with
      | nil => simp at sameLength
      | cons rdlength rdlengths =>
          have regroup :
              written ++ (record :: records).flatMap encodeRecord ++ cutRecord last =
                written ++ encodeRecord record ++ records.flatMap encodeRecord ++
                  cutRecord last := by
            simp [List.flatMap_cons]
          rw [regroup, List.cons_append, List.zipWith_cons_cons]
          unfold message2bufAnswer
          refine (wroteTo_message2bufRecord env (relayable record (by simp))
            (announced (record, rdlength) (by simp)) starts atEnd).bind ?_
          intro cells starts
          refine ih _ (by simpa using sameLength)
            (fun other member => relayable other (by simp [member]))
            (fun pair member => announced pair (by simp [member])) starts ?_
          rw [List.length_append, ← atEnd]
          omega

/-- A reader that finds records where they were written leaves off where the
writer did. -/
theorem answersAt_append {bytes : List UInt8} {offset : Nat}
    {front rest : List Rfc1035.Record} {rdlengths : List UInt16}
    (fits : ∀ record ∈ front, record.data.Fits)
    (held : HoldsAt bytes offset (front.flatMap encodeRecord))
    (located : AnswersAt bytes offset (front ++ rest) rdlengths) :
    ∃ others,
      AnswersAt bytes (offset + (front.flatMap encodeRecord).length) rest others := by
  induction front generalizing offset rdlengths with
  | nil => exact ⟨rdlengths, located⟩
  | cons record records ih =>
      cases rdlengths with
      | nil => exact absurd located not_false
      | cons rdlength rdlengths =>
          rcases located with ⟨next, ⟨fields, spelled, fixed, _, _, rfl⟩, later⟩
          rw [List.flatMap_cons, HoldsAt.append_iff] at held
          have written := held.1
          rw [encodeRecord, HoldsAt.append_iff, HoldsAt.append_iff,
            Rfc1035.encodeLabels_length] at written
          have here := Rfc1035.nameAt_of_holdsAt_encodeLabels record.owner.labelSizes
            written.1
          have fieldsAt := (spelled.unique here).2
          subst fieldsAt
          have sameFields :
              fixedFields record rdlength = fixedFields record (dataLength record.data) :=
            HoldsAt.unique rfl fixed written.2.1
          have sameLength : rdlength = dataLength record.data := by
            unfold fixedFields at sameFields
            simp only [← List.append_assoc] at sameFields
            exact split16_injective (List.append_inj' sameFields rfl).2
          have size := Rfc1035.dataLength_toNat (fits record (by simp))
          have finish :
              offset + nameLength record.owner.labels + 10 + rdlength.toNat =
                offset + (encodeRecord record).length := by
            rw [sameLength, size, encodeRecord, List.length_append, List.length_append,
              Rfc1035.encodeLabels_length, Rfc1035.fixedFields_length]
            omega
          rw [finish] at later
          rcases ih (fun other member => fits other (by simp [member])) held.2 later
            with ⟨others, found⟩
          refine ⟨others, ?_⟩
          rw [List.flatMap_cons, List.length_append, ← Nat.add_assoc]
          exact found

/-- A reply that ends with an unsupported record is not relayed faithfully, even
when all its names survive. -/
theorem not_relayedFaithfully_of_unsupported_last (datagram : Datagram)
    (message : Rfc1035.Message) (rdlengths : List UInt16)
    (question : Rfc1035.Question) (front : List Rfc1035.Record) (last : Rfc1035.Record)
    (single : message.questions = [question])
    (answers : message.answers = front ++ [last])
    (wellFormed : WellFormed datagram.octets message rdlengths)
    (decodable : Decodable message) (rejoinable : Rejoinable question.name.labels)
    (relayable : ∀ record ∈ front, Relayable record)
    (owner : Rejoinable last.owner.labels) (unsupported : Unsupported last) :
    ¬ RelayedFaithfully datagram message := by
  rintro ⟨enough, faithful⟩
  rcases announcesLength_of_answersAt wellFormed.answers with ⟨sameLength, announced⟩
  rcases buf2message_yields datagram wellFormed decodable with ⟨enough', decoded⟩
  obtain ⟨env, more, more'⟩ : ∃ env : Env, enough ≤ env.fuel ∧ enough' ≤ env.fuel :=
    ⟨{ fuel := max enough enough', junk := fun _ _ => 0 }, Nat.le_max_left _ _,
      Nat.le_max_right _ _⟩
  rcases faithful env more with ⟨octets, rdlengths', done, _, meaning⟩
  have cleared : (asSent message).flags.z = 0 := rfl
  rcases writeMessage_out_of_records env cleared single rejoinable
      wellFormed.answerCount sameLength (fun cells starts => by
        have written := wroteTo_message2bufAnswer_cut env
          (12 + (encodeQuestion question).length) 0 (answers ▸ sameLength) relayable
          owner unsupported (answers ▸ announced) starts (by simp)
        rw [← answers, List.append_assoc (_ ++ _)] at written
        exact written)
    with ⟨buf, written, octetsAre, _⟩
  have same : octets = buf.octets := by
    unfold relayedOctets at done
    rw [Logged.bind_out_of_ok (decoded env more'), clearReserved_decodedMessage] at done
    obtain ⟨sent, encoded, isSent⟩ := Logged.bind_out_eq_ok.mp done
    have isWritten := (message2buf_out_eq_ok.mp encoded).2
    rw [written] at isWritten
    rw [Except.ok.inj isWritten]
    exact (Except.ok.inj isSent).symm
  subst same
  have located := meaning.answers
  change AnswersAt buf.octets (12 + (message.questions.flatMap encodeQuestion).length)
    message.answers rdlengths' at located
  rw [single, answers, List.flatMap_cons, List.flatMap_nil, List.append_nil] at located
  have written :
      HoldsAt buf.octets (12 + (encodeQuestion question).length)
        (front.flatMap encodeRecord ++ cutRecord last) := by
    have middle := HoldsAt.middle (Rfc1035.header (asSent message) ++ encodeQuestion question)
      (front.flatMap encodeRecord ++ cutRecord last) []
    rw [List.append_nil, ← octetsAre, List.length_append] at middle
    exact middle
  rw [HoldsAt.append_iff, cutRecord, HoldsAt.append_iff] at written
  rcases answersAt_append
      (fun record member => RData.fits_of_structured (relayable record member).supported)
      written.1 located with ⟨others, found⟩
  cases others with
  | nil => exact absurd found not_false
  | cons rdlength rest =>
      rcases found with ⟨next, ⟨fields, spelled, _, _, room, _⟩, _⟩
      have here := Rfc1035.nameAt_of_holdsAt_encodeLabels last.owner.labelSizes
        written.2.1
      have fieldsAt := (spelled.unique here).2
      have size := congrArg List.length octetsAre
      simp only [List.length_append, Rfc1035.header_length, cutRecord,
        Rfc1035.encodeLabels_length, split16_length] at size
      omega

private def mailName : DomainName :=
  { labels := [[109], [99]], labelSizes := by decide, fits := by decide }

private def replyWith (data : RData) : Rfc1035.Message :=
  { id := 0x1234
    flags :=
      { qr := true, opcode := 0, aa := false, tc := false, rd := true, ra := true
        z := 0, rcode := 0 }
    questions := [{ name := mailName, qtype := data.rtype, qclass := 1 }]
    answers := [{ owner := mailName, rclass := 1, ttl := 60, data := data }]
    authorityCount := 0
    additionalCount := 0 }

private def mailExchange : RData := .other 15 (by decide) [0, 10, 1, 120, 0xc0, 14]

private def addressReply : Datagram :=
  { buf :=
      { base := [0x12, 0x34, 0x81, 0x80, 0, 1, 0, 1, 0, 0, 0, 0,
          1, 109, 1, 99, 0, 0, 1, 0, 1,
          0xc0, 12, 0, 1, 0, 1, 0, 0, 0, 60, 0, 4, 192, 0, 2, 1]
        len := 37 }
    nonempty := by decide
    fits := by decide }

private def mailReply : Datagram :=
  { buf :=
      { base := [0x12, 0x34, 0x81, 0x80, 0, 1, 0, 1, 0, 0, 0, 0,
          1, 109, 1, 99, 0, 0, 15, 0, 1,
          0xc0, 12, 0, 15, 0, 1, 0, 0, 0, 60, 0, 6, 0, 10, 1, 120, 0xc0, 14]
        len := 39 }
    nonempty := by decide
    fits := by decide }

private theorem mailName_rejoinable : Rejoinable mailName.labels :=
  ⟨by decide, by decide, by decide⟩

private theorem addressReply_wellFormed :
    WellFormed addressReply.octets (replyWith (.a 0xc0000201)) [4] :=
  { questionCount := by decide
    answerCount := by decide
    header := by decide
    questions := by decide
    answers := by
      refine ⟨37, ⟨23, ?_, by decide, ⟨rfl, by decide⟩, by decide, rfl⟩, trivial⟩
      exact @NameAt.pointer _ 21 17 0xc0 12 _ (by decide) (by decide)
        (NameAt.label (by decide) (by decide) (by decide)
          (NameAt.label (by decide) (by decide) (by decide) (NameAt.root (by decide)))) }

private theorem mailReply_wellFormed :
    WellFormed mailReply.octets (replyWith mailExchange) [6] :=
  { questionCount := by decide
    answerCount := by decide
    header := by decide
    questions := by decide
    answers := by
      refine ⟨39, ⟨23, ?_, by decide, ⟨rfl, by decide⟩, by decide, rfl⟩, trivial⟩
      exact @NameAt.pointer _ 21 17 0xc0 12 _ (by decide) (by decide)
        (NameAt.label (by decide) (by decide) (by decide)
          (NameAt.label (by decide) (by decide) (by decide) (NameAt.root (by decide)))) }

theorem relayed_faithfully_address :
    RelayedFaithfully addressReply (replyWith (.a 0xc0000201)) := by
  refine relayed_faithfully addressReply _ [4]
    { name := mailName, qtype := 1, qclass := 1 } rfl addressReply_wellFormed ?_
  constructor
  · simpa [replyWith] using mailName_rejoinable
  · simp only [replyWith, List.mem_singleton, forall_eq]
    exact
      { supported := fun rtype unstructured octets impossible => by cases impossible
        owner := mailName_rejoinable
        target := fun target impossible => by cases impossible }
  · simp only [replyWith, List.mem_singleton, forall_eq]
    decide
  · decide

/-- A well-formed reply with one MX answer is not relayed faithfully. -/
theorem not_relayedFaithfully_mail :
    WellFormed mailReply.octets (replyWith mailExchange) [6] ∧
      ¬ RelayedFaithfully mailReply (replyWith mailExchange) := by
  refine ⟨mailReply_wellFormed, ?_⟩
  refine not_relayedFaithfully_of_unsupported_last mailReply _ [6] _ [] _ rfl rfl
    mailReply_wellFormed ?_ mailName_rejoinable (by simp) mailName_rejoinable
    ⟨_, _, _, rfl⟩
  constructor
  · simp [replyWith, mailName]
  · simp [replyWith, mailName]
  · simp only [replyWith, List.mem_singleton, forall_eq]
    decide
  · simp only [replyWith, List.mem_singleton, forall_eq]
    intro target impossible
    cases impossible

end PostDns
