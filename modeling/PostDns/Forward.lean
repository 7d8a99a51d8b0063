/-
What the upstream server is asked when a client query is forwarded.

A question crosses the program as a dot-joined string.  It arrives unchanged
exactly when its labels survive being joined, split and printed; the other names
are identified by the octet in which what is sent differs.
-/

import PostDns.Packet
import PostDns.Send

namespace PostDns

open Foundation
open Rfc1035 (Label nameLength encodeLabels encodeQuestion WellFormed)

/-! ### Names that do not survive -/

theorem strcpyResult_depends {name : List UInt8} (inside : (0 : UInt8) ∈ name.dropLast) :
    strcpyResult (fun _ => 0) name ≠ strcpyResult (fun _ => 1) name := by
  rcases List.eq_append_cons_of_mem inside with ⟨front, back, split, clean⟩
  have nonempty : name ≠ [] := by
    intro empty
    simp [empty] at inside
  obtain ⟨last, whole⟩ : ∃ last, name = front ++ 0 :: (back ++ [last]) := by
    refine ⟨name.getLast nonempty, ?_⟩
    conv_lhs => rw [← List.dropLast_append_getLast nonempty, split]
    simp
  have copied : name.takeWhile (fun letter => letter ≠ 0) = front := by
    rw [whole, List.takeWhile_append_of_pos (fun letter member =>
      decide_eq_true (ne_of_mem_of_not_mem member clean))]
    simp
  have short : front.length ≠ name.length := by
    rw [whole, List.length_append, List.length_cons]
    omega
  have tail : name.length - front.length - 1 = back.length + 1 := by
    rw [whole]
    simp only [List.length_append, List.length_cons, List.length_nil]
    omega
  intro same
  unfold strcpyResult at same
  rw [copied, if_neg short, if_neg short, tail] at same
  have filled := List.cons.inj (List.append_cancel_left same)
  have first := congrArg List.head? filled.2
  simp [List.range_succ_eq_map] at first

/-- Splitting cuts a label that holds a dot short. -/
theorem splitOn_cut {label : Label} (dotted : dot ∈ label) (more : List UInt8) :
    ∃ first others, (label ++ more).splitOn dot = first :: others ∧
      first.length < label.length := by
  rcases List.eq_append_cons_of_mem dotted with ⟨front, back, rfl, clean⟩
  refine ⟨front, (back ++ more).splitOn dot, ?_, ?_⟩
  · rw [List.append_assoc, List.cons_append,
      List.splitOn_append_cons_self_of_not_mem clean]
  · rw [List.length_append, List.length_cons]
    omega

theorem encodeLabels_cons (label : Label) (rest : List Label) :
    encodeLabels (label :: rest) =
      UInt8.ofNat label.length :: label ++ encodeLabels rest := by
  simp [encodeLabels]

/-- A label whose first token is shorter is sent with another length octet. -/
theorem spelledTokens_ne_of_cut {junk : Nat → UInt8} {position : Nat} {label : Label}
    {rest : List Label} {first : StringT} {others : List StringT}
    (short : label.length ≤ 63) (cut : first.length < label.length) :
    spelledTokens junk position (first :: others) ++ [0] ≠
      encodeLabels (label :: rest) := by
  intro spelled
  rw [encodeLabels_cons, spelledTokens, tokenOctets] at spelled
  have lengthOctet : UInt8.ofNat first.length = UInt8.ofNat label.length :=
    (List.cons.inj spelled).1
  have firstSize : (UInt8.ofNat first.length).toNat = first.length :=
    Rfc1035.labelOctet_toNat (by omega)
  rw [lengthOctet, Rfc1035.labelOctet_toNat short] at firstSize
  omega

theorem noDots_of_spelledTokens {junk : Nat → UInt8} {position : Nat}
    {labels : List Label} (sizes : ∀ label ∈ labels, label.length ≤ 63)
    (spelled :
      spelledTokens junk position ((dotJoin labels).splitOn dot) ++ [0] =
        encodeLabels labels) :
    ∀ label ∈ labels, dot ∉ label := by
  induction labels generalizing position with
  | nil => simp
  | cons label rest ih =>
      have short := sizes label (by simp)
      obtain ⟨more, joined⟩ : ∃ more, dotJoin (label :: rest) = label ++ more := by
        cases rest with
        | nil => exact ⟨[], by simp [dotJoin]⟩
        | cons next others => exact ⟨_, dotJoin_cons_cons label next others⟩
      by_cases dotted : dot ∈ label
      · rcases splitOn_cut dotted more with ⟨first, others, tokens, cut⟩
        rw [joined, tokens] at spelled
        exact absurd spelled (spelledTokens_ne_of_cut short cut)
      · cases rest with
        | nil => simpa using dotted
        | cons next others =>
            rw [dotJoin_cons_cons, List.singleton_append,
              List.splitOn_append_cons_self_of_not_mem dotted, spelledTokens,
              encodeLabels_cons, List.append_assoc] at spelled
            have later := (List.append_inj spelled (by simp)).2
            have tail := ih (fun other member => sizes other (by simp [member])) later
            intro other member
            rcases List.mem_cons.mp member with rfl | inRest
            · exact dotted
            · exact tail other inRest

theorem strcpyResult_of_spelledTokens {junk : Nat → UInt8} {position : Nat}
    {labels : List Label}
    (spelled : spelledTokens junk position labels ++ [0] = encodeLabels labels) :
    ∀ label ∈ labels, ∃ offset,
      strcpyResult (fun i => junk (offset + i)) label = label := by
  induction labels generalizing position with
  | nil => simp
  | cons label rest ih =>
      rw [spelledTokens, encodeLabels_cons, List.append_assoc] at spelled
      have parts := List.append_inj spelled (by simp)
      have here := (List.cons.inj parts.1).2
      intro other member
      rcases List.mem_cons.mp member with rfl | inRest
      · exact ⟨position + 1, here⟩
      · exact ih parts.2 other inRest

/-- A name that is sent unchanged whatever its buffer held before survives being
joined. -/
theorem rejoinable_of_nameOctets {labels : List Label} (nonempty : labels ≠ [])
    (sizes : ∀ label ∈ labels, label.length ≤ 63)
    (unchanged :
      ∀ octet, nameOctets (fun _ => octet) (dotJoin labels) = encodeLabels labels) :
    Rejoinable labels := by
  have noDots := noDots_of_spelledTokens sizes (unchanged 0)
  have spelled (octet : UInt8) :
      spelledTokens (fun _ => octet) 0 labels ++ [0] = encodeLabels labels := by
    have same := unchanged octet
    rwa [nameOctets, dotJoin, List.splitOn_intercalate dot noDots nonempty] at same
  refine { nonempty := nonempty, noDots := noDots, noZeros := ?_ }
  intro label member inside
  rcases strcpyResult_of_spelledTokens (spelled 0) label member with ⟨_, withZeros⟩
  rcases strcpyResult_of_spelledTokens (spelled 1) label member with ⟨_, withOnes⟩
  exact strcpyResult_depends inside (withZeros.trans withOnes.symm)

/-! ### The forwarded datagram -/

/-- What `bind_socket_read` hands to `uv_udp_send` for a datagram it forwards. -/
def forwardedOctets (env : Env) (buf : UvBuf) : Exec (List UInt8) := do
  let message ← buf2message env buf
  let sent ← sendQuery env message
  pure sent.octets

def asSent (message : Rfc1035.Message) : Rfc1035.Message :=
  { message with
    flags := { message.flags with z := 0 }
    authorityCount := 0
    additionalCount := 0 }

theorem clearReserved_decodedMessage (message : Rfc1035.Message)
    (rdlengths : List UInt16) :
    clearReserved (decodedMessage message rdlengths) =
      decodedMessage (asSent message) rdlengths := rfl

section Forwarding

variable (datagram : Datagram) (message : Rfc1035.Message) (question : Rfc1035.Question)
  (single : message.questions = [question])
  (wellFormed : WellFormed datagram.octets message [])

include single wellFormed

/-- The question for the root is not decoded. -/
theorem forwardedOctets_root (root : question.name.labels = []) (env : Env)
    (fuel : 0 < env.fuel) :
    (forwardedOctets env datagram.buf).out = .error .emptyName := by
  have whole := wellFormed.mono (List.take_prefix datagram.buf.len datagram.buf.base)
  have asked := wellFormed.questions
  have askedWhole := whole.questions
  simp only [single, List.flatMap_cons, List.flatMap_nil, encodeQuestion, root,
    List.append_nil] at asked askedWhole
  have room := asked.fits (by simp [encodeLabels])
  simp only [List.length_append, split16_length, Datagram.octets, UvBuf.octets,
    List.length_take] at room
  rw [HoldsAt.append_iff] at askedWhole
  have zero : datagram.buf.base[12]? = some 0 := (HoldsAt.cons_iff.mp askedWhole.1).1
  have unnamed :
      (questionName datagram.buf.base env.fuel 12 []).out = .ok (12, []) := by
    cases hFuel : env.fuel with
    | zero => omega
    | succ fuel =>
        rw [questionName, Logged.bind_out_of_ok (readBase_out_of_some zero)]
        rfl
  have query : (buf2messageQuery env datagram.buf.base 12).out = .error .emptyName := by
    unfold buf2messageQuery
    rw [Logged.bind_out_of_ok unnamed]
    rfl
  have questions :
      (questionSection env datagram.buf (headerMessage message).queryCount).out =
        .error .emptyName := by
    have one : (headerMessage message).queryCount.toNat = 1 := by
      simp [headerMessage, decodedMessage, single]
    unfold questionSection
    rw [if_pos (by omega), one, buf2messageQuestion, Logged.bind_of_error query]
  unfold forwardedOctets buf2message
  rw [Logged.bind_of_error]
  rw [Logged.bind_out_of_ok (buf2messageHeader_out whole.header),
    Logged.bind_of_error questions]

variable (noAnswers : message.answers = [])

include noAnswers

/-- A named question is forwarded as the octets of its joined name. -/
theorem forwardedOctets_out (named : question.name.labels ≠ []) :
    ∃ enough, ∀ env : Env, enough ≤ env.fuel →
      (forwardedOctets env datagram.buf).out =
        .ok (Rfc1035.header (asSent message) ++
          queryOctets (env.junk (.output 12)) (decodedQuery question)) := by
  have decodable : Decodable message :=
    { questions := by simpa [single] using named
      owners := by simp [noAnswers]
      ownerOctets := by simp [noAnswers]
      targets := by simp [noAnswers] }
  rcases buf2message_yields datagram wellFormed decodable with ⟨enough, decoded⟩
  refine ⟨enough, ?_⟩
  intro env more
  have queries : (decodedMessage (asSent message) []).queries = [decodedQuery question] := by
    simp [decodedMessage, asSent, single]
  have queryCount : (decodedMessage (asSent message) []).queryCount = 1 := by
    simp [decodedMessage, asSent, single]
  have answers : (decodedMessage (asSent message) []).answers = [] := by
    simp [decodedMessage, asSent, noAnswers]
  have answerCount :
      (decodedMessage (asSent message) []).answerCount.toNat =
        (decodedMessage (asSent message) []).answers.length := by
    simp [decodedMessage, asSent, noAnswers]
  rcases writeMessage_out_of_answers env queries queryCount
      (fun cells starts => wroteTo_answersToBuf env answerCount
        ⟨cells, by rw [answers]; simp [message2bufAnswer], starts⟩)
    with ⟨buf, written, octetsAre, _⟩
  have short : (Rfc1035.encode (asSent message)).length ≤ 1500 := by
    have size := question.name.fits
    change (Rfc1035.header (asSent message) ++ message.questions.flatMap encodeQuestion ++
      message.answers.flatMap Rfc1035.encodeRecord).length ≤ 1500
    rw [single, noAnswers]
    simp only [List.length_append, Rfc1035.header_length, List.flatMap_cons,
      List.flatMap_nil, encodeQuestion, Rfc1035.encodeLabels_length, split16_length,
      List.length_nil]
    omega
  have fits : FitsPacket (decodedMessage (asSent message) []) := by
    refine (@fitsPacket_decodedMessage_iff (asSent message) question [] single named ?_ ?_ ?_
      ?_).mpr short
    · change message.answers.length < 65536
      rw [noAnswers]
      decide
    · change message.answers.length = 0
      rw [noAnswers]
      rfl
    · change ∀ record ∈ message.answers, Relayable record
      rw [noAnswers]
      intro _ impossible
      cases impossible
    · change ∀ pair ∈ message.answers.zip [], AnnouncesLength pair.2 pair.1.data
      rw [noAnswers]
      intro _ impossible
      cases impossible
  have encoded := message2buf_out_eq_ok.mpr ⟨fits, written⟩
  rw [headerOctets_decodedMessage rfl] at octetsAre
  have sent : (sendQuery env (decodedMessage message [])).out = .ok buf := encoded
  unfold forwardedOctets
  rw [Logged.bind_out_of_ok (decoded env more), Logged.bind_out_of_ok sent,
    Logged.pure_out, octetsAre]

/-- A forwarded query asks the client's question exactly when the labels of the
name survive being joined. -/
theorem forwardedOctets_faithful_iff :
    Yields (fun env => forwardedOctets env datagram.buf)
        (Rfc1035.header (asSent message) ++ encodeQuestion question) ↔
      question.name.labels ≠ [] ∧
        ∀ label ∈ question.name.labels, dot ∉ label ∧ (0 : UInt8) ∉ label.dropLast := by
  constructor
  · rintro ⟨enough, faithful⟩
    have named : question.name.labels ≠ [] := by
      intro root
      have done := faithful { fuel := enough + 1, junk := fun _ _ => 0 }
        (Nat.le_succ enough)
      rw [forwardedOctets_root datagram message question single wellFormed root _
        (Nat.succ_pos enough)] at done
      cases done
    rcases forwardedOctets_out datagram message question single wellFormed noAnswers named
      with ⟨enough', run⟩
    have rejoinable : Rejoinable question.name.labels := by
      refine rejoinable_of_nameOctets named
        (fun label member => (question.name.labelSizes label member).2) ?_
      intro octet
      have sent := run { fuel := max enough enough', junk := fun _ _ => octet }
        (Nat.le_max_right _ _)
      rw [faithful _ (Nat.le_max_left _ _)] at sent
      have asked := List.append_cancel_left (Except.ok.inj sent)
      have size := dotJoin_length named
      refine ((List.append_inj asked ?_).1).symm
      rw [nameOctets_length, Rfc1035.encodeLabels_length]
      exact size.symm
    exact ⟨named, fun label member =>
      ⟨rejoinable.noDots label member, rejoinable.noZeros label member⟩⟩
  · rintro ⟨named, labels⟩
    have rejoinable : Rejoinable question.name.labels :=
      { nonempty := named
        noDots := fun label member => (labels label member).1
        noZeros := fun label member => (labels label member).2 }
    rcases forwardedOctets_out datagram message question single wellFormed noAnswers named
      with ⟨enough, run⟩
    refine ⟨enough, ?_⟩
    intro env more
    rw [run env more, queryOctets_decodedQuery _ rejoinable]

end Forwarding

private theorem plainName_labelSizes : ∀ label ∈ ([[97, 98], [99]] : List Rfc1035.Label),
    1 ≤ label.length ∧ label.length ≤ 63 := by
  decide

private theorem plainName_fits : Rfc1035.nameLength [[97, 98], [99]] ≤ 255 := by
  decide

private def plainName : Rfc1035.DomainName :=
  { labels := [[97, 98], [99]]
    labelSizes := plainName_labelSizes
    fits := plainName_fits }

private def rootName : Rfc1035.DomainName :=
  { labels := [], labelSizes := by decide, fits := by decide }

private def queryFor (name : Rfc1035.DomainName) : Rfc1035.Message :=
  { id := 0x1234
    flags :=
      { qr := false, opcode := 0, aa := false, tc := false, rd := true, ra := false
        z := 2, rcode := 0 }
    questions := [{ name := name, qtype := 1, qclass := 1 }]
    answers := []
    authorityCount := 0
    additionalCount := 0 }

private def plainQuery : Datagram :=
  { buf :=
      { base := [0x12, 0x34, 1, 32, 0, 1, 0, 0, 0, 0, 0, 0,
          2, 97, 98, 1, 99, 0, 0, 1, 0, 1]
        len := 22 }
    nonempty := by decide
    fits := by decide }

private def rootQuery : Datagram :=
  { buf :=
      { base := [0x12, 0x34, 1, 32, 0, 1, 0, 0, 0, 0, 0, 0, 0, 0, 1, 0, 1]
        len := 17 }
    nonempty := by decide
    fits := by decide }

private theorem plainQuery_wellFormed :
    WellFormed plainQuery.octets (queryFor plainName) [] :=
  { questionCount := by decide
    answerCount := by decide
    header := by decide
    questions := by decide
    answers := trivial }

private theorem rootQuery_wellFormed :
    WellFormed rootQuery.octets (queryFor rootName) [] :=
  { questionCount := by decide
    answerCount := by decide
    header := by decide
    questions := by decide
    answers := trivial }

theorem forwardedOctets_faithful_plain :
    Yields (fun env => forwardedOctets env plainQuery.buf)
        (Rfc1035.header (asSent (queryFor plainName)) ++
          encodeQuestion { name := plainName, qtype := 1, qclass := 1 }) ↔
      plainName.labels ≠ [] ∧
        ∀ label ∈ plainName.labels, dot ∉ label ∧ (0 : UInt8) ∉ label.dropLast :=
  forwardedOctets_faithful_iff plainQuery (queryFor plainName) _ rfl
    plainQuery_wellFormed rfl

/-- The well-formed query for the root is never forwarded. -/
theorem forwardedOctets_unfaithful_root :
    WellFormed rootQuery.octets (queryFor rootName) [] ∧
      ¬ Yields (fun env => forwardedOctets env rootQuery.buf)
        (Rfc1035.header (asSent (queryFor rootName)) ++
          encodeQuestion { name := rootName, qtype := 1, qclass := 1 }) := by
  refine ⟨rootQuery_wellFormed, ?_⟩
  rintro ⟨enough, faithful⟩
  have done := faithful { fuel := enough + 1, junk := fun _ _ => 0 } (Nat.le_succ enough)
  rw [forwardedOctets_root rootQuery (queryFor rootName)
    { name := rootName, qtype := 1, qclass := 1 } rfl rootQuery_wellFormed rfl _
    (Nat.succ_pos enough)] at done
  cases done

end PostDns
