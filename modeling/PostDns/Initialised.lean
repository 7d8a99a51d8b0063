/-
Decoded messages and their consumers (message.c, `message_free`).

The consumers trust the counts and the type tags of a message.  The decoder fills the
answers whatever the datagram is, but the questions only when the datagram is longer
than a header.
-/

import PostDns.EntrySemantics
import PostDns.MessageLog
import PostDns.PacketBounds

namespace PostDns

open Foundation

/-! ### Releasing a message -/

structure HasShape (answer : ResourceRecord) : Prop where
  inet4 : answer.type = 1 → ∃ address, answer.responseData = .inet4 address
  domain : answer.type = 5 → ∃ name, answer.responseData = .domain name
  inet6 : answer.type = 28 →
    ∃ address, answer.responseData = .inet6 address ∧ address.length = 16

/-- Every counted entry is there and every answer has its payload. -/
structure FullyInitialised (message : Message) : Prop where
  queries : message.queries.length = message.queryCount.toNat
  answers : message.answers.length = message.answerCount.toNat
  shapes : ∀ answer ∈ message.answers, HasShape answer

theorem HasShape.loggable {answer : ResourceRecord} (shape : HasShape answer) :
    Loggable answer :=
  { inet4 := shape.inet4
    domain := shape.domain
    inet6 := fun isAaaa =>
      have ⟨address, data, _⟩ := shape.inet6 isAaaa
      ⟨address, data⟩ }

theorem HasShape.carries {answer : ResourceRecord} (shape : HasShape answer) :
    CarriesData answer := by
  unfold CarriesData
  cases hData : answer.responseData with
  | unset | rootDomain =>
      exact ⟨fun isA => by simpa [hData] using shape.inet4 isA,
        fun isCname => by simpa [hData] using shape.domain isCname,
        fun isAaaa => by simpa [hData] using shape.inet6 isAaaa⟩
  | inet4 address =>
      exact ⟨fun isCname => by simpa [hData] using shape.domain isCname,
        fun isAaaa => by simpa [hData] using shape.inet6 isAaaa⟩
  | domain name =>
      exact ⟨fun isA => by simpa [hData] using shape.inet4 isA,
        fun isAaaa => by simpa [hData] using shape.inet6 isAaaa⟩
  | inet6 address =>
      exact ⟨fun isA => by simpa [hData] using shape.inet4 isA,
        fun isCname => by simpa [hData] using shape.domain isCname⟩

theorem FullyInitialised.logReady {message : Message} (full : FullyInitialised message) :
    LogReady message :=
  { queries := full.queries.ge
    answers := full.answers.ge
    loggable := fun answer member =>
      (full.shapes answer (List.mem_of_mem_take member)).loggable }

theorem buf2messageQuestion_length {env : Env} {buf : List UInt8} {count bufPos : Nat}
    {entries : List Query × Nat}
    (done : (buf2messageQuestion env buf count bufPos).out = .ok entries) :
    entries.1.length = count := by
  induction count generalizing bufPos entries with
  | zero =>
      cases done
      rfl
  | succ count ih =>
      obtain ⟨entry, _, others⟩ := Logged.bind_out_eq_ok.mp done
      obtain ⟨rest, later, returned⟩ := Logged.bind_out_eq_ok.mp others
      cases returned
      exact congrArg (· + 1) (ih later)

theorem string2inet6Loop_length {junk : Nat → UInt8} {address : StringT}
    {count index : Nat} {octets : List UInt8}
    (done : (string2inet6Loop junk address count index).out = .ok octets) :
    octets.length = count := by
  induction count generalizing index octets with
  | zero =>
      cases done
      rfl
  | succ count ih =>
      obtain ⟨octet, _, others⟩ := Logged.bind_out_eq_ok.mp done
      obtain ⟨rest, later, returned⟩ := Logged.bind_out_eq_ok.mp others
      cases returned
      exact congrArg (· + 1) (ih later)

/-- A target without labels became a string of length -1. -/
def RootTarget (answer : ResourceRecord) : Prop :=
  answer.type = 5 ∧ answer.responseData = .rootDomain

theorem buf2messageRecord_shape {env : Env} {buf : List UInt8} {bufPos : Nat}
    {entry : ResourceRecord × Nat}
    (done : (buf2messageRecord env buf bufPos).out = .ok entry) :
    HasShape entry.1 ∨ RootTarget entry.1 := by
  rw [buf2messageRecord_eq] at done
  obtain ⟨named, _, afterName⟩ := Logged.bind_out_eq_ok.mp done
  obtain ⟨head, _, afterHead⟩ := Logged.bind_out_eq_ok.mp afterName
  obtain ⟨data, _, afterData⟩ := Logged.bind_out_eq_ok.mp afterHead
  obtain ⟨responseData, means, returned⟩ := Logged.bind_out_eq_ok.mp afterData
  cases returned
  unfold responseDataOf at means
  by_cases isA : head.type = 1
  · rw [if_pos isA] at means
    obtain ⟨value, _, afterValue⟩ := Logged.bind_out_eq_ok.mp means
    obtain ⟨address, _, isData⟩ := Logged.bind_out_eq_ok.mp afterValue
    cases isData
    exact Or.inl
      { inet4 := fun _ => ⟨address, rfl⟩
        domain := fun isCname => absurd (isA.symm.trans isCname) (by decide)
        inet6 := fun isAaaa => absurd (isA.symm.trans isAaaa) (by decide) }
  by_cases isCname : head.type = 5
  · rw [if_neg isA, if_pos isCname, closeTarget_out] at means
    have isData := Except.ok.inj means
    by_cases empty : data.2 = []
    · rw [if_pos empty] at isData
      exact Or.inr ⟨isCname, isData.symm⟩
    · rw [if_neg empty] at isData
      exact Or.inl
        { inet4 := fun isA' => absurd isA' isA
          domain := fun _ => ⟨_, isData.symm⟩
          inet6 := fun isAaaa => absurd (isCname.symm.trans isAaaa) (by decide) }
  by_cases isAaaa : head.type = 28
  · rw [if_neg isA, if_neg isCname, if_pos isAaaa] at means
    obtain ⟨value, _, afterValue⟩ := Logged.bind_out_eq_ok.mp means
    obtain ⟨address, copied, isData⟩ := Logged.bind_out_eq_ok.mp afterValue
    cases isData
    exact Or.inl
      { inet4 := fun isA' => absurd isA' isA
        domain := fun isCname' => absurd isCname' isCname
        inet6 := fun _ => ⟨address, rfl, string2inet6Loop_length copied⟩ }
  · exact Or.inl
      { inet4 := fun isA' => absurd isA' isA
        domain := fun isCname' => absurd isCname' isCname
        inet6 := fun isAaaa' => absurd isAaaa' isAaaa }

theorem buf2messageRR_filled {env : Env} {buf : List UInt8} {count bufPos : Nat}
    {answers : List ResourceRecord}
    (done : (buf2messageRR env buf count bufPos).out = .ok answers) :
    answers.length = count ∧ ∀ answer ∈ answers, HasShape answer ∨ RootTarget answer := by
  induction count generalizing bufPos answers with
  | zero =>
      cases done
      exact ⟨rfl, nofun⟩
  | succ count ih =>
      obtain ⟨entry, first, others⟩ := Logged.bind_out_eq_ok.mp done
      obtain ⟨rest, later, returned⟩ := Logged.bind_out_eq_ok.mp others
      cases returned
      obtain ⟨length, shapes⟩ := ih later
      refine ⟨congrArg (· + 1) length, ?_⟩
      intro answer member
      rcases List.mem_cons.mp member with isFirst | inRest
      · rw [isFirst]
        exact buf2messageRecord_shape first
      · exact shapes answer inRest

/-- The counts are those of the header, all answers are there, and all questions when
the datagram goes on behind the header. -/
structure DecodedFrom (buf : UvBuf) (message : Message) : Prop where
  queryCount : message.queryCount = shortAt buf.base 4
  queries : message.queries.length = if 12 < buf.len then message.queryCount.toNat else 0
  answers : message.answers.length = message.answerCount.toNat
  shapes : ∀ answer ∈ message.answers, HasShape answer ∨ RootTarget answer

theorem decodedFrom {env : Env} {buf : UvBuf} {message : Message}
    (decoded : (buf2message env buf).out = .ok message) : DecodedFrom buf message := by
  obtain ⟨header, headed, sections⟩ := Logged.bind_out_eq_ok.mp decoded
  obtain ⟨questions, asked, others⟩ := Logged.bind_out_eq_ok.mp sections
  obtain ⟨answers, answered, returned⟩ := Logged.bind_out_eq_ok.mp others
  obtain ⟨_, queryCount, _⟩ := buf2messageHeader_of_ok headed
  have filled : answers.length = header.answerCount.toNat ∧
      ∀ answer ∈ answers, HasShape answer ∨ RootTarget answer := by
    unfold answerSection at answered
    by_cases some : 0 < header.answerCount
    · rw [if_pos some] at answered
      exact buf2messageRR_filled answered
    · rw [if_neg some] at answered
      cases answered
      refine ⟨?_, nofun⟩
      rw [UInt16.lt_iff_toNat_lt] at some
      exact (Nat.eq_zero_of_not_pos some).symm
  cases returned
  constructor
  · exact queryCount
  · unfold questionSection at asked
    by_cases longer : 12 < buf.len
    · rw [if_pos longer] at asked ⊢
      exact buf2messageQuestion_length asked
    · rw [if_neg longer] at asked ⊢
      cases asked
      rfl
  · exact filled.1
  · exact filled.2

theorem DecodedFrom.asked_iff {buf : UvBuf} {message : Message}
    (decoded : DecodedFrom buf message) :
    message.queries.length = message.queryCount.toNat ↔
      12 < buf.len ∨ queryCountOf buf = 0 := by
  rw [decoded.queries, queryCountOf, ← decoded.queryCount]
  by_cases longer : 12 < buf.len
  · rw [if_pos longer]
    exact iff_of_true rfl (Or.inl longer)
  · rw [if_neg longer]
    constructor
    · intro none
      exact Or.inr none.symm
    · intro either
      exact (either.resolve_left longer).symm

/-- A decoded message is filled in as far as the log finds it so. -/
theorem DecodedFrom.full_iff {buf : UvBuf} {message : Message}
    (decoded : DecodedFrom buf message) : FullyInitialised message ↔ LogReady message := by
  constructor
  · exact FullyInitialised.logReady
  · intro ready
    have all : message.answers.take message.answerCount.toNat = message.answers := by
      rw [← decoded.answers, List.take_length]
    refine { queries := ?_, answers := decoded.answers, shapes := ?_ }
    · have enough := ready.queries
      rw [decoded.queries] at enough ⊢
      split at enough
      · exact if_pos ‹_›
      · exact (if_neg ‹_›).trans (Nat.eq_zero_of_le_zero enough).symm
    · intro answer member
      refine (decoded.shapes answer member).resolve_right ?_
      intro root
      obtain ⟨name, data⟩ := (ready.loggable answer (by rwa [all])).domain root.1
      rw [root.2] at data
      cases data

/-- The log needs the questions that the header announces, and a label in every target. -/
theorem DecodedFrom.logReady_iff {buf : UvBuf} {message : Message}
    (decoded : DecodedFrom buf message) :
    LogReady message ↔ (12 < buf.len ∨ queryCountOf buf = 0) ∧
      ∀ answer ∈ message.answers, ¬ RootTarget answer := by
  rw [← decoded.full_iff, ← decoded.asked_iff]
  constructor
  · intro full
    refine ⟨full.queries, ?_⟩
    rintro answer member ⟨isCname, root⟩
    obtain ⟨name, data⟩ := (full.shapes answer member).domain isCname
    rw [root] at data
    cases data
  · rintro ⟨queries, labelled⟩
    exact
      { queries := queries
        answers := decoded.answers
        shapes := fun answer member =>
          (decoded.shapes answer member).resolve_right (labelled answer member) }

def patient : Env := { fuel := 4, junk := fun _ _ => 0 }

def oneAddress : Datagram :=
  { buf :=
      { base := [0, 7, 0x81, 0x80, 0, 1, 0, 1, 0, 0, 0, 0, 1, 97, 0, 0, 1, 0, 1,
          0xc0, 12, 0, 1, 0, 1, 0, 0, 0, 60, 0, 4, 1, 2, 3, 4]
        len := 35 }
    nonempty := Nat.succ_pos (nat_lit 34)
    fits := Nat.le_refl (nat_lit 35) }

def oneAddressMessage : Message :=
  { id := 7
    flags :=
      { qr := 1, opcode := 0, aa := 0, tc := 0, rd := 1, ra := 1, z := 0, rcode := 0 }
    queryCount := 1
    answerCount := 1
    authorityCount := 0
    additionalCount := 0
    queries := [{ name := [97], type := 1, cls := 1 }]
    answers :=
      [{ name := [97]
         type := 1
         cls := 1
         ttl := 60
         responseDataLength := 4
         responseData := .inet4 0x01020304 }] }

theorem oneAddress_decoded :
    (buf2message patient oneAddress.buf).out = .ok oneAddressMessage := by
  rfl

/-- What is logged is printed. -/
example : (messageLog oneAddressMessage).out =
    .ok [.query [97], .inet4 [97] [49, 46, 50, 46, 51, 46, 52]] := by
  decide

def headerOnly : Datagram :=
  { buf :=
      { base := [0, 7, 1, 0, 0, 1, 0, 0, 0, 0, 0, 0]
        len := 12 }
    nonempty := Nat.succ_pos (nat_lit 11)
    fits := Nat.le_refl (nat_lit 12) }

def headerOnlyMessage : Message :=
  { id := 7
    flags :=
      { qr := 0, opcode := 0, aa := 0, tc := 0, rd := 1, ra := 0, z := 0, rcode := 0 }
    queryCount := 1
    answerCount := 0
    authorityCount := 0
    additionalCount := 0
    queries := []
    answers := [] }

theorem headerOnly_decoded :
    (buf2message patient headerOnly.buf).out = .ok headerOnlyMessage := by
  rfl

end PostDns
