/-
Which cells of the 1500-octet packet the encoder writes (message.c, `message2buf`).

No write is guarded.  The fields of an entry are written without a gap, so an
entry stays inside exactly when its last octet does, and a message stays inside
exactly when each of its entries does where the cursor has brought it.
-/

import PostDns.EncodeSemantics

namespace PostDns

open Foundation
open Foundation.Logged (Always)

/-! ### The octets of a message -/

def payloadLength : ResponseData → Nat
  | .unset | .rootDomain => 0
  | .inet4 _ => 4
  | .domain target => target.length + 2
  | .inet6 address => address.length

def encodedLength (message : Message) : Nat :=
  12 + (message.queries.map (fun query => query.name.length + 6)).sum +
    (message.answers.map
      (fun record => record.name.length + 12 + payloadLength record.responseData)).sum

/-- The record carries data of the kind that its type announces. -/
def CarriesData (record : ResourceRecord) : Prop :=
  match record.responseData with
  | .inet4 _ => record.type ≠ 5 ∧ record.type ≠ 28
  | .domain _ => record.type ≠ 1 ∧ record.type ≠ 28
  | .inet6 _ => record.type ≠ 1 ∧ record.type ≠ 5
  | .unset | .rootDomain => record.type ≠ 1 ∧ record.type ≠ 5 ∧ record.type ≠ 28

def dataExtent (record : ResourceRecord) : Nat :=
  match record.responseData with
  | .inet4 _ => if record.type = 1 then 6 else 0
  | .domain target => if record.type = 5 then target.length + 4 else 0
  | .inet6 address => if record.type = 28 then address.length + 2 else 0
  | .unset | .rootDomain => 0

/-- How far the cursor moves from the time to live on. -/
def dataAdvance (record : ResourceRecord) : Nat :=
  if record.type = 1 ∨ record.type = 28 then record.responseDataLength.toNat + 6
  else if record.type = 5 then payloadLength record.responseData + 6
  else 2

/-- Where a question is written: the class of the one before is overwritten. -/
def questionOffset (queries : List Query) (index : Nat) : Nat :=
  12 + ((queries.take index).map fun query => query.name.length + 4).sum

/-- Where the answers begin: every question counts with all the questions before it. -/
def answersOffset (queries : List Query) : Nat :=
  12 + ((List.range queries.length).map fun index =>
    ((queries.take (index + 1)).map fun query => query.name.length + 4).sum + 2).sum

def answerOffset (queries : List Query) (answers : List ResourceRecord) (index : Nat) :
    Nat :=
  answersOffset queries +
    ((answers.take index).map fun record => record.name.length + 6 + dataAdvance record).sum

def QuestionsInside (queries : List Query) : Prop :=
  ∀ index query, queries[index]? = some query →
    questionOffset queries index + (query.name.length + 6) ≤ 1500

/-- Every answer ends inside, up to the first one whose data was never set. -/
def AnswersInside (queries : List Query) (answers : List ResourceRecord) : Prop :=
  ∀ index record, answers[index]? = some record →
    (∀ earlier ∈ answers.take index, CarriesData earlier) →
      answerOffset queries answers index + (record.name.length + 10 + dataExtent record) ≤
        1500

structure FitsPacket (message : Message) : Prop where
  questions : message.queryCount.toNat ≤ message.queries.length →
    QuestionsInside (message.queries.take message.queryCount.toNat)
  answers : message.queryCount.toNat ≤ message.queries.length →
    message.answerCount.toNat ≤ message.answers.length →
      AnswersInside (message.queries.take message.queryCount.toNat)
        (message.answers.take message.answerCount.toNat)

/-! ### Cursors -/

/-- Every question written from `position` on ends inside the packet.  The cursor
stays at the class field, where the next name begins. -/
def QuestionsFit : Nat → List Query → Prop
  | _, [] => True
  | position, query :: queries =>
      position + (query.name.length + 6) ≤ 1500 ∧
        QuestionsFit (position + (query.name.length + 4)) queries

/-- Where the encoder takes the questions to end: each adds the whole way from the
first one to its own end. -/
def questionsEnd : List Query → Nat → Nat → Nat
  | [], _, endPos => endPos
  | query :: queries, bufPos, endPos =>
      questionsEnd queries (bufPos + (query.name.length + 4))
        (endPos + (bufPos + (query.name.length + 6)))

def AnswersFit : Nat → List ResourceRecord → Prop
  | _, [] => True
  | position, record :: records =>
      position + (record.name.length + 10 + dataExtent record) ≤ 1500 ∧
        (CarriesData record →
          AnswersFit (position + (record.name.length + 6 + dataAdvance record)) records)

theorem questionsFit_iff (position : Nat) (queries : List Query) :
    QuestionsFit position queries ↔
      ∀ index query, queries[index]? = some query →
        position + ((queries.take index).map fun query => query.name.length + 4).sum +
          (query.name.length + 6) ≤ 1500 := by
  induction queries generalizing position with
  | nil => exact iff_of_true trivial fun _ _ impossible => nomatch impossible
  | cons query queries ih =>
      rw [QuestionsFit, ih]
      constructor
      · rintro ⟨first, later⟩ index other found
        cases index with
        | zero =>
            cases found
            exact first
        | succ index =>
            have inside := later index other found
            rw [List.take_succ_cons, List.map_cons, List.sum_cons]
            omega
      · intro inside
        refine ⟨inside 0 query rfl, ?_⟩
        intro index other found
        have later := inside (index + 1) other found
        rw [List.take_succ_cons, List.map_cons, List.sum_cons] at later
        omega

theorem questionsEnd_eq (queries : List Query) (bufPos endPos : Nat) :
    questionsEnd queries bufPos endPos =
      endPos + ((List.range queries.length).map fun index =>
        bufPos + ((queries.take (index + 1)).map fun query => query.name.length + 4).sum +
          2).sum := by
  induction queries generalizing bufPos endPos with
  | nil => rfl
  | cons query queries ih =>
      rw [questionsEnd, ih, List.length_cons, List.range_succ_eq_map, List.map_cons,
        List.sum_cons, List.map_map]
      have later : ((List.range queries.length).map fun index =>
            bufPos + (query.name.length + 4) +
              ((queries.take (index + 1)).map fun query => query.name.length + 4).sum + 2) =
          (List.range queries.length).map ((fun index =>
            bufPos + (((query :: queries).take (index + 1)).map fun query =>
              query.name.length + 4).sum + 2) ∘ Nat.succ) := by
        apply List.map_congr_left
        intro index _
        rw [Function.comp_apply, List.take_succ_cons, List.map_cons, List.sum_cons]
        omega
      rw [later, List.take_succ_cons, List.map_cons, List.sum_cons, List.take_zero,
        List.map_nil, List.sum_nil]
      omega

theorem questionsEnd_eq_answersOffset (queries : List Query) :
    questionsEnd queries 0 12 = answersOffset queries := by
  simp only [questionsEnd_eq, answersOffset, Nat.zero_add]

theorem answersFit_iff_each (position : Nat) (records : List ResourceRecord) :
    AnswersFit position records ↔
      ∀ index record, records[index]? = some record →
        (∀ earlier ∈ records.take index, CarriesData earlier) →
          position + ((records.take index).map fun record =>
            record.name.length + 6 + dataAdvance record).sum +
              (record.name.length + 10 + dataExtent record) ≤ 1500 := by
  induction records generalizing position with
  | nil => exact iff_of_true trivial fun _ _ impossible => nomatch impossible
  | cons record records ih =>
      rw [AnswersFit, ih]
      constructor
      · rintro ⟨first, later⟩ index other found carried
        cases index with
        | zero =>
            cases found
            exact first
        | succ index =>
            rw [List.take_succ_cons] at carried ⊢
            have inside := later (carried record List.mem_cons_self) index other found
              fun earlier member => carried earlier (List.mem_cons_of_mem _ member)
            rw [List.map_cons, List.sum_cons]
            omega
      · intro inside
        refine ⟨inside 0 record rfl nofun, ?_⟩
        intro carries index other found carried
        have later := inside (index + 1) other found (by
          rw [List.take_succ_cons]
          intro earlier member
          cases List.mem_cons.mp member with
          | inl isFirst => exact isFirst ▸ carries
          | inr inRest => exact carried earlier inRest)
        rw [List.take_succ_cons, List.map_cons, List.sum_cons] at later
        omega

theorem questionsInside_iff (queries : List Query) :
    QuestionsInside queries ↔ QuestionsFit 12 queries :=
  (questionsFit_iff 12 queries).symm

theorem answersInside_iff (queries : List Query) (answers : List ResourceRecord) :
    AnswersInside queries answers ↔ AnswersFit (questionsEnd queries 0 12) answers := by
  rw [questionsEnd_eq_answersOffset]
  exact (answersFit_iff_each _ answers).symm

/-! ### Evaluation -/

instance : ∀ record : ResourceRecord, Decidable (CarriesData record)
  | ⟨_, type, _, _, _, .unset⟩ =>
      inferInstanceAs (Decidable (type ≠ 1 ∧ type ≠ 5 ∧ type ≠ 28))
  | ⟨_, type, _, _, _, .rootDomain⟩ =>
      inferInstanceAs (Decidable (type ≠ 1 ∧ type ≠ 5 ∧ type ≠ 28))
  | ⟨_, type, _, _, _, .inet4 _⟩ => inferInstanceAs (Decidable (type ≠ 5 ∧ type ≠ 28))
  | ⟨_, type, _, _, _, .domain _⟩ => inferInstanceAs (Decidable (type ≠ 1 ∧ type ≠ 28))
  | ⟨_, type, _, _, _, .inet6 _⟩ => inferInstanceAs (Decidable (type ≠ 1 ∧ type ≠ 5))

instance decidableQuestionsFit : ∀ position queries, Decidable (QuestionsFit position queries)
  | _, [] => inferInstanceAs (Decidable True)
  | position, query :: queries =>
      have := decidableQuestionsFit (position + (query.name.length + 4)) queries
      inferInstanceAs (Decidable (_ ∧ _))

instance decidableAnswersFit : ∀ position records, Decidable (AnswersFit position records)
  | _, [] => inferInstanceAs (Decidable True)
  | position, record :: records =>
      have := decidableAnswersFit
        (position + (record.name.length + 6 + dataAdvance record)) records
      inferInstanceAs (Decidable (_ ∧ (_ → _)))

instance (queries : List Query) : Decidable (QuestionsInside queries) :=
  decidable_of_iff _ (questionsInside_iff queries).symm

instance (queries : List Query) (answers : List ResourceRecord) :
    Decidable (AnswersInside queries answers) :=
  decidable_of_iff _ (answersInside_iff queries answers).symm

instance (message : Message) : Decidable (FitsPacket message) :=
  decidable_of_iff
    ((message.queryCount.toNat ≤ message.queries.length →
        QuestionsInside (message.queries.take message.queryCount.toNat)) ∧
      (message.queryCount.toNat ≤ message.queries.length →
        message.answerCount.toNat ≤ message.answers.length →
          AnswersInside (message.queries.take message.queryCount.toNat)
            (message.answers.take message.answerCount.toNat)))
    ⟨fun both => ⟨both.1, both.2⟩, fun fits => ⟨fits.questions, fits.answers⟩⟩

/-! ### Single writes -/

theorem mem_memcpyTo_log {region : Region} {cells : Nat → UInt8} {position : Nat}
    {octets : List UInt8} {access : Access} :
    access ∈ (memcpyTo region cells position octets).log ↔
      ∃ index < octets.length, .write region ((position + index : Nat) : Int) = access := by
  simp [memcpyTo]

theorem memcpyTo_inPacket_iff (cells : Nat → UInt8) (position : Nat)
    (octets : List UInt8) :
    Always Access.InPacket (memcpyTo .packet cells position octets) ↔
      ∀ index < octets.length, position + index ≤ 1499 := by
  constructor
  · intro bounded index inRange
    have inside := (bounded _ (mem_memcpyTo_log.mpr ⟨index, inRange, rfl⟩)).2
    omega
  · intro inside access member
    obtain ⟨index, inRange, rfl⟩ := mem_memcpyTo_log.mp member
    have below := inside index inRange
    exact ⟨by omega, by omega⟩

theorem putShort_inPacket_iff (cells : Nat → UInt8) (position : Nat) (value : UInt16) :
    Always Access.InPacket (putShort cells position value) ↔ position + 2 ≤ 1500 := by
  rw [putShort, littleEndian16_swap16, memcpyTo_inPacket_iff, split16_length]
  constructor
  · intro inside
    have last := inside 1 (by omega)
    omega
  · intro inside index inRange
    omega

theorem putInt_inPacket_iff (cells : Nat → UInt8) (position : Nat) (value : UInt32) :
    Always Access.InPacket (putInt cells position value) ↔ position + 4 ≤ 1500 := by
  rw [putInt, littleEndianInt_swap32, memcpyTo_inPacket_iff, split32_length]
  constructor
  · intro inside
    have last := inside 3 (by omega)
    omega
  · intro inside index inRange
    omega

theorem memcpyTo_output_inPacket (length : Nat) (cells : Nat → UInt8) (position : Nat)
    (octets : List UInt8) :
    Always Access.InPacket (memcpyTo (.output length) cells position octets) := by
  intro access member
  obtain ⟨index, _, rfl⟩ := mem_memcpyTo_log.mp member
  trivial

theorem name2messageLoop_inPacket (length : Nat) (tokens : List StringT)
    (count i current : Nat) (output : Nat → UInt8) :
    Always Access.InPacket (name2messageLoop length tokens count i current output) := by
  induction count generalizing i current output with
  | zero => exact Logged.always_pure _ _
  | succ count ih =>
      rw [name2messageLoop]
      cases here : tokens[i]? with
      | none => exact Logged.always_fail _ _
      | some token =>
          exact Logged.always_bind.mpr
            ⟨memcpyTo_output_inPacket length _ _ _, fun _ _ => ih _ _ _⟩

/-- Converting a name writes to a buffer of its own. -/
theorem transferName_inPacket (junk : Nat → UInt8) (domainName : StringT) :
    Always Access.InPacket (transferName junk domainName) := by
  refine Logged.always_bind.mpr ⟨?_, fun _ _ => Logged.always_pure _ _⟩
  refine Logged.always_bind.mpr ⟨name2messageLoop_inPacket _ _ _ _ _ _, fun _ _ => ?_⟩
  exact Logged.always_bind.mpr ⟨memcpyTo_output_inPacket _ _ _ _, fun _ _ =>
    memcpyTo_output_inPacket _ _ _ _⟩

/-! ### Writers -/

/-- A name is written into the packet octet by octet. -/
theorem putName_inPacket_iff (junk : Nat → UInt8) (domainName : StringT)
    (cells : Nat → UInt8) (position : Nat) {α : Type}
    (next : (Nat → UInt8) → Exec α) :
    Always Access.InPacket (transferName junk domainName >>= fun octets =>
        memcpyTo .packet cells position octets >>= next) ↔
      position + (domainName.length + 2) ≤ 1500 ∧
        Always Access.InPacket
          (next (overlay cells position (nameOctets junk domainName))) := by
  rw [Logged.always_bind_of_ok (transferName_out junk domainName),
    and_iff_right (transferName_inPacket junk domainName),
    Logged.always_bind_of_ok (memcpyTo_out _ _ _ _), memcpyTo_inPacket_iff, nameOctets_length]
  refine and_congr_left fun _ => ?_
  constructor
  · intro inside
    have last := inside (domainName.length + 1) (by omega)
    omega
  · intro inside index inRange
    omega

theorem putShort_bind_inPacket_iff (cells : Nat → UInt8) (position : Nat)
    (value : UInt16) {α : Type} (next : (Nat → UInt8) → Exec α) :
    Always Access.InPacket (putShort cells position value >>= next) ↔
      position + 2 ≤ 1500 ∧ Always Access.InPacket
        (next (overlay cells position (littleEndian16 (swap16 value)))) := by
  have done : (putShort cells position value).out =
      .ok (overlay cells position (littleEndian16 (swap16 value))) := rfl
  rw [Logged.always_bind_of_ok done, putShort_inPacket_iff]

theorem putInt_bind_inPacket_iff (cells : Nat → UInt8) (position : Nat)
    (value : UInt32) {α : Type} (next : (Nat → UInt8) → Exec α) :
    Always Access.InPacket (putInt cells position value >>= next) ↔
      position + 4 ≤ 1500 ∧ Always Access.InPacket
        (next (overlay cells position (littleEndianInt (swap32 value)))) := by
  have done : (putInt cells position value).out =
      .ok (overlay cells position (littleEndianInt (swap32 value))) := rfl
  rw [Logged.always_bind_of_ok done, putInt_inPacket_iff]

theorem message2bufHeader_inPacket (message : Message) (cells : Nat → UInt8) :
    Always Access.InPacket (message2bufHeader message cells) := by
  have flagsInside (cells : Nat → UInt8) :
      Always Access.InPacket (memcpyTo .packet cells 2 (flags2bytes message.flags)) := by
    rw [memcpyTo_inPacket_iff]
    intro index inRange
    change index < 2 at inRange
    omega
  unfold message2bufHeader
  rw [putShort_bind_inPacket_iff, Logged.always_bind_of_ok (memcpyTo_out _ _ _ _),
    putShort_bind_inPacket_iff, putShort_bind_inPacket_iff, putShort_bind_inPacket_iff,
    putShort_inPacket_iff]
  exact ⟨by omega, flagsInside _, by omega, by omega, by omega, by omega⟩

/-! ### Questions -/

theorem message2bufQuery_out (env : Env) (start : Nat) (query : Query) (bufPos : Nat)
    (cells : Nat → UInt8) :
    ∃ written, (message2bufQuery env start query bufPos cells).out =
      .ok (bufPos + (query.name.length + 4), written) := by
  unfold message2bufQuery
  rw [Logged.bind_out_of_ok (transferName_out _ _)]
  exact ⟨_, rfl⟩

theorem message2bufQuery_inPacket_iff (env : Env) (start : Nat) (query : Query)
    (bufPos : Nat) (cells : Nat → UInt8) :
    Always Access.InPacket (message2bufQuery env start query bufPos cells) ↔
      start + bufPos + (query.name.length + 6) ≤ 1500 := by
  unfold message2bufQuery
  rw [putName_inPacket_iff, putShort_bind_inPacket_iff, putShort_bind_inPacket_iff]
  constructor
  · intro inside
    omega
  · intro inside
    exact ⟨by omega, by omega, by omega, Logged.always_pure _ _⟩

theorem message2bufQuestion_out (env : Env) (start : Nat) (queries : List Query)
    (bufPos endPos : Nat) (cells : Nat → UInt8) :
    ∃ written, (message2bufQuestion env start queries bufPos endPos cells).out =
      .ok (questionsEnd queries bufPos endPos, written) := by
  induction queries generalizing bufPos endPos cells with
  | nil => exact ⟨cells, rfl⟩
  | cons query queries ih =>
      obtain ⟨written, done⟩ := message2bufQuery_out env start query bufPos cells
      rw [message2bufQuestion, Logged.bind_out_of_ok done]
      exact ih _ _ _

theorem message2bufQuestion_inPacket_iff (env : Env) (start : Nat) (queries : List Query)
    (bufPos endPos : Nat) (cells : Nat → UInt8) :
    Always Access.InPacket (message2bufQuestion env start queries bufPos endPos cells) ↔
      QuestionsFit (start + bufPos) queries := by
  induction queries generalizing bufPos endPos cells with
  | nil => exact iff_of_true (Logged.always_pure _ _) trivial
  | cons query queries ih =>
      obtain ⟨written, done⟩ := message2bufQuery_out env start query bufPos cells
      have next : start + (bufPos + (query.name.length + 4)) =
          start + bufPos + (query.name.length + 4) := by
        omega
      rw [message2bufQuestion, Logged.always_bind_of_ok done, message2bufQuery_inPacket_iff]
      rw [ih, next]
      rfl

/-! ### Answers -/

inductive DataBranch (record : ResourceRecord) : Prop where
  | inet4 (address : UInt32) (isA : record.type = 1)
      (data : record.responseData = .inet4 address)
  | domain (target : StringT) (isCname : record.type = 5)
      (data : record.responseData = .domain target)
  | inet6 (address : List UInt8) (isAaaa : record.type = 28)
      (data : record.responseData = .inet6 address)
  | skipped (notA : record.type ≠ 1) (notCname : record.type ≠ 5)
      (notAaaa : record.type ≠ 28)
  | unset (missing : ¬ CarriesData record)

theorem dataBranch (record : ResourceRecord) : DataBranch record := by
  by_cases carries : CarriesData record
  · unfold CarriesData at carries
    by_cases skips : record.type ≠ 1 ∧ record.type ≠ 5 ∧ record.type ≠ 28
    · exact .skipped skips.1 skips.2.1 skips.2.2
    · cases data : record.responseData with
      | unset | rootDomain =>
          rw [data] at carries
          exact absurd carries skips
      | inet4 address =>
          rw [data] at carries
          refine .inet4 address ?_ data
          by_contra notA
          exact skips ⟨notA, carries⟩
      | domain target =>
          rw [data] at carries
          refine .domain target ?_ data
          by_contra notCname
          exact skips ⟨carries.1, notCname, carries.2⟩
      | inet6 address =>
          rw [data] at carries
          refine .inet6 address ?_ data
          by_contra notAaaa
          exact skips ⟨carries.1, carries.2, notAaaa⟩
  · exact .unset carries

theorem message2bufData_of_missing (env : Env) (start : Nat) {record : ResourceRecord}
    (missing : ¬ CarriesData record) (bufPos : Nat) (cells : Nat → UInt8) :
    ∃ fault, message2bufData env start record bufPos cells = Logged.fail fault := by
  unfold CarriesData at missing
  unfold message2bufData
  by_cases isA : record.type = 1
  · rw [if_pos isA]
    cases data : record.responseData with
    | inet4 address => simp [data, isA] at missing
    | unset | domain target | rootDomain | inet6 address => exact ⟨_, rfl⟩
  rw [if_neg isA]
  by_cases isCname : record.type = 5
  · rw [if_pos isCname]
    cases data : record.responseData with
    | domain target => simp [data, isCname] at missing
    | unset | inet4 address | rootDomain | inet6 address => exact ⟨_, rfl⟩
  rw [if_neg isCname]
  by_cases isAaaa : record.type = 28
  · rw [if_pos isAaaa]
    cases data : record.responseData with
    | inet6 address => simp [data, isAaaa] at missing
    | unset | inet4 address | domain target | rootDomain => exact ⟨_, rfl⟩
  cases data : record.responseData <;> simp [data, isA, isCname, isAaaa] at missing

theorem message2bufData_out (env : Env) (start : Nat) {record : ResourceRecord}
    (carries : CarriesData record) (bufPos : Nat) (cells : Nat → UInt8) :
    ∃ written, (message2bufData env start record bufPos cells).out =
      .ok (bufPos + dataAdvance record, written) := by
  unfold message2bufData dataAdvance
  cases dataBranch record with
  | inet4 address isA data =>
      have next : bufPos + (record.responseDataLength.toNat + 6) =
          bufPos + 4 + 2 + record.responseDataLength.toNat := by
        omega
      rw [if_pos isA, data, if_pos (Or.inl isA), next]
      exact ⟨_, rfl⟩
  | domain target isCname data =>
      have notA : record.type ≠ 1 := by simp [isCname]
      have notAaaa : record.type ≠ 28 := by simp [isCname]
      have next : bufPos + (target.length + 2 + 6) =
          bufPos + 4 + 2 + (target.length + 2) := by
        omega
      rw [if_neg notA, if_pos isCname, data, if_neg (not_or.mpr ⟨notA, notAaaa⟩),
        if_pos isCname]
      change ∃ written, _ = Except.ok (bufPos + (target.length + 2 + 6), written)
      rw [next]
      dsimp only
      have putLength : (putShort cells (start + bufPos + 4)
          (UInt16.ofNat (target.length + 2))).out = .ok _ := rfl
      rw [Logged.bind_out_of_ok putLength, Logged.bind_out_of_ok (transferName_out _ _)]
      exact ⟨_, rfl⟩
  | inet6 address isAaaa data =>
      have notA : record.type ≠ 1 := by simp [isAaaa]
      have notCname : record.type ≠ 5 := by simp [isAaaa]
      have next : bufPos + (record.responseDataLength.toNat + 6) =
          bufPos + 4 + 2 + record.responseDataLength.toNat := by
        omega
      rw [if_neg notA, if_neg notCname, if_pos isAaaa, data, if_pos (Or.inr isAaaa), next]
      exact ⟨_, rfl⟩
  | skipped notA notCname notAaaa =>
      rw [if_neg notA, if_neg notCname, if_neg notAaaa,
        if_neg (not_or.mpr ⟨notA, notAaaa⟩), if_neg notCname]
      exact ⟨_, rfl⟩
  | unset missing => exact absurd carries missing

theorem dataExtent_of_missing {record : ResourceRecord} (missing : ¬ CarriesData record) :
    dataExtent record = 0 := by
  unfold CarriesData at missing
  unfold dataExtent
  cases data : record.responseData with
  | unset | rootDomain => rfl
  | inet4 address =>
      rw [data] at missing
      exact if_neg fun isA => missing (by simp [isA])
  | domain target =>
      rw [data] at missing
      exact if_neg fun isCname => missing (by simp [isCname])
  | inet6 address =>
      rw [data] at missing
      exact if_neg fun isAaaa => missing (by simp [isAaaa])

/-- Behind a time to live that fits, the data fits when its last octet does. -/
theorem message2bufData_inPacket_iff (env : Env) (start : Nat) (record : ResourceRecord)
    (bufPos : Nat) (cells : Nat → UInt8) (room : start + bufPos + 4 ≤ 1500) :
    Always Access.InPacket (message2bufData env start record bufPos cells) ↔
      start + bufPos + 4 + dataExtent record ≤ 1500 := by
  cases dataBranch record with
  | inet4 address isA data =>
      unfold message2bufData dataExtent
      rw [if_pos isA, data]
      dsimp only
      rw [if_pos isA, putShort_bind_inPacket_iff, putInt_bind_inPacket_iff]
      constructor
      · intro inside
        omega
      · intro inside
        exact ⟨by omega, by omega, Logged.always_pure _ _⟩
  | domain target isCname data =>
      have notA : record.type ≠ 1 := by simp [isCname]
      unfold message2bufData dataExtent
      rw [if_neg notA, if_pos isCname, data]
      dsimp only
      rw [if_pos isCname, putShort_bind_inPacket_iff, putName_inPacket_iff]
      constructor
      · intro inside
        omega
      · intro inside
        exact ⟨by omega, by omega, Logged.always_pure _ _⟩
  | inet6 address isAaaa data =>
      have notA : record.type ≠ 1 := by simp [isAaaa]
      have notCname : record.type ≠ 5 := by simp [isAaaa]
      unfold message2bufData dataExtent
      rw [if_neg notA, if_neg notCname, if_pos isAaaa, data]
      dsimp only
      rw [if_pos isAaaa, putShort_bind_inPacket_iff,
        Logged.always_bind_of_ok (memcpyTo_out _ _ _ _), memcpyTo_inPacket_iff]
      constructor
      · intro inside
        cases address with
        | nil =>
            change start + bufPos + 4 + 2 ≤ 1500
            omega
        | cons octet octets =>
            have last := inside.2.1 octets.length (Nat.lt_succ_self _)
            change start + bufPos + 4 + (octets.length + 1 + 2) ≤ 1500
            omega
      · intro inside
        refine ⟨by omega, ?_, Logged.always_pure _ _⟩
        intro index inRange
        omega
  | skipped notA notCname notAaaa =>
      have nothing : dataExtent record = 0 := by
        unfold dataExtent
        cases record.responseData <;> simp [notA, notCname, notAaaa]
      unfold message2bufData
      rw [if_neg notA, if_neg notCname, if_neg notAaaa, nothing]
      exact iff_of_true (Logged.always_pure _ _) room
  | unset missing =>
      obtain ⟨fault, stopped⟩ := message2bufData_of_missing env start missing bufPos cells
      rw [stopped, dataExtent_of_missing missing]
      exact iff_of_true (Logged.always_fail _ _) room

theorem message2bufRecord_eq (env : Env) (start : Nat) (record : ResourceRecord)
    (bufPos : Nat) (cells : Nat → UInt8) :
    ∃ headed, (message2bufRecord env start record bufPos cells).out =
        (message2bufData env start record (bufPos + (record.name.length + 6)) headed).out ∧
      (Always Access.InPacket (message2bufRecord env start record bufPos cells) ↔
        start + bufPos + (record.name.length + 10) ≤ 1500 ∧
          Always Access.InPacket
            (message2bufData env start record (bufPos + (record.name.length + 6)) headed)) := by
  unfold message2bufRecord
  rw [Logged.bind_out_of_ok (transferName_out _ _)]
  refine ⟨_, rfl, ?_⟩
  rw [putName_inPacket_iff, putShort_bind_inPacket_iff, putShort_bind_inPacket_iff,
    putInt_bind_inPacket_iff]
  constructor
  · intro inside
    exact ⟨by omega, inside.2.2.2.2⟩
  · intro inside
    exact ⟨by omega, by omega, by omega, by omega, inside.2⟩

theorem message2bufRecord_inPacket_iff (env : Env) (start : Nat)
    (record : ResourceRecord) (bufPos : Nat) (cells : Nat → UInt8) :
    Always Access.InPacket (message2bufRecord env start record bufPos cells) ↔
      start + bufPos + (record.name.length + 10 + dataExtent record) ≤ 1500 := by
  obtain ⟨headed, _, split⟩ := message2bufRecord_eq env start record bufPos cells
  rw [split]
  constructor
  · intro inside
    have data := (message2bufData_inPacket_iff env start record _ headed (by omega)).mp
      inside.2
    omega
  · intro inside
    exact ⟨by omega,
      (message2bufData_inPacket_iff env start record _ headed (by omega)).mpr (by omega)⟩

theorem message2bufAnswer_inPacket_iff (env : Env) (start : Nat)
    (records : List ResourceRecord) (bufPos : Nat) (cells : Nat → UInt8) :
    Always Access.InPacket (message2bufAnswer env start records bufPos cells) ↔
      AnswersFit (start + bufPos) records := by
  induction records generalizing bufPos cells with
  | nil => exact iff_of_true (Logged.always_pure _ _) trivial
  | cons record records ih =>
      obtain ⟨headed, same, _⟩ := message2bufRecord_eq env start record bufPos cells
      by_cases carries : CarriesData record
      · obtain ⟨written, done⟩ := message2bufData_out env start carries
          (bufPos + (record.name.length + 6)) headed
        have next : start + (bufPos + (record.name.length + 6) + dataAdvance record) =
            start + bufPos + (record.name.length + 6 + dataAdvance record) := by
          omega
        rw [message2bufAnswer, Logged.always_bind_of_ok (same.trans done),
          message2bufRecord_inPacket_iff, ih, next]
        exact and_congr_right fun _ => ⟨fun rest _ => rest, fun rest => rest carries⟩
      · obtain ⟨fault, stopped⟩ := message2bufData_of_missing env start carries
          (bufPos + (record.name.length + 6)) headed
        rw [stopped] at same
        rw [message2bufAnswer, Logged.bind_of_error same]
        change Always Access.InPacket (message2bufRecord env start record bufPos cells) ↔ _
        rw [message2bufRecord_inPacket_iff]
        exact (and_iff_left fun carried => absurd carried carries).symm

/-! ### Messages -/

theorem initialised_inPacket {α : Type} (count : UInt16) (entries : List α) :
    Always Access.InPacket (initialised count entries) := by
  unfold initialised
  split
  · exact Logged.always_pure _ _
  · exact Logged.always_fail _ _

/-- Going through an array stops at once when it has fewer entries than counted. -/
theorem initialised_bind_inPacket_iff {α β : Type} (count : UInt16) (entries : List α)
    (next : List α → Exec β) :
    Always Access.InPacket (initialised count entries >>= next) ↔
      (count.toNat ≤ entries.length →
        Always Access.InPacket (next (entries.take count.toNat))) := by
  unfold initialised
  by_cases enough : count.toNat ≤ entries.length
  · rw [if_pos enough, Logged.pure_bind, forall_prop_of_true enough]
  · rw [if_neg enough, Logged.fail_bind]
    exact iff_of_true (Logged.always_fail _ _) fun counted => absurd counted enough

theorem message2bufAnswer_out (env : Env) (start : Nat) {records : List ResourceRecord}
    (carry : ∀ record ∈ records, CarriesData record) (bufPos : Nat) (cells : Nat → UInt8) :
    ∃ written, (message2bufAnswer env start records bufPos cells).out = .ok written := by
  induction records generalizing bufPos cells with
  | nil => exact ⟨_, rfl⟩
  | cons record records ih =>
      obtain ⟨headed, same, _⟩ := message2bufRecord_eq env start record bufPos cells
      obtain ⟨written, done⟩ := message2bufData_out env start (carry record List.mem_cons_self)
        (bufPos + (record.name.length + 6)) headed
      rw [message2bufAnswer, Logged.bind_out_of_ok (same.trans done)]
      exact ih (fun other member => carry other (List.mem_cons_of_mem _ member)) _ _

theorem answersToBuf_out (env : Env) {message : Message}
    (answers : message.answerCount.toNat ≤ message.answers.length)
    (carry : ∀ record ∈ message.answers, CarriesData record) (endPos : Nat)
    (cells : Nat → UInt8) :
    ∃ written, (answersToBuf env message endPos cells).out = .ok written := by
  unfold answersToBuf
  by_cases answered : 0 < message.answerCount
  · have ready : initialised message.answerCount message.answers =
        pure (message.answers.take message.answerCount.toNat) := if_pos answers
    rw [if_pos answered, ready, Logged.pure_bind]
    exact message2bufAnswer_out env endPos
      (fun record member => carry record (List.mem_of_mem_take member)) 0 cells
  · rw [if_neg answered]
    exact ⟨_, rfl⟩

theorem answersToBuf_inPacket_iff (env : Env) (message : Message) (endPos : Nat)
    (cells : Nat → UInt8) :
    Always Access.InPacket (answersToBuf env message endPos cells) ↔
      (message.answerCount.toNat ≤ message.answers.length →
        AnswersFit endPos (message.answers.take message.answerCount.toNat)) := by
  unfold answersToBuf
  by_cases answered : 0 < message.answerCount
  · rw [if_pos answered, initialised_bind_inPacket_iff]
    exact forall_congr' fun _ => message2bufAnswer_inPacket_iff env endPos _ 0 cells
  · rw [UInt16.lt_iff_toNat_lt] at answered
    have none : message.answerCount.toNat = 0 := Nat.eq_zero_of_not_pos answered
    rw [if_neg (by rwa [UInt16.lt_iff_toNat_lt]), none]
    exact iff_of_true (Logged.always_pure _ _) fun _ => trivial

theorem writeMessage_inPacket_iff (env : Env) (message : Message) :
    Always Access.InPacket (writeMessage env message) ↔ FitsPacket message := by
  obtain ⟨headed, headDone, _⟩ := wrote_message2bufHeader message (env.junk .packet)
  unfold writeMessage
  rw [Logged.always_bind_of_ok headDone, and_iff_right (message2bufHeader_inPacket message _),
    initialised_bind_inPacket_iff]
  have entries (queries : List Query) :
      Always Access.InPacket (message2bufQuestion env 12 queries 0 12 headed >>= fun asked =>
        answersToBuf env message asked.1 asked.2 >>= fun written =>
          pure ({ base := firstCells written.2 (max 1500 written.1)
                  len := written.1 } : UvBuf)) ↔
        QuestionsInside queries ∧
          (message.answerCount.toNat ≤ message.answers.length →
            AnswersInside queries (message.answers.take message.answerCount.toNat)) := by
    obtain ⟨asked, askDone⟩ := message2bufQuestion_out env 12 queries 0 12 headed
    rw [Logged.always_bind_of_ok askDone, message2bufQuestion_inPacket_iff,
      questionsInside_iff, answersInside_iff, Logged.always_bind, answersToBuf_inPacket_iff]
    exact and_congr_right fun _ => and_iff_left fun _ _ => Logged.always_pure _ _
  rw [forall_congr' fun _ => entries _]
  constructor
  · intro inside
    exact
      { questions := fun counted => (inside counted).1
        answers := fun counted => (inside counted).2 }
  · intro fits counted
    exact ⟨fits.questions counted, fits.answers counted⟩

theorem message2buf_inPacket_iff (env : Env) (message : Message) :
    Always Access.InPacket (message2buf env message) ↔ FitsPacket message :=
  writeMessage_inPacket_iff env message

/-- A message that fits is written as it would be without a limit. -/
theorem message2buf_of_fits (env : Env) {message : Message} (fits : FitsPacket message) :
    message2buf env message = writeMessage env message :=
  Logged.stopping_of_always ((writeMessage_inPacket_iff env message).mpr fits)

theorem message2buf_out_eq_ok {env : Env} {message : Message} {buf : UvBuf} :
    (message2buf env message).out = .ok buf ↔
      FitsPacket message ∧ (writeMessage env message).out = .ok buf := by
  rw [← writeMessage_inPacket_iff env]
  exact Logged.stopping_out_eq_ok

theorem writeMessage_returns (env : Env) {message : Message}
    (queries : message.queryCount.toNat ≤ message.queries.length)
    (answers : message.answerCount.toNat ≤ message.answers.length)
    (carry : ∀ record ∈ message.answers, CarriesData record) :
    ∃ buf, (writeMessage env message).out = .ok buf := by
  obtain ⟨headed, headDone, _⟩ := wrote_message2bufHeader message (env.junk .packet)
  obtain ⟨asked, askDone⟩ := message2bufQuestion_out env 12
    (message.queries.take message.queryCount.toNat) 0 12 headed
  obtain ⟨written, writeDone⟩ := answersToBuf_out env answers carry
    (questionsEnd (message.queries.take message.queryCount.toNat) 0 12) asked
  have ready : initialised message.queryCount message.queries =
      pure (message.queries.take message.queryCount.toNat) := if_pos queries
  unfold writeMessage
  rw [Logged.bind_out_of_ok headDone, ready, Logged.pure_bind, Logged.bind_out_of_ok askDone,
    Logged.bind_out_of_ok writeDone]
  exact ⟨_, rfl⟩

/-- A complete message is encoded exactly when it fits. -/
theorem message2buf_returns_iff (env : Env) {message : Message}
    (queries : message.queryCount.toNat ≤ message.queries.length)
    (answers : message.answerCount.toNat ≤ message.answers.length)
    (carry : ∀ record ∈ message.answers, CarriesData record) :
    (∃ buf, (message2buf env message).out = .ok buf) ↔ FitsPacket message := by
  constructor
  · intro returns
    obtain ⟨buf, encoded⟩ := returns
    exact (message2buf_out_eq_ok.mp encoded).1
  · intro fits
    obtain ⟨buf, written⟩ := writeMessage_returns env queries answers carry
    exact ⟨buf, message2buf_out_eq_ok.mpr ⟨fits, written⟩⟩

/-! ### Supported messages -/

structure Contiguous (record : ResourceRecord) : Prop where
  carries : CarriesData record
  extent : dataExtent record = payloadLength record.responseData + 2
  advance : dataAdvance record = payloadLength record.responseData + 6

theorem answersFit_iff {records : List ResourceRecord}
    (contiguous : ∀ record ∈ records, Contiguous record) {position : Nat}
    (inside : position ≤ 1500) :
    AnswersFit position records ↔
      position + (records.map (fun record =>
        record.name.length + 12 + payloadLength record.responseData)).sum ≤ 1500 := by
  induction records generalizing position with
  | nil => exact iff_of_true trivial inside
  | cons record records ih =>
      have here := contiguous record List.mem_cons_self
      have later (other : ResourceRecord) (member : other ∈ records) : Contiguous other :=
        contiguous other (List.mem_cons_of_mem _ member)
      rw [AnswersFit, here.extent, here.advance, List.map_cons, List.sum_cons]
      constructor
      · rintro ⟨fits, rest⟩
        have following := (ih later (by omega)).mp (rest here.carries)
        omega
      · intro fits
        exact ⟨by omega, fun _ => (ih later (by omega)).mpr (by omega)⟩

/-- A message with one question whose records are all of the supported kinds fits
exactly when its uncompressed form takes at most 1500 octets. -/
theorem fitsPacket_iff_encodedLength {message : Message} {query : Query}
    (single : message.queries = [query]) (queryCount : message.queryCount = 1)
    (answerCount : message.answerCount.toNat = message.answers.length)
    (contiguous : ∀ record ∈ message.answers, Contiguous record) :
    FitsPacket message ↔ encodedLength message ≤ 1500 := by
  have asked : message.queries.take message.queryCount.toNat = [query] := by
    rw [single, queryCount]
    rfl
  have counted : message.queryCount.toNat ≤ message.queries.length := by
    rw [single, queryCount]
    exact Nat.le_refl 1
  have answered : message.answers.take message.answerCount.toNat = message.answers := by
    rw [answerCount, List.take_length]
  have asks : QuestionsInside [query] ↔ 12 + (query.name.length + 6) ≤ 1500 :=
    (questionsInside_iff [query]).trans (and_iff_left trivial)
  have finish : questionsEnd [query] 0 12 = 12 + (query.name.length + 6) := by
    simp [questionsEnd]
  unfold encodedLength
  rw [single, List.map_singleton, List.sum_singleton]
  constructor
  · intro fits
    have questions := fits.questions counted
    have answers := fits.answers counted answerCount.le
    rw [asked] at questions answers
    rw [answersInside_iff, finish, answered] at answers
    exact (answersFit_iff contiguous (asks.mp questions)).mp answers
  · intro fits
    refine { questions := fun _ => ?_, answers := fun _ _ => ?_ }
    · rw [asked]
      exact asks.mpr (by omega)
    · rw [asked, answersInside_iff, finish, answered]
      exact (answersFit_iff contiguous (by omega)).mpr fits

section Decoded

open Rfc1035 (RData)

theorem contiguous_decodedRecord {record : Rfc1035.Record} (relayable : Relayable record)
    {rdlength : UInt16} (announced : AnnouncesLength rdlength record.data) :
    Contiguous (decodedRecord record rdlength) := by
  obtain ⟨owner, rclass, ttl, data⟩ := record
  cases data with
  | a address =>
      have length : rdlength = 4 := announced
      subst length
      exact
        { carries := ⟨(by decide : (1 : UInt16) ≠ 5), (by decide : (1 : UInt16) ≠ 28)⟩
          extent := rfl
          advance := rfl }
  | cname target =>
      exact
        { carries := ⟨(by decide : (5 : UInt16) ≠ 1), (by decide : (5 : UInt16) ≠ 28)⟩
          extent := rfl
          advance := rfl }
  | aaaa address =>
      have sixteen : Rfc1035.dataLength (.aaaa address) = 16 := by
        rw [Rfc1035.dataLength, Rfc1035.dataOctets, address.property]
        rfl
      have length : rdlength = 16 := Eq.trans announced sixteen
      subst length
      refine
        { carries := ⟨(by decide : (28 : UInt16) ≠ 1), (by decide : (28 : UInt16) ≠ 5)⟩
          extent := rfl
          advance := ?_ }
      change 16 + 6 = address.val.length + 6
      rw [address.property]
  | other rtype unstructured octets =>
      exact absurd rfl (relayable.supported rtype unstructured octets)

theorem decodedRecord_size {record : Rfc1035.Record} (relayable : Relayable record)
    (rdlength : UInt16) :
    (decodedRecord record rdlength).name.length + 12 +
        payloadLength (decodedRecord record rdlength).responseData =
      (Rfc1035.encodeRecord record).length := by
  obtain ⟨owner, rclass, ttl, data⟩ := record
  have size : (dotJoin owner.labels).length + 2 = Rfc1035.nameLength owner.labels :=
    dotJoin_length relayable.owner.nonempty
  have payload : payloadLength (decodedData data) = (Rfc1035.dataOctets data).length := by
    cases data with
    | a address => rfl
    | cname target =>
        rw [Rfc1035.dataOctets, Rfc1035.encodeLabels_length,
          ← dotJoin_length (relayable.target target rfl).nonempty]
        rfl
    | aaaa address => rfl
    | other rtype unstructured octets =>
        exact absurd rfl (relayable.supported rtype unstructured octets)
  rw [Rfc1035.encodeRecord, List.length_append, List.length_append,
    Rfc1035.encodeLabels_length, Rfc1035.fixedFields_length, ← payload]
  change (dotJoin owner.labels).length + 12 + payloadLength (decodedData data) =
    Rfc1035.nameLength owner.labels + (10 + payloadLength (decodedData data))
  omega

theorem decodedRecords_size {records : List Rfc1035.Record} {rdlengths : List UInt16}
    (sameLength : records.length = rdlengths.length)
    (relayable : ∀ record ∈ records, Relayable record) :
    ((List.zipWith decodedRecord records rdlengths).map (fun record =>
        record.name.length + 12 + payloadLength record.responseData)).sum =
      (records.flatMap Rfc1035.encodeRecord).length := by
  induction records generalizing rdlengths with
  | nil => rfl
  | cons record records ih =>
      cases rdlengths with
      | nil => cases sameLength
      | cons rdlength rdlengths =>
          rw [List.zipWith_cons_cons, List.map_cons, List.sum_cons, List.flatMap_cons,
            List.length_append, decodedRecord_size (relayable record List.mem_cons_self),
            ih (Nat.succ.inj sameLength) fun other member =>
              relayable other (List.mem_cons_of_mem _ member)]

/-- A decoded message with supported answers fits when its uncompressed form does. -/
theorem fitsPacket_decodedMessage_iff {message : Rfc1035.Message}
    {question : Rfc1035.Question} {rdlengths : List UInt16}
    (single : message.questions = [question]) (named : question.name.labels ≠ [])
    (bound : message.answers.length < 65536)
    (sameLength : message.answers.length = rdlengths.length)
    (relayable : ∀ record ∈ message.answers, Relayable record)
    (announced :
      ∀ pair ∈ message.answers.zip rdlengths, AnnouncesLength pair.2 pair.1.data) :
    FitsPacket (decodedMessage message rdlengths) ↔
      (Rfc1035.encode message).length ≤ 1500 := by
  have queries :
      (decodedMessage message rdlengths).queries = [decodedQuery question] := by
    simp [decodedMessage, single]
  have queryCount : (decodedMessage message rdlengths).queryCount = 1 := by
    simp [decodedMessage, single]
  have answerCount :
      (decodedMessage message rdlengths).answerCount.toNat =
        (decodedMessage message rdlengths).answers.length := by
    change (UInt16.ofNat message.answers.length).toNat =
      (List.zipWith decodedRecord message.answers rdlengths).length
    rw [count_toNat bound, List.length_zipWith, ← sameLength, Nat.min_self]
  have contiguous (record : ResourceRecord)
      (member : record ∈ (decodedMessage message rdlengths).answers) :
      Contiguous record := by
    change record ∈ List.zipWith decodedRecord message.answers rdlengths at member
    rw [← List.map_uncurry_zip_eq_zipWith] at member
    obtain ⟨pair, inZip, rfl⟩ := List.mem_map.mp member
    exact contiguous_decodedRecord (relayable pair.1 (List.of_mem_zip inZip).1)
      (announced pair inZip)
  have size := dotJoin_length named
  have total : encodedLength (decodedMessage message rdlengths) =
      (Rfc1035.encode message).length := by
    have records := decodedRecords_size sameLength relayable
    rw [encodedLength, queries]
    change 12 + [(dotJoin question.name.labels).length + 6].sum +
      ((List.zipWith decodedRecord message.answers rdlengths).map _).sum = _
    rw [records, Rfc1035.encode, single]
    simp only [List.length_append, Rfc1035.header_length, List.flatMap_cons,
      List.flatMap_nil, Rfc1035.encodeQuestion, Rfc1035.encodeLabels_length,
      split16_length, List.sum_cons, List.sum_nil, List.length_nil]
    omega
  rw [fitsPacket_iff_encodedLength queries queryCount answerCount contiguous, total]

end Decoded

end PostDns
