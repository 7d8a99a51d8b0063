/-
How long the data of an address record is (message.c, `buf2messageRR` and
`createRDataAddress`; utils.c, `string2inet4address` and `string2inet6address`).

RDLENGTH decides how many octets are copied, and nothing compares it with the four
or sixteen that the readers of the copy and the encoder count on.
-/

import PostDns.Initialised
import PostDns.PacketBounds

namespace PostDns

open Foundation
open Foundation.Logged (Always)

def Access.InValue : Access → Prop
  | .read (.value size) index => index < size
  | _ => True

def AddressLength (type length : UInt16) : Prop :=
  (type = 1 → length = 4) ∧ (type = 28 → length = 16)

def AnnouncesAddress (buf : List UInt8) (position : Nat) : Prop :=
  ∀ last filled, NameEnds true buf position 0 last filled →
    AddressLength (shortAt buf (last + 1)) (shortAt buf (last + 9))

/-! ### Accesses outside the copy -/

theorem readBase_inValue (buf : List UInt8) (index : Nat) :
    Always Access.InValue (readBase buf index) :=
  always_readBase (fun _ => trivial) buf index

theorem writeAt_inValue (region : Region) (index : Int) :
    Always Access.InValue (writeAt region index) := by
  intro access member
  rw [List.mem_singleton.mp member]
  trivial

theorem readShort_inValue (buf : List UInt8) (index : Nat) :
    Always Access.InValue (readShort buf index) :=
  always_readShort (fun _ => trivial) buf index

theorem buf2messageHeader_inValue (buf : List UInt8) :
    Always Access.InValue (buf2messageHeader buf) :=
  always_buf2messageHeader (fun _ => trivial) buf

theorem copyLetters_inValue (buf : List UInt8) (region : Region) (count bufPos : Nat)
    (cells : List UInt8) :
    Always Access.InValue (copyLetters buf region count bufPos cells) := by
  induction count generalizing bufPos cells with
  | zero => exact Logged.always_pure _ _
  | succ count ih =>
      exact Logged.always_bind.mpr ⟨readBase_inValue buf bufPos, fun octet _ =>
        Logged.always_bind.mpr ⟨writeAt_inValue region cells.length, fun _ _ =>
          ih (bufPos + 1) (cells ++ [octet])⟩⟩

theorem closeString_inValue (region : Region) (cells : List UInt8) :
    Always Access.InValue (closeString region cells) :=
  (closeString_always_iff region cells).mpr trivial

theorem readName_inValue (follow : Bool) (buf : List UInt8) (region : Region)
    (fuel position : Nat) (cells : List UInt8) :
    Always Access.InValue (readName follow buf region fuel position cells) := by
  revert fuel
  rw [always_readName_iff]
  intro place _
  refine Logged.always_bind.mpr ⟨readBase_inValue buf place.1, ?_⟩
  intro octet _
  by_cases isZero : octet = 0
  · rw [if_pos isZero]
    exact Logged.always_pure _ _
  · rw [if_neg isZero]
    by_cases marked : follow = true ∧ octet &&& 0xc0 = 0xc0
    · rw [if_pos marked]
      exact Logged.always_bind.mpr ⟨readBase_inValue buf _, fun _ _ =>
        Logged.always_pure _ _⟩
    · rw [if_neg marked]
      exact Logged.always_bind.mpr ⟨copyLetters_inValue buf region _ _ _, fun copied _ =>
        Logged.always_bind.mpr ⟨writeAt_inValue region copied.length, fun _ _ =>
          Logged.always_pure _ _⟩⟩

theorem buf2messageQuery_inValue (env : Env) (buf : List UInt8) (position : Nat) :
    Always Access.InValue (buf2messageQuery env buf position) := by
  refine Logged.always_bind.mpr ⟨?_, fun named _ =>
    Logged.always_bind.mpr ⟨closeString_inValue .qvalue named.2, fun _ _ =>
      Logged.always_bind.mpr ⟨readShort_inValue buf _, fun _ _ =>
        Logged.always_bind.mpr ⟨readShort_inValue buf _, fun _ _ =>
          Logged.always_pure _ _⟩⟩⟩⟩
  rw [questionName_eq_readName]
  exact readName_inValue false buf .qvalue env.fuel position []

theorem questionSection_inValue (env : Env) (buf : UvBuf) (queryCount : UInt16) :
    Always Access.InValue (questionSection env buf queryCount) := by
  have section_inValue (count position : Nat) :
      Always Access.InValue (buf2messageQuestion env buf.base count position) := by
    induction count generalizing position with
    | zero => exact Logged.always_pure _ _
    | succ count ih =>
        exact Logged.always_bind.mpr ⟨buf2messageQuery_inValue env buf.base position,
          fun entry _ => Logged.always_bind.mpr ⟨ih entry.2, fun _ _ =>
            Logged.always_pure _ _⟩⟩
  unfold questionSection
  by_cases longer : 12 < buf.len
  · rw [if_pos longer]
    exact section_inValue _ _
  · rw [if_neg longer]
    exact Logged.always_pure _ _

theorem recordHead_inValue (buf : List UInt8) (named : Nat × List UInt8) :
    Always Access.InValue (recordHead buf named) :=
  Logged.always_bind.mpr ⟨closeString_inValue .name named.2, fun _ _ =>
    Logged.always_bind.mpr ⟨readShort_inValue buf _, fun _ _ =>
      Logged.always_bind.mpr ⟨readShort_inValue buf _, fun _ _ =>
        Logged.always_bind.mpr ⟨readShort_inValue buf _, fun _ _ =>
          Logged.always_bind.mpr ⟨readShort_inValue buf _, fun _ _ =>
            Logged.always_bind.mpr ⟨readShort_inValue buf _, fun _ _ =>
              Logged.always_pure _ _⟩⟩⟩⟩⟩⟩

theorem createRData_inValue (env : Env) (buf : List UInt8) (bufPos : Nat) (type : UInt16)
    (length : Nat) : Always Access.InValue (createRData env buf bufPos type length) := by
  have address : Always Access.InValue (createRDataAddress buf bufPos length) := by
    unfold createRDataAddress
    by_cases positive : 0 < length
    · rw [if_pos positive]
      exact Logged.always_bind.mpr ⟨copyLetters_inValue buf .rdata _ _ _, fun _ _ =>
        Logged.always_pure _ _⟩
    · rw [if_neg positive]
      exact Logged.always_pure _ _
  have name : Always Access.InValue (createName buf .rdata env.fuel bufPos []) := by
    rw [createName_eq_readName]
    exact readName_inValue true buf .rdata env.fuel bufPos []
  unfold createRData
  split_ifs
  · exact address
  · exact name
  · exact address
  · exact Logged.always_pure _ _

/-! ### Reads of the copy -/

theorem string2inet4address_inValue (junk : Nat → UInt8) {address : StringT}
    (whole : 4 ≤ address.length) :
    Always Access.InValue (string2inet4address junk address) := by
  have octet (index : Nat) (inside : index < address.length) :
      Always Access.InValue (readValue junk address index) := by
    intro access member
    rw [List.mem_singleton.mp member]
    exact inside
  exact Logged.always_bind.mpr ⟨octet 0 (by omega), fun _ _ =>
    Logged.always_bind.mpr ⟨octet 1 (by omega), fun _ _ =>
      Logged.always_bind.mpr ⟨octet 2 (by omega), fun _ _ =>
        Logged.always_bind.mpr ⟨octet 3 (by omega), fun _ _ =>
          Logged.always_pure _ _⟩⟩⟩⟩

theorem string2inet6Loop_inValue (junk : Nat → UInt8) {address : StringT}
    {count index : Nat} (whole : index + count ≤ address.length) :
    Always Access.InValue (string2inet6Loop junk address count index) := by
  induction count generalizing index with
  | zero => exact Logged.always_pure _ _
  | succ count ih =>
      refine Logged.always_bind.mpr ⟨?_, fun _ _ => Logged.always_bind.mpr
        ⟨ih (by omega), fun _ _ => Logged.always_pure _ _⟩⟩
      intro access member
      rw [List.mem_singleton.mp member]
      change index < address.length
      omega

theorem responseDataOf_inValue (junk : Nat → UInt8) {type length : UInt16}
    {cells : List UInt8} (whole : AddressLength type length)
    (copied : type = 1 ∨ type = 28 → cells.length = length.toNat + 1) :
    Always Access.InValue (responseDataOf junk type cells) := by
  have size {value : StringT} (isAddress : type = 1 ∨ type = 28)
      (closed : (closeString .rdata cells).out = .ok value) :
      value.length = length.toNat := by
    have filled : cells ≠ [] := by
      apply List.ne_nil_of_length_pos
      rw [copied isAddress]
      omega
    rw [closeString_out .rdata filled, Except.ok.injEq] at closed
    rw [← closed, List.length_dropLast, copied isAddress]
    omega
  unfold responseDataOf
  split_ifs with isA isCname isAaaa
  · refine Logged.always_bind.mpr ⟨closeString_inValue .rdata cells, fun value closed =>
      Logged.always_bind.mpr ⟨string2inet4address_inValue junk ?_, fun _ _ =>
        Logged.always_pure _ _⟩⟩
    rw [size (Or.inl isA) closed, whole.1 isA]
    decide
  · exact (closeTarget_always_iff cells).mpr trivial
  · refine Logged.always_bind.mpr ⟨closeString_inValue .rdata cells, fun value closed =>
      Logged.always_bind.mpr ⟨string2inet6Loop_inValue junk ?_, fun _ _ =>
        Logged.always_pure _ _⟩⟩
    rw [size (Or.inr isAaaa) closed, whole.2 isAaaa]
    decide
  · exact Logged.always_pure _ _

theorem createRData_copied {env : Env} {buf : List UInt8} {bufPos : Nat}
    {type length : UInt16} {data : Nat × List UInt8} (start : bufPos ≤ buf.length)
    (whole : AddressLength type length)
    (done : (createRData env buf bufPos type length.toNat).out = .ok data)
    (isAddress : type = 1 ∨ type = 28) : data.2.length = length.toNat + 1 := by
  have positive : 0 < length.toNat := by
    rcases isAddress with isA | isAaaa
    · rw [whole.1 isA]
      decide
    · rw [whole.2 isAaaa]
      decide
  have copies : (createRDataAddress buf bufPos length.toNat).out = .ok data := by
    unfold createRData at done
    rcases isAddress with rfl | rfl
    · exact done
    · exact done
  unfold createRDataAddress at copies
  rw [if_pos positive] at copies
  obtain ⟨copied, letters, copies⟩ := Logged.bind_out_eq_ok.mp copies
  have size := (copyLetters_of_ok start letters).2
  cases copies
  simp only [List.length_append, List.length_singleton, size, List.length_nil]
  omega

/-! ### Records and messages -/

def WholeAddress (record : ResourceRecord) : Prop :=
  AddressLength record.type record.responseDataLength

/-- Every read of copied data is inside the copy, and every address record has the
length of its address. -/
structure WholeAddresses (env : Env) (buf : UvBuf) (message : Message) : Prop where
  reads : Always Access.InValue (buf2message env buf)
  lengths : ∀ record ∈ message.answers, WholeAddress record

/-- A name that was read ends at one place only. -/
theorem nameEnds_of_createName {env : Env} {buf : List UInt8} {region : Region}
    {position last filled : Nat} {named : Nat × List UInt8}
    (done : (createName buf region env.fuel position []).out = .ok named)
    (ends : NameEnds true buf position 0 last filled) : last = named.1 := by
  apply (createName_mono buf region position []).of_eventually done
  obtain ⟨enough, read⟩ := readName_of_nameEnds region ends
  refine ⟨enough, ?_⟩
  intro other more
  obtain ⟨cells, returned, _⟩ := read other.fuel more [] rfl
  rw [← createName_eq_readName] at returned
  exact ⟨(last, cells), returned, rfl⟩

/-- So does a record. -/
theorem recordEnds_unique {env : Env} {buf : List UInt8} {position next : Nat}
    {entry : ResourceRecord × Nat}
    (done : (buf2messageRecord env buf position).out = .ok entry)
    (ends : RecordEnds buf position next) : next = entry.2 := by
  apply (buf2messageRecord_mono buf position).of_eventually done
  obtain ⟨enough, returns⟩ := record_of_recordEnds ends
  refine ⟨enough, ?_⟩
  intro other more
  obtain ⟨record, returned⟩ := returns other more
  exact ⟨(record, next), returned, rfl⟩

/-- And the question section. -/
theorem answersStart_unique {env : Env} {buf : UvBuf} {start : Nat}
    {questions : List Query × Nat}
    (done : (questionSection env buf (shortAt buf.base 4)).out = .ok questions)
    (starts : AnswersStart buf start) : start = questions.2 := by
  apply (questionSection_mono buf _).of_eventually done
  obtain ⟨enough, returns⟩ := questionSection_of_answersStart starts
  refine ⟨enough, ?_⟩
  intro other more
  obtain ⟨queries, returned⟩ := returns other more
  exact ⟨(queries, start), returned, rfl⟩

theorem wholeAddress_iff {env : Env} {buf : List UInt8} {position : Nat}
    {entry : ResourceRecord × Nat}
    (done : (buf2messageRecord env buf position).out = .ok entry) :
    (Always Access.InValue (buf2messageRecord env buf position) ∧ WholeAddress entry.1) ↔
      AnnouncesAddress buf position := by
  rw [buf2messageRecord_eq] at done ⊢
  obtain ⟨named, hNamed, done⟩ := Logged.bind_out_eq_ok.mp done
  obtain ⟨head, hHead, done⟩ := Logged.bind_out_eq_ok.mp done
  obtain ⟨data, hData, done⟩ := Logged.bind_out_eq_ok.mp done
  obtain ⟨responseData, hMeans, done⟩ := Logged.bind_out_eq_ok.mp done
  cases done
  obtain ⟨_, room, typeIs, lengthIs⟩ := recordHead_of_ok hHead
  have announced : AnnouncesAddress buf position ↔ AddressLength head.type head.length := by
    rw [typeIs, lengthIs]
    constructor
    · intro announces
      have named' := hNamed
      rw [createName_eq_readName] at named'
      exact announces named.1 named.2.length (nameEnds_of_readName .name named')
    · intro whole last filled ends
      rw [nameEnds_of_createName hNamed ends]
      exact whole
  rw [announced]
  constructor
  · intro both
    exact both.2
  · intro whole
    refine ⟨?_, whole⟩
    have nameInside :
        Always Access.InValue (createName buf .name env.fuel position []) := by
      rw [createName_eq_readName]
      exact readName_inValue true buf .name env.fuel position []
    rw [Logged.always_bind_of_ok hNamed, Logged.always_bind_of_ok hHead]
    refine ⟨nameInside, recordHead_inValue buf named, ?_⟩
    unfold recordTail
    rw [Logged.always_bind_of_ok hData]
    refine ⟨createRData_inValue env buf _ _ _, Logged.always_bind.mpr ⟨?_, fun _ _ =>
      Logged.always_pure _ _⟩⟩
    exact responseDataOf_inValue _ whole (createRData_copied room whole hData)

theorem wholeAddresses_section_iff {env : Env} {buf : List UInt8} {count position : Nat}
    {records : List ResourceRecord}
    (done : (buf2messageRR env buf count position).out = .ok records) :
    (Always Access.InValue (buf2messageRR env buf count position) ∧
        ∀ record ∈ records, WholeAddress record) ↔
      EachEntry (RecordEnds buf) (AnnouncesAddress buf) count position := by
  induction count generalizing position records with
  | zero =>
      cases done
      exact iff_of_true ⟨Logged.always_pure _ _, by simp⟩ trivial
  | succ count ih =>
      obtain ⟨entry, hEntry, done⟩ := Logged.bind_out_eq_ok.mp done
      obtain ⟨rest, hRest, done⟩ := Logged.bind_out_eq_ok.mp done
      cases done
      have later : EachEntry (RecordEnds buf) (AnnouncesAddress buf) (count + 1) position ↔
          AnnouncesAddress buf position ∧
            EachEntry (RecordEnds buf) (AnnouncesAddress buf) count entry.2 := by
        constructor
        · intro each
          exact ⟨each.1, each.2 entry.2 (recordEnds_of_record hEntry)⟩
        · intro each
          refine ⟨each.1, ?_⟩
          intro next ends
          rw [recordEnds_unique hEntry ends]
          exact each.2
      rw [later, ← wholeAddress_iff hEntry, ← ih hRest, buf2messageRR,
        Logged.always_bind_of_ok hEntry, Logged.always_bind_of_ok hRest, List.forall_mem_cons]
      simp only [Logged.always_pure, and_true]
      tauto

/-- The decoder's message carries whole addresses exactly when every address record
of the datagram announces one. -/
theorem wholeAddresses_iff {env : Env} {datagram : Datagram} {message : Message}
    (decoded : (buf2message env datagram.buf).out = .ok message) :
    WholeAddresses env datagram.buf message ↔
      EachAnswer datagram.buf (AnnouncesAddress datagram.buf.base) := by
  have run := decoded
  obtain ⟨header, hHeader, run⟩ := Logged.bind_out_eq_ok.mp run
  obtain ⟨questions, hQuestions, run⟩ := Logged.bind_out_eq_ok.mp run
  obtain ⟨answers, hAnswers, run⟩ := Logged.bind_out_eq_ok.mp run
  cases run
  obtain ⟨_, queryCount, answerCount⟩ := buf2messageHeader_of_ok hHeader
  have startsAt : EachAnswer datagram.buf (AnnouncesAddress datagram.buf.base) ↔
      EachEntry (RecordEnds datagram.buf.base) (AnnouncesAddress datagram.buf.base)
        (answerCountOf datagram.buf) questions.2 := by
    rw [queryCount] at hQuestions
    constructor
    · intro each
      exact each questions.2 (answersStart_of_questionSection hQuestions)
    · intro each start starts
      rw [answersStart_unique hQuestions starts]
      exact each
  have answered :
      (Always Access.InValue
          (answerSection env datagram.buf header.answerCount questions.2) ∧
        ∀ record ∈ answers, WholeAddress record) ↔
      EachEntry (RecordEnds datagram.buf.base) (AnnouncesAddress datagram.buf.base)
        (answerCountOf datagram.buf) questions.2 := by
    rw [answerCountOf, ← answerCount]
    unfold answerSection at hAnswers ⊢
    by_cases some : 0 < header.answerCount
    · rw [if_pos some] at hAnswers ⊢
      exact wholeAddresses_section_iff hAnswers
    · have none : header.answerCount.toNat = 0 := by
        rw [UInt16.lt_iff_toNat_lt] at some
        exact Nat.eq_zero_of_not_pos some
      rw [if_neg some] at hAnswers ⊢
      cases hAnswers
      rw [none]
      exact iff_of_true ⟨Logged.always_pure _ _, by simp⟩ trivial
  have reads : Always Access.InValue (buf2message env datagram.buf) ↔
      Always Access.InValue
        (answerSection env datagram.buf header.answerCount questions.2) := by
    unfold buf2message
    rw [Logged.always_bind_of_ok hHeader, Logged.always_bind_of_ok hQuestions,
      Logged.always_bind_of_ok hAnswers,
      and_iff_right (buf2messageHeader_inValue datagram.buf.base),
      and_iff_right (questionSection_inValue env datagram.buf header.queryCount)]
    exact and_iff_left (Logged.always_pure _ _)
  rw [startsAt, ← answered, ← reads]
  exact ⟨fun whole => ⟨whole.reads, whole.lengths⟩, fun both => ⟨both.1, both.2⟩⟩

theorem wholeAddresses_oneAddress :
    WholeAddresses patient oneAddress.buf oneAddressMessage ↔
      EachAnswer oneAddress.buf (AnnouncesAddress oneAddress.buf.base) :=
  wholeAddresses_iff oneAddress_decoded

/-- What the encoder counts on: an address record whose data has the shape of its type
is written without a gap or an overlap exactly when its length is that of its
address. -/
theorem wholeAddress_iff_contiguous {record : ResourceRecord} (shape : HasShape record)
    (isAddress : record.type = 1 ∨ record.type = 28) :
    WholeAddress record ↔ Contiguous record := by
  have advance : dataAdvance record = record.responseDataLength.toNat + 6 := by
    rw [dataAdvance, if_pos isAddress]
  have length_iff (length : UInt16) :
      record.responseDataLength = length ↔
        dataAdvance record = length.toNat + 6 := by
    rw [advance, ← UInt16.toNat_inj]
    omega
  rcases isAddress with isA | isAaaa
  · obtain ⟨address, data⟩ := shape.inet4 isA
    have whole : WholeAddress record ↔ record.responseDataLength = 4 := by
      simp [WholeAddress, AddressLength, isA]
    rw [whole, length_iff]
    constructor
    · intro moved
      exact
        { carries := shape.carries
          extent := by simp [dataExtent, payloadLength, data, isA]
          advance := by rw [data]; exact moved }
    · intro contiguous
      rw [contiguous.advance, data]
      rfl
  · obtain ⟨address, data, sixteen⟩ := shape.inet6 isAaaa
    have whole : WholeAddress record ↔ record.responseDataLength = 16 := by
      simp [WholeAddress, AddressLength, isAaaa]
    rw [whole, length_iff]
    constructor
    · intro moved
      exact
        { carries := shape.carries
          extent := by simp [dataExtent, payloadLength, data, isAaaa]
          advance := by
            rw [data]
            change dataAdvance record = address.length + 6
            rw [sixteen]
            exact moved }
    · intro contiguous
      rw [contiguous.advance, data]
      change address.length + 6 = 16 + 6
      rw [sixteen]

private def cutAddress : Datagram :=
  { buf :=
      { base :=
          [0, 1, 129, 128, 0, 1, 0, 1, 0, 0, 0, 0, 1, 97, 0, 0, 1, 0, 1, 1, 97, 0, 0, 1, 0,
            1, 0, 0, 0, 60, 0, 2, 1, 2]
        len := 34 }
    nonempty := by decide
    fits := by decide }

private def cutAddressMessage : Message :=
  ((buf2message patient cutAddress.buf).resultOr oneAddressMessage)

/-- It is accepted, its length stays two, and the readers of the copy pass its end. -/
theorem not_wholeAddresses_cutAddress :
    (buf2message patient cutAddress.buf).out = .ok cutAddressMessage ∧
      cutAddressMessage.answers.map ResourceRecord.responseDataLength = [2] ∧
      Access.read (.value 2) 3 ∈ (buf2message patient cutAddress.buf).log ∧
      ¬ WholeAddresses patient cutAddress.buf cutAddressMessage := by
  have member : Access.read (.value 2) 3 ∈ (buf2message patient cutAddress.buf).log := by
    decide +kernel
  refine ⟨Logged.out_eq_resultOr (by decide +kernel), by decide +kernel, member, ?_⟩
  intro whole
  have inside : 3 < 2 := whole.reads _ member
  omega

end PostDns
