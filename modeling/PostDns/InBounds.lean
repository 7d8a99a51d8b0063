/-
Decoding within the arrays (message.c, `buf2message` and what it calls).

Every array that the callbacks index has an extent.  No index is guarded, but a decoder that
returns a message with host names and whole addresses has stayed inside all of them: the
datagram, the three arrays of 512 octets and the copied record data.
-/

import PostDns.EncodeSemantics
import PostDns.Initialised
import PostDns.ReadBounds
import PostDns.Wire

namespace PostDns

open Foundation
open Foundation.Logged (Always)

/-- How many cells an array has; the datagram takes `limit` of its allocation. -/
def Region.extent (limit : Nat) : Region → Nat
  | .base => limit
  | .qvalue => 512
  | .name => 512
  | .rdata => 512
  | .value size => size
  | .output length => 2 * length + 2
  | .packet => 1500
  | .answers size => size
  | .expired size => size
  | .address size => size

def Access.InBounds (limit : Nat) : Access → Prop
  | .read region index => index < region.extent limit
  | .write region index => 0 ≤ index ∧ index < region.extent limit

def Region.Collects (region : Region) : Prop :=
  ∀ limit, region.extent limit = 512

theorem writeAt_inBounds {limit cell : Nat} {region : Region}
    (inside : cell < region.extent limit) :
    Always (Access.InBounds limit) (writeAt region cell) := by
  intro access member
  rw [List.mem_singleton.mp member]
  exact ⟨Int.natCast_nonneg cell, by exact_mod_cast inside⟩

/-! ### Reads that return -/

section Reads

variable {buf : List UInt8}

theorem readBase_inBounds {index : Nat} {octet : UInt8}
    (done : (readBase buf index).out = .ok octet) :
    Always (Access.InBounds buf.length) (readBase buf index) := by
  intro access member
  rw [List.mem_singleton.mp member]
  exact (List.getElem?_eq_some_iff.mp (readBase_out_eq_ok.mp done)).1

theorem readShort_inBounds {index : Nat} {value : UInt16}
    (done : (readShort buf index).out = .ok value) :
    Always (Access.InBounds buf.length) (readShort buf index) := by
  obtain ⟨high, first, rest⟩ := Logged.bind_out_eq_ok.mp done
  obtain ⟨low, second, _⟩ := Logged.bind_out_eq_ok.mp rest
  exact (Logged.always_bind_of_ok first _).mpr ⟨readBase_inBounds first,
    (Logged.always_bind_of_ok second _).mpr ⟨readBase_inBounds second, Logged.always_pure _ _⟩⟩

/-- The copied octets lie behind the cells that were filled before. -/
theorem copyLetters_inBounds {region : Region} (collects : region.Collects)
    {count bufPos : Nat} {cells copied : List UInt8}
    (done : (copyLetters buf region count bufPos cells).out = .ok copied) :
    copied.length = cells.length + count ∧ (copied.length ≤ 512 →
      Always (Access.InBounds buf.length) (copyLetters buf region count bufPos cells)) := by
  induction count generalizing bufPos cells with
  | zero =>
      cases done
      exact ⟨rfl, fun _ => Logged.always_pure _ _⟩
  | succ count ih =>
      obtain ⟨octet, read, afterRead⟩ := Logged.bind_out_eq_ok.mp done
      obtain ⟨_, wrote, rest⟩ := Logged.bind_out_eq_ok.mp afterRead
      have later := ih rest
      rw [List.length_append, List.length_singleton] at later
      constructor
      · omega
      · intro room
        refine (Logged.always_bind_of_ok read _).mpr ⟨readBase_inBounds read, ?_⟩
        refine (Logged.always_bind_of_ok wrote _).mpr ⟨?_, later.2 room⟩
        apply writeAt_inBounds
        rw [collects]
        omega

theorem visit_inBounds {follow : Bool} {region : Region} (collects : region.Collects)
    {position : Nat} {cells : List UInt8} {step : Piece × List UInt8}
    (done : (visit follow buf region position cells).out = .ok step) :
    cells.length ≤ step.2.length ∧ (step.2.length ≤ 512 →
      Always (Access.InBounds buf.length) (visit follow buf region position cells)) := by
  obtain ⟨octet, read, afterRead⟩ := Logged.bind_out_eq_ok.mp done
  unfold visit
  rw [Logged.always_bind_of_ok read, and_iff_right (readBase_inBounds read)]
  by_cases isZero : octet = 0
  · rw [if_pos isZero] at afterRead ⊢
    cases afterRead
    exact ⟨Nat.le_refl _, fun _ => Logged.always_pure _ _⟩
  · rw [if_neg isZero] at afterRead ⊢
    by_cases marked : follow = true ∧ octet &&& 0xc0 = 0xc0
    · rw [if_pos marked] at afterRead ⊢
      obtain ⟨low, second, returned⟩ := Logged.bind_out_eq_ok.mp afterRead
      cases returned
      exact ⟨Nat.le_refl _, fun _ => (Logged.always_bind_of_ok second _).mpr
        ⟨readBase_inBounds second, Logged.always_pure _ _⟩⟩
    · rw [if_neg marked] at afterRead ⊢
      obtain ⟨copied, copying, afterCopy⟩ := Logged.bind_out_eq_ok.mp afterRead
      obtain ⟨_, wrote, returned⟩ := Logged.bind_out_eq_ok.mp afterCopy
      cases returned
      have copy := copyLetters_inBounds collects copying
      rw [List.length_append, List.length_singleton]
      constructor
      · omega
      · intro room
        refine (Logged.always_bind_of_ok copying _).mpr ⟨copy.2 (by omega), ?_⟩
        refine (Logged.always_bind_of_ok wrote _).mpr ⟨?_, Logged.always_pure _ _⟩
        apply writeAt_inBounds
        rw [collects]
        omega

/-- A name that is read to its end and fills no more than the array stays inside it. -/
theorem readName_inBounds {follow : Bool} {region : Region} (collects : region.Collects)
    {fuel position : Nat} {cells : List UInt8} {named : Nat × List UInt8}
    (done : (readName follow buf region fuel position cells).out = .ok named) :
    cells.length ≤ named.2.length ∧ (named.2.length ≤ 512 →
      Always (Access.InBounds buf.length)
        (readName follow buf region fuel position cells)) := by
  induction fuel generalizing position cells named with
  | zero => cases done
  | succ fuel ih =>
      obtain ⟨step, visited, afterVisit⟩ := Logged.bind_out_eq_ok.mp done
      have here := visit_inBounds collects visited
      rw [readName, Logged.always_bind_of_ok visited]
      cases hPiece : step.1 with
      | finish =>
          simp only [hPiece] at afterVisit ⊢
          cases afterVisit
          exact ⟨here.1, fun room => ⟨here.2 room, Logged.always_pure _ _⟩⟩
      | jump offset =>
          simp only [hPiece] at afterVisit ⊢
          obtain ⟨jumped, reading, returned⟩ := Logged.bind_out_eq_ok.mp afterVisit
          cases returned
          have later := ih reading
          refine ⟨here.1.trans later.1, fun room => ⟨here.2 (later.1.trans room), ?_⟩⟩
          exact (Logged.always_bind_of_ok reading _).mpr
            ⟨later.2 room, Logged.always_pure _ _⟩
      | letters count =>
          simp only [hPiece] at afterVisit ⊢
          have later := ih afterVisit
          exact ⟨here.1.trans later.1,
            fun room => ⟨here.2 (later.1.trans room), later.2 room⟩⟩

/-- The closed string is one octet shorter than the cells. -/
theorem closeString_inBounds (limit : Nat) {region : Region} (collects : region.Collects)
    {cells : List UInt8} {closed : StringT}
    (done : (closeString region cells).out = .ok closed) :
    cells.length = closed.length + 1 ∧ (closed.length < 512 →
      Always (Access.InBounds limit) (closeString region cells)) := by
  have filled := closeString_of_ok done
  have isClosed := closeString_out region (List.ne_nil_of_length_pos filled)
  rw [done, Except.ok.injEq] at isClosed
  have size : cells.length = closed.length + 1 := by
    rw [isClosed, List.length_dropLast]
    omega
  refine ⟨size, fun room => ?_⟩
  rw [closeString_always_iff, size]
  change 0 ≤ ((closed.length + 1 : Nat) : Int) - 1 ∧ _
  rw [collects]
  omega

/-! ### Entries -/

theorem buf2messageHeader_inBounds {message : Message}
    (done : (buf2messageHeader buf).out = .ok message) :
    Always (Access.InBounds buf.length) (buf2messageHeader buf) := by
  have below := (buf2messageHeader_reads_iff buf).mpr (buf2messageHeader_of_ok done).1
  have reads : Always (fun access => ∃ index, access = .read .base index)
      (buf2messageHeader buf) := always_buf2messageHeader (fun index => ⟨index, rfl⟩) buf
  intro access member
  obtain ⟨index, isRead⟩ := reads access member
  rw [isRead] at member ⊢
  exact below _ member

theorem buf2messageQuery_inBounds {env : Env} {position : Nat} {entry : Query × Nat}
    (done : (buf2messageQuery env buf position).out = .ok entry)
    (short : entry.1.name.length < 512) :
    Always (Access.InBounds buf.length) (buf2messageQuery env buf position) := by
  obtain ⟨named, reading, afterName⟩ := Logged.bind_out_eq_ok.mp done
  obtain ⟨name, closing, afterClose⟩ := Logged.bind_out_eq_ok.mp afterName
  obtain ⟨type, readType, afterType⟩ := Logged.bind_out_eq_ok.mp afterClose
  obtain ⟨cls, readClass, returned⟩ := Logged.bind_out_eq_ok.mp afterType
  cases returned
  change name.length < 512 at short
  have closed := closeString_inBounds buf.length (fun _ => rfl) closing
  rw [buf2messageQuery, Logged.always_bind_of_ok reading, Logged.always_bind_of_ok closing,
    Logged.always_bind_of_ok readType, Logged.always_bind_of_ok readClass]
  rw [questionName_eq_readName] at reading ⊢
  have read := readName_inBounds (fun _ => rfl) reading
  exact ⟨read.2 (by omega), closed.2 short, readShort_inBounds readType,
    readShort_inBounds readClass, Logged.always_pure _ _⟩

theorem buf2messageQuestion_inBounds {env : Env} {count position : Nat}
    {entries : List Query × Nat}
    (done : (buf2messageQuestion env buf count position).out = .ok entries)
    (short : ∀ query ∈ entries.1, query.name.length < 512) :
    Always (Access.InBounds buf.length) (buf2messageQuestion env buf count position) := by
  induction count generalizing position entries with
  | zero => exact Logged.always_pure _ _
  | succ count ih =>
      obtain ⟨entry, first, others⟩ := Logged.bind_out_eq_ok.mp done
      obtain ⟨rest, later, returned⟩ := Logged.bind_out_eq_ok.mp others
      cases returned
      rw [buf2messageQuestion, Logged.always_bind_of_ok first, Logged.always_bind_of_ok later]
      refine ⟨buf2messageQuery_inBounds first (short _ List.mem_cons_self), ih later ?_,
        Logged.always_pure _ _⟩
      exact fun query member => short query (List.mem_cons_of_mem _ member)

/-- The copied data and the cell behind it. -/
theorem createRDataAddress_inBounds {bufPos length : Nat} {data : Nat × List UInt8}
    (done : (createRDataAddress buf bufPos length).out = .ok data) (short : length < 512) :
    (0 < length → data.2.length = length + 1) ∧
      Always (Access.InBounds buf.length) (createRDataAddress buf bufPos length) := by
  unfold createRDataAddress at done ⊢
  by_cases positive : 0 < length
  · rw [if_pos positive] at done ⊢
    obtain ⟨copied, copying, returned⟩ := Logged.bind_out_eq_ok.mp done
    cases returned
    have copy := copyLetters_inBounds (fun _ => rfl) copying
    rw [List.length_nil, Nat.zero_add] at copy
    rw [Logged.always_bind_of_ok copying]
    constructor
    · intro _
      rw [List.length_append, copy.1, List.length_singleton]
    · exact ⟨copy.2 (by omega), Logged.always_pure _ _⟩
  · rw [if_neg positive]
    exact ⟨fun more => absurd more positive, Logged.always_pure _ _⟩

end Reads

theorem readValue_inBounds (limit : Nat) (junk : Nat → UInt8) {value : StringT} {index : Nat}
    (inside : index < value.length) :
    Always (Access.InBounds limit) (readValue junk value index) := by
  intro access member
  rw [List.mem_singleton.mp member]
  exact inside

theorem string2inet4address_inBounds (limit : Nat) (junk : Nat → UInt8) {address : StringT}
    (whole : address.length = 4) :
    Always (Access.InBounds limit) (string2inet4address junk address) :=
  Logged.always_bind.mpr ⟨readValue_inBounds limit junk (by omega), fun _ _ =>
    Logged.always_bind.mpr ⟨readValue_inBounds limit junk (by omega), fun _ _ =>
      Logged.always_bind.mpr ⟨readValue_inBounds limit junk (by omega), fun _ _ =>
        Logged.always_bind.mpr ⟨readValue_inBounds limit junk (by omega), fun _ _ =>
          Logged.always_pure _ _⟩⟩⟩⟩

theorem string2inet6Loop_inBounds (limit : Nat) (junk : Nat → UInt8) {address : StringT}
    {count index : Nat} (whole : index + count ≤ address.length) :
    Always (Access.InBounds limit) (string2inet6Loop junk address count index) := by
  induction count generalizing index with
  | zero => exact Logged.always_pure _ _
  | succ count ih =>
      exact Logged.always_bind.mpr ⟨readValue_inBounds limit junk (by omega), fun _ _ =>
        Logged.always_bind.mpr ⟨ih (by omega), fun _ _ => Logged.always_pure _ _⟩⟩

/-! ### Records -/

section Records

variable {buf : List UInt8} {env : Env}

/-- The data of a record that carries what its type promises. -/
theorem recordTail_inBounds {bufPos last : Nat} {head : RecordHead}
    {entry : ResourceRecord × Nat}
    (done : (recordTail env buf bufPos last head).out = .ok entry)
    (payload : HasPayload entry.1) :
    Always (Access.InBounds buf.length) (recordTail env buf bufPos last head) := by
  obtain ⟨data, creating, afterData⟩ := Logged.bind_out_eq_ok.mp done
  obtain ⟨responseData, means, returned⟩ := Logged.bind_out_eq_ok.mp afterData
  cases returned
  rw [recordTail, Logged.always_bind_of_ok creating, Logged.always_bind_of_ok means]
  suffices both : Always (Access.InBounds buf.length)
      (createRData env buf (last + 11) head.type head.length.toNat) ∧
      Always (Access.InBounds buf.length)
        (responseDataOf (env.junk (.value bufPos)) head.type data.2) from
    ⟨both.1, both.2, Logged.always_pure _ _⟩
  unfold createRData at creating ⊢
  unfold responseDataOf at means ⊢
  by_cases isA : head.type = 1
  · rw [if_pos isA] at creating means ⊢
    rw [if_pos isA]
    obtain ⟨value, closing, afterValue⟩ := Logged.bind_out_eq_ok.mp means
    obtain ⟨address, reading, isData⟩ := Logged.bind_out_eq_ok.mp afterValue
    cases isData
    have four : head.length = 4 := payload.2
    rw [four] at creating ⊢
    have created := createRDataAddress_inBounds creating (by decide)
    have closed := closeString_inBounds buf.length (fun _ => rfl) closing
    have size : value.length = 4 :=
      Nat.succ.inj (closed.1.symm.trans (created.1 (by decide)))
    rw [Logged.always_bind_of_ok closing, Logged.always_bind_of_ok reading]
    exact ⟨created.2, closed.2 (by omega), string2inet4address_inBounds _ _ size,
      Logged.always_pure _ _⟩
  · rw [if_neg isA] at creating means ⊢
    rw [if_neg isA]
    by_cases isCname : head.type = 5
    · rw [if_pos isCname] at creating means ⊢
      rw [if_pos isCname]
      obtain ⟨_, wrote, isData⟩ := Logged.bind_out_eq_ok.mp means
      cases isData
      -- A root target is no payload.
      have filled : data.2 ≠ [] := by
        intro isEmpty
        simp only [recordOf, HasPayload, if_pos isEmpty] at payload
      simp only [recordOf, HasPayload, if_neg filled] at payload
      have short := payload.2.length_le
      rw [List.length_dropLast] at short
      have positive := List.length_pos_of_ne_nil filled
      rw [createName_eq_readName] at creating ⊢
      have read := readName_inBounds (fun _ => rfl) creating
      refine ⟨read.2 (by omega), Logged.always_bind.mpr ⟨?_, fun _ _ => Logged.always_pure _ _⟩⟩
      intro access member
      rw [List.mem_singleton.mp member]
      change 0 ≤ (data.2.length : Int) - 1 ∧ (data.2.length : Int) - 1 < (512 : Nat)
      omega
    · rw [if_neg isCname] at creating means ⊢
      rw [if_neg isCname]
      by_cases isAaaa : head.type = 28
      · rw [if_pos isAaaa] at creating means ⊢
        rw [if_pos isAaaa]
        obtain ⟨value, closing, afterValue⟩ := Logged.bind_out_eq_ok.mp means
        obtain ⟨address, reading, isData⟩ := Logged.bind_out_eq_ok.mp afterValue
        cases isData
        have sixteen : head.length = 16 := payload.2.1
        rw [sixteen] at creating ⊢
        have created := createRDataAddress_inBounds creating (by decide)
        have closed := closeString_inBounds buf.length (fun _ => rfl) closing
        have size : value.length = 16 :=
          Nat.succ.inj (closed.1.symm.trans (created.1 (by decide)))
        rw [Logged.always_bind_of_ok closing, Logged.always_bind_of_ok reading]
        exact ⟨created.2, closed.2 (by omega),
          string2inet6Loop_inBounds _ _ (by rw [size]), Logged.always_pure _ _⟩
      · -- Without a payload there is nothing that the type could promise.
        rw [if_neg isAaaa] at means
        cases means
        exact absurd payload not_false

theorem recordHead_inBounds {named : Nat × List UInt8} {head : RecordHead}
    (done : (recordHead buf named).out = .ok head) (short : head.name.length < 512) :
    named.2.length = head.name.length + 1 ∧
      Always (Access.InBounds buf.length) (recordHead buf named) := by
  obtain ⟨name, closing, afterClose⟩ := Logged.bind_out_eq_ok.mp done
  obtain ⟨type, readType, afterType⟩ := Logged.bind_out_eq_ok.mp afterClose
  obtain ⟨cls, readClass, afterClass⟩ := Logged.bind_out_eq_ok.mp afterType
  obtain ⟨high, readHigh, afterHigh⟩ := Logged.bind_out_eq_ok.mp afterClass
  obtain ⟨low, readLow, afterLow⟩ := Logged.bind_out_eq_ok.mp afterHigh
  obtain ⟨length, readLength, returned⟩ := Logged.bind_out_eq_ok.mp afterLow
  cases returned
  have closed := closeString_inBounds buf.length (fun _ => rfl) closing
  rw [recordHead, Logged.always_bind_of_ok closing, Logged.always_bind_of_ok readType,
    Logged.always_bind_of_ok readClass, Logged.always_bind_of_ok readHigh,
    Logged.always_bind_of_ok readLow, Logged.always_bind_of_ok readLength]
  exact ⟨closed.1, closed.2 short, readShort_inBounds readType, readShort_inBounds readClass,
    readShort_inBounds readHigh, readShort_inBounds readLow, readShort_inBounds readLength,
    Logged.always_pure _ _⟩

theorem buf2messageRecord_inBounds {position : Nat} {entry : ResourceRecord × Nat}
    (done : (buf2messageRecord env buf position).out = .ok entry)
    (owner : HostName entry.1.name) (payload : HasPayload entry.1) :
    Always (Access.InBounds buf.length) (buf2messageRecord env buf position) := by
  rw [buf2messageRecord_eq] at done ⊢
  obtain ⟨named, reading, afterName⟩ := Logged.bind_out_eq_ok.mp done
  obtain ⟨head, heading, afterHead⟩ := Logged.bind_out_eq_ok.mp afterName
  have isOwner : entry.1.name.length = head.name.length := by
    obtain ⟨data, _, afterData⟩ := Logged.bind_out_eq_ok.mp afterHead
    obtain ⟨responseData, _, returned⟩ := Logged.bind_out_eq_ok.mp afterData
    cases returned
    exact strcpyResult_length _ _
  have short := owner.length_le
  have headed := recordHead_inBounds heading (by omega)
  rw [Logged.always_bind_of_ok reading, Logged.always_bind_of_ok heading]
  rw [createName_eq_readName] at reading ⊢
  have read := readName_inBounds (fun _ => rfl) reading
  exact ⟨read.2 (by omega), headed.2, recordTail_inBounds afterHead payload⟩

theorem buf2messageRR_inBounds {count position : Nat} {answers : List ResourceRecord}
    (done : (buf2messageRR env buf count position).out = .ok answers)
    (owners : ∀ record ∈ answers, HostName record.name)
    (payloads : ∀ record ∈ answers, HasPayload record) :
    Always (Access.InBounds buf.length) (buf2messageRR env buf count position) := by
  induction count generalizing position answers with
  | zero => exact Logged.always_pure _ _
  | succ count ih =>
      obtain ⟨entry, first, others⟩ := Logged.bind_out_eq_ok.mp done
      obtain ⟨rest, later, returned⟩ := Logged.bind_out_eq_ok.mp others
      cases returned
      have restIn := ih later (fun record member => owners record (List.mem_cons_of_mem _ member))
        (fun record member => payloads record (List.mem_cons_of_mem _ member))
      rw [buf2messageRR, Logged.always_bind_of_ok first, Logged.always_bind_of_ok later]
      exact ⟨buf2messageRecord_inBounds first (owners _ List.mem_cons_self)
        (payloads _ List.mem_cons_self), restIn, Logged.always_pure _ _⟩

end Records

/-! ### Messages -/

/-- Within an allocation that ends with the datagram. -/
theorem buf2message_inAllocation {env : Env} {buf : UvBuf} {message : Message}
    (done : (buf2message env buf).out = .ok message) (spoken : Spoken message) :
    Always (Access.InBounds buf.base.length) (buf2message env buf) := by
  obtain ⟨header, headed, sections⟩ := Logged.bind_out_eq_ok.mp done
  obtain ⟨questions, asked, others⟩ := Logged.bind_out_eq_ok.mp sections
  obtain ⟨answers, answered, returned⟩ := Logged.bind_out_eq_ok.mp others
  cases returned
  have short : ∀ query ∈ questions.1, query.name.length < 512 := by
    obtain ⟨query, isSingle, host⟩ := spoken.single
    have isQuestions : questions.1 = [query] := isSingle
    intro other member
    rw [isQuestions] at member
    rw [List.mem_singleton.mp member]
    exact Nat.lt_of_le_of_lt host.length_le (by decide)
  rw [buf2message, Logged.always_bind_of_ok headed, Logged.always_bind_of_ok asked,
    Logged.always_bind_of_ok answered]
  refine ⟨buf2messageHeader_inBounds headed, ?_, ?_, Logged.always_pure _ _⟩
  · unfold questionSection at asked ⊢
    by_cases longer : 12 < buf.len
    · rw [if_pos longer] at asked ⊢
      exact buf2messageQuestion_inBounds asked short
    · rw [if_neg longer]
      exact Logged.always_pure _ _
  · unfold answerSection at answered ⊢
    by_cases some : 0 < header.answerCount
    · rw [if_pos some] at answered ⊢
      exact buf2messageRR_inBounds answered spoken.owners spoken.payloads
    · rw [if_neg some]
      exact Logged.always_pure _ _

/-- A datagram that can be read on its own is read on its own. -/
theorem buf2message_inBounds {env : Env} {datagram : Datagram} {message : Message}
    (done : (buf2message env datagram.buf.trim).out = .ok message) (spoken : Spoken message) :
    buf2message env datagram.buf = buf2message env datagram.buf.trim ∧
      Always (Access.InBounds datagram.buf.len) (buf2message env datagram.buf) := by
  have inside := buf2message_inAllocation done spoken
  have size : datagram.buf.trim.base.length = datagram.buf.len := by
    change (datagram.buf.base.take datagram.buf.len).length = datagram.buf.len
    rw [List.length_take, Nat.min_eq_left datagram.fits]
  rw [size] at inside
  have below : Always (Access.ReadBelow datagram.buf.len) (buf2message env datagram.buf.trim) := by
    intro access member
    have bounded := inside access member
    cases access with
    | write region index => trivial
    | read region index =>
        cases region with
        | base => exact bounded
        | _ => trivial
  cases buf2message_agree env datagram.buf with
  | inl same =>
      rw [← same]
      exact ⟨rfl, inside⟩
  | inr apart => exact absurd below apart.1

end PostDns
