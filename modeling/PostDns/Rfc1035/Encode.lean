/-
Writing a message without compression.

The octets written are a message that means what was written, so writing is a
right inverse of every reader that is correct for the grammar.
-/

import PostDns.Rfc1035.Grammar

namespace PostDns.Rfc1035

open Foundation

def dataOctets : RData → List UInt8
  | .a address => split32 address
  | .cname target => encodeLabels target.labels
  | .aaaa address => address.val
  | .other _ _ octets => octets

def dataLength (data : RData) : UInt16 := UInt16.ofNat (dataOctets data).length

def encodeRecord (record : Record) : List UInt8 :=
  encodeLabels record.owner.labels ++
    (fixedFields record (dataLength record.data) ++ dataOctets record.data)

def encode (message : Message) : List UInt8 :=
  header message ++
    (message.questions.flatMap encodeQuestion ++ message.answers.flatMap encodeRecord)

def RData.Fits (data : RData) : Prop := (dataOctets data).length < 65536

theorem dataLength_toNat {data : RData} (fits : data.Fits) :
    (dataLength data).toNat = (dataOctets data).length := by
  rw [dataLength, UInt16.toNat_ofNat']
  exact Nat.mod_eq_of_lt fits

theorem RData.fits_of_structured {data : RData}
    (structured : ∀ rtype unstructured octets, data ≠ .other rtype unstructured octets) :
    data.Fits := by
  cases data with
  | a address => exact (by decide : 4 < 65536)
  | cname target =>
      have size := encodeLabels_length target.labels
      have bound := target.fits
      change (encodeLabels target.labels).length < 65536
      omega
  | aaaa address =>
      change address.val.length < 65536
      rw [address.property]
      decide
  | other rtype unstructured octets =>
      exact absurd rfl (structured rtype unstructured octets)

@[simp] theorem fixedFields_length (record : Record) (rdlength : UInt16) :
    (fixedFields record rdlength).length = 10 := rfl

theorem dataAt_of_holdsAt {bytes : List UInt8} {offset : Nat} {data : RData}
    (fits : data.Fits) (held : HoldsAt bytes offset (dataOctets data)) :
    DataAt bytes offset (dataLength data) data := by
  have size := dataLength_toNat fits
  cases data with
  | a address => exact ⟨rfl, held⟩
  | cname target =>
      have spelled := nameAt_of_holdsAt_encodeLabels target.labelSizes held
      rw [dataOctets, encodeLabels_length] at size
      change NameAt bytes offset target.labels _
      rw [size]
      exact spelled
  | aaaa address =>
      refine ⟨?_, held⟩
      apply UInt16.toNat.inj
      rw [size]
      exact address.property
  | other rtype unstructured octets => exact ⟨size, held⟩

theorem recordAt_of_holdsAt {bytes : List UInt8} {offset : Nat} {record : Record}
    (fits : record.data.Fits) (held : HoldsAt bytes offset (encodeRecord record)) :
    RecordAt bytes offset record (dataLength record.data)
      (offset + (encodeRecord record).length) := by
  have room := held.fits (by simp [encodeRecord, fixedFields, split16])
  rw [encodeRecord, HoldsAt.append_iff, HoldsAt.append_iff, encodeLabels_length,
    fixedFields_length] at held
  have size := dataLength_toNat fits
  have total :
      (encodeRecord record).length =
        nameLength record.owner.labels + 10 + (dataLength record.data).toNat := by
    rw [size, encodeRecord, List.length_append, List.length_append,
      encodeLabels_length, fixedFields_length]
    omega
  refine ⟨offset + nameLength record.owner.labels,
    nameAt_of_holdsAt_encodeLabels record.owner.labelSizes held.1, held.2.1,
    dataAt_of_holdsAt fits held.2.2, ?_, ?_⟩
  · omega
  · omega

theorem answersAt_of_holdsAt {bytes : List UInt8} {offset : Nat}
    {records : List Record} (fits : ∀ record ∈ records, record.data.Fits)
    (held : HoldsAt bytes offset (records.flatMap encodeRecord)) :
    AnswersAt bytes offset records
      (records.map (fun record => dataLength record.data)) := by
  induction records generalizing offset with
  | nil => trivial
  | cons record rest ih =>
      rw [List.flatMap_cons, HoldsAt.append_iff] at held
      exact ⟨_, recordAt_of_holdsAt (fits record (by simp)) held.1,
        ih (fun other member => fits other (by simp [member])) held.2⟩

theorem wellFormed_encode (message : Message)
    (questionCount : message.questions.length < 65536)
    (answerCount : message.answers.length < 65536)
    (fits : ∀ record ∈ message.answers, record.data.Fits) (suffix : List UInt8) :
    WellFormed (encode message ++ suffix) message
      (message.answers.map (fun record => dataLength record.data)) := by
  have whole : HoldsAt (encode message ++ suffix) 0 (encode message) := by
    simpa using HoldsAt.middle [] (encode message) suffix
  rw [encode, HoldsAt.append_iff, HoldsAt.append_iff, header_length,
    Nat.zero_add] at whole
  exact
    { questionCount := questionCount
      answerCount := answerCount
      header := whole.1
      questions := whole.2.1
      answers := answersAt_of_holdsAt fits whole.2.2 }

end PostDns.Rfc1035
