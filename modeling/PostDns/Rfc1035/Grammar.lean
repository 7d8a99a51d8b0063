/-
The message format of RFC 1035, as a relation between octets and meaning.

Names are sequences of labels of arbitrary octets; compression pointers may
lead anywhere, a name being well formed when following them spells it out in
finitely many steps.  Only answer records are described: what stands after the
answers is free.
-/

import Mathlib.Algebra.GroupWithZero.Nat
import PostDns.Foundation.Octets

namespace PostDns.Rfc1035

open Foundation

abbrev Label := List UInt8

def nameLength (labels : List Label) : Nat :=
  (labels.map (fun label => label.length + 1)).sum + 1

/-- A name of zero or more labels within the limits of the format. -/
structure DomainName where
  labels : List Label
  labelSizes : ∀ label ∈ labels, 1 ≤ label.length ∧ label.length ≤ 63
  fits : nameLength labels ≤ 255

/-- The name whose labels are `labels` is spelled at `offset`; reading on in
place continues at `finish`. -/
inductive NameAt (bytes : List UInt8) : Nat → List Label → Nat → Prop where
  | root {offset : Nat} (zero : HoldsAt bytes offset [0]) :
      NameAt bytes offset [] (offset + 1)
  | label {offset finish : Nat} {label : Label} {rest : List Label}
      (nonempty : 1 ≤ label.length) (short : label.length ≤ 63)
      (spelled : HoldsAt bytes offset (UInt8.ofNat label.length :: label))
      (later : NameAt bytes (offset + 1 + label.length) rest finish) :
      NameAt bytes offset (label :: rest) finish
  | pointer {offset elsewhere : Nat} {high low : UInt8} {labels : List Label}
      (marked : 192 ≤ high.toNat) (spelled : HoldsAt bytes offset [high, low])
      (target :
        NameAt bytes (256 * (high.toNat % 64) + low.toNat) labels elsewhere) :
      NameAt bytes offset labels (offset + 2)

/-! The fields of the flags are not empty, so that numerals denote their values. -/

instance neZero_eight : NeZero 8 := ⟨by decide⟩

instance neZero_sixteen : NeZero 16 := ⟨by decide⟩

structure Flags where
  qr : Bool
  opcode : Fin 16
  aa : Bool
  tc : Bool
  rd : Bool
  ra : Bool
  z : Fin 8
  rcode : Fin 16
deriving DecidableEq

def Flags.octets (flags : Flags) : List UInt8 :=
  [UInt8.ofNat (128 * flags.qr.toNat + 8 * flags.opcode.val + 4 * flags.aa.toNat +
      2 * flags.tc.toNat + flags.rd.toNat),
    UInt8.ofNat (128 * flags.ra.toNat + 16 * flags.z.val + flags.rcode.val)]

structure Question where
  name : DomainName
  qtype : UInt16
  qclass : UInt16

abbrev Address16 := { octets : List UInt8 // octets.length = 16 }

/-- The data of a record.  The three types with a structure of their own carry
their type number implicitly. -/
inductive RData where
  | a (address : UInt32)
  | cname (target : DomainName)
  | aaaa (address : Address16)
  | other (rtype : UInt16) (unstructured : rtype ≠ 1 ∧ rtype ≠ 5 ∧ rtype ≠ 28)
      (octets : List UInt8)

def RData.rtype : RData → UInt16
  | .a _ => 1
  | .cname _ => 5
  | .aaaa _ => 28
  | .other rtype _ _ => rtype

structure Record where
  owner : DomainName
  rclass : UInt16
  ttl : UInt32
  data : RData

structure Message where
  id : UInt16
  flags : Flags
  questions : List Question
  answers : List Record
  authorityCount : UInt16
  additionalCount : UInt16

def encodeLabels (labels : List Label) : List UInt8 :=
  labels.flatMap (fun label => UInt8.ofNat label.length :: label) ++ [0]

def encodeQuestion (question : Question) : List UInt8 :=
  encodeLabels question.name.labels ++
    (split16 question.qtype ++ split16 question.qclass)

def DataAt (bytes : List UInt8) (offset : Nat) (rdlength : UInt16) : RData → Prop
  | .a address => rdlength = 4 ∧ HoldsAt bytes offset (split32 address)
  | .cname target => NameAt bytes offset target.labels (offset + rdlength.toNat)
  | .aaaa address => rdlength = 16 ∧ HoldsAt bytes offset address.val
  | .other _ _ octets => rdlength.toNat = octets.length ∧ HoldsAt bytes offset octets

/-- The ten octets between the owner of a record and its data. -/
def fixedFields (record : Record) (rdlength : UInt16) : List UInt8 :=
  split16 record.data.rtype ++
    (split16 record.rclass ++ (split32 record.ttl ++ split16 rdlength))

def RecordAt (bytes : List UInt8) (offset : Nat) (record : Record)
    (rdlength : UInt16) (finish : Nat) : Prop :=
  ∃ fields,
    NameAt bytes offset record.owner.labels fields ∧
      HoldsAt bytes fields (fixedFields record rdlength) ∧
      DataAt bytes (fields + 10) rdlength record.data ∧
      fields + 10 + rdlength.toNat ≤ bytes.length ∧
      finish = fields + 10 + rdlength.toNat

def AnswersAt (bytes : List UInt8) : Nat → List Record → List UInt16 → Prop
  | _, [], [] => True
  | offset, record :: records, rdlength :: rdlengths =>
      ∃ next, RecordAt bytes offset record rdlength next ∧
        AnswersAt bytes next records rdlengths
  | _, _, _ => False

def header (message : Message) : List UInt8 :=
  split16 message.id ++ (message.flags.octets ++
    (split16 (UInt16.ofNat message.questions.length) ++
      (split16 (UInt16.ofNat message.answers.length) ++
        (split16 message.authorityCount ++ split16 message.additionalCount))))

/-- `bytes` is a message that means `message`; `rdlengths` are the data lengths
its answer records announce.  Questions are spelled without compression. -/
structure WellFormed (bytes : List UInt8) (message : Message)
    (rdlengths : List UInt16) : Prop where
  questionCount : message.questions.length < 65536
  answerCount : message.answers.length < 65536
  header : HoldsAt bytes 0 (header message)
  questions : HoldsAt bytes 12 (message.questions.flatMap encodeQuestion)
  answers : AnswersAt bytes
    (12 + (message.questions.flatMap encodeQuestion).length)
    message.answers rdlengths

@[simp] theorem header_length (message : Message) : (header message).length = 12 := rfl

theorem WellFormed.twelve_le {bytes : List UInt8} {message : Message}
    {rdlengths : List UInt16} (wellFormed : WellFormed bytes message rdlengths) :
    12 ≤ bytes.length := by
  have room := wellFormed.header.fits (by
    intro empty
    have size := congrArg List.length empty
    simp at size)
  simpa using room

/-! ### Names are read in one way -/

theorem labelOctet_toNat {label : Label} (short : label.length ≤ 63) :
    (UInt8.ofNat label.length).toNat = label.length := by
  rw [UInt8.toNat_ofNat']
  omega

theorem NameAt.unique {bytes : List UInt8} {offset finish finish' : Nat}
    {labels labels' : List Label} (left : NameAt bytes offset labels finish)
    (right : NameAt bytes offset labels' finish') :
    labels = labels' ∧ finish = finish' := by
  induction left generalizing labels' finish' with
  | @root offset zero =>
      have here := (HoldsAt.cons_iff.mp zero).1
      cases right with
      | root => exact ⟨rfl, rfl⟩
      | label nonempty short spelled later =>
          have other := here.symm.trans (HoldsAt.cons_iff.mp spelled).1
          have size := congrArg UInt8.toNat (Option.some.inj other)
          rw [labelOctet_toNat short] at size
          change 0 = _ at size
          omega
      | pointer marked spelled target =>
          have other := here.symm.trans (HoldsAt.cons_iff.mp spelled).1
          have size := congrArg UInt8.toNat (Option.some.inj other)
          change 0 = _ at size
          omega
  | @label offset finish label rest nonempty short spelled later ih =>
      have here := HoldsAt.cons_iff.mp spelled
      cases right with
      | root zero =>
          have other := here.1.symm.trans (HoldsAt.cons_iff.mp zero).1
          have size := congrArg UInt8.toNat (Option.some.inj other)
          rw [labelOctet_toNat short] at size
          change _ = 0 at size
          omega
      | label nonempty' short' spelled' later' =>
          have there := HoldsAt.cons_iff.mp spelled'
          have size := congrArg UInt8.toNat
            (Option.some.inj (here.1.symm.trans there.1))
          rw [labelOctet_toNat short, labelOctet_toNat short'] at size
          have same := here.2.unique size there.2
          subst same
          rcases ih later' with ⟨rfl, rfl⟩
          exact ⟨rfl, rfl⟩
      | pointer marked spelled' target =>
          have other := here.1.symm.trans (HoldsAt.cons_iff.mp spelled').1
          have size := congrArg UInt8.toNat (Option.some.inj other)
          rw [labelOctet_toNat short] at size
          omega
  | @pointer offset elsewhere high low labels marked spelled target ih =>
      have here := HoldsAt.cons_iff.mp spelled
      cases right with
      | root zero =>
          have other := here.1.symm.trans (HoldsAt.cons_iff.mp zero).1
          have size := congrArg UInt8.toNat (Option.some.inj other)
          change _ = 0 at size
          omega
      | label nonempty short spelled' later =>
          have other := here.1.symm.trans (HoldsAt.cons_iff.mp spelled').1
          have size := congrArg UInt8.toNat (Option.some.inj other)
          rw [labelOctet_toNat short] at size
          omega
      | pointer marked' spelled' target' =>
          have there := HoldsAt.cons_iff.mp spelled'
          have sameHigh := Option.some.inj (here.1.symm.trans there.1)
          have sameLow := Option.some.inj
            ((HoldsAt.cons_iff.mp here.2).1.symm.trans (HoldsAt.cons_iff.mp there.2).1)
          subst sameHigh sameLow
          exact ⟨(ih target').1, rfl⟩

/-! ### A message inside a longer buffer -/

section Extension

variable {bytes longer : List UInt8} (extension : bytes <+: longer)

include extension

theorem NameAt.mono {offset finish : Nat} {labels : List Label}
    (spelled : NameAt bytes offset labels finish) :
    NameAt longer offset labels finish := by
  induction spelled with
  | root zero => exact NameAt.root (zero.mono extension)
  | label nonempty short here _ ih =>
      exact NameAt.label nonempty short (here.mono extension) ih
  | pointer marked here _ ih => exact NameAt.pointer marked (here.mono extension) ih

theorem DataAt.mono {offset : Nat} {rdlength : UInt16} {data : RData}
    (located : DataAt bytes offset rdlength data) :
    DataAt longer offset rdlength data := by
  cases data with
  | a address => exact ⟨located.1, located.2.mono extension⟩
  | cname target => exact NameAt.mono extension located
  | aaaa address => exact ⟨located.1, located.2.mono extension⟩
  | other rtype unstructured octets => exact ⟨located.1, located.2.mono extension⟩

theorem RecordAt.mono {offset finish : Nat} {record : Record} {rdlength : UInt16}
    (located : RecordAt bytes offset record rdlength finish) :
    RecordAt longer offset record rdlength finish := by
  rcases located with ⟨fields, spelled, fixed, dataAt, room, rfl⟩
  exact ⟨fields, spelled.mono extension, fixed.mono extension,
    dataAt.mono extension, Nat.le_trans room extension.length_le, rfl⟩

theorem AnswersAt.mono {offset : Nat} {records : List Record}
    {rdlengths : List UInt16} (located : AnswersAt bytes offset records rdlengths) :
    AnswersAt longer offset records rdlengths := by
  induction records generalizing offset rdlengths with
  | nil =>
      cases rdlengths with
      | nil => trivial
      | cons rdlength rdlengths => exact located
  | cons record records ih =>
      cases rdlengths with
      | nil => exact located
      | cons rdlength rdlengths =>
          rcases located with ⟨next, here, later⟩
          exact ⟨next, here.mono extension, ih later⟩

theorem WellFormed.mono {message : Message} {rdlengths : List UInt16}
    (wellFormed : WellFormed bytes message rdlengths) :
    WellFormed longer message rdlengths :=
  { questionCount := wellFormed.questionCount
    answerCount := wellFormed.answerCount
    header := wellFormed.header.mono extension
    questions := wellFormed.questions.mono extension
    answers := wellFormed.answers.mono extension }

end Extension

/-! ### Names without compression -/

theorem encodeLabels_length (labels : List Label) :
    (encodeLabels labels).length = nameLength labels := by
  induction labels with
  | nil => rfl
  | cons label rest ih =>
      simp only [encodeLabels, nameLength, List.flatMap_cons, List.length_append,
        List.length_cons, List.map_cons, List.sum_cons] at ih ⊢
      omega

/-- A name written without compression reads back as itself. -/
theorem nameAt_of_holdsAt_encodeLabels {bytes : List UInt8} {labels : List Label}
    {offset : Nat}
    (sizes : ∀ label ∈ labels, 1 ≤ label.length ∧ label.length ≤ 63)
    (held : HoldsAt bytes offset (encodeLabels labels)) :
    NameAt bytes offset labels (offset + nameLength labels) := by
  induction labels generalizing offset with
  | nil => exact NameAt.root held
  | cons label rest ih =>
      have split :
          encodeLabels (label :: rest) =
            (UInt8.ofNat label.length :: label) ++ encodeLabels rest := by
        simp [encodeLabels]
      rw [split, HoldsAt.append_iff] at held
      have size := sizes label (by simp)
      have position :
          offset + (UInt8.ofNat label.length :: label).length =
            offset + 1 + label.length := by
        simp only [List.length_cons]
        omega
      rw [position] at held
      have later := ih (fun other member => sizes other (by simp [member])) held.2
      have finish :
          offset + 1 + label.length + nameLength rest =
            offset + nameLength (label :: rest) := by
        simp only [nameLength, List.map_cons, List.sum_cons]
        omega
      rw [finish] at later
      exact NameAt.label size.1 size.2 held.1 later

end PostDns.Rfc1035
