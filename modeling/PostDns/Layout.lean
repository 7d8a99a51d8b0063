/-
Where the octets of a datagram send its readers.

The relations here are read off the octets alone: which place a name continues
at, where a name, a question or a record ends, and which entries a section
contains.  They say nothing about what a reader does at those places.
-/

import PostDns.Foundation.Walk
import PostDns.Memory
import PostDns.Utils

namespace PostDns

open Foundation

/-! ### Names -/

/-- What the octet at a position of a name stands for. -/
inductive Piece where
  | finish
  | jump (offset : Nat)
  | letters (count : Nat)
deriving DecidableEq

/-- The piece at `position`, when the buffer holds all of it.  Pointers exist only
where `follow` is set. -/
def pieceAt (follow : Bool) (buf : List UInt8) (position : Nat) : Option Piece :=
  match buf[position]? with
  | none => none
  | some octet =>
      if octet = 0 then some .finish
      else if follow = true ∧ octet &&& 0xc0 = 0xc0 then
        buf[position + 1]?.map
          (fun low => .jump (char2Short (octet &&& 0x3f) low).toNat)
      else if position + 1 + octet.toNat ≤ buf.length then
        some (.letters octet.toNat)
      else none

abbrev Place := Nat × Nat

def nameMove (follow : Bool) (buf : List UInt8) (place : Place) : Option Place :=
  match pieceAt follow buf place.1 with
  | some (.jump offset) => some (offset, place.2)
  | some (.letters count) => some (place.1 + 1 + count, place.2 + count + 1)
  | _ => none

def nameStep (follow : Bool) (buf : List UInt8) (position : Nat) : Option Nat :=
  match pieceAt follow buf position with
  | some (.jump offset) => some offset
  | some (.letters count) => some (position + 1 + count)
  | _ => none

/-- The name at a position, read with some cells filled, ends in place at a
position with more cells filled. -/
inductive NameEnds (follow : Bool) (buf : List UInt8) :
    Nat → Nat → Nat → Nat → Prop where
  | finish {position filled : Nat} (here : pieceAt follow buf position = some .finish) :
      NameEnds follow buf position filled position filled
  | jump {position filled offset elsewhere total : Nat}
      (here : pieceAt follow buf position = some (.jump offset))
      (target : NameEnds follow buf offset filled elsewhere total) :
      NameEnds follow buf position filled (position + 1) total
  | letters {position filled count last total : Nat}
      (here : pieceAt follow buf position = some (.letters count))
      (later : NameEnds follow buf (position + 1 + count) (filled + count + 1) last
        total) :
      NameEnds follow buf position filled last total

/-! ### Entries -/

def shortAt (buf : List UInt8) (index : Nat) : UInt16 :=
  char2Short (buf.getD index 0) (buf.getD (index + 1) 0)

def QuestionEnds (buf : List UInt8) (position next : Nat) : Prop :=
  ∃ last filled, NameEnds false buf position 0 last filled ∧ 0 < filled ∧
    last + 5 ≤ buf.length ∧ next = last + 5

def DataEnds (buf : List UInt8) (type : UInt16) (length position next : Nat) : Prop :=
  if type = 1 ∨ type = 28 then
    0 < length ∧ position + length ≤ buf.length ∧ next = position + length
  else if type = 5 then
    ∃ last filled, NameEnds true buf position 0 last filled ∧ next = last + 1
  else next = position + length

def RecordEnds (buf : List UInt8) (position next : Nat) : Prop :=
  ∃ last filled, NameEnds true buf position 0 last filled ∧ 0 < filled ∧
    last + 11 ≤ buf.length ∧
    DataEnds buf (shortAt buf (last + 1)) (shortAt buf (last + 9)).toNat (last + 11)
      next

/-- Every entry of a section is `good`, as far as the entries before it are
complete. -/
def EachEntry (ends : Nat → Nat → Prop) (good : Nat → Prop) : Nat → Nat → Prop
  | 0, _ => True
  | count + 1, position =>
      good position ∧ ∀ next, ends position next → EachEntry ends good count next

def SectionEnds (ends : Nat → Nat → Prop) : Nat → Nat → Nat → Prop
  | 0, position, finish => position = finish
  | count + 1, position, finish =>
      ∃ next, ends position next ∧ SectionEnds ends count next finish

/-! ### Sections -/

def queryCountOf (buf : UvBuf) : Nat := (shortAt buf.base 4).toNat

def answerCountOf (buf : UvBuf) : Nat := (shortAt buf.base 6).toNat

def EachQuestion (buf : UvBuf) (good : Nat → Prop) : Prop :=
  12 < buf.len → EachEntry (QuestionEnds buf.base) good (queryCountOf buf) 12

def AnswersStart (buf : UvBuf) (start : Nat) : Prop :=
  if 12 < buf.len then
    SectionEnds (QuestionEnds buf.base) (queryCountOf buf) 12 start
  else start = 12

def EachAnswer (buf : UvBuf) (good : Nat → Prop) : Prop :=
  ∀ start, AnswersStart buf start →
    EachEntry (RecordEnds buf.base) good (answerCountOf buf) start

end PostDns
