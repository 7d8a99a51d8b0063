/-
The memory that the codec touches, and the runs that touch it.

Every indexed access of the datagram and of the fixed-size arrays is an event
of the run.  The receive allocation is finite, and reading outside it stops the
run, as does writing behind the packet buffer.  The other arrays are modelled by the
octets written to them so far, however many these are: an index past the end of the C
array is recorded as such and has no further effect.
-/

import PostDns.Foundation.Logged

namespace PostDns

open Foundation

/-- A buffer as libuv hands it over: `base` is the whole allocation, of which
the first `len` octets are the datagram. -/
structure UvBuf where
  base : List UInt8
  len : Nat

def UvBuf.octets (buf : UvBuf) : List UInt8 := buf.base.take buf.len

structure Datagram where
  buf : UvBuf
  nonempty : 0 < buf.len
  fits : buf.len ≤ buf.base.length

def Datagram.octets (datagram : Datagram) : List UInt8 := datagram.buf.octets

/-- The arrays that the program indexes.  `value` is the copied record data of the
given size, `output` the buffer of `name2message` for a string of the given
length, `packet` the buffer of `message2buf`, `answers` the records of a locally
generated reply of the given size, `expired` the names a sweep collects and `address`
the copied address text of a configuration line. -/
inductive Region where
  | base
  | qvalue
  | name
  | rdata
  | value (size : Nat)
  | output (length : Nat)
  | packet
  | answers (size : Nat)
  | expired (size : Nat)
  | address (size : Nat)
deriving DecidableEq

inductive Access where
  | read (region : Region) (index : Nat)
  | write (region : Region) (index : Int)
deriving DecidableEq

def Access.InPacket : Access → Prop
  | .write .packet index => 0 ≤ index ∧ index ≤ 1499
  | _ => True

instance Access.decidableInPacket : DecidablePred Access.InPacket := fun access =>
  match access with
  | .write .packet index => inferInstanceAs (Decidable (0 ≤ index ∧ index ≤ 1499))
  | .write .base _ => .isTrue trivial
  | .write .qvalue _ => .isTrue trivial
  | .write .name _ => .isTrue trivial
  | .write .rdata _ => .isTrue trivial
  | .write (.value _) _ => .isTrue trivial
  | .write (.output _) _ => .isTrue trivial
  | .write (.answers _) _ => .isTrue trivial
  | .write (.expired _) _ => .isTrue trivial
  | .write (.address _) _ => .isTrue trivial
  | .read _ _ => .isTrue trivial

inductive Fault where
  | overread (index : Nat)
  | overrun
  | emptyName
  | uninitialised
  | nullPointer
  | freedNode
  | outOfFuel
deriving DecidableEq

/-- Storage whose contents the program reads or sends before writing it. -/
inductive Site where
  | result (offset : Nat)
  | value (offset : Nat)
  | output (offset : Nat)
  | packet
  | address (line : Nat)

/-- What the machine supplies to one callback: a bound on the steps we watch and
the contents of uninitialised storage. -/
structure Env where
  fuel : Nat
  junk : Site → Nat → UInt8

abbrev Exec (α : Type) := Logged Access Fault α

def readBase (buf : List UInt8) (index : Nat) : Exec UInt8 :=
  { log := [.read .base index]
    out :=
      match buf[index]? with
      | some octet => .ok octet
      | none => .error (.overread index) }

def writeAt (region : Region) (index : Int) : Exec Unit :=
  Logged.emit [.write region index]

theorem readBase_out_of_some {buf : List UInt8} {index : Nat} {octet : UInt8}
    (present : buf[index]? = some octet) : (readBase buf index).out = .ok octet := by
  simp only [readBase, present]

theorem readBase_out_of_none {buf : List UInt8} {index : Nat}
    (absent : buf[index]? = none) :
    (readBase buf index).out = .error (.overread index) := by
  simp only [readBase, absent]

theorem readBase_out_eq_ok {buf : List UInt8} {index : Nat} {octet : UInt8} :
    (readBase buf index).out = .ok octet ↔ buf[index]? = some octet := by
  cases hRead : buf[index]? with
  | none => simp [readBase, hRead]
  | some present => simp [readBase, hRead]

@[simp] theorem readBase_log (buf : List UInt8) (index : Nat) :
    (readBase buf index).log = [.read .base index] := rfl

@[simp] theorem writeAt_out (region : Region) (index : Int) :
    (writeAt region index).out = .ok () := rfl

@[simp] theorem writeAt_log (region : Region) (index : Int) :
    (writeAt region index).log = [.write region index] := rfl

end PostDns
