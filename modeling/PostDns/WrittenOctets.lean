/-
Which octets of a decoded message were written (message.c, `buf2messageRR`).

Two copies of the decoder leave octets of a record as they were allocated: `strcpy` stops
at a zero octet in an owner, and the readers of an address go on behind its copy.  The
message is initialised throughout when it is the same whatever those octets hold.
-/

import PostDns.AddressLengths
import PostDns.Forward
import Mathlib.Data.List.GetD

namespace PostDns

open Foundation

/-! ### The letters of a name -/

inductive NameSpells (buf : List UInt8) :
    Nat → List UInt8 → Nat → List UInt8 → Prop where
  | finish {position : Nat} {cells : List UInt8}
      (here : pieceAt true buf position = some .finish) :
      NameSpells buf position cells position cells
  | jump {position offset elsewhere : Nat} {cells total : List UInt8}
      (here : pieceAt true buf position = some (.jump offset))
      (target : NameSpells buf offset cells elsewhere total) :
      NameSpells buf position cells (position + 1) total
  | letters {position count last : Nat} {cells total : List UInt8}
      (here : pieceAt true buf position = some (.letters count))
      (later : NameSpells buf (position + 1 + count)
        (cells ++ (buf.drop (position + 1)).take count ++ [dot]) last total) :
      NameSpells buf position cells last total

theorem NameSpells.unique {buf : List UInt8} {position last last' : Nat}
    {cells total total' : List UInt8} (spells : NameSpells buf position cells last total)
    (spells' : NameSpells buf position cells last' total') : last = last' ∧ total = total' := by
  induction spells generalizing last' total' with
  | finish here =>
      cases spells' with
      | finish _ => exact ⟨rfl, rfl⟩
      | jump here' _ => cases here.symm.trans here'
      | letters here' _ => cases here.symm.trans here'
  | jump here _ ih =>
      cases spells' with
      | finish here' => cases here.symm.trans here'
      | jump here' target' =>
          cases here.symm.trans here'
          exact ⟨rfl, (ih target').2⟩
      | letters here' _ => cases here.symm.trans here'
  | letters here _ ih =>
      cases spells' with
      | finish here' => cases here.symm.trans here'
      | jump here' _ => cases here.symm.trans here'
      | letters here' later' =>
          cases here.symm.trans here'
          exact ih later'

end PostDns
