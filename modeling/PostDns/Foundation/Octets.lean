/-
Octet strings read at an offset, and unsigned integers in network byte order.

`HoldsAt bytes offset part` is the form in which the wire grammar and the
readers meet: the grammar produces it field by field, a reader consumes it one
index at a time.
-/

import Mathlib.Data.List.Basic
import Mathlib.Data.List.Infix

namespace PostDns.Foundation

/-- The octets of `part` stand in `bytes` from `offset` on. -/
def HoldsAt (bytes : List UInt8) (offset : Nat) (part : List UInt8) : Prop :=
  ∀ index < part.length, bytes[offset + index]? = part[index]?

instance (bytes : List UInt8) (offset : Nat) (part : List UInt8) :
    Decidable (HoldsAt bytes offset part) :=
  inferInstanceAs (Decidable (∀ index < part.length, bytes[offset + index]? = part[index]?))

namespace HoldsAt

variable {bytes : List UInt8} {offset : Nat}

theorem nil : HoldsAt bytes offset [] := by
  intro index inRange
  simp at inRange

theorem cons_iff {first : UInt8} {rest : List UInt8} :
    HoldsAt bytes offset (first :: rest) ↔
      bytes[offset]? = some first ∧ HoldsAt bytes (offset + 1) rest := by
  constructor
  · intro held
    refine ⟨by simpa using held 0 (by simp), ?_⟩
    intro index inRange
    have next := held (index + 1) (by simpa using inRange)
    have position : offset + (index + 1) = offset + 1 + index := by omega
    simpa [position] using next
  · rintro ⟨here, later⟩ index inRange
    cases index with
    | zero => simpa using here
    | succ index =>
        have next := later index (by simpa using inRange)
        have position : offset + (index + 1) = offset + 1 + index := by omega
        simpa [position] using next

theorem append_iff {left right : List UInt8} :
    HoldsAt bytes offset (left ++ right) ↔
      HoldsAt bytes offset left ∧
        HoldsAt bytes (offset + left.length) right := by
  induction left generalizing offset with
  | nil =>
      simp only [List.nil_append, List.length_nil, Nat.add_zero]
      exact ⟨fun held => ⟨nil, held⟩, fun held => held.2⟩
  | cons first rest ih =>
      have position :
          offset + (first :: rest).length = offset + 1 + rest.length := by
        simp only [List.length_cons]
        omega
      rw [List.cons_append, cons_iff, ih, cons_iff, position, and_assoc]

theorem fits {part : List UInt8} (held : HoldsAt bytes offset part)
    (nonempty : part ≠ []) : offset + part.length ≤ bytes.length := by
  have positive : 0 < part.length := List.length_pos_iff.mpr nonempty
  have last := held (part.length - 1) (by omega)
  have present : part[part.length - 1]? ≠ none := by
    intro absent
    have outside := List.getElem?_eq_none_iff.mp absent
    omega
  have inside : offset + (part.length - 1) < bytes.length := by
    by_contra outside
    rw [List.getElem?_eq_none (by omega)] at last
    exact present last.symm
  omega

theorem mono {part longer : List UInt8} (extension : bytes <+: longer)
    (held : HoldsAt bytes offset part) : HoldsAt longer offset part := by
  intro index inRange
  have read := held index inRange
  rcases extension with ⟨suffix, rfl⟩
  rw [List.getElem?_eq_getElem inRange] at read
  have inside : offset + index < bytes.length := by
    by_contra outside
    rw [List.getElem?_eq_none (by omega)] at read
    contradiction
  rw [List.getElem?_append_left inside, read, List.getElem?_eq_getElem inRange]

theorem middle (front part back : List UInt8) :
    HoldsAt (front ++ (part ++ back)) front.length part := by
  intro index inRange
  rw [List.getElem?_append_right (by omega), Nat.add_sub_cancel_left,
    List.getElem?_append_left inRange]

theorem unique {left right : List UInt8} (sameLength : left.length = right.length)
    (heldLeft : HoldsAt bytes offset left) (heldRight : HoldsAt bytes offset right) :
    left = right := by
  apply List.ext_getElem? fun index => ?_
  by_cases inRange : index < left.length
  · rw [← heldLeft index inRange, heldRight index (sameLength ▸ inRange)]
  · rw [List.getElem?_eq_none (by omega), List.getElem?_eq_none (by omega)]

end HoldsAt

/-! ### Network byte order -/

def join16 (high low : UInt8) : UInt16 :=
  UInt16.ofNat (256 * high.toNat + low.toNat)

def split16 (value : UInt16) : List UInt8 :=
  [UInt8.ofNat (value.toNat / 256), UInt8.ofNat value.toNat]

def join32 (high low : UInt16) : UInt32 :=
  UInt32.ofNat (65536 * high.toNat + low.toNat)

def highHalf (value : UInt32) : UInt16 := UInt16.ofNat (value.toNat / 65536)

def lowHalf (value : UInt32) : UInt16 := UInt16.ofNat value.toNat

def split32 (value : UInt32) : List UInt8 :=
  split16 (highHalf value) ++ split16 (lowHalf value)

@[simp] theorem split16_length (value : UInt16) : (split16 value).length = 2 := rfl

@[simp] theorem split32_length (value : UInt32) : (split32 value).length = 4 := rfl

theorem join16_split16 (value : UInt16) :
    join16 (UInt8.ofNat (value.toNat / 256)) (UInt8.ofNat value.toNat) = value := by
  have bound := value.toNat_lt
  apply UInt16.toNat.inj
  simp only [join16, UInt16.toNat_ofNat', UInt8.toNat_ofNat']
  omega

theorem split16_injective {left right : UInt16} (same : split16 left = split16 right) :
    left = right := by
  have octets := List.cons.inj same
  have low := (List.cons.inj octets.2).1
  rw [← join16_split16 left, ← join16_split16 right, octets.1, low]

theorem join32_halves (value : UInt32) :
    join32 (highHalf value) (lowHalf value) = value := by
  have bound := value.toNat_lt
  apply UInt32.toNat.inj
  simp only [join32, highHalf, lowHalf, UInt32.toNat_ofNat', UInt16.toNat_ofNat']
  omega

theorem split32_injective {left right : UInt32} (same : split32 left = split32 right) :
    left = right := by
  obtain ⟨high, low⟩ := List.append_inj same rfl
  rw [← join32_halves left, ← join32_halves right, split16_injective high,
    split16_injective low]

end PostDns.Foundation
