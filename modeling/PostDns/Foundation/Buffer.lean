/-
Output buffers written piece by piece.

A buffer is a total function from indices to octets, so that unwritten cells
have some unknown content.  A writer that always continues at the end of what
it has written is followed by `Starts`.
-/

import Mathlib.Data.List.Basic
import PostDns.Foundation.Octets

namespace PostDns.Foundation

def overlay (cells : Nat → UInt8) (position : Nat) (octets : List UInt8) : Nat → UInt8 :=
  fun index =>
    if position ≤ index ∧ index < position + octets.length then
      octets.getD (index - position) 0
    else cells index

def Starts (cells : Nat → UInt8) (written : List UInt8) : Prop :=
  ∀ index < written.length, written[index]? = some (cells index)

def firstCells (cells : Nat → UInt8) (count : Nat) : List UInt8 :=
  (List.range count).map cells

@[simp] theorem firstCells_length (cells : Nat → UInt8) (count : Nat) :
    (firstCells cells count).length = count := by
  simp [firstCells]

theorem overlay_outside {cells : Nat → UInt8} {position index : Nat}
    {octets : List UInt8}
    (outside : index < position ∨ position + octets.length ≤ index) :
    overlay cells position octets index = cells index := by
  unfold overlay
  rw [if_neg (by omega)]

theorem overlay_inside {cells : Nat → UInt8} {position index : Nat}
    {octets : List UInt8} (inside : index < octets.length) :
    octets[index]? = some (overlay cells position octets (position + index)) := by
  unfold overlay
  rw [if_pos (by omega), Nat.add_sub_cancel_left, List.getD_eq_getElem?_getD,
    List.getElem?_eq_getElem inside]
  rfl

/-- Copying on from where the last copy ended copies the octets of both. -/
theorem overlay_overlay_end (cells : Nat → UInt8) (position : Nat)
    (first second : List UInt8) :
    overlay (overlay cells position first) (position + first.length) second =
      overlay cells position (first ++ second) := by
  funext index
  by_cases before : index < position
  · rw [overlay_outside (Or.inl (by omega)), overlay_outside (Or.inl before),
      overlay_outside (Or.inl before)]
  · obtain ⟨offset, rfl⟩ := Nat.le.dest (Nat.le_of_not_lt before)
    by_cases early : offset < first.length
    · have whole := @overlay_inside cells position offset (first ++ second)
        (by rw [List.length_append]; omega)
      rw [List.getElem?_append_left early, overlay_inside early] at whole
      rw [overlay_outside (Or.inl (by omega))]
      exact Option.some.inj whole
    · by_cases late : offset < (first ++ second).length
      · have whole := @overlay_inside cells position offset (first ++ second) late
        rw [List.length_append] at late
        have split : position + offset =
            position + first.length + (offset - first.length) := by
          omega
        rw [List.getElem?_append_right (by omega),
          @overlay_inside (overlay cells position first) (position + first.length)
            (offset - first.length) second (by omega), ← split] at whole
        exact Option.some.inj whole
      · have past : position + (first ++ second).length ≤ position + offset := by omega
        rw [List.length_append] at late
        rw [overlay_outside (Or.inr (by omega)), overlay_outside (Or.inr (by omega)),
          overlay_outside (Or.inr past)]

theorem overlay_nil (cells : Nat → UInt8) (position : Nat) :
    overlay cells position [] = cells := by
  funext index
  apply overlay_outside
  rw [List.length_nil]
  omega

/-- The first cells of a buffer hold what was copied among them. -/
theorem holdsAt_firstCells_overlay (cells : Nat → UInt8) {position count : Nat}
    {octets : List UInt8} (room : position + octets.length ≤ count) :
    HoldsAt (firstCells (overlay cells position octets) count) position octets := by
  intro index inRange
  have inside : position + index < count := by omega
  rw [firstCells, List.getElem?_map, List.getElem?_range inside]
  exact (overlay_inside inRange).symm

theorem Starts.nil (cells : Nat → UInt8) : Starts cells [] := by
  intro index inRange
  simp at inRange

theorem Starts.of_prefix {cells : Nat → UInt8} {written longer : List UInt8}
    (starts : Starts cells longer) (initial : written <+: longer) :
    Starts cells written := by
  intro index inRange
  rcases initial with ⟨rest, rfl⟩
  rw [← starts index (by rw [List.length_append]; omega),
    List.getElem?_append_left inRange]

theorem Starts.append {cells : Nat → UInt8} {written rest : List UInt8}
    (starts : Starts cells written)
    (continues : ∀ index < rest.length,
      rest[index]? = some (cells (written.length + index))) :
    Starts cells (written ++ rest) := by
  intro index inRange
  by_cases early : index < written.length
  · rw [List.getElem?_append_left early]
    exact starts index early
  · rw [List.length_append] at inRange
    rw [List.getElem?_append_right (by omega), continues _ (by omega)]
    congr 2
    omega

theorem Starts.overlay_end {cells : Nat → UInt8} {written : List UInt8}
    (starts : Starts cells written) (octets : List UInt8) :
    Starts (overlay cells written.length octets) (written ++ octets) := by
  intro index inRange
  rw [List.length_append] at inRange
  by_cases early : index < written.length
  · rw [List.getElem?_append_left early, overlay_outside (Or.inl early)]
    exact starts index early
  · have split : index = written.length + (index - written.length) := by omega
    rw [List.getElem?_append_right (by omega)]
    conv_rhs => rw [split]
    exact overlay_inside (by omega)

theorem Starts.firstCells_eq {cells : Nat → UInt8} {written : List UInt8}
    (starts : Starts cells written) : firstCells cells written.length = written := by
  apply List.ext_getElem?
  intro index
  by_cases inRange : index < written.length
  · rw [starts index inRange]
    simp [firstCells, inRange]
  · rw [List.getElem?_eq_none (by rw [firstCells_length]; omega),
      List.getElem?_eq_none (by omega)]

theorem Starts.prefix_firstCells {cells : Nat → UInt8} {written : List UInt8}
    (starts : Starts cells written) {count : Nat} (room : written.length ≤ count) :
    written <+: firstCells cells count := by
  have split : count = written.length + (count - written.length) := by omega
  have whole := starts.firstCells_eq
  unfold firstCells at whole ⊢
  rw [split, List.range_add, List.map_append, whole]
  exact List.prefix_append _ _

end PostDns.Foundation
