/-
The pieces in which the configuration file is read (ipv4_cache.c, `ipv4_read_file`).

One `fgets` returns at most 1023 octets, so a longer line comes in several pieces, and
the loop takes each of them for a line.
-/

import PostDns.Ipv4File

namespace PostDns

open Foundation

/-! ### One read -/

theorem fgets_append (room : Nat) (text : List UInt8) :
    (fgets room text).1 ++ (fgets room text).2 = text := by
  induction text generalizing room with
  | nil => cases room <;> rfl
  | cons letter text ih =>
      cases room with
      | zero => rfl
      | succ room =>
          rw [fgets]
          by_cases isEnd : letter = 10
          · rw [if_pos isEnd]
            rfl
          · rw [if_neg isEnd, List.cons_append, ih]

theorem fgets_length_le (room : Nat) (text : List UInt8) :
    (fgets room text).1.length ≤ room := by
  induction text generalizing room with
  | nil => cases room <;> exact Nat.zero_le _
  | cons letter text ih =>
      cases room with
      | zero => exact Nat.le_refl 0
      | succ room =>
          rw [fgets]
          by_cases isEnd : letter = 10
          · rw [if_pos isEnd]
            exact Nat.succ_le_succ (Nat.zero_le room)
          · rw [if_neg isEnd]
            exact Nat.succ_le_succ (ih room)

theorem fgets_ne_nil (room : Nat) {text : List UInt8} (nonempty : text ≠ []) :
    (fgets (room + 1) text).1 ≠ [] := by
  cases text with
  | nil => exact absurd rfl nonempty
  | cons letter text =>
      rw [fgets]
      by_cases isEnd : letter = 10
      · rw [if_pos isEnd]
        exact List.cons_ne_nil _ _
      · rw [if_neg isEnd]
        exact List.cons_ne_nil _ _

theorem fgets_line {line : List UInt8} (single : (10 : UInt8) ∉ line) {room : Nat}
    (short : line.length < room) (rest : List UInt8) :
    fgets room (line ++ 10 :: rest) = (line ++ [10], rest) := by
  induction line generalizing room with
  | nil =>
      cases room with
      | zero => cases short
      | succ room => rfl
  | cons letter line ih =>
      cases room with
      | zero => cases short
      | succ room =>
          have notEnd : letter ≠ 10 := fun isEnd => single (by simp [isEnd])
          have later := ih (fun inside => single (List.mem_cons_of_mem _ inside))
            (Nat.lt_of_succ_lt_succ short)
          rw [List.cons_append, fgets, if_neg notEnd, later]
          rfl

theorem fgets_long {line : List UInt8} (single : (10 : UInt8) ∉ line) {room : Nat}
    (long : room ≤ line.length) (rest : List UInt8) :
    fgets room (line ++ rest) = (line.take room, line.drop room ++ rest) := by
  induction line generalizing room with
  | nil =>
      have none : room = 0 := Nat.le_zero.mp long
      subst none
      rfl
  | cons letter line ih =>
      cases room with
      | zero => rfl
      | succ room =>
          have notEnd : letter ≠ 10 := fun isEnd => single (by simp [isEnd])
          have later := ih (fun inside => single (List.mem_cons_of_mem _ inside))
            (Nat.le_of_succ_le_succ long)
          rw [List.cons_append, fgets, if_neg notEnd, later]
          rfl

/-- The last line of the file when no line end follows it. -/
theorem fgets_unended {line : List UInt8} (single : (10 : UInt8) ∉ line) {room : Nat}
    (short : line.length ≤ room) : fgets room line = (line, []) := by
  induction line generalizing room with
  | nil => cases room <;> rfl
  | cons letter line ih =>
      cases room with
      | zero => cases short
      | succ room =>
          have notEnd : letter ≠ 10 := fun isEnd => single (by simp [isEnd])
          rw [fgets, if_neg notEnd,
            ih (fun inside => single (List.mem_cons_of_mem _ inside))
              (Nat.le_of_succ_le_succ short)]

/-! ### All reads -/

/-- What the loop of the loader reads, one piece a turn. -/
def filePieces (text : List UInt8) : List (List UInt8) := fgetsAll text.length text

theorem fgets_rest_length_lt {text : List UInt8} (nonempty : text ≠ []) :
    (fgets 1023 text).2.length < text.length := by
  have whole := congrArg List.length (fgets_append 1023 text)
  have some : 0 < (fgets 1023 text).1.length :=
    List.length_pos_iff.mpr (fgets_ne_nil 1022 nonempty)
  rw [List.length_append] at whole
  omega

theorem fgetsAll_succ (fuel : Nat) {text : List UInt8} (nonempty : text ≠ []) :
    fgetsAll (fuel + 1) text =
      (fgets 1023 text).1 :: fgetsAll fuel (fgets 1023 text).2 := by
  cases text with
  | nil => exact absurd rfl nonempty
  | cons letter text => rfl

private theorem fgetsAll_enough {fuel : Nat} {text : List UInt8}
    (enough : text.length ≤ fuel) : fgetsAll (fuel + 1) text = fgetsAll fuel text := by
  induction fuel generalizing text with
  | zero =>
      have empty : text = [] := List.length_eq_zero_iff.mp (Nat.le_zero.mp enough)
      subst empty
      rfl
  | succ fuel ih =>
      by_cases empty : text = []
      · subst empty
        rfl
      · have less := fgets_rest_length_lt empty
        rw [fgetsAll_succ (fuel + 1) empty, fgetsAll_succ fuel empty, ih (by omega)]

theorem fgetsAll_eq_filePieces {fuel : Nat} {text : List UInt8}
    (enough : text.length ≤ fuel) : fgetsAll fuel text = filePieces text := by
  induction fuel, enough using Nat.le_induction with
  | base => rfl
  | succ fuel enough ih => rw [fgetsAll_enough enough, ih]

theorem filePieces_step {text : List UInt8} (nonempty : text ≠ []) :
    filePieces text = (fgets 1023 text).1 :: filePieces (fgets 1023 text).2 := by
  have less := fgets_rest_length_lt nonempty
  obtain ⟨size, hSize⟩ : ∃ size, text.length = size + 1 :=
    Nat.exists_eq_succ_of_ne_zero (by omega)
  have rest := @fgetsAll_eq_filePieces size (fgets 1023 text).2 (by omega)
  rw [filePieces, hSize, fgetsAll_succ size nonempty, rest]

structure FilePiece (text piece : List UInt8) : Prop where
  nonempty : piece ≠ []
  short : piece.length ≤ 1023
  inText : ∀ letter ∈ piece, letter ∈ text

theorem filePiece_of_mem {text piece : List UInt8} (member : piece ∈ filePieces text) :
    FilePiece text piece := by
  induction hSize : text.length using Nat.strong_induction_on generalizing text with
  | _ size ih =>
      by_cases empty : text = []
      · subst empty
        cases member
      · have whole := fgets_append 1023 text
        rw [filePieces_step empty] at member
        cases List.mem_cons.mp member with
        | inl isFirst =>
            rw [isFirst]
            exact
              { nonempty := fgets_ne_nil 1022 empty
                short := fgets_length_le 1023 text
                inText := fun letter inside => by
                  rw [← whole]
                  exact List.mem_append_left _ inside }
        | inr later =>
            have less := fgets_rest_length_lt empty
            have piece := ih _ (by omega) later rfl
            exact
              { nonempty := piece.nonempty
                short := piece.short
                inText := fun letter inside => by
                  rw [← whole]
                  exact List.mem_append_right _ (piece.inText letter inside) }

/-- A line end always ends a piece. -/
theorem filePieces_line {line : List UInt8} (single : (10 : UInt8) ∉ line)
    (rest : List UInt8) :
    filePieces (line ++ 10 :: rest) = filePieces (line ++ [10]) ++ filePieces rest := by
  induction hSize : line.length using Nat.strong_induction_on generalizing line with
  | _ size ih =>
      have nonempty (rest : List UInt8) : line ++ 10 :: rest ≠ [] := by simp
      by_cases short : line.length < 1023
      · rw [filePieces_step (nonempty rest), filePieces_step (nonempty []),
          fgets_line single short rest, fgets_line single short []]
        rfl
      · have long : 1023 ≤ line.length := Nat.le_of_not_lt short
        have later := @ih (line.drop 1023).length
          (by rw [List.length_drop]; omega) (line.drop 1023)
          (fun inside => single (List.mem_of_mem_drop inside)) rfl
        rw [filePieces_step (nonempty rest), filePieces_step (nonempty []),
          fgets_long single long (10 :: rest), fgets_long single long [10], later]
        rfl

theorem filePieces_shortLine {line : List UInt8} (single : (10 : UInt8) ∉ line)
    (short : line.length ≤ 1022) : filePieces (line ++ [10]) = [line ++ [10]] := by
  have nonempty : line ++ [10] ≠ [] := by simp
  rw [filePieces_step nonempty, fgets_line single (Nat.lt_succ_of_le short) []]
  rfl

/-! ### Lines of any length -/

def fileText (lines : List (List UInt8)) (last : List UInt8) : List UInt8 :=
  (lines.flatMap fun line => line ++ [10]) ++ last

theorem filePieces_fileText {lines : List (List UInt8)}
    (single : ∀ line ∈ lines, (10 : UInt8) ∉ line) (last : List UInt8) :
    filePieces (fileText lines last) =
      (lines.flatMap fun line => filePieces (line ++ [10])) ++ filePieces last := by
  induction lines with
  | nil => rfl
  | cons line lines ih =>
      have split : fileText (line :: lines) last = line ++ 10 :: fileText lines last := by
        simp [fileText]
      have later := ih (fun other member => single other (List.mem_cons_of_mem _ member))
      rw [split, filePieces_line (single line List.mem_cons_self), later,
        List.flatMap_cons, List.append_assoc]

end PostDns
