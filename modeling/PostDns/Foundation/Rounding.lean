/-
Natural numbers as a binary floating-point format holds them.

A number of more bits than the format keeps is rounded to a multiple of the last place that
is left, and half way between two multiples to the even one.
-/

import Mathlib.Algebra.GroupWithZero.Nat
import Mathlib.Tactic.SplitIfs

namespace PostDns.Foundation.Rounding

/-- The multiple of the unit that is nearest; of two that are equally near, the even one. -/
def toMultiple (unit num : Nat) : Nat :=
  if unit < 2 * (num % unit) ∨ 2 * (num % unit) = unit ∧ num / unit % 2 = 1 then
    (num / unit + 1) * unit
  else num / unit * unit

def lastPlace (bits num : Nat) : Nat := 2 ^ (num.log2 + 1 - bits)

/-- The nearest number of so many significant bits. -/
def nearest (bits num : Nat) : Nat := toMultiple (lastPlace bits num) num

theorem lastPlace_pos (bits num : Nat) : 0 < lastPlace bits num :=
  Nat.two_pow_pos _

/-! ### Multiples of a unit -/

theorem le_toMultiple (unit num : Nat) : num / unit * unit ≤ toMultiple unit num := by
  unfold toMultiple
  split_ifs
  · exact Nat.mul_le_mul_right unit (Nat.le_succ _)
  · exact Nat.le_refl _

theorem toMultiple_le (unit num : Nat) : toMultiple unit num ≤ (num / unit + 1) * unit := by
  unfold toMultiple
  split_ifs
  · exact Nat.le_refl _
  · exact Nat.mul_le_mul_right unit (Nat.le_succ _)

theorem toMultiple_one (num : Nat) : toMultiple 1 num = num := by
  unfold toMultiple
  rw [Nat.mod_one, Nat.div_one, if_neg (by omega), Nat.mul_one]

theorem toMultiple_mono {unit left right : Nat} (below : left ≤ right) :
    toMultiple unit left ≤ toMultiple unit right := by
  have quotients : left / unit ≤ right / unit := Nat.div_le_div_right below
  cases Nat.lt_or_eq_of_le quotients with
  | inl less =>
      calc toMultiple unit left ≤ (left / unit + 1) * unit := toMultiple_le unit left
        _ ≤ right / unit * unit := Nat.mul_le_mul_right unit less
        _ ≤ toMultiple unit right := le_toMultiple unit right
  | inr same =>
      -- the same quotient, so that the remainders decide
      have remainders : left % unit ≤ right % unit := by
        have leftParts := Nat.div_add_mod left unit
        have rightParts := Nat.div_add_mod right unit
        rw [same] at leftParts
        omega
      by_cases up : unit < 2 * (left % unit) ∨
          2 * (left % unit) = unit ∧ left / unit % 2 = 1
      · have upToo : unit < 2 * (right % unit) ∨
            2 * (right % unit) = unit ∧ right / unit % 2 = 1 := by omega
        apply Nat.le_of_eq
        rw [toMultiple, toMultiple, if_pos up, if_pos upToo, same]
      · rw [toMultiple, if_neg up, same]
        exact le_toMultiple unit right

theorem toMultiple_double (unit num : Nat) :
    toMultiple (2 * unit) (2 * num) = 2 * toMultiple unit num := by
  have remainder : 2 * num % (2 * unit) = 2 * (num % unit) := Nat.mul_mod_mul_left 2 num unit
  have quotient : 2 * num / (2 * unit) = num / unit :=
    Nat.mul_div_mul_left num unit (Nat.succ_pos 1)
  have halves : (2 * unit < 2 * (2 * (num % unit)) ∨
      2 * (2 * (num % unit)) = 2 * unit ∧ num / unit % 2 = 1) ↔
        (unit < 2 * (num % unit) ∨ 2 * (num % unit) = unit ∧ num / unit % 2 = 1) := by
    omega
  unfold toMultiple
  rw [remainder, quotient]
  simp only [halves]
  split_ifs
  · exact Nat.mul_left_comm _ 2 unit
  · exact Nat.mul_left_comm _ 2 unit

/-! ### Significant bits -/

variable {bits : Nat}

theorem nearest_zero (bits : Nat) : nearest bits 0 = 0 := by
  unfold nearest toMultiple
  have positive := lastPlace_pos bits 0
  rw [Nat.zero_mod, Nat.zero_div, if_neg (by omega), Nat.zero_mul]

/-- The powers of two that bound a number bound it after the rounding. -/
theorem nearest_le (bits : Nat) (num : Nat) : nearest bits num ≤ 2 ^ (num.log2 + 1) := by
  have split : 2 ^ (num.log2 + 1) =
      2 ^ (num.log2 + 1 - (num.log2 + 1 - bits)) * lastPlace bits num := by
    rw [lastPlace, ← Nat.pow_add]
    congr 1
    omega
  have below : num / lastPlace bits num < 2 ^ (num.log2 + 1 - (num.log2 + 1 - bits)) := by
    rw [Nat.div_lt_iff_lt_mul (lastPlace_pos bits num), ← split]
    exact Nat.lt_log2_self
  rw [split]
  exact Nat.le_trans (toMultiple_le _ num) (Nat.mul_le_mul_right _ below)

theorem le_nearest (positive : 0 < bits) {num : Nat} (nonzero : num ≠ 0) :
    2 ^ num.log2 ≤ nearest bits num := by
  have split : 2 ^ num.log2 =
      2 ^ (num.log2 - (num.log2 + 1 - bits)) * lastPlace bits num := by
    rw [lastPlace, ← Nat.pow_add]
    congr 1
    omega
  have above : 2 ^ (num.log2 - (num.log2 + 1 - bits)) ≤ num / lastPlace bits num := by
    rw [Nat.le_div_iff_mul_le (lastPlace_pos bits num), ← split]
    exact Nat.log2_self_le nonzero
  rw [split]
  exact Nat.le_trans (Nat.mul_le_mul_right _ above) (le_toMultiple _ num)

theorem log2_mono {left right : Nat} (nonzero : left ≠ 0) (below : left ≤ right) :
    left.log2 ≤ right.log2 := by
  rw [Nat.le_log2 (by omega)]
  exact Nat.le_trans (Nat.log2_self_le nonzero) below

theorem nearest_mono (positive : 0 < bits) {left right : Nat} (below : left ≤ right) :
    nearest bits left ≤ nearest bits right := by
  by_cases nonzero : left = 0
  · rw [nonzero, nearest_zero]
    exact Nat.zero_le _
  cases Nat.lt_or_eq_of_le (log2_mono nonzero below) with
  | inl less =>
      calc nearest bits left ≤ 2 ^ (left.log2 + 1) := nearest_le bits left
        _ ≤ 2 ^ right.log2 := Nat.pow_le_pow_right (Nat.succ_pos 1) less
        _ ≤ nearest bits right := le_nearest positive (by omega)
  | inr same =>
      rw [nearest, nearest, lastPlace, same]
      exact toMultiple_mono below

theorem nearest_double (bits num : Nat) : nearest bits (2 * num) = 2 * nearest bits num := by
  by_cases nonzero : num = 0
  · rw [nonzero, Nat.mul_zero, nearest_zero]
  unfold nearest lastPlace
  rw [Nat.log2_two_mul nonzero]
  by_cases short : num.log2 + 2 ≤ bits
  · rw [Nat.sub_eq_zero_of_le (by omega), Nat.sub_eq_zero_of_le (by omega), Nat.pow_zero,
      toMultiple_one, toMultiple_one]
  · have places : num.log2 + 1 + 1 - bits = num.log2 + 1 - bits + 1 := by omega
    rw [places, Nat.pow_succ, Nat.mul_comm _ 2]
    exact toMultiple_double _ num

end PostDns.Foundation.Rounding
