/-
Joining and swapping octets (utils.c).

`char` is signed on the modelled host, so an octet is sign-extended before the
shifts that join it.  The host is little-endian.
-/

import PostDns.Foundation.Octets
import Mathlib.Tactic.IntervalCases

namespace PostDns

open Foundation

/-- Integer promotion of a signed `char`, as a 32-bit pattern. -/
def promote (letter : UInt8) : UInt32 :=
  if letter < 128 then letter.toUInt32 else 0xffffff00 ||| letter.toUInt32

def char2Short (high low : UInt8) : UInt16 :=
  (((0 ||| promote high) <<< 8) ||| (promote low &&& 0xff)).toUInt16

/-- `((0 | high) << 16) | (low & 0xFFFF)` on two `unsigned short`s. -/
def shorts2Int (high low : UInt16) : UInt32 :=
  ((0 ||| high.toUInt32) <<< 16) ||| (low.toUInt32 &&& 0xffff)

def swap16 (x : UInt16) : UInt16 := (x <<< 8) ||| (x >>> 8)

def swap32 (x : UInt32) : UInt32 :=
  let x := (x <<< 16) ||| (x >>> 16)
  ((x &&& 0x00ff00ff) <<< 8) ||| ((x >>> 8) &&& 0x00ff00ff)

def littleEndian16 (x : UInt16) : List UInt8 := [x.toUInt8, (x >>> 8).toUInt8]

def littleEndianInt (x : UInt32) : List UInt8 :=
  [x.toUInt8, (x >>> 8).toUInt8, (x >>> 16).toUInt8, (x >>> 24).toUInt8]

/-! ### The value of the joins -/

private theorem promote_shift_byte :
    ∀ value < 256,
      ((0 ||| promote (UInt8.ofNat value)) <<< 8).toUInt16 =
        UInt16.ofNat (256 * value) := by
  decide +kernel

private theorem promote_mask_byte :
    ∀ value < 256,
      (promote (UInt8.ofNat value) &&& 0xff).toUInt16 = UInt16.ofNat value := by
  decide +kernel

theorem char2Short_eq_join16 (high low : UInt8) : char2Short high low = join16 high low := by
  have highPart := promote_shift_byte high.toNat high.toNat_lt
  have lowPart := promote_mask_byte low.toNat low.toNat_lt
  rw [UInt8.ofNat_toNat] at highPart lowPart
  unfold char2Short
  rw [UInt32.toUInt16_or, highPart, lowPart]
  apply UInt16.toNat.inj
  have highBound := high.toNat_lt
  have lowBound := low.toNat_lt
  simp only [join16, UInt16.toNat_or, UInt16.toNat_ofNat']
  rw [Nat.mod_eq_of_lt (by omega), Nat.mod_eq_of_lt (by omega),
    Nat.mod_eq_of_lt (by omega)]
  have shifted : 256 * high.toNat = high.toNat <<< 8 := by
    rw [Nat.shiftLeft_eq]
    omega
  rw [shifted, ← Nat.shiftLeft_add_eq_or_of_lt (by omega)]

theorem shorts2Int_eq_join32 (high low : UInt16) : shorts2Int high low = join32 high low := by
  apply UInt32.toNat.inj
  have highBound := high.toNat_lt
  have lowBound := low.toNat_lt
  have masked : (low.toUInt32 &&& 0xffff).toNat = low.toNat := by
    rw [UInt32.toNat_and]
    change low.toNat &&& (2 ^ 16 - 1) = low.toNat
    rw [Nat.and_two_pow_sub_one_eq_mod]
    exact Nat.mod_eq_of_lt lowBound
  have shifted : ((0 ||| high.toUInt32) <<< 16).toNat = high.toNat <<< 16 := by
    have whole : high.toNat <<< 16 < 2 ^ 32 := by
      rw [Nat.shiftLeft_eq]
      omega
    simp only [UInt32.toNat_shiftLeft, UInt32.toNat_or]
    simpa using whole
  unfold shorts2Int
  rw [UInt32.toNat_or, masked, shifted, ← Nat.shiftLeft_add_eq_or_of_lt lowBound,
    Nat.shiftLeft_eq]
  simp only [join32, UInt32.toNat_ofNat']
  omega

/-! ### The octets of the swaps -/

theorem octet_eq_of_bits {left right : UInt8}
    (same : ∀ i < 8, left.toBitVec.getLsbD i = right.toBitVec.getLsbD i) :
    left = right :=
  UInt8.toBitVec_inj.mp (BitVec.eq_of_getLsbD_eq same)

theorem split16_eq_shift (x : UInt16) : split16 x = [(x >>> 8).toUInt8, x.toUInt8] := by
  have high : UInt8.ofNat (x.toNat / 256) = (x >>> 8).toUInt8 := by
    apply UInt8.toNat.inj
    simp [UInt16.toNat_shiftRight, Nat.shiftRight_eq_div_pow]
  have low : UInt8.ofNat x.toNat = x.toUInt8 := by
    apply UInt8.toNat.inj
    simp
  rw [split16, high, low]

theorem split32_eq_shift (x : UInt32) :
    split32 x =
      [(x >>> 24).toUInt8, (x >>> 16).toUInt8, (x >>> 8).toUInt8, x.toUInt8] := by
  have highPart : highHalf x = (x >>> 16).toUInt16 := by
    apply UInt16.toNat.inj
    simp [highHalf, UInt32.toNat_shiftRight, Nat.shiftRight_eq_div_pow]
  have lowPart : lowHalf x = x.toUInt16 := by
    apply UInt16.toNat.inj
    simp [lowHalf]
  have first : ((x >>> 16).toUInt16 >>> 8).toUInt8 = (x >>> 24).toUInt8 := by
    apply octet_eq_of_bits
    intro i inRange
    interval_cases i <;> simp
  have second : (x >>> 16).toUInt16.toUInt8 = (x >>> 16).toUInt8 := by
    apply octet_eq_of_bits
    intro i inRange
    interval_cases i <;> simp
  have third : (x.toUInt16 >>> 8).toUInt8 = (x >>> 8).toUInt8 := by
    apply octet_eq_of_bits
    intro i inRange
    interval_cases i <;> simp
  rw [split32, split16_eq_shift, split16_eq_shift, highPart, lowPart, first, second,
    third]
  simp

theorem littleEndian16_swap16 (x : UInt16) :
    littleEndian16 (swap16 x) = split16 x := by
  have first : (swap16 x).toUInt8 = (x >>> 8).toUInt8 := by
    apply octet_eq_of_bits
    intro i inRange
    interval_cases i <;> simp [swap16]
  have second : (swap16 x >>> 8).toUInt8 = x.toUInt8 := by
    apply octet_eq_of_bits
    intro i inRange
    interval_cases i <;> simp [swap16]
  rw [split16_eq_shift, littleEndian16, first, second]

theorem littleEndianInt_swap32 (x : UInt32) :
    littleEndianInt (swap32 x) = split32 x := by
  have first : (swap32 x).toUInt8 = (x >>> 24).toUInt8 := by
    apply octet_eq_of_bits
    intro i inRange
    interval_cases i <;> simp [swap32]
  have second : (swap32 x >>> 8).toUInt8 = (x >>> 16).toUInt8 := by
    apply octet_eq_of_bits
    intro i inRange
    interval_cases i <;> simp [swap32]
  have third : (swap32 x >>> 16).toUInt8 = (x >>> 8).toUInt8 := by
    apply octet_eq_of_bits
    intro i inRange
    interval_cases i <;> simp [swap32]
  have fourth : (swap32 x >>> 24).toUInt8 = x.toUInt8 := by
    apply octet_eq_of_bits
    intro i inRange
    interval_cases i <;> simp [swap32]
  rw [split32_eq_shift, littleEndianInt, first, second, third, fourth]

end PostDns
