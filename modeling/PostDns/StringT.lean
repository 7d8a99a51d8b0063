/-
Counted strings (string_t.c).

A `string_t` is its `length` octets: the octets themselves are arbitrary, and
zero has no special meaning except to the C library functions that
`string_print` and its callers use.
-/

import Mathlib.Data.List.TakeWhile

namespace PostDns

/-- The `length` octets behind `value`. -/
abbrev StringT := List UInt8

def dot : UInt8 := 46

/-- The comparison loop of `string_equal`, after the lengths agree. -/
def stringEqualLoop : List UInt8 → List UInt8 → Bool
  | left :: lefts, right :: rights =>
      if left ≠ right then false else stringEqualLoop lefts rights
  | _, _ => true

def stringEqual (a b : StringT) : Bool :=
  if a.length ≠ b.length then false else stringEqualLoop a b

theorem stringEqual_iff (a b : StringT) : stringEqual a b = true ↔ a = b := by
  unfold stringEqual
  by_cases sameLength : a.length = b.length
  · rw [if_neg (not_not.mpr sameLength)]
    induction a generalizing b with
    | nil =>
        have empty : b = [] := List.length_eq_zero_iff.mp sameLength.symm
        subst empty
        simp [stringEqualLoop]
    | cons left lefts ih =>
        cases b with
        | nil => simp at sameLength
        | cons right rights =>
            have rest := ih rights (by simpa using sameLength)
            by_cases same : left = right
            · simp [stringEqualLoop, same, rest]
            · simp [stringEqualLoop, same]
  · rw [if_pos sameLength]
    constructor
    · intro impossible
      contradiction
    · intro same
      exact absurd (congrArg List.length same) sameLength

theorem stringEqual_eq_decide (a b : StringT) : stringEqual a b = decide (a = b) := by
  by_cases same : a = b
  · rw [decide_eq_true same]
    exact (stringEqual_iff a b).mpr same
  · rw [decide_eq_false same, ← Bool.not_eq_true]
    exact fun equal => same ((stringEqual_iff a b).mp equal)

/-! ### Hashing -/

def murmur32Scramble (k : UInt32) : UInt32 :=
  let k := k * 0xcc9e2d51
  let k := (k <<< 15) ||| (k >>> 17)
  k * 0x1b873593

/-- The four octets read by `memcpy` on a little-endian host. -/
def littleEndian32 (b0 b1 b2 b3 : UInt8) : UInt32 :=
  b0.toUInt32 ||| (b1.toUInt32 <<< 8) ||| (b2.toUInt32 <<< 16) |||
    (b3.toUInt32 <<< 24)

/-- The loop over whole groups of four, then the loop over the rest. -/
def murmur3Body (h : UInt32) : List UInt8 → UInt32
  | b0 :: b1 :: b2 :: b3 :: rest =>
      let h := h ^^^ murmur32Scramble (littleEndian32 b0 b1 b2 b3)
      let h := (h <<< 13) ||| (h >>> 19)
      murmur3Body (h * 5 + 0xe6546b64) rest
  | rest =>
      h ^^^ murmur32Scramble
        (rest.foldr (fun octet k => (k <<< 8) ||| octet.toUInt32) 0)

def murmur3_32 (key : List UInt8) (seed : UInt32) : UInt32 :=
  let h := murmur3Body seed key
  let h := h ^^^ UInt32.ofNat key.length
  let h := h ^^^ (h >>> 16)
  let h := h * 0x85ebca6b
  let h := h ^^^ (h >>> 13)
  let h := h * 0xc2b2ae35
  h ^^^ (h >>> 16)

/-- A non-negative `int`. -/
def stringHashCode (str : StringT) : Nat :=
  (murmur3_32 str 0x54623413 &&& 0x7fffffff).toNat

/-! ### Splitting -/

structure SplitArray where
  array : List StringT
  length : Nat

/-- `string_malloc(&str->value[start], count)`. -/
def stringSlice (str : StringT) (start count : Nat) : StringT :=
  (str.drop start).take count

/-- The counting loop of `string_split`. -/
def splitCount (separator : UInt8) : List UInt8 → Nat → Nat
  | [], length => length
  | letter :: rest, length =>
      splitCount separator rest (if letter = separator then length + 1 else length)

/-- The filling loop of `string_split` at index `i`, with the last piece that
follows it. -/
def splitFill (str : StringT) (separator : UInt8) :
    List UInt8 → Nat → Nat → List StringT
  | [], _, lastPos => [stringSlice str lastPos (str.length - lastPos)]
  | letter :: rest, i, lastPos =>
      if letter = separator then
        stringSlice str lastPos (i - lastPos) ::
          splitFill str separator rest (i + 1) (i + 1)
      else splitFill str separator rest (i + 1) lastPos

def stringSplit (str : StringT) (separator : UInt8) : SplitArray :=
  { array := splitFill str separator str 0 0
    length := splitCount separator str 1 }

theorem splitFill_eq_splitOn (str : StringT) (separator : UInt8)
    (front piece rest : List UInt8)
    (split : str = front ++ (piece ++ rest))
    (clean : separator ∉ piece) :
    splitFill str separator rest (front.length + piece.length) front.length =
      (piece ++ rest).splitOn separator := by
  induction rest generalizing front piece with
  | nil =>
      have slice : stringSlice str front.length (str.length - front.length) = piece := by
        subst split
        simp [stringSlice]
      rw [splitFill, slice, List.append_nil, List.splitOn_eq_singleton clean]
  | cons letter rest ih =>
      by_cases isSeparator : letter = separator
      · subst isSeparator
        have slice :
            stringSlice str front.length
              (front.length + piece.length - front.length) = piece := by
          subst split
          simp [stringSlice]
        have later := ih (front ++ (piece ++ [letter])) [] (by simp [split]) (by simp)
        have position :
            (front ++ (piece ++ [letter])).length = front.length + piece.length + 1 := by
          simp only [List.length_append, List.length_cons, List.length_nil]
          omega
        simp only [position, List.length_nil, Nat.add_zero, List.nil_append] at later
        rw [splitFill, if_pos rfl, slice, later,
          List.splitOn_append_cons_self_of_not_mem clean]
      · have later := ih front (piece ++ [letter]) (by simp [split]) (by
          simp only [List.mem_append, List.mem_singleton, not_or]
          exact ⟨clean, fun same => isSeparator same.symm⟩)
        have position :
            front.length + (piece ++ [letter]).length =
              front.length + piece.length + 1 := by
          simp only [List.length_append, List.length_cons, List.length_nil]
          omega
        rw [position] at later
        rw [splitFill, if_neg isSeparator, later]
        simp

theorem splitCount_eq (separator : UInt8) (str : List UInt8) (length : Nat) :
    splitCount separator str length + 1 =
      length + (str.splitOn separator).length := by
  induction str generalizing length with
  | nil => simp [splitCount]
  | cons letter rest ih =>
      rw [splitCount, ih, List.splitOn_cons_eq_if_modifyHead]
      by_cases isSeparator : letter = separator
      · simp only [isSeparator, if_pos, beq_self_eq_true, List.length_cons]
        omega
      · simp [isSeparator]

theorem stringSplit_array (str : StringT) (separator : UInt8) :
    (stringSplit str separator).array = str.splitOn separator := by
  simpa [stringSplit] using
    splitFill_eq_splitOn str separator [] [] str (by simp) (by simp)

theorem stringSplit_length (str : StringT) (separator : UInt8) :
    (stringSplit str separator).length = (stringSplit str separator).array.length := by
  have counted := splitCount_eq separator str 1
  rw [stringSplit_array]
  simp only [stringSplit]
  omega

/-! ### C strings -/

/-- What `printf("%s")` prints of `string_print(str)`: the octets up to the
first zero. -/
def stringPrint (str : StringT) : List UInt8 :=
  str.takeWhile (fun letter => letter ≠ 0)

theorem stringPrint_of_nonzero {str : StringT} (nonzero : (0 : UInt8) ∉ str) :
    stringPrint str = str := by
  apply List.takeWhile_eq_self_iff.mpr
  intro letter member
  exact decide_eq_true (fun isZero => nonzero (isZero ▸ member))

end PostDns
