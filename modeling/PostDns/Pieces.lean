/-
Every piece of a split string and every octet of a spelled name has its place
(string_t.c, `string_split`; message.c, `name2message`).

`string_split` counts the separators in one pass and fills its array in another;
the stores of the second pass are followed one by one, so that the two passes can
be compared.  `name2message` spells the pieces between dots into a buffer of twice
the length of the name and two octets more.
-/

import PostDns.RoundTrip
import PostDns.PacketBounds

namespace PostDns

open Foundation
open Foundation.Logged (Always)
open Rfc1035 (Label encodeLabels)

/-! ### The stores of the filling pass -/

/-- `result->array[pos] = string_malloc(&str->value[start], count)`. -/
structure PieceStore where
  pos : Nat
  start : Nat
  count : Nat

def PieceStore.piece (str : StringT) (store : PieceStore) : StringT :=
  stringSlice str store.start store.count

/-- The filling loop of `string_split` at index `i` and the store behind it, with
the slots they fill. -/
def splitStoresLoop (length : Nat) (separator : UInt8) :
    List UInt8 → Nat → Nat → Nat → List PieceStore
  | [], _, lastPos, pos => [{ pos := pos, start := lastPos, count := length - lastPos }]
  | letter :: rest, i, lastPos, pos =>
      if letter = separator then
        { pos := pos, start := lastPos, count := i - lastPos } ::
          splitStoresLoop length separator rest (i + 1) (i + 1) (pos + 1)
      else splitStoresLoop length separator rest (i + 1) lastPos pos

def splitStores (str : StringT) (separator : UInt8) : List PieceStore :=
  splitStoresLoop str.length separator str 0 0 0

theorem splitStoresLoop_piece (str : StringT) (separator : UInt8) (rest : List UInt8)
    (i lastPos pos : Nat) :
    (splitStoresLoop str.length separator rest i lastPos pos).map (PieceStore.piece str) =
      splitFill str separator rest i lastPos := by
  induction rest generalizing i lastPos pos with
  | nil => rfl
  | cons letter rest ih =>
      rw [splitStoresLoop, splitFill]
      by_cases isSeparator : letter = separator
      · rw [if_pos isSeparator, if_pos isSeparator, List.map_cons, ih]
        rfl
      · rw [if_neg isSeparator, if_neg isSeparator, ih]

/-- The slots are filled in order, one for each separator to come and one more. -/
theorem splitStoresLoop_pos (length : Nat) (separator : UInt8) (rest : List UInt8)
    (i lastPos pos : Nat) :
    (splitStoresLoop length separator rest i lastPos pos).map PieceStore.pos =
      List.range' pos (rest.count separator + 1) := by
  induction rest generalizing i lastPos pos with
  | nil => rfl
  | cons letter rest ih =>
      rw [splitStoresLoop]
      by_cases isSeparator : letter = separator
      · rw [if_pos isSeparator, List.map_cons, ih, isSeparator, List.count_cons_self]
        rfl
      · rw [if_neg isSeparator, ih, List.count_cons_of_ne isSeparator]

/-- No piece is read beyond the string it is cut from. -/
theorem splitStoresLoop_inside (length : Nat) (separator : UInt8) (rest : List UInt8)
    {i lastPos : Nat} (pos : Nat) (atIndex : i + rest.length = length)
    (behind : lastPos ≤ i) :
    ∀ store ∈ splitStoresLoop length separator rest i lastPos pos,
      store.start + store.count ≤ length := by
  induction rest generalizing i lastPos pos with
  | nil =>
      intro store member
      rw [splitStoresLoop, List.mem_singleton] at member
      subst member
      rw [List.length_nil] at atIndex
      change lastPos + (length - lastPos) ≤ length
      omega
  | cons letter rest ih =>
      rw [List.length_cons] at atIndex
      intro store member
      rw [splitStoresLoop] at member
      by_cases isSeparator : letter = separator
      · rw [if_pos isSeparator] at member
        cases List.mem_cons.mp member with
        | inl here =>
            subst here
            change lastPos + (i - lastPos) ≤ length
            omega
        | inr later => exact ih (pos + 1) (by omega) (Nat.le_refl _) store later
      · rw [if_neg isSeparator] at member
        exact ih pos (by omega) (by omega) store member

theorem splitCount_eq_count (separator : UInt8) (str : List UInt8) (length : Nat) :
    splitCount separator str length = length + str.count separator := by
  induction str generalizing length with
  | nil => rfl
  | cons letter rest ih =>
      rw [splitCount, ih]
      by_cases isSeparator : letter = separator
      · rw [if_pos isSeparator, isSeparator, List.count_cons_self]
        omega
      · rw [if_neg isSeparator, List.count_cons_of_ne isSeparator]

theorem splitStores_piece (str : StringT) (separator : UInt8) :
    (splitStores str separator).map (PieceStore.piece str) =
      (stringSplit str separator).array :=
  splitStoresLoop_piece str separator str 0 0 0

theorem splitStores_pos (str : StringT) (separator : UInt8) :
    (splitStores str separator).map PieceStore.pos =
      List.range (stringSplit str separator).length := by
  have counted : (stringSplit str separator).length = str.count separator + 1 := by
    change splitCount separator str 1 = _
    rw [splitCount_eq_count]
    omega
  rw [splitStores, splitStoresLoop_pos, counted, List.range_eq_range']

structure SplitInto (str : StringT) (separator : UInt8) (split : SplitArray)
    (stores : List PieceStore) : Prop where
  counted : split.length = str.count separator + 1
  filled : stores.map PieceStore.pos = List.range split.length
  stored : stores.map (PieceStore.piece str) = split.array
  inside : ∀ store ∈ stores, store.start + store.count ≤ str.length
  separatorFree : ∀ piece ∈ split.array, separator ∉ piece
  joined : [separator].intercalate split.array = str

theorem not_mem_of_mem_splitOn (separator : UInt8) (str : List UInt8) :
    ∀ piece ∈ str.splitOn separator, separator ∉ piece := by
  induction str with
  | nil =>
      intro piece member
      rw [List.splitOn_nil, List.mem_singleton] at member
      subst member
      exact List.not_mem_nil
  | cons letter rest ih =>
      rw [List.splitOn_cons_eq_if_modifyHead]
      by_cases isSeparator : letter = separator
      · rw [if_pos (beq_iff_eq.mpr isSeparator)]
        intro piece member
        cases List.mem_cons.mp member with
        | inl empty =>
            subst empty
            exact List.not_mem_nil
        | inr later => exact ih piece later
      · rw [if_neg (fun same => isSeparator (beq_iff_eq.mp same))]
        cases split : rest.splitOn separator with
        | nil => exact absurd split (List.splitOn_ne_nil separator rest)
        | cons first others =>
            rw [split] at ih
            intro piece member
            rw [List.modifyHead_cons] at member
            cases List.mem_cons.mp member with
            | inl longer =>
                subst longer
                have clean := ih first List.mem_cons_self
                rw [List.mem_cons, not_or]
                exact ⟨fun same => isSeparator same.symm, clean⟩
            | inr later => exact ih piece (List.mem_cons_of_mem first later)

theorem stringSplit_inverts_join (separator : UInt8) :
    (∀ str : StringT,
      SplitInto str separator (stringSplit str separator) (splitStores str separator)) ∧
    ∀ pieces : List StringT, pieces ≠ [] → (∀ piece ∈ pieces, separator ∉ piece) →
      (stringSplit ([separator].intercalate pieces) separator).array = pieces := by
  constructor
  · intro str
    constructor
    · change splitCount separator str 1 = _
      rw [splitCount_eq_count]
      omega
    · exact splitStores_pos str separator
    · exact splitStores_piece str separator
    · exact splitStoresLoop_inside str.length separator str 0 (by omega) (Nat.le_refl 0)
    · rw [stringSplit_array]
      exact not_mem_of_mem_splitOn separator str
    · rw [stringSplit_array]
      exact List.intercalate_splitOn separator
  · intro pieces nonempty free
    rw [stringSplit_array]
    exact List.splitOn_intercalate separator free nonempty

theorem stringSplit_inverts_join_adjacent :
    (stringSplit [46, 46, 97, 46] dot).array = [[], [], [97], []] :=
  (stringSplit_inverts_join dot).2 [[], [], [97], []] (by decide) (by decide)

/-! ### Spelling the pieces -/

def Access.InOutput (length : Nat) (access : Access) : Prop :=
  ∃ index : Nat, access = .write (.output length) index ∧ index < 2 * length + 2

theorem memcpyTo_inOutput {length : Nat} (cells : Nat → UInt8) {position : Nat}
    {octets : List UInt8} (room : position + octets.length ≤ 2 * length + 2) :
    Always (Access.InOutput length) (memcpyTo (.output length) cells position octets) := by
  intro access member
  obtain ⟨index, inRange, rfl⟩ := mem_memcpyTo_log.mp member
  exact ⟨position + index, rfl, by omega⟩

/-- The loop stays inside when the zero octet behind the last token does. -/
theorem name2messageLoop_inOutput (junk : Nat → UInt8) {length : Nat}
    (done tokens : List StringT) {current : Nat} (output : Nat → UInt8)
    (room : current + (spelledTokens junk current tokens).length < 2 * length + 2) :
    Always (Access.InOutput length)
      (name2messageLoop length (done ++ tokens) tokens.length done.length current
        output) := by
  induction tokens generalizing done current output with
  | nil => exact Logged.always_pure _ _
  | cons token tokens ih =>
      have here : (done ++ token :: tokens)[done.length]? = some token := by
        simp
      have printed : (stringPrint token).length ≤ token.length :=
        (List.takeWhile_prefix _).length_le
      rw [spelledTokens, List.length_append, tokenOctets_length] at room
      rw [List.length_cons, name2messageLoop, here]
      rw [Logged.always_bind_of_ok (memcpyTo_out _ _ _ _)]
      constructor
      · apply memcpyTo_inOutput
        rw [List.length_cons, List.length_append, List.length_singleton]
        omega
      · have inside : current + token.length + 1 +
            (spelledTokens junk (current + token.length + 1) tokens).length <
              2 * length + 2 := by
          omega
        have later := ih (done ++ [token]) (overlay output current
            (UInt8.ofNat token.length :: (stringPrint token ++ [0]))) inside
        rw [List.length_append, List.length_singleton, List.append_assoc] at later
        exact later

/-- The two zero octets behind the last token are the ones that need a name. -/
theorem name2message_inOutput (junk : Nat → UInt8) {domainName : StringT}
    (nonempty : 1 ≤ domainName.length) :
    Always (Access.InOutput domainName.length) (name2message junk domainName) := by
  have size := spelledTokens_length junk 0 (domainName.splitOn dot)
    (List.splitOn_ne_nil dot domainName)
  rw [List.intercalate_splitOn] at size
  have initial : TokensWritten junk [] junk :=
    { starts := Starts.nil junk
      untouched := fun _ _ => rfl }
  obtain ⟨finished, run, -⟩ := name2messageLoop_out junk domainName.length []
    (domainName.splitOn dot) initial
  have loop := @name2messageLoop_inOutput junk domainName.length []
    (domainName.splitOn dot) 0 junk (by omega)
  simp only [List.nil_append, List.length_nil] at run loop
  rw [name2message, stringSplit_length, stringSplit_array, Logged.always_bind_of_ok run]
  constructor
  · exact loop
  · change Always _ (memcpyTo _ finished (spelledTokens junk 0 _).length [0] >>= _)
    rw [size, Logged.always_bind_of_ok (memcpyTo_out _ _ _ _)]
    constructor
    · apply memcpyTo_inOutput
      rw [List.length_singleton]
      omega
    · apply memcpyTo_inOutput
      rw [List.length_singleton]
      omega

theorem name2message_exact (junk : Nat → UInt8) {labels : List Label}
    (host : HostLabels labels) :
    Always (Access.InOutput (dotJoin labels).length)
        (name2message junk (dotJoin labels)) ∧
      (transferName junk (dotJoin labels)).out = .ok (encodeLabels labels) ∧
      (encodeLabels labels).length = (dotJoin labels).length + 2 := by
  have size := dotJoin_length host.nonempty
  have least : 1 ≤ (dotJoin labels).length := by
    cases labels with
    | nil => exact absurd rfl host.nonempty
    | cons label rest =>
        have labelSize := (host.sizes label List.mem_cons_self).1
        rw [Rfc1035.nameLength, List.map_cons, List.sum_cons] at size
        omega
  constructor
  · exact name2message_inOutput junk least
  · constructor
    · exact transferName_dotJoin junk host.rejoinable
    · rw [Rfc1035.encodeLabels_length, size]

theorem name2message_exact_two :
    Always (Access.InOutput 4) (name2message (fun _ => 255) [97, 46, 98, 99]) ∧
      (transferName (fun _ => 255) [97, 46, 98, 99]).out = .ok [1, 97, 2, 98, 99, 0] ∧
      [1, 97, 2, 98, 99, (0 : UInt8)].length = 4 + 2 :=
  @name2message_exact (fun _ => 255) [[97], [98, 99]]
    { nonempty := by decide
      sizes := by decide
      noDots := by decide
      noZeros := by decide }

end PostDns
