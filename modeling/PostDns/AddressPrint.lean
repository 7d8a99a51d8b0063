/-
The address texts that the program writes (utils.c).

The text of an IPv4 address is a dotted quad, and the loader of the configuration file reads
exactly these texts, each as the address that it is the text of.  The text of an IPv6 address
tells the address.  Neither is longer than the array that it is collected in.
-/

import PostDns.DottedQuad

namespace PostDns

open Foundation

/-! ### IPv4 addresses -/

def loadedAddress (text : List UInt8) : UInt32 :=
  swap32 (uvIp4Addr text)

/-- The octets are written as they stand in a record. -/
theorem inet4address2string_eq (address : UInt32) :
    inet4address2string address = quadText (split32 address) := by
  rw [split32_eq_shift]
  rfl

/-- The octets of the loaded address are those of the text. -/
theorem split32_loadedAddress {octets : List UInt8} (four : octets.length = 4) :
    split32 (loadedAddress (quadText octets)) = octets := by
  rw [loadedAddress, split32_swap32, littleEndianInt_uvIp4Addr four]

theorem inet4address2string_loadedAddress {text : List UInt8} (valid : ValidQuad text) :
    inet4address2string (loadedAddress text) = text := by
  obtain ⟨octets, four, isText⟩ := valid
  rw [isText, inet4address2string_eq, split32_loadedAddress four]

theorem loadedAddress_inet4address2string (address : UInt32) :
    loadedAddress (inet4address2string address) = address := by
  apply split32_injective
  rw [inet4address2string_eq, split32_loadedAddress (split32_length address)]

theorem validQuad_inet4address2string (address : UInt32) :
    ValidQuad (inet4address2string address) :=
  ⟨split32 address, split32_length address, inet4address2string_eq address⟩

private theorem decimal_short : ∀ num < 256, (decimal num).length ≤ 3 := by
  decide +kernel

theorem inet4address2string_length (address : UInt32) :
    (inet4address2string address).length ≤ 15 := by
  have short (octet : UInt8) : (decimal octet.toNat).length ≤ 3 :=
    decimal_short octet.toNat octet.toNat_lt
  have first := short (address >>> 24).toUInt8
  have second := short (address >>> 16).toUInt8
  have third := short (address >>> 8).toUInt8
  have fourth := short address.toUInt8
  simp only [inet4address2string, littleEndianInt, List.intercalate, List.reverse_cons,
    List.reverse_nil, List.nil_append, List.cons_append, List.map_cons, List.map_nil,
    List.intersperse_cons_cons, List.intersperse_singleton, List.flatten_cons,
    List.flatten_nil, List.length_append, List.length_cons, List.length_nil]
  omega

/-! ### IPv6 addresses -/

def inet6Part (entry : UInt8 × Nat) : StringT :=
  hexPair entry.1.toNat ++ if entry.2 < 15 ∧ entry.2 % 2 = 1 then [58] else []

theorem inet6address2string_eq (address : List UInt8) :
    inet6address2string address = address.zipIdx.flatMap inet6Part := rfl

private theorem hexDigit_injective :
    ∀ left < 16, ∀ right < 16,
      UInt8.ofNat (Nat.digitChar left).toNat = UInt8.ofNat (Nat.digitChar right).toNat →
        left = right := by
  decide +kernel

theorem hexPair_injective {left right : UInt8}
    (same : hexPair left.toNat = hexPair right.toNat) : left = right := by
  simp only [hexPair, List.map_cons, List.map_nil, List.cons.injEq] at same
  have high := hexDigit_injective _ (Nat.mod_lt _ (Nat.succ_pos 15)) _
    (Nat.mod_lt _ (Nat.succ_pos 15)) same.1
  have low := hexDigit_injective _ (Nat.mod_lt _ (Nat.succ_pos 15)) _
    (Nat.mod_lt _ (Nat.succ_pos 15)) same.2.1
  apply UInt8.toNat.inj
  have leftBound := left.toNat_lt
  have rightBound := right.toNat_lt
  omega

theorem inet6Part_length (octet : UInt8) (index : Nat) :
    (inet6Part (octet, index)).length = 2 + if index < 15 ∧ index % 2 = 1 then 1 else 0 := by
  unfold inet6Part
  split_ifs
  · rfl
  · rfl

/-- The parts are as wide in one text as in the other. -/
theorem inet6Parts_injective {left right : List UInt8} (size : left.length = right.length)
    (index : Nat) (same : (left.zipIdx index).flatMap inet6Part =
      (right.zipIdx index).flatMap inet6Part) : left = right := by
  induction left generalizing right index with
  | nil => exact (List.length_eq_zero_iff.mp size.symm).symm
  | cons octet left ih =>
      cases right with
      | nil => cases size
      | cons octet' right =>
          rw [List.zipIdx_cons, List.zipIdx_cons, List.flatMap_cons, List.flatMap_cons] at same
          have width : (inet6Part (octet, index)).length = (inet6Part (octet', index)).length := by
            rw [inet6Part_length, inet6Part_length]
          obtain ⟨first, later⟩ := List.append_inj same width
          have isSame : octet = octet' :=
            hexPair_injective (List.append_inj_left' first rfl)
          rw [isSame, ih (Nat.succ.inj size) (index + 1) later]

theorem inet6Parts_length (address : List UInt8) (index : Nat) :
    ((address.zipIdx index).flatMap inet6Part).length =
      ((List.range' index address.length).map fun index =>
        2 + if index < 15 ∧ index % 2 = 1 then 1 else 0).sum := by
  induction address generalizing index with
  | nil => rfl
  | cons octet address ih =>
      rw [List.zipIdx_cons, List.flatMap_cons, List.length_append, ih, inet6Part_length,
        List.length_cons, List.range'_succ, List.map_cons, List.sum_cons]

theorem inet6address2string_length {address : List UInt8} (size : address.length = 16) :
    (inet6address2string address).length = 39 := by
  rw [inet6address2string_eq, inet6Parts_length, size]
  rfl

/-! ### Round trips -/

/-- `uv_ip4_addr` returns zero for the text. -/
def UvIp4Accepts (text : List UInt8) : Prop :=
  (inetPton4 text false 0 [] 0).isSome = true

/-- `uv_ip4_addr` accepts exactly the texts that the program writes, and leaves zero for any
other; reading and writing undo each other, and a written IPv6 address tells the address.  The
arrays for the texts have 20 and 60 octets. -/
theorem addressTexts_tell :
    (∀ text, UvIp4Accepts text ↔ ∃ address, inet4address2string address = text) ∧
    (∀ text, UvIp4Accepts text → inet4address2string (loadedAddress text) = text) ∧
    (∀ text, ¬ UvIp4Accepts text → loadedAddress text = 0) ∧
    (∀ address, inet4address2string address = quadText (split32 address) ∧
      loadedAddress (inet4address2string address) = address ∧
      (inet4address2string address).length < 20) ∧
    (∀ left right : List UInt8, left.length = 16 → right.length = 16 →
      (inet6address2string left = inet6address2string right ↔ left = right) ∧
      (inet6address2string left).length < 60) := by
  refine ⟨?_, ?_, ?_, ?_, ?_⟩
  · intro text
    constructor
    · intro accepted
      exact ⟨loadedAddress text, inet4address2string_loadedAddress (validQuad_iff.mpr accepted)⟩
    · intro written
      obtain ⟨address, isText⟩ := written
      rw [← isText]
      exact validQuad_iff.mp (validQuad_inet4address2string address)
  · exact fun text accepted => inet4address2string_loadedAddress (validQuad_iff.mpr accepted)
  · intro text refused
    have mistyped : ¬ ValidQuad text := fun valid => refused (validQuad_iff.mp valid)
    rw [loadedAddress, uvIp4Addr_of_invalid mistyped]
    rfl
  · intro address
    have short := inet4address2string_length address
    exact ⟨inet4address2string_eq address, loadedAddress_inet4address2string address, by omega⟩
  · intro left right leftSize rightSize
    constructor
    · constructor
      · intro same
        exact inet6Parts_injective (leftSize.trans rightSize.symm) 0 same
      · intro same
        rw [same]
    · rw [inet6address2string_length leftSize]
      decide

end PostDns
