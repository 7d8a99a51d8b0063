/-
The address texts that `uv_ip4_addr` accepts (libuv, inet.c).

`inet_pton4` takes exactly four decimal numbers below 256 with dots between them and
without leading zeros.  For every other text the address stays zero.
-/

import PostDns.Ipv4File
import PostDns.Initialised

namespace PostDns

open Foundation

/-! ### Decimal numbers -/

private theorem digit_octet :
    ∀ num < 10, UInt8.ofNat (Nat.digitChar num).toNat = UInt8.ofNat (48 + num) := by
  decide

theorem digitOctet_inRange :
    ∀ digit < 10, 48 ≤ UInt8.ofNat (48 + digit) ∧ UInt8.ofNat (48 + digit) ≤ 57 := by
  decide

theorem digitOctet_value : ∀ digit < 10, (UInt8.ofNat (48 + digit)).toNat - 48 = digit := by
  decide

theorem decimal_of_lt {num : Nat} (small : num < 10) :
    decimal num = [UInt8.ofNat (48 + num)] := by
  rw [decimal, Nat.toDigits_of_lt_base small, List.map_singleton, digit_octet num small]

theorem decimal_of_le {num : Nat} (large : 10 ≤ num) :
    decimal num = decimal (num / 10) ++ [UInt8.ofNat (48 + num % 10)] := by
  have last : num % 10 < 10 := Nat.mod_lt num (by decide)
  rw [decimal, Nat.toDigits_of_base_le (by decide) large, List.map_append,
    List.map_singleton, digit_octet _ last]
  rfl

/-! ### Dotted quads -/

def quadText (octets : List UInt8) : List UInt8 :=
  [dot].intercalate (octets.map fun octet => decimal octet.toNat)

def finishedParts (tmp : List UInt8) : List UInt8 :=
  tmp.flatMap fun octet => decimal octet.toNat ++ [dot]

theorem finishedParts_snoc (tmp : List UInt8) (tp : UInt8) :
    finishedParts (tmp ++ [tp]) = finishedParts tmp ++ (decimal tp.toNat ++ [dot]) := by
  simp [finishedParts]

theorem quadText_snoc (tmp : List UInt8) (tp : UInt8) :
    quadText (tmp ++ [tp]) = finishedParts tmp ++ decimal tp.toNat := by
  induction tmp with
  | nil => simp [quadText, finishedParts, List.intercalate]
  | cons octet tmp ih =>
      have later : quadText (octet :: (tmp ++ [tp])) =
          decimal octet.toNat ++ dot :: quadText (tmp ++ [tp]) := by
        cases tmp <;> simp [quadText, List.intercalate]
      rw [List.cons_append, later, ih]
      simp [finishedParts]

theorem decimal_digits {num : Nat} {letter : UInt8} (member : letter ∈ decimal num) :
    48 ≤ letter ∧ letter ≤ 57 := by
  induction num using Nat.strong_induction_on with
  | _ num ih =>
      by_cases oneDigit : num < 10
      · rw [decimal_of_lt oneDigit] at member
        rw [List.mem_singleton.mp member]
        exact digitOctet_inRange num oneDigit
      · rw [decimal_of_le (by omega)] at member
        cases List.mem_append.mp member with
        | inl front => exact ih (num / 10) (by omega) front
        | inr last =>
            rw [List.mem_singleton.mp last]
            exact digitOctet_inRange _ (Nat.mod_lt num (by decide))

theorem quadText_letters {octets : List UInt8} {letter : UInt8}
    (member : letter ∈ quadText octets) : letter = dot ∨ 48 ≤ letter ∧ letter ≤ 57 := by
  cases octets using List.reverseRecOn with
  | nil => cases member
  | append_singleton tmp tp =>
      rw [quadText_snoc, List.mem_append] at member
      cases member with
      | inl finished =>
          obtain ⟨octet, _, inPart⟩ := List.mem_flatMap.mp finished
          cases List.mem_append.mp inPart with
          | inl digits => exact Or.inr (decimal_digits digits)
          | inr isDot => exact Or.inl (List.mem_singleton.mp isDot)
      | inr digits => exact Or.inr (decimal_digits digits)

/-- No zero octet, line end or space is part of an address text. -/
theorem quadText_clean {octets : List UInt8} {letter : UInt8} (low : letter < dot) :
    letter ∉ quadText octets := by
  intro member
  have low' : letter.toNat < 46 := UInt8.lt_iff_toNat_lt.mp low
  cases quadText_letters member with
  | inl isDot =>
      rw [isDot] at low'
      exact absurd low' (by decide)
  | inr digits =>
      have atLeast : 48 ≤ letter.toNat := UInt8.le_iff_toNat_le.mp digits.1
      omega

theorem quadText_length_pos {octets : List UInt8} (four : octets.length = 4) :
    0 < (quadText octets).length := by
  obtain ⟨b0, b1, b2, b3, rfl⟩ := List.length_eq_four.mp four
  simp [quadText, List.intercalate]

/-- Four decimal numbers below 256, with dots between them. -/
def ValidQuad (ip : List UInt8) : Prop :=
  ∃ octets : List UInt8, octets.length = 4 ∧ ip = quadText octets

/-! ### The parser on a dotted quad -/

theorem inetPton4_firstDigit {digit octets : Nat} (isDigit : digit < 10)
    (room : octets < 4) (src tmp : List UInt8) :
    inetPton4 (UInt8.ofNat (48 + digit) :: src) false octets tmp 0 =
      inetPton4 src true (octets + 1) tmp (UInt8.ofNat digit) := by
  have number : (0 : UInt8).toNat * 10 + digit = digit := Nat.zero_add digit
  rw [inetPton4, if_pos (digitOctet_inRange digit isDigit)]
  simp only [digitOctet_value digit isDigit, number]
  rw [if_neg (by simp), if_neg (by omega), if_neg (by simp), if_neg (by omega)]

theorem inetPton4_laterDigit {digit : Nat} {tp : UInt8} (isDigit : digit < 10)
    (nonzero : tp ≠ 0) (small : tp.toNat * 10 + digit ≤ 255) (src : List UInt8)
    (octets : Nat) (tmp : List UInt8) :
    inetPton4 (UInt8.ofNat (48 + digit) :: src) true octets tmp tp =
      inetPton4 src true octets tmp (UInt8.ofNat (tp.toNat * 10 + digit)) := by
  rw [inetPton4, if_pos (digitOctet_inRange digit isDigit)]
  simp only [digitOctet_value digit isDigit]
  rw [if_neg (fun zero => nonzero zero.2), if_neg (by omega), if_pos trivial]

theorem inetPton4_dot {octets : Nat} (room : octets ≠ 4) (src tmp : List UInt8)
    (tp : UInt8) :
    inetPton4 (dot :: src) true octets tmp tp =
      inetPton4 src false octets (tmp ++ [tp]) 0 := by
  rw [inetPton4, if_neg (by decide), if_pos ⟨rfl, rfl⟩, if_neg room]

/-- One number, digit after digit. -/
theorem inetPton4_decimal {num octets : Nat} (small : num ≤ 255) (room : octets < 4)
    (src tmp : List UInt8) :
    inetPton4 (decimal num ++ src) false octets tmp 0 =
      inetPton4 src true (octets + 1) tmp (UInt8.ofNat num) := by
  induction num using Nat.strong_induction_on generalizing src with
  | _ num ih =>
      by_cases oneDigit : num < 10
      · rw [decimal_of_lt oneDigit, List.singleton_append,
          inetPton4_firstDigit oneDigit room]
      · have inOctet : num / 10 < 256 := by omega
        have front : (UInt8.ofNat (num / 10)).toNat = num / 10 :=
          UInt8.toNat_ofNat_of_lt' inOctet
        have nonzero : UInt8.ofNat (num / 10) ≠ 0 := by
          intro isZero
          rw [isZero] at front
          change 0 = num / 10 at front
          omega
        rw [decimal_of_le (by omega), List.append_assoc, List.singleton_append,
          ih (num / 10) (by omega) (by omega),
          inetPton4_laterDigit (Nat.mod_lt num (by decide)) nonzero (by omega), front]
        congr 2
        omega

theorem inetPton4_quadText {octets : List UInt8} (four : octets.length = 4) :
    inetPton4 (quadText octets) false 0 [] 0 = some octets := by
  obtain ⟨b0, b1, b2, b3, rfl⟩ : ∃ b0 b1 b2 b3, octets = [b0, b1, b2, b3] :=
    List.length_eq_four.mp four
  have size (octet : UInt8) : octet.toNat ≤ 255 := Nat.le_of_lt_succ octet.toNat_lt
  have text : quadText [b0, b1, b2, b3] =
      decimal b0.toNat ++ dot :: (decimal b1.toNat ++ dot :: (decimal b2.toNat ++
        dot :: (decimal b3.toNat ++ []))) := by
    simp [quadText, List.intercalate]
  rw [text, inetPton4_decimal (size b0) (by decide), inetPton4_dot (by decide),
    inetPton4_decimal (size b1) (by decide), inetPton4_dot (by decide),
    inetPton4_decimal (size b2) (by decide), inetPton4_dot (by decide),
    inetPton4_decimal (size b3) (by decide), inetPton4, if_neg (by decide)]
  simp only [UInt8.ofNat_toNat, List.nil_append, List.cons_append]

/-! ### Accepted texts -/

def openPart (sawDigit : Bool) (tp : UInt8) : List UInt8 :=
  if sawDigit then decimal tp.toNat else []

/-- Where the loop of `inet_pton4` stands in a text that it has accepted so far. -/
structure PartsRead (sawDigit : Bool) (octets : Nat) (tmp : List UInt8) (tp : UInt8) :
    Prop where
  counted : octets = tmp.length + if sawDigit then 1 else 0
  room : tmp.length ≤ 3
  unstarted : sawDigit = false → tp = 0

theorem digit_of_octet {ch : UInt8} (isDigit : 48 ≤ ch ∧ ch ≤ 57) :
    ch.toNat - 48 < 10 ∧ ch = UInt8.ofNat (48 + (ch.toNat - 48)) := by
  have lower := UInt8.le_iff_toNat_le.mp isDigit.1
  have upper := UInt8.le_iff_toNat_le.mp isDigit.2
  change 48 ≤ ch.toNat at lower
  change ch.toNat ≤ 57 at upper
  constructor
  · omega
  · rw [Nat.add_sub_cancel' lower, UInt8.ofNat_toNat]

/-- A digit behind a number that is not zero continues it. -/
theorem decimal_snoc {num digit : Nat} (nonzero : num ≠ 0) (isDigit : digit < 10) :
    decimal (num * 10 + digit) = decimal num ++ [UInt8.ofNat (48 + digit)] := by
  have front : (num * 10 + digit) / 10 = num := by omega
  have last : (num * 10 + digit) % 10 = digit := by omega
  rw [decimal_of_le (by omega), front, last]

theorem inetPton4_digit_eq_some {ch : UInt8} {src tmp dst : List UInt8} {sawDigit : Bool}
    {octets : Nat} {tp : UInt8} (read : PartsRead sawDigit octets tmp tp)
    (isDigit : 48 ≤ ch ∧ ch ≤ 57)
    (accepted : inetPton4 (ch :: src) sawDigit octets tmp tp = some dst) :
    ∃ octets' tp', PartsRead true octets' tmp tp' ∧
      inetPton4 src true octets' tmp tp' = some dst ∧
      openPart true tp' = openPart sawDigit tp ++ [ch] := by
  obtain ⟨small, spelled⟩ := digit_of_octet isDigit
  rw [inetPton4, if_pos isDigit] at accepted
  simp only at accepted
  by_cases leadingZero : sawDigit = true ∧ tp = 0
  · rw [if_pos leadingZero] at accepted
    cases accepted
  rw [if_neg leadingZero] at accepted
  by_cases large : 255 < tp.toNat * 10 + (ch.toNat - 48)
  · rw [if_pos large] at accepted
    cases accepted
  rw [if_neg large] at accepted
  have inOctet : tp.toNat * 10 + (ch.toNat - 48) < 256 := by omega
  have value : (UInt8.ofNat (tp.toNat * 10 + (ch.toNat - 48))).toNat =
      tp.toNat * 10 + (ch.toNat - 48) := UInt8.toNat_ofNat_of_lt' inOctet
  cases sawDigit with
  | true =>
      rw [if_pos rfl] at accepted
      have nonzero : tp.toNat ≠ 0 := fun isZero =>
        leadingZero ⟨rfl, UInt8.toNat.inj isZero⟩
      have after : PartsRead true octets tmp
          (UInt8.ofNat (tp.toNat * 10 + (ch.toNat - 48))) :=
        { counted := read.counted
          room := read.room
          unstarted := fun absent => by cases absent }
      refine ⟨_, _, after, accepted, ?_⟩
      simp only [openPart, if_true]
      rw [value, decimal_snoc nonzero small, ← spelled]
  | false =>
      rw [if_neg (by simp)] at accepted
      by_cases many : 4 < octets + 1
      · rw [if_pos many] at accepted
        cases accepted
      rw [if_neg many] at accepted
      have counted := read.counted
      have after : PartsRead true (octets + 1) tmp
          (UInt8.ofNat (tp.toNat * 10 + (ch.toNat - 48))) :=
        { counted := by rw [counted]; rfl
          room := read.room
          unstarted := fun absent => by cases absent }
      have number : tp.toNat * 10 + (ch.toNat - 48) = ch.toNat - 48 := by
        rw [read.unstarted rfl]
        exact Nat.zero_add _
      refine ⟨_, _, after, accepted, ?_⟩
      rw [openPart, if_pos rfl, value, number, decimal_of_lt small, ← spelled]
      rfl

theorem inetPton4_dot_eq_some {ch : UInt8} {src tmp dst : List UInt8} {sawDigit : Bool}
    {octets : Nat} {tp : UInt8} (read : PartsRead sawDigit octets tmp tp)
    (notDigit : ¬ (48 ≤ ch ∧ ch ≤ 57))
    (accepted : inetPton4 (ch :: src) sawDigit octets tmp tp = some dst) :
    ch = dot ∧ sawDigit = true ∧ PartsRead false octets (tmp ++ [tp]) 0 ∧
      inetPton4 src false octets (tmp ++ [tp]) 0 = some dst := by
  rw [inetPton4, if_neg notDigit] at accepted
  by_cases isDot : ch = dot ∧ sawDigit = true
  · rw [if_pos isDot] at accepted
    by_cases full : octets = 4
    · rw [if_pos full] at accepted
      cases accepted
    rw [if_neg full] at accepted
    have counted := read.counted
    have room := read.room
    rw [isDot.2, if_pos rfl] at counted
    have after : PartsRead false octets (tmp ++ [tp]) 0 :=
      { counted := by simpa using counted
        room := by
          rw [List.length_append, List.length_singleton]
          omega
        unstarted := fun _ => rfl }
    exact ⟨isDot.1, isDot.2, after, accepted⟩
  · rw [if_neg isDot] at accepted
    cases accepted

theorem inetPton4_sound {src tmp dst : List UInt8} {sawDigit : Bool} {octets : Nat}
    {tp : UInt8} (read : PartsRead sawDigit octets tmp tp)
    (accepted : inetPton4 src sawDigit octets tmp tp = some dst) :
    dst.length = 4 ∧
      quadText dst = finishedParts tmp ++ (openPart sawDigit tp ++ src) := by
  induction src generalizing sawDigit octets tmp tp with
  | nil =>
      rw [inetPton4] at accepted
      have counted := read.counted
      have room := read.room
      by_cases few : octets < 4
      · rw [if_pos few] at accepted
        cases accepted
      · rw [if_neg few] at accepted
        cases accepted
        cases sawDigit with
        | false =>
            simp only [Bool.false_eq_true, if_false] at counted
            omega
        | true =>
            simp only [if_true] at counted
            constructor
            · rw [List.length_append, List.length_singleton]
              omega
            · rw [quadText_snoc, List.append_nil]
              rfl
  | cons ch src ih =>
      by_cases isDigit : 48 ≤ ch ∧ ch ≤ 57
      · obtain ⟨octets', tp', after, rest, number⟩ :=
          inetPton4_digit_eq_some read isDigit accepted
        obtain ⟨four, text⟩ := ih after rest
        rw [number, List.append_assoc, List.singleton_append] at text
        exact ⟨four, text⟩
      · obtain ⟨isDot, saw, after, rest⟩ := inetPton4_dot_eq_some read isDigit accepted
        obtain ⟨four, text⟩ := ih after rest
        rw [isDot, saw, text, finishedParts_snoc]
        exact ⟨four, by simp [openPart]⟩

/-- The texts that `inet_pton4` accepts, with what it leaves in `tmp`. -/
theorem inetPton4_eq_some {ip octets : List UInt8} :
    inetPton4 ip false 0 [] 0 = some octets ↔
      octets.length = 4 ∧ ip = quadText octets := by
  constructor
  · intro accepted
    have start : PartsRead false 0 [] 0 :=
      { counted := rfl
        room := Nat.zero_le 3
        unstarted := fun _ => rfl }
    obtain ⟨four, text⟩ := inetPton4_sound start accepted
    exact ⟨four, text.symm⟩
  · intro spelled
    rw [spelled.2]
    exact inetPton4_quadText spelled.1

theorem validQuad_iff {ip : List UInt8} :
    ValidQuad ip ↔ (inetPton4 ip false 0 [] 0).isSome = true := by
  rw [Option.isSome_iff_exists]
  exact exists_congr fun octets => inetPton4_eq_some.symm

instance (ip : List UInt8) : Decidable (ValidQuad ip) :=
  decidable_of_iff _ validQuad_iff.symm

/-! ### The address that is left -/

theorem littleEndianInt_littleEndian32 (b0 b1 b2 b3 : UInt8) :
    littleEndianInt (littleEndian32 b0 b1 b2 b3) = [b0, b1, b2, b3] := by
  have first : (littleEndian32 b0 b1 b2 b3).toUInt8 = b0 := by
    apply octet_eq_of_bits
    intro i inRange
    interval_cases i <;> simp [littleEndian32]
  have second : (littleEndian32 b0 b1 b2 b3 >>> 8).toUInt8 = b1 := by
    apply octet_eq_of_bits
    intro i inRange
    interval_cases i <;> simp [littleEndian32]
  have third : (littleEndian32 b0 b1 b2 b3 >>> 16).toUInt8 = b2 := by
    apply octet_eq_of_bits
    intro i inRange
    interval_cases i <;> simp [littleEndian32]
  have fourth : (littleEndian32 b0 b1 b2 b3 >>> 24).toUInt8 = b3 := by
    apply octet_eq_of_bits
    intro i inRange
    interval_cases i <;> simp [littleEndian32]
  rw [littleEndianInt, first, second, third, fourth]

theorem littleEndianInt_uvIp4Addr {octets : List UInt8} (four : octets.length = 4) :
    littleEndianInt (uvIp4Addr (quadText octets)) = octets := by
  obtain ⟨b0, b1, b2, b3, rfl⟩ := List.length_eq_four.mp four
  unfold uvIp4Addr
  rw [inetPton4_quadText four]
  exact littleEndianInt_littleEndian32 b0 b1 b2 b3

/-- The address of a text that is no dotted quad is the one that `memset` has left. -/
theorem uvIp4Addr_of_invalid {ip : List UInt8} (invalid : ¬ ValidQuad ip) :
    uvIp4Addr ip = 0 := by
  unfold uvIp4Addr
  cases parsed : inetPton4 ip false 0 [] 0 with
  | none => rfl
  | some octets => exact absurd ⟨octets, inetPton4_eq_some.mp parsed⟩ invalid

theorem uvIp4Addr_octets_iff {ip octets : List UInt8} (four : octets.length = 4) :
    littleEndianInt (uvIp4Addr ip) = octets ↔
      ip = quadText octets ∨ (¬ ValidQuad ip ∧ octets = [0, 0, 0, 0]) := by
  constructor
  · intro same
    by_cases valid : ValidQuad ip
    · obtain ⟨others, otherFour, spelled⟩ := valid
      rw [spelled, littleEndianInt_uvIp4Addr otherFour] at same
      rw [spelled, same]
      exact Or.inl rfl
    · rw [uvIp4Addr_of_invalid valid] at same
      exact Or.inr ⟨valid, same.symm⟩
  · intro reads
    cases reads with
    | inl spelled => rw [spelled, littleEndianInt_uvIp4Addr four]
    | inr invalid =>
        rw [uvIp4Addr_of_invalid invalid.1, invalid.2]
        rfl

private theorem cutZeros_refused :
    ∀ size < 7, inetPton4 ((quadText [0, 0, 0, 0]).take size) false 0 [] 0 = none := by
  decide

/-- A dotted quad that is cut keeps its address only if the address is zero. -/
theorem uvIp4Addr_take_iff {octets : List UInt8} (four : octets.length = 4) {size : Nat}
    (cut : size < (quadText octets).length) :
    littleEndianInt (uvIp4Addr ((quadText octets).take size)) = octets ↔
      octets = [0, 0, 0, 0] := by
  rw [uvIp4Addr_octets_iff four]
  constructor
  · intro reads
    cases reads with
    | inl whole =>
        have length := congrArg List.length whole
        rw [List.length_take] at length
        omega
    | inr invalid => exact invalid.2
  · intro zeros
    apply Or.inr
    refine ⟨?_, zeros⟩
    intro valid
    have accepted := validQuad_iff.mp valid
    subst zeros
    rw [cutZeros_refused size cut] at accepted
    cases accepted

/-- The swap of the loader and the swap of the encoder cancel. -/
theorem split32_swap32 (x : UInt32) : split32 (swap32 x) = littleEndianInt x := by
  have reversed : split32 (swap32 x) = (littleEndianInt (swap32 x)).reverse := by
    rw [split32_eq_shift]
    rfl
  rw [reversed, littleEndianInt_swap32, split32_eq_shift]
  rfl

end PostDns
