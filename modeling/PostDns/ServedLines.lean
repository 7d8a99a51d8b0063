/-
The lines of the configuration file as they are served (ipv4_cache.c, `ipv4_read_file`).

The loader drops the last octet of every piece that it reads.  That is the line end only
if the line has one and the piece reaches it; otherwise it is the last octet of a part of
the address.
-/

import PostDns.Configured
import PostDns.DottedQuad
import PostDns.EncodeSemantics
import PostDns.Growth

namespace PostDns

open Foundation

/-! ### Lines of a domain and an address -/

structure AddressLine where
  domain : StringT
  octets : List UInt8
  nonempty : domain ≠ []
  noSpace : (32 : UInt8) ∉ domain
  noLineEnd : (10 : UInt8) ∉ domain
  four : octets.length = 4

namespace AddressLine

variable (line : AddressLine)

def text : List UInt8 := line.domain ++ 32 :: quadText line.octets

def inFile (ended : Bool) : List UInt8 :=
  line.text ++ if ended then [10] else []

theorem text_single : (10 : UInt8) ∉ line.text := by
  intro inside
  cases List.mem_append.mp inside with
  | inl inDomain => exact line.noLineEnd inDomain
  | inr later =>
      cases List.mem_cons.mp later with
      | inl isSpace => exact absurd isSpace (by decide)
      | inr inQuad => exact quadText_clean (by decide) inQuad

theorem text_length :
    line.text.length = line.domain.length + 1 + (quadText line.octets).length := by
  rw [text, List.length_append, List.length_cons]
  omega

/-- How many letters of the address are left in the first piece without its last octet. -/
def kept (ended : Bool) : Nat :=
  if ended = true ∧ line.text.length ≤ 1022 then (quadText line.octets).length
  else min ((quadText line.octets).length - 1) (1021 - line.domain.length)

theorem kept_lt {ended : Bool} (cut : ¬ (ended = true ∧ line.text.length ≤ 1022)) :
    line.kept ended < (quadText line.octets).length := by
  have some := quadText_length_pos line.four
  rw [kept, if_neg cut]
  omega

theorem text_take {size : Nat} (past : line.domain.length < size) :
    line.text.take size = line.domain ++
      32 :: (quadText line.octets).take (size - line.domain.length - 1) := by
  rw [text, List.take_append, List.take_of_length_le (Nat.le_of_lt past),
    List.take_cons (by omega)]

theorem firstPiece {ended : Bool} (short : line.domain.length ≤ 1021) :
    (fgets 1023 (line.inFile ended)).1.dropLast =
      line.domain ++ 32 :: (quadText line.octets).take (line.kept ended) := by
  have size := line.text_length
  have some := quadText_length_pos line.four
  by_cases whole : line.text.length ≤ 1022
  · cases ended with
    | true =>
        have read := fgets_line line.text_single (Nat.lt_succ_of_le whole) []
        rw [inFile, if_pos rfl, read, kept, if_pos ⟨rfl, whole⟩, List.take_length,
          List.dropLast_concat]
        rfl
    | false =>
        have read := fgets_unended line.text_single (Nat.le_succ_of_le whole)
        have left : line.text.length - 1 - line.domain.length - 1 =
            (quadText line.octets).length - 1 := by
          omega
        have fits : (quadText line.octets).length - 1 ≤ 1021 - line.domain.length := by
          omega
        rw [inFile, if_neg (by decide), List.append_nil, read, kept,
          if_neg (fun both => absurd both.1 (by decide)), Nat.min_eq_left fits]
        change line.text.dropLast = _
        rw [List.dropLast_eq_take, line.text_take (by omega), left]
  · have long : 1023 ≤ line.text.length := by omega
    have read := fgets_long line.text_single long (if ended then [10] else [])
    have left : 1022 - line.domain.length - 1 = 1021 - line.domain.length := by omega
    have atMost : 1021 - line.domain.length ≤ (quadText line.octets).length - 1 := by omega
    have taken : (line.text.take 1023).dropLast = line.text.take 1022 := by
      rw [List.dropLast_eq_take, List.length_take, Nat.min_eq_left long, List.take_take]
      rfl
    rw [inFile, read, taken, kept, if_neg (fun both => whole both.2),
      Nat.min_eq_right atMost, line.text_take (by omega), left]

theorem inFile_eq (ended : Bool) :
    line.inFile ended =
      line.domain ++ 32 :: (quadText line.octets ++ if ended then [10] else []) := by
  rw [inFile, text, List.append_assoc]
  rfl

theorem inFile_ne_nil (ended : Bool) : line.inFile ended ≠ [] := by
  rw [line.inFile_eq]
  simp

/-- What stands behind the space is the address and the line end. -/
theorem address_clean {ended : Bool} {letter : UInt8} (low : letter < dot)
    (notEnd : letter ≠ 10) :
    letter ∉ quadText line.octets ++ if ended then [10] else [] := by
  intro inside
  cases List.mem_append.mp inside with
  | inl inQuad => exact quadText_clean low inQuad
  | inr isEnd =>
      cases ended with
      | true => exact notEnd (List.mem_singleton.mp isEnd)
      | false => cases isEnd

/-- What `fgets` leaves of the line is part of the address. -/
theorem firstPiece_rest {ended : Bool} (short : line.domain.length ≤ 1021) :
    (32 : UInt8) ∉ (fgets 1023 (line.inFile ended)).2 := by
  have whole := fgets_append 1023 (line.inFile ended)
  have piece := List.dropLast_concat_getLast (fgets_ne_nil 1022 (line.inFile_ne_nil ended))
  rw [line.firstPiece short] at piece
  rw [← piece] at whole
  conv_rhs at whole => rw [line.inFile_eq]
  rw [List.append_assoc, List.append_assoc] at whole
  have later := List.append_cancel_left whole
  rw [List.cons_append, List.cons.injEq] at later
  intro inside
  apply @address_clean line ended 32 (by decide) (by decide)
  rw [← later.2]
  exact List.mem_append_right _ (List.mem_append_right _ inside)

end AddressLine

/-! ### Entries -/

variable {env : Env}

theorem splitLine_words {domain token : StringT} (noSpace : (32 : UInt8) ∉ domain)
    (lastWord : (32 : UInt8) ∉ token) :
    splitLine (domain ++ 32 :: token) = some (domain, token) := by
  rw [splitLine, List.splitOn_append_cons_self_of_not_mem noSpace,
    List.splitOn_eq_singleton lastWord]

theorem splitLine_of_noSpace {line : List UInt8} (noSpace : (32 : UInt8) ∉ line) :
    splitLine line = none := by
  rw [splitLine, List.splitOn_eq_singleton noSpace]

theorem lineEntries_of_noSpaces {start : Nat} {bufs : List (List UInt8)}
    (noSpaces : ∀ buf ∈ bufs, (32 : UInt8) ∉ buf) : lineEntries env start bufs = [] := by
  induction bufs generalizing start with
  | nil => rfl
  | cons buf bufs ih =>
      have noSpace : (32 : UInt8) ∉ (cString buf).dropLast := fun inside =>
        noSpaces buf List.mem_cons_self
          (List.takeWhile_subset _ (List.dropLast_subset _ inside))
      rw [lineEntries, lineEntry, splitLine_of_noSpace noSpace,
        ih (fun other member => noSpaces other (List.mem_cons_of_mem _ member))]
      rfl

def AddressesEnded (env : Env) : Nat → List (List UInt8) → Prop
  | _, [] => True
  | line, buf :: bufs =>
      (∀ words, splitLine (cString buf).dropLast = some words →
        env.junk (.address line) words.2.length = 0) ∧
      AddressesEnded env (line + 1) bufs

theorem AddressesEnded.append {start : Nat} {first second : List (List UInt8)}
    (ended : AddressesEnded env start (first ++ second)) :
    AddressesEnded env start first ∧
      AddressesEnded env (start + first.length) second := by
  induction first generalizing start with
  | nil => exact ⟨trivial, ended⟩
  | cons buf bufs ih =>
      have later := ih ended.2
      rw [List.length_cons, Nat.add_comm bufs.length 1, ← Nat.add_assoc]
      exact ⟨⟨ended.1, later.1⟩, later.2⟩

namespace AddressLine

variable (line : AddressLine)

def stored (ended : Bool) : StringT × UInt32 :=
  (line.domain, swap32 (uvIp4Addr ((quadText line.octets).take (line.kept ended))))

/-- The domain reaches the table unchanged: it is a C string and the first piece holds it
with the space and one more octet. -/
structure Fits : Prop where
  noZeros : (0 : UInt8) ∉ line.domain
  short : line.domain.length ≤ 1021

theorem inFile_noZeros {line : AddressLine} (fits : line.Fits) (ended : Bool) :
    (0 : UInt8) ∉ line.inFile ended := by
  rw [line.inFile_eq]
  intro inside
  cases List.mem_append.mp inside with
  | inl inDomain => exact fits.noZeros inDomain
  | inr later =>
      cases List.mem_cons.mp later with
      | inl isSpace => exact absurd isSpace (by decide)
      | inr inAddress => exact line.address_clean (by decide) (by decide) inAddress

theorem lineEntries_inFile {line : AddressLine} (fits : line.Fits) {ended : Bool}
    {start : Nat} (zeros : AddressesEnded env start (filePieces (line.inFile ended))) :
    lineEntries env start (filePieces (line.inFile ended)) = [line.stored ended] := by
  rw [filePieces_step (line.inFile_ne_nil ended)] at zeros ⊢
  have pieceClean : (0 : UInt8) ∉ (fgets 1023 (line.inFile ended)).1 := by
    intro inside
    apply inFile_noZeros fits ended
    rw [← fgets_append 1023 (line.inFile ended)]
    exact List.mem_append_left _ inside
  have restClean : ∀ buf ∈ filePieces (fgets 1023 (line.inFile ended)).2,
      (32 : UInt8) ∉ buf := by
    intro buf member inside
    exact line.firstPiece_rest fits.short ((filePiece_of_mem member).inText 32 inside)
  have tokenClean {letter : UInt8} (low : letter < dot) :
      letter ∉ (quadText line.octets).take (line.kept ended) := fun inside =>
    quadText_clean low (List.mem_of_mem_take inside)
  have words := splitLine_words line.noSpace (@tokenClean 32 (by decide))
  rw [← line.firstPiece fits.short, ← cString_of_noZeros pieceClean] at words
  have read := (readAddress_eq_iff _ (@tokenClean 0 (by decide))).mpr (zeros.1 _ words)
  rw [lineEntries, lineEntries_of_noSpaces restClean, lineEntry, words, Option.map_some, read]
  rfl

end AddressLine

/-! ### Files of such lines -/

def addressFile (lines : List AddressLine) (unended : Option AddressLine) : List UInt8 :=
  fileText (lines.map AddressLine.text) ((unended.map AddressLine.text).getD [])

theorem lineEntries_ended {lines : List AddressLine} (fits : ∀ line ∈ lines, line.Fits)
    {start : Nat} (zeros : AddressesEnded env start
      (lines.flatMap fun line => filePieces (line.inFile true))) :
    lineEntries env start (lines.flatMap fun line => filePieces (line.inFile true)) =
      lines.map fun line => line.stored true := by
  induction lines generalizing start with
  | nil => rfl
  | cons line lines ih =>
      rw [List.flatMap_cons] at zeros ⊢
      have here := AddressLine.lineEntries_inFile (fits line List.mem_cons_self)
        zeros.append.1
      have later := ih (fun other member => fits other (List.mem_cons_of_mem _ member))
        zeros.append.2
      rw [lineEntries_append, here, later]
      rfl

theorem filePieces_addressFile (lines : List AddressLine) (unended : Option AddressLine) :
    filePieces (addressFile lines unended) =
      (lines.flatMap fun line => filePieces (line.inFile true)) ++
        unended.toList.flatMap fun line => filePieces (line.inFile false) := by
  have single : ∀ text ∈ lines.map AddressLine.text, (10 : UInt8) ∉ text := by
    intro text member
    obtain ⟨line, _, rfl⟩ := List.mem_map.mp member
    exact line.text_single
  have last : filePieces ((unended.map AddressLine.text).getD []) =
      unended.toList.flatMap fun line => filePieces (line.inFile false) := by
    cases unended with
    | none => rfl
    | some line => simp [AddressLine.inFile]
  rw [addressFile, filePieces_fileText single, last, List.flatMap_map]
  rfl

def storedEntries (lines : List AddressLine) (unended : Option AddressLine) :
    List (StringT × UInt32) :=
  (lines.map fun line => line.stored true) ++
    unended.toList.map fun line => line.stored false

theorem lineEntries_addressFile {lines : List AddressLine} {unended : Option AddressLine}
    (fits : ∀ line ∈ lines ++ unended.toList, line.Fits)
    (zeros : AddressesEnded env 0 (filePieces (addressFile lines unended))) :
    lineEntries env 0 (filePieces (addressFile lines unended)) =
      storedEntries lines unended := by
  rw [filePieces_addressFile] at zeros ⊢
  have front := lineEntries_ended
    (fun line member => fits line (List.mem_append_left _ member)) zeros.append.1
  rw [lineEntries_append, front, storedEntries]
  congr 1
  cases unended with
  | none => rfl
  | some line =>
      have fitsLast := fits line (List.mem_append_right _ List.mem_cons_self)
      have zerosLast := zeros.append.2
      rw [Option.toList_some, List.flatMap_singleton] at zerosLast ⊢
      exact AddressLine.lineEntries_inFile fitsLast zerosLast

/-! ### Entries of any file -/

/-- A domain in the table is a C string that stood in one piece. -/
theorem lineEntry_fits {index : Nat} {buf : List UInt8} {entry : StringT × UInt32}
    (short : buf.length ≤ 1023) (makes : lineEntry env index buf = some entry) :
    (0 : UInt8) ∉ entry.1 ∧ entry.1.length ≤ 1021 := by
  obtain ⟨words, split, isEntry⟩ := Option.map_eq_some_iff.mp makes
  have spelled := splitLine_eq_some split
  have size := congrArg List.length spelled
  have atMost : (cString buf).length ≤ buf.length := (List.takeWhile_sublist _).length_le
  rw [List.length_dropLast, List.length_append, List.length_cons] at size
  subst isEntry
  constructor
  · intro inside
    have inBuf : (0 : UInt8) ∈ cString buf := by
      apply List.dropLast_subset
      rw [spelled]
      exact List.mem_append_left _ inside
    exact absurd (List.mem_takeWhile_imp inBuf) (by decide)
  · change words.1.length ≤ 1021
    omega

theorem mem_lineEntries {start : Nat} {bufs : List (List UInt8)} {entry : StringT × UInt32}
    (member : entry ∈ lineEntries env start bufs) :
    ∃ index, ∃ buf ∈ bufs, lineEntry env index buf = some entry := by
  induction bufs generalizing start with
  | nil => cases member
  | cons buf bufs ih =>
      rw [lineEntries, List.mem_append] at member
      cases member with
      | inl here => exact ⟨start, buf, List.mem_cons_self, Option.mem_toList.mp here⟩
      | inr later =>
          obtain ⟨index, other, inRest, makes⟩ := ih later
          exact ⟨index, other, List.mem_cons_of_mem _ inRest, makes⟩

theorem ipv4ReadFile_isMap {choices : List Nat} {now : Int} {text : List UInt8}
    {t : HashTable Ipv4Cache}
    (done : (ipv4ReadFile env now text (hashTableNew choices)).out = .ok t) :
    IsMap t (configuredMap now (lineEntries env 0 (filePieces text))) := by
  have empty : IsMap (hashTableNew choices) (configuredMap now []) :=
    hashTableNew_isMap choices
  exact readLines_isMap empty done

/-! ### The octets of a reply -/

def ServesOctets (domain : StringT) (address : UInt32) (octets : List UInt8) : Prop :=
  ∀ env start bufPos cells, ∃ written,
    (message2bufAnswer env start [generateIpv4Response domain address] bufPos cells).out =
      .ok written ∧
    HoldsAt (firstCells written.2 written.1) (start + bufPos + (domain.length + 12)) octets

theorem message2bufAnswer_inet4 (env : Env) (start : Nat) (domain : StringT)
    (address : UInt32) (bufPos : Nat) (cells : Nat → UInt8) :
    ∃ before, (message2bufAnswer env start [generateIpv4Response domain address] bufPos
        cells).out =
      .ok (start + bufPos + (domain.length + 12) + 4,
        overlay before (start + bufPos + (domain.length + 12)) (split32 address)) := by
  have position : start + (bufPos + (domain.length + 2) + 2 + 2) + 4 + 2 =
      start + bufPos + (domain.length + 12) := by
    omega
  have finish : start + (bufPos + (domain.length + 2) + 2 + 2 + 4 + 2 + 4) =
      start + (bufPos + (domain.length + 2) + 2 + 2) + 4 + 2 + 4 := by
    omega
  rw [← littleEndianInt_swap32, ← position, ← finish]
  apply Exists.intro
  rw [message2bufAnswer, message2bufRecord]
  simp only [Logged.bind_assoc]
  rw [Logged.bind_out_of_ok (transferName_out _ _)]
  rfl

theorem holdsAt_unique {bytes first second : List UInt8} {offset : Nat}
    (heldFirst : HoldsAt bytes offset first) (heldSecond : HoldsAt bytes offset second)
    (size : first.length = second.length) : first = second := by
  apply List.ext_getElem? 
  intro index
  by_cases inRange : index < first.length
  · rw [← heldFirst index inRange, heldSecond index (by omega)]
  · rw [List.getElem?_eq_none (by omega), List.getElem?_eq_none (by omega)]

theorem servesOctets_iff (env : Env) {domain : StringT} {address : UInt32}
    {octets : List UInt8} (four : octets.length = 4) :
    ServesOctets domain address octets ↔ split32 address = octets := by
  have size : (split32 address).length = 4 := by
    rw [split32_eq_shift]
    rfl
  constructor
  · intro serves
    obtain ⟨written, encoded, held⟩ := serves env 0 0 (fun _ => 0)
    obtain ⟨before, run⟩ := message2bufAnswer_inet4 env 0 domain address 0 (fun _ => 0)
    have same := Except.ok.inj (encoded.symm.trans run)
    subst same
    exact holdsAt_unique (holdsAt_firstCells_overlay before (by rw [size])) held
      (size.trans four.symm)
  · intro same env start bufPos cells
    obtain ⟨before, run⟩ := message2bufAnswer_inet4 env start domain address bufPos cells
    refine ⟨_, run, ?_⟩
    rw [same]
    exact holdsAt_firstCells_overlay before (by rw [four])

/-! ### Served lines -/

namespace AddressLine

variable (line : AddressLine)

/-- The domain of the line is in the table with one address, and a reply with it has the
octets of the line. -/
def Served (t : HashTable Ipv4Cache) : Prop :=
  ∃ cache address, ipv4CacheGet t line.domain = .ok (some cache) ∧
    cache.node = [address] ∧ ServesOctets line.domain address line.octets

/-- The domain fits, and the line has a line end in its first piece, unless the address is
0.0.0.0 anyway. -/
def ReadWhole (ended : Bool) : Prop :=
  line.Fits ∧
    ((ended = true ∧ line.text.length ≤ 1022) ∨ line.octets = [0, 0, 0, 0])

theorem stored_octets_iff (ended : Bool) :
    split32 (line.stored ended).2 = line.octets ↔
      (ended = true ∧ line.text.length ≤ 1022) ∨ line.octets = [0, 0, 0, 0] := by
  rw [stored, split32_swap32]
  by_cases whole : ended = true ∧ line.text.length ≤ 1022
  · rw [kept, if_pos whole, List.take_length, littleEndianInt_uvIp4Addr line.four]
    exact iff_of_true rfl (Or.inl whole)
  · rw [uvIp4Addr_take_iff line.four (line.kept_lt whole)]
    exact (or_iff_right whole).symm

theorem served_iff {line : AddressLine} (env : Env) {now : Int}
    {entries : List (StringT × UInt32)} {t : HashTable Ipv4Cache}
    (isMap : IsMap t (configuredMap now entries))
    (distinct : (entries.map Prod.fst).Nodup) {ended : Bool}
    (member : line.stored ended ∈ entries) :
    line.Served t ↔
      (ended = true ∧ line.text.length ≤ 1022) ∨ line.octets = [0, 0, 0, 0] := by
  have last : lastPut entries line.domain = some (line.stored ended).2 :=
    lastPut_of_mem distinct member
  have found : ipv4CacheGet t line.domain =
      .ok (some (configuredCache now (line.stored ended).2)) := by
    have get := hashTableGet_isMap isMap line.domain
    rw [configuredMap, last] at get
    exact get
  rw [← line.stored_octets_iff ended, ← servesOctets_iff env line.four]
  constructor
  · intro served
    obtain ⟨cache, address, get, single, serves⟩ := served
    have isCache := Option.some.inj (Except.ok.inj (found.symm.trans get))
    rw [← isCache] at single
    have isAddress : (line.stored ended).2 = address := List.head_eq_of_cons_eq single
    rw [isAddress]
    exact serves
  · intro serves
    exact ⟨_, _, found, rfl, serves⟩

end AddressLine

def AllServed (env : Env) (choices : List Nat) (now : Int) (lines : List AddressLine)
    (unended : Option AddressLine) : Prop :=
  ∃ t, (ipv4ReadFile env now (addressFile lines unended) (hashTableNew choices)).out = .ok t ∧
    ∀ line ∈ lines ++ unended.toList, line.Served t

theorem fits_of_allServed {choices : List Nat} {now : Int} {lines : List AddressLine}
    {unended : Option AddressLine} (served : AllServed env choices now lines unended) :
    ∀ line ∈ lines ++ unended.toList, line.Fits := by
  obtain ⟨t, done, all⟩ := served
  have isMap := ipv4ReadFile_isMap done
  intro line member
  obtain ⟨cache, address, get, _⟩ := all line member
  have found : configuredMap now _ line.domain = some cache :=
    Except.ok.inj ((hashTableGet_isMap isMap line.domain).symm.trans get)
  obtain ⟨value, last, _⟩ := Option.map_eq_some_iff.mp found
  obtain ⟨entry, inEntries, isDomain⟩ :=
    lastPut_isSome_iff.mp (Option.isSome_iff_exists.mpr ⟨value, last⟩)
  obtain ⟨index, buf, inPieces, makes⟩ := mem_lineEntries inEntries
  have fits := lineEntry_fits (filePiece_of_mem inPieces).short makes
  rw [isDomain] at fits
  exact
    { noZeros := fits.1
      short := fits.2 }

theorem pieces_nonzero {lines : List AddressLine} {unended : Option AddressLine}
    (fits : ∀ line ∈ lines ++ unended.toList, line.Fits) :
    ∀ buf ∈ filePieces (addressFile lines unended), cString buf ≠ [] := by
  have ofLine {line : AddressLine} {ended : Bool} {buf : List UInt8} (lineFits : line.Fits)
      (inLine : buf ∈ filePieces (line.inFile ended)) : cString buf ≠ [] := by
    have piece := filePiece_of_mem inLine
    rw [cString_of_noZeros fun inside =>
      AddressLine.inFile_noZeros lineFits ended (piece.inText 0 inside)]
    exact piece.nonempty
  intro buf member
  rw [filePieces_addressFile] at member
  cases List.mem_append.mp member with
  | inl front =>
      obtain ⟨line, inLines, inLine⟩ := List.mem_flatMap.mp front
      exact ofLine (fits line (List.mem_append_left _ inLines)) inLine
  | inr back =>
      obtain ⟨line, isLast, inLine⟩ := List.mem_flatMap.mp back
      exact ofLine (fits line (List.mem_append_right _ isLast)) inLine

/-- Every line is served as it is written exactly if the last one has its line end too,
each domain is a C string and each line fits the buffer with its line end; only the
address 0.0.0.0 can be cut without harm. -/
theorem allServed_iff {choices : List Nat} {now : Int} {lines : List AddressLine}
    {unended : Option AddressLine}
    (distinct : ((lines ++ unended.toList).map AddressLine.domain).Nodup)
    (zeros : AddressesEnded env 0 (filePieces (addressFile lines unended))) :
    AllServed env choices now lines unended ↔
      (∀ line ∈ lines, line.ReadWhole true) ∧ ∀ line ∈ unended, line.ReadWhole false := by
  have names : (storedEntries lines unended).map Prod.fst =
      (lines ++ unended.toList).map AddressLine.domain := by
    rw [storedEntries, List.map_append, List.map_append, List.map_map, List.map_map]
    rfl
  rw [← names] at distinct
  have inFront {line : AddressLine} (member : line ∈ lines) :
      line.stored true ∈ storedEntries lines unended :=
    List.mem_append_left _ (List.mem_map_of_mem member)
  have inBack {line : AddressLine} (member : line ∈ unended) :
      line.stored false ∈ storedEntries lines unended :=
    List.mem_append_right _ (List.mem_map_of_mem (Option.mem_toList.mpr member))
  constructor
  · intro served
    have fits := fits_of_allServed served
    obtain ⟨t, done, all⟩ := served
    have isMap := ipv4ReadFile_isMap done
    rw [lineEntries_addressFile fits zeros] at isMap
    constructor
    · intro line member
      have present := List.mem_append_left unended.toList member
      exact ⟨fits line present,
        (AddressLine.served_iff env isMap distinct (inFront member)).mp (all line present)⟩
    · intro line member
      have present := List.mem_append_right lines (Option.mem_toList.mpr member)
      exact ⟨fits line present,
        (AddressLine.served_iff env isMap distinct (inBack member)).mp (all line present)⟩
  · intro whole
    have fits : ∀ line ∈ lines ++ unended.toList, line.Fits := by
      intro line member
      cases List.mem_append.mp member with
      | inl front => exact (whole.1 line front).1
      | inr back => exact (whole.2 line (Option.mem_toList.mp back)).1
    have empty : IsMap (hashTableNew choices) (configuredMap now []) :=
    hashTableNew_isMap choices
    obtain ⟨t, done⟩ := @readLines_returns env now 0 _ _ _ empty (pieces_nonzero fits)
    have isMap := ipv4ReadFile_isMap done
    rw [lineEntries_addressFile fits zeros] at isMap
    refine ⟨t, done, ?_⟩
    intro line member
    cases List.mem_append.mp member with
    | inl front =>
        exact (AddressLine.served_iff env isMap distinct (inFront front)).mpr
          (whole.1 line front).2
    | inr back =>
        have isLast := Option.mem_toList.mp back
        exact (AddressLine.served_iff env isMap distinct (inBack isLast)).mpr
          (whole.2 line isLast).2

def addressLineOfA : AddressLine :=
  { domain := [97]
    octets := [1, 2, 3, 4]
    nonempty := by decide
    noSpace := by decide
    noLineEnd := by decide
    four := rfl }

def zeroEnv : Env :=
  { fuel := 100
    junk := fun _ _ => 0 }

theorem zeroEnv_addressesEnded (start : Nat) (bufs : List (List UInt8)) :
    AddressesEnded zeroEnv start bufs := by
  induction bufs generalizing start with
  | nil => trivial
  | cons buf bufs ih => exact ⟨fun _ _ => rfl, ih (start + 1)⟩

theorem allServed_addressLineOfA : AllServed zeroEnv [] 0 [addressLineOfA] none := by
  apply (allServed_iff (by decide) (zeroEnv_addressesEnded 0 _)).mpr
  constructor
  · intro line member
    rw [List.mem_singleton.mp member]
    exact
      { left :=
          { noZeros := by decide
            short := by decide }
        right := Or.inl ⟨rfl, by decide⟩ }
  · intro line member
    cases member

/-- Without its line end the line is read as `a 1.2.3.`, which is no address. -/
theorem not_allServed_unended : ¬ AllServed zeroEnv [] 0 [] (some addressLineOfA) := by
  intro served
  have fits := fits_of_allServed served
  obtain ⟨t, done, all⟩ := served
  have isMap := ipv4ReadFile_isMap done
  rw [lineEntries_addressFile fits (zeroEnv_addressesEnded 0 _)] at isMap
  have whole := (@AddressLine.served_iff addressLineOfA zeroEnv 0 _ t isMap (by decide) false
    List.mem_cons_self).mp (all addressLineOfA List.mem_cons_self)
  cases whole with
  | inl ended => exact absurd ended.1 (by decide)
  | inr zero => exact absurd zero (by decide)

end PostDns
