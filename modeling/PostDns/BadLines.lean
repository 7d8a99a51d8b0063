/-
Lines of the configuration file that are no entries (ipv4_cache.c, `ipv4_read_file`).

The loader looks only at the number of words of a line.  What `uv_ip4_addr` returns is
not read, so a line of two words stores an address whatever the second word is.
-/

import PostDns.ConfigLines
import PostDns.ServedLines

namespace PostDns

open Foundation

/-! ### The lines of a text -/

def ValidLine (line : List UInt8) : Prop :=
  ∃ words ∈ splitLine line, words.1 ≠ [] ∧ ValidQuad words.2

instance (line : List UInt8) : Decidable (ValidLine line) :=
  inferInstanceAs (Decidable (∃ words ∈ splitLine line, words.1 ≠ [] ∧ ValidQuad words.2))

/-- A line of the text, with the lines before it and what follows its line end. -/
structure LineOf (text : List UInt8) where
  before : List (List UInt8)
  line : List UInt8
  ended : Bool
  rest : List UInt8
  single : ∀ other ∈ before ++ [line], (10 : UInt8) ∉ other
  spelled : text = fileText before (line ++ if ended then 10 :: rest else [])

structure BadLine (text : List UInt8) extends LineOf text where
  bad : ¬ ValidLine line

namespace LineOf

/-- Each line of a text is one of these. -/
theorem exists_of_mem {text line : List UInt8} (member : line ∈ text.splitOn 10) :
    ∃ place : LineOf text, place.line = line := by
  induction hSize : text.length using Nat.strong_induction_on generalizing text with
  | _ size ih =>
      by_cases inside : (10 : UInt8) ∈ text
      · obtain ⟨first, rest, split, clean⟩ := List.eq_append_cons_of_mem inside
        have length := congrArg List.length split
        rw [List.length_append, List.length_cons] at length
        rw [split, List.splitOn_append_cons_self_of_not_mem clean] at member
        cases List.mem_cons.mp member with
        | inl isFirst =>
            exact
              ⟨{ before := []
                 line := first
                 ended := true
                 rest := rest
                 single := by simpa using clean
                 spelled := split }, isFirst.symm⟩
        | inr later =>
            obtain ⟨place, isLine⟩ := ih rest.length (by omega) later rfl
            exact
              ⟨{ before := first :: place.before
                 line := place.line
                 ended := place.ended
                 rest := place.rest
                 single := by
                   intro other inLines
                   cases List.mem_cons.mp inLines with
                   | inl isFirst =>
                       rw [isFirst]
                       exact clean
                   | inr inRest => exact place.single other inRest
                 spelled := by
                   conv_lhs => rw [split, place.spelled]
                   simp [fileText] }, isLine⟩
      · rw [List.splitOn_eq_singleton inside] at member
        exact
          ⟨{ before := []
             line := text
             ended := false
             rest := []
             single := by simpa using inside
             spelled := (List.append_nil text).symm }, (List.mem_singleton.mp member).symm⟩

variable {text : List UInt8} (place : LineOf text)

def piecesBefore : List (List UInt8) := filePieces (fileText place.before [])

def pieces : List (List UInt8) :=
  filePieces (place.line ++ if place.ended then [10] else [])

def piecesAfter : List (List UInt8) :=
  filePieces (if place.ended then place.rest else [])

theorem filePieces_eq :
    filePieces text = place.piecesBefore ++ (place.pieces ++ place.piecesAfter) := by
  have singleBefore : ∀ other ∈ place.before, (10 : UInt8) ∉ other := fun other member =>
    place.single other (List.mem_append_left _ member)
  have single : (10 : UInt8) ∉ place.line :=
    place.single place.line (List.mem_append_right _ List.mem_cons_self)
  conv_lhs => rw [place.spelled]
  rw [filePieces_fileText singleBefore, piecesBefore, filePieces_fileText singleBefore,
    pieces, piecesAfter, List.append_assoc]
  congr 1
  cases place.ended with
  | true => exact filePieces_line single place.rest
  | false => exact (List.append_nil _).symm

end LineOf

/-! ### Reading up to a line -/

variable {env : Env} {choices : List Nat} {now : Int}

theorem readLines_append (start : Nat) (first second : List (List UInt8))
    (t : HashTable Ipv4Cache) :
    readLines env now start (first ++ second) t =
      readLines env now start first t >>= fun t =>
        readLines env now (start + first.length) second t := by
  induction first generalizing start t with
  | nil => rfl
  | cons buf bufs ih =>
      have position : start + (buf :: bufs).length = start + 1 + bufs.length := by
        rw [List.length_cons]
        omega
      rw [List.cons_append, readLines, readLines, Logged.bind_assoc, position]
      exact congrArg _ (funext fun t => ih (start + 1) t)

/-- The loader comes to each line with what the lines before have left. -/
theorem ipv4ReadFile_line {text : List UInt8} (place : LineOf text)
    (t : HashTable Ipv4Cache) :
    ipv4ReadFile env now text t =
      ipv4ReadFile env now (fileText place.before []) t >>= fun t =>
        readLines env now place.piecesBefore.length place.pieces t >>= fun t =>
          readLines env now (place.piecesBefore.length + place.pieces.length)
            place.piecesAfter t := by
  have whole : ipv4ReadFile env now text t = readLines env now 0 (filePieces text) t := rfl
  rw [whole, place.filePieces_eq, readLines_append, Nat.zero_add]
  exact congrArg _ (funext fun t => readLines_append _ _ _ t)

/-! ### Lines that change nothing -/

/-- The loader reads the line and leaves every entry of the cache as it was. -/
def Skipped (env : Env) (now : Int) {text : List UInt8} (place : LineOf text)
    (t : HashTable Ipv4Cache) : Prop :=
  ∃ t', (readLines env now place.piecesBefore.length place.pieces t).out = .ok t' ∧
    ∀ name, ipv4CacheGet t' name = ipv4CacheGet t name

def LineOf.entries (env : Env) {text : List UInt8} (place : LineOf text) :
    List (StringT × UInt32) :=
  lineEntries env place.piecesBefore.length place.pieces

theorem cString_ne_nil_iff {piece : List UInt8} (nonempty : piece ≠ []) :
    cString piece ≠ [] ↔ piece.head? ≠ some 0 := by
  cases piece with
  | nil => exact absurd rfl nonempty
  | cons letter rest =>
      rw [cString, List.takeWhile_cons, List.head?_cons]
      by_cases isZero : letter = 0
      · simp [isZero]
      · simp [isZero]

theorem LineOf.cString_ne_nil_iff {text : List UInt8} (place : LineOf text) :
    (∀ piece ∈ place.pieces, cString piece ≠ []) ↔
      ∀ piece ∈ place.pieces, piece.head? ≠ some 0 := by
  constructor
  · intro nonzero piece member
    exact (PostDns.cString_ne_nil_iff (filePiece_of_mem member).nonempty).mp
      (nonzero piece member)
  · intro heads piece member
    exact (PostDns.cString_ne_nil_iff (filePiece_of_mem member).nonempty).mpr
      (heads piece member)

/-- After the line its entries count before the earlier ones. -/
theorem cacheGet_after {text : List UInt8} (place : LineOf text) {t t' : HashTable Ipv4Cache}
    (reached : (ipv4ReadFile env now (fileText place.before [])
      (hashTableNew choices)).out = .ok t)
    (done : (readLines env now place.piecesBefore.length place.pieces t).out = .ok t')
    (name : StringT) :
    ipv4CacheGet t' name =
      match lastPut (place.entries env) name with
      | some address => .ok (some (configuredCache now address))
      | none => ipv4CacheGet t name := by
  have isMap := ipv4ReadFile_isMap reached
  have before := hashTableGet_isMap isMap name
  have after := hashTableGet_isMap (readLines_isMap isMap done) name
  rw [configuredMap, lastPut_append] at after
  change ipv4CacheGet t' name =
    .ok (((lastPut (place.entries env) name).or _).map (configuredCache now)) at after
  cases hLast : lastPut (place.entries env) name with
  | some address =>
      rw [hLast] at after
      exact after
  | none =>
      rw [hLast, Option.none_or] at after
      exact after.trans before.symm

/-! ### What a line stores -/

/-- The piece, cut at its first zero octet and at its last octet, has two words, and the
second one, with the octet that happens to be behind it, leaves the address. -/
def PieceStores (env : Env) (number : Nat) (piece : List UInt8) (domain : StringT)
    (address : UInt32) : Prop :=
  ∃ token, splitLine (cString piece).dropLast = some (domain, token) ∧
    TextLeaves (readAddress (env.junk (.address number)) token) address

theorem lineEntry_eq_some {number : Nat} {piece : List UInt8} {domain : StringT}
    {address : UInt32} :
    lineEntry env number piece = some (domain, address) ↔
      PieceStores env number piece domain address := by
  unfold lineEntry
  rw [Option.map_eq_some_iff]
  constructor
  · rintro ⟨⟨name, token⟩, split, entry⟩
    cases entry
    exact ⟨token, split, uvIp4Addr_eq_iff.mp rfl⟩
  · rintro ⟨token, split, leaves⟩
    exact ⟨(domain, token), split, by rw [uvIp4Addr_eq_iff.mpr leaves]⟩

def StoresLast (env : Env) (start : Nat) (pieces : List (List UInt8)) (domain : StringT)
    (address : UInt32) : Prop :=
  ∃ front piece later, pieces = front ++ piece :: later ∧
    PieceStores env (start + front.length) piece domain address ∧
    ∀ other ∈ later, ∀ token, splitLine (cString other).dropLast ≠ some (domain, token)

theorem storesLast_cons {start : Nat} {piece : List UInt8} {pieces : List (List UInt8)}
    {domain : StringT} {address : UInt32} :
    StoresLast env start (piece :: pieces) domain address ↔
      StoresLast env (start + 1) pieces domain address ∨
        PieceStores env start piece domain address ∧
          ∀ other ∈ pieces, ∀ token, splitLine (cString other).dropLast ≠ some (domain, token) := by
  constructor
  · rintro ⟨front, last, later, split, stores, clean⟩
    cases front with
    | nil =>
        cases split
        exact Or.inr ⟨stores, clean⟩
    | cons first front =>
        cases split
        rw [List.length_cons, Nat.add_comm front.length, ← Nat.add_assoc] at stores
        exact Or.inl ⟨front, last, later, rfl, stores, clean⟩
  · rintro (⟨front, last, later, split, stores, clean⟩ | ⟨stores, clean⟩)
    · rw [Nat.add_assoc, Nat.add_comm 1] at stores
      exact ⟨piece :: front, last, later, by rw [split]; rfl, stores, clean⟩
    · exact ⟨[], piece, pieces, rfl, stores, clean⟩

theorem lastPut_toList_iff {entry : Option (StringT × UInt32)} {domain : StringT}
    {address : UInt32} :
    lastPut entry.toList domain = some address ↔ entry = some (domain, address) := by
  cases entry with
  | none => exact iff_of_false (fun impossible => nomatch impossible) nofun
  | some entry =>
      have single := lastPut_snoc [] entry
      rw [List.nil_append] at single
      rw [Option.toList_some, single, Option.some_inj]
      by_cases same : domain = entry.1
      · rw [same, Function.update_self, Option.some_inj]
        exact ⟨fun isAddress => by rw [← isAddress], fun isEntry => by rw [isEntry]⟩
      · rw [Function.update_of_ne same]
        refine iff_of_false (fun impossible => nomatch impossible) ?_
        intro isEntry
        rw [isEntry] at same
        exact same rfl

theorem not_storesLast {start : Nat} {pieces : List (List UInt8)} {domain : StringT}
    (absent : lastPut (lineEntries env start pieces) domain = none) :
    ∀ piece ∈ pieces, ∀ token, splitLine (cString piece).dropLast ≠ some (domain, token) := by
  induction pieces generalizing start with
  | nil => exact nofun
  | cons first pieces ih =>
      rw [lineEntries, lastPut_append, Option.or_eq_none_iff] at absent
      intro piece member token split
      cases List.mem_cons.mp member with
      | inr later => exact ih absent.1 piece later token split
      | inl isFirst =>
          rw [isFirst] at split
          obtain ⟨address, stores⟩ : ∃ address, PieceStores env start first domain address :=
            ⟨_, token, split, uvIp4Addr_eq_iff.mp rfl⟩
          have stored := lastPut_toList_iff.mpr (lineEntry_eq_some.mpr stores)
          rw [absent.2] at stored
          cases stored

theorem lastPut_lineEntries_iff {start : Nat} {pieces : List (List UInt8)} {domain : StringT}
    {address : UInt32} :
    lastPut (lineEntries env start pieces) domain = some address ↔
      StoresLast env start pieces domain address := by
  induction pieces generalizing start address with
  | nil =>
      refine iff_of_false (fun impossible => nomatch impossible) ?_
      rintro ⟨front, piece, later, split, _⟩
      exact absurd split.symm (List.append_ne_nil_of_right_ne_nil _ (List.cons_ne_nil _ _))
  | cons piece pieces ih =>
      rw [storesLast_cons, ← ih, lineEntries, lastPut_append, ← lineEntry_eq_some]
      cases hLater : lastPut (lineEntries env (start + 1) pieces) domain with
      | some other =>
          rw [Option.some_or]
          refine (or_iff_left ?_).symm
          rintro ⟨_, clean⟩
          obtain ⟨front, last, later, split, ⟨token, words, _⟩, _⟩ := ih.mp hLater
          rw [split] at clean
          exact clean last (List.mem_append_right _ List.mem_cons_self) token words
      | none =>
          rw [Option.none_or, lastPut_toList_iff]
          constructor
          · intro isEntry
            exact Or.inr ⟨isEntry, not_storesLast hLater⟩
          · rintro (impossible | stores)
            · cases impossible
            · exact stores.1

/-- A malformed line is skipped exactly if none of its pieces begins with a zero octet, at
which the loader stops, and each domain that it stores an address for has that address
already. -/
theorem badLine_skipped_iff {text : List UInt8} (place : BadLine text)
    {t : HashTable Ipv4Cache}
    (reached : (ipv4ReadFile env now (fileText place.before [])
      (hashTableNew choices)).out = .ok t) :
    Skipped env now place.toLineOf t ↔
      (∀ piece ∈ place.pieces, piece.head? ≠ some 0) ∧
      ∀ domain address,
        StoresLast env place.piecesBefore.length place.pieces domain address →
          ∃ cache, ipv4CacheGet t domain = .ok (some cache) ∧ cache.node = [address] := by
  have isMap := ipv4ReadFile_isMap reached
  constructor
  · intro skipped
    obtain ⟨t', done, same⟩ := skipped
    constructor
    · exact place.cString_ne_nil_iff.mp (cString_ne_nil_of_readLines done)
    · intro domain address stores
      have after := cacheGet_after place.toLineOf reached done domain
      rw [LineOf.entries, lastPut_lineEntries_iff.mpr stores, same domain] at after
      exact ⟨_, after, rfl⟩
  · intro harmless
    obtain ⟨t', done⟩ := readLines_returns isMap
      (place.cString_ne_nil_iff.mpr harmless.1)
    refine ⟨t', done, ?_⟩
    intro name
    have after := cacheGet_after place.toLineOf reached done name
    cases hLast : lastPut (place.entries env) name with
    | some address =>
        obtain ⟨cache, stored, isNode⟩ :=
          harmless.2 name address (lastPut_lineEntries_iff.mp hLast)
        have before := stored
        rw [ipv4CacheGet, hashTableGet_isMap isMap name] at before
        obtain ⟨own, _, isCache⟩ := Option.map_eq_some_iff.mp (Except.ok.inj before)
        have isOwn : [own] = [address] := by
          rw [← isNode, ← isCache]
          rfl
        rw [hLast] at after
        rw [after, stored, ← isCache, List.singleton_injective isOwn]
    | none =>
        rw [hLast] at after
        exact after

/-! ### Mistyped addresses -/

theorem LineOf.pieces_of_short {text : List UInt8} (place : LineOf text)
    (ended : place.ended = true) (short : place.line.length ≤ 1022) :
    place.pieces = [place.line ++ [10]] := by
  have single : (10 : UInt8) ∉ place.line :=
    place.single place.line (List.mem_append_right _ List.mem_cons_self)
  rw [LineOf.pieces, if_pos ended, filePieces_shortLine single short]

/-- A line of two words whose second one is no address blocks the domain. -/
theorem mistyped_blocked {text : List UInt8} (place : LineOf text) {t : HashTable Ipv4Cache}
    (reached : (ipv4ReadFile env now (fileText place.before [])
      (hashTableNew choices)).out = .ok t)
    (ended : place.ended = true) (short : place.line.length ≤ 1022)
    (printable : (0 : UInt8) ∉ place.line) {domain token : StringT}
    (split : splitLine place.line = some (domain, token)) (mistyped : ¬ ValidQuad token)
    (zero : env.junk (.address place.piecesBefore.length) token.length = 0) :
    ∃ t', (readLines env now place.piecesBefore.length place.pieces t).out = .ok t' ∧
      ipv4CacheGet t' domain = .ok (some (configuredCache now 0)) := by
  have pieces := place.pieces_of_short ended short
  have read : lineEntry env place.piecesBefore.length (place.line ++ [10]) =
      some (domain, 0) := by
    rw [lineEntry_of_line printable fun words isSplit => by
      rw [split] at isSplit
      rw [← Option.some.inj isSplit]
      exact zero, configLine, split, Option.map_some, uvIp4Addr_of_invalid mistyped]
    rfl
  have entries : place.entries env = [(domain, 0)] := by
    rw [LineOf.entries, pieces, lineEntries, read]
    rfl
  have nonzero : ∀ piece ∈ place.pieces, cString piece ≠ [] := by
    have clean : (0 : UInt8) ∉ place.line ++ [10] := by simpa using printable
    rw [pieces]
    intro piece member
    rw [List.mem_singleton.mp member, cString_of_noZeros clean]
    simp
  obtain ⟨t', done⟩ := readLines_returns (ipv4ReadFile_isMap reached) nonzero
  have after := cacheGet_after place reached done domain
  have last : lastPut (place.entries env) domain = some 0 := by
    rw [entries]
    exact @lastPut_of_mem UInt32 [(domain, 0)] (domain, 0) (by simp) List.mem_cons_self
  rw [last] at after
  exact ⟨t', done, after⟩

def threeWords : BadLine [97, 32, 98, 32, 99, 10] :=
  { before := []
    line := [97, 32, 98, 32, 99]
    ended := true
    rest := []
    single := by decide
    spelled := by decide
    bad := by decide }

theorem threeWords_skipped : Skipped zeroEnv 0 threeWords.toLineOf (hashTableNew []) := by
  apply (badLine_skipped_iff threeWords rfl).mpr
  constructor
  · decide
  · intro domain address stores
    have none : threeWords.entries zeroEnv = [] := by decide
    have stored := lastPut_lineEntries_iff.mpr stores
    change lastPut (threeWords.entries zeroEnv) domain = some address at stored
    rw [none] at stored
    cases stored

def threeParts : BadLine [97, 32, 49, 46, 50, 46, 51, 10] :=
  { before := []
    line := [97, 32, 49, 46, 50, 46, 51]
    ended := true
    rest := []
    single := by decide
    spelled := by decide
    bad := by decide }

/-- The line makes 0.0.0.0 the address of `a`. -/
theorem threeParts_not_skipped : ¬ Skipped zeroEnv 0 threeParts.toLineOf (hashTableNew []) := by
  intro skipped
  obtain ⟨t', done, same⟩ := skipped
  obtain ⟨blocked, run, found⟩ := @mistyped_blocked zeroEnv [] 0 _ threeParts.toLineOf
    (hashTableNew []) rfl rfl (by decide) (by decide) [97] [49, 46, 50, 46, 51] (by decide)
    (by decide) rfl
  have isBlocked := Except.ok.inj (done.symm.trans run)
  rw [← isBlocked, same [97]] at found
  exact absurd found (by decide)

end PostDns
