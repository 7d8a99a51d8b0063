/-
What the configuration file puts into the ipv4 cache (ipv4_cache.c, `ipv4_read_file`).

A line of two words is an entry: a domain and the text of its address.  The loader
stores each entry over the one before it for the same domain, and marks none of them as
manual.
-/

import PostDns.CacheMaps
import PostDns.FilePieces

namespace PostDns

open Foundation

/-! ### One line -/

def splitLine (line : List UInt8) : Option (StringT × StringT) :=
  match line.splitOn 32 with
  | [domain, token] => some (domain, token)
  | _ => none

/-- The address text as the loader hands it to `uv_ip4_addr`. -/
def readAddress (junk : Nat → UInt8) (token : StringT) : List UInt8 :=
  cString (firstCells (overlay (overlay junk (token.length + 1) [0]) 0 token)
    (token.length + 2))

theorem cString_of_noZeros {text : List UInt8} (noZeros : (0 : UInt8) ∉ text) :
    cString text = text :=
  stringPrint_of_nonzero noZeros

/-- Between the token and the zero octet stands what the array held before. -/
theorem firstCells_address (junk : Nat → UInt8) (token : StringT) :
    firstCells (overlay (overlay junk (token.length + 1) [0]) 0 token)
      (token.length + 2) = token ++ [junk token.length, 0] := by
  have copied : Starts (overlay (overlay junk (token.length + 1) [0]) 0 token) token :=
    (Starts.nil (overlay junk (token.length + 1) [0])).overlay_end token
  have starts : Starts (overlay (overlay junk (token.length + 1) [0]) 0 token)
      (token ++ [junk token.length, 0]) := by
    refine copied.append ?_
    intro index inRange
    rw [overlay_outside (Or.inr (by omega))]
    cases index with
    | zero =>
        rw [overlay_outside (Or.inl (by omega)), Nat.add_zero]
        rfl
    | succ index =>
        have isLast : index = 0 := by
          simp only [List.length_cons, List.length_nil] at inRange
          omega
        subst isLast
        exact @overlay_inside junk (token.length + 1) 0 [0] Nat.zero_lt_one
  have size : (token ++ [junk token.length, 0]).length = token.length + 2 := by simp
  rw [← size]
  exact starts.firstCells_eq

/-- The octet behind the token ends it, if it is zero. -/
theorem readAddress_eq_iff (junk : Nat → UInt8) {token : StringT}
    (noZeros : (0 : UInt8) ∉ token) :
    readAddress junk token = token ↔ junk token.length = 0 := by
  have nonzero : ∀ letter ∈ token, decide (letter ≠ 0) = true := by
    intro letter member
    rw [decide_eq_true_iff]
    intro isZero
    rw [isZero] at member
    exact noZeros member
  rw [readAddress, firstCells_address, cString, List.takeWhile_append_of_pos nonzero]
  by_cases ended : junk token.length = 0
  · simp [ended]
  · simp [ended]

def lineEntry (env : Env) (line : Nat) (buf : List UInt8) : Option (StringT × UInt32) :=
  (splitLine (cString buf).dropLast).map fun words =>
    (words.1, swap32 (uvIp4Addr (readAddress (env.junk (.address line)) words.2)))

/-- An entry as the loader leaves it in the cache. -/
def configuredCache (now : Int) (address : UInt32) : Ipv4Cache :=
  { node := [address]
    ttl := 1
    timestamp := now
    manual := false }

theorem stringSplit_eq (line : List UInt8) (separator : UInt8) :
    stringSplit line separator =
      { array := line.splitOn separator
        length := (line.splitOn separator).length } := by
  have length := stringSplit_length line separator
  rw [stringSplit_array] at length
  rw [← length, ← stringSplit_array]

/-- A line that does not begin with a zero octet stores its entry, if it makes one. -/
theorem readLine_eq {env : Env} (now : Int) {line : Nat} {buf : List UInt8}
    (t : HashTable Ipv4Cache) (nonzero : cString buf ≠ []) :
    (readLine env now line buf t).out =
      match lineEntry env line buf with
      | none => .ok t
      | some entry => ipv4CachePut now t entry.1
          { node := [entry.2], ttl := 1, timestamp := -1, manual := true } := by
  unfold readLine lineEntry splitLine
  rw [if_neg nonzero, stringSplit_eq]
  cases hWords : (cString buf).dropLast.splitOn 32 with
  | nil => rfl
  | cons domain words =>
      cases words with
      | nil => rfl
      | cons token words =>
          cases words with
          | nil => rfl
          | cons third words => rfl

theorem readLine_nonzero {env : Env} {now : Int} {line : Nat} {buf : List UInt8}
    {t t' : HashTable Ipv4Cache} (done : (readLine env now line buf t).out = .ok t') :
    cString buf ≠ [] := by
  intro empty
  rw [readLine, if_pos empty] at done
  cases done

theorem readLine_out {env : Env} {now : Int} {line : Nat} {buf : List UInt8}
    {t t' : HashTable Ipv4Cache} (done : (readLine env now line buf t).out = .ok t') :
    match lineEntry env line buf with
    | none => t' = t
    | some entry => ipv4CachePut now t entry.1
        { node := [entry.2], ttl := 1, timestamp := -1, manual := true } = .ok t' := by
  rw [readLine_eq now t (readLine_nonzero done)] at done
  cases hEntry : lineEntry env line buf with
  | none =>
      rw [hEntry] at done
      cases done
      rfl
  | some entry =>
      rw [hEntry] at done
      exact done

/-! ### All lines -/

def lineEntries (env : Env) : Nat → List (List UInt8) → List (StringT × UInt32)
  | _, [] => []
  | line, buf :: bufs => (lineEntry env line buf).toList ++ lineEntries env (line + 1) bufs

def configuredMap (now : Int) (entries : List (StringT × UInt32)) :
    StringT → Option Ipv4Cache :=
  fun name => (lastPut entries name).map (configuredCache now)

theorem configuredMap_snoc (now : Int) (entries : List (StringT × UInt32))
    (entry : StringT × UInt32) :
    configuredMap now (entries ++ [entry]) =
      Function.update (configuredMap now entries) entry.1
        (some (configuredCache now entry.2)) := by
  funext name
  unfold configuredMap
  rw [lastPut_snoc]
  by_cases same : name = entry.1
  · rw [same, Function.update_self, Function.update_self]
    rfl
  · rw [Function.update_of_ne same, Function.update_of_ne same]

theorem putEntry_isMap {now : Int} {entries : List (StringT × UInt32)}
    {t t' : HashTable Ipv4Cache} (isMap : IsMap t (configuredMap now entries))
    (entry : StringT × UInt32)
    (put : ipv4CachePut now t entry.1
      { node := [entry.2], ttl := 1, timestamp := -1, manual := true } = .ok t') :
    IsMap t' (configuredMap now (entries ++ [entry])) := by
  obtain ⟨put', run, isMap'⟩ := ipv4CachePut_isMap isMap now entry.1
    { node := [entry.2], ttl := 1, timestamp := -1, manual := true }
  have same : put' = t' := Except.ok.inj (run.symm.trans put)
  subst same
  have unmarked : ¬ ((configuredMap now entries entry.1).any fun old => old.manual) = true := by
    unfold configuredMap
    cases lastPut entries entry.1 with
    | none => simp
    | some address => simp [configuredCache]
  unfold ipv4MapPut at isMap'
  rw [if_neg unmarked] at isMap'
  rw [configuredMap_snoc]
  exact isMap'

theorem readLines_isMap {env : Env} {now : Int} {line : Nat} {bufs : List (List UInt8)}
    {entries : List (StringT × UInt32)} {t t' : HashTable Ipv4Cache}
    (isMap : IsMap t (configuredMap now entries))
    (done : (readLines env now line bufs t).out = .ok t') :
    IsMap t' (configuredMap now (entries ++ lineEntries env line bufs)) := by
  induction bufs generalizing line entries t with
  | nil =>
      cases done
      rw [lineEntries, List.append_nil]
      exact isMap
  | cons buf bufs ih =>
      obtain ⟨middle, first, rest⟩ := Logged.bind_out_eq_ok.mp done
      have read := readLine_out first
      rw [lineEntries, ← List.append_assoc]
      cases hEntry : lineEntry env line buf with
      | none =>
          rw [hEntry] at read
          rw [Option.toList_none, List.append_nil]
          subst read
          exact ih isMap rest
      | some entry =>
          rw [hEntry] at read
          rw [Option.toList_some]
          exact ih (putEntry_isMap isMap entry read) rest

theorem lineEntries_append {env : Env} (line : Nat) (first second : List (List UInt8)) :
    lineEntries env line (first ++ second) =
      lineEntries env line first ++ lineEntries env (line + first.length) second := by
  induction first generalizing line with
  | nil => rfl
  | cons buf bufs ih =>
      have position : line + (buf :: bufs).length = line + 1 + bufs.length := by
        rw [List.length_cons]
        omega
      rw [List.cons_append, lineEntries, lineEntries, ih, List.append_assoc, position]

theorem cString_ne_nil_of_readLines {env : Env} {now : Int} {line : Nat} {bufs : List (List UInt8)}
    {t t' : HashTable Ipv4Cache} (done : (readLines env now line bufs t).out = .ok t') :
    ∀ buf ∈ bufs, cString buf ≠ [] := by
  induction bufs generalizing line t with
  | nil =>
      intro buf member
      cases member
  | cons first bufs ih =>
      obtain ⟨middle, read, rest⟩ := Logged.bind_out_eq_ok.mp done
      intro buf member
      cases List.mem_cons.mp member with
      | inl isFirst =>
          rw [isFirst]
          exact readLine_nonzero read
      | inr later => exact ih rest buf later

theorem readLines_returns {env : Env} {now : Int} {line : Nat} {bufs : List (List UInt8)}
    {entries : List (StringT × UInt32)} {t : HashTable Ipv4Cache}
    (isMap : IsMap t (configuredMap now entries))
    (nonzero : ∀ buf ∈ bufs, cString buf ≠ []) :
    ∃ t', (readLines env now line bufs t).out = .ok t' := by
  induction bufs generalizing line entries t with
  | nil => exact ⟨t, rfl⟩
  | cons buf bufs ih =>
      have read := @readLine_eq env now line buf t (nonzero buf List.mem_cons_self)
      have later := fun other member => nonzero other (List.mem_cons_of_mem buf member)
      cases hEntry : lineEntry env line buf with
      | none =>
          rw [hEntry] at read
          obtain ⟨t', rest⟩ := @ih (line + 1) entries t isMap later
          exact ⟨t', (Logged.bind_out_of_ok read _).trans rest⟩
      | some entry =>
          rw [hEntry] at read
          obtain ⟨middle, put, _⟩ := ipv4CachePut_isMap isMap now entry.1
            { node := [entry.2], ttl := 1, timestamp := -1, manual := true }
          obtain ⟨t', rest⟩ := @ih (line + 1) _ middle (putEntry_isMap isMap entry put) later
          exact ⟨t', (Logged.bind_out_of_ok (read.trans put) _).trans rest⟩

def fileEntries (env : Env) : Option (List UInt8) → List (StringT × UInt32)
  | none => []
  | some text => lineEntries env 0 (fgetsAll text.length text)

def CacheMaps.configured (now : Int) (entries : List (StringT × UInt32)) : CacheMaps :=
  { CacheMaps.empty with ipv4 := configuredMap now entries }

theorem startUp_shows {env : Env} {now : Int} {file : Option (List UInt8)} {start : World}
    {malloc : Malloc} (started : (startUp env malloc now file).out = .ok start) :
    Shows start (CacheMaps.configured now (fileEntries env file)) := by
  cases file with
  | none =>
      cases started
      exact shows_init malloc
  | some text =>
      obtain ⟨t, read, returned⟩ := Logged.bind_out_eq_ok.mp started
      cases returned
      have empty : IsMap (World.init malloc).ipv4Table (configuredMap now []) :=
        (shows_init malloc).ipv4
      exact
        { ipv4 := readLines_isMap empty read
          ipv6 := (shows_init malloc).ipv6
          cname := (shows_init malloc).cname }

/-! ### Files of short lines -/

/-- A text of lines that the read buffer holds, each with its line end. -/
structure ConfigText (lines : List (List UInt8)) (text : List UInt8) : Prop where
  spelled : text = lines.flatMap fun line => line ++ [10]
  single : ∀ line ∈ lines, (10 : UInt8) ∉ line
  printable : ∀ line ∈ lines, (0 : UInt8) ∉ line
  short : ∀ line ∈ lines, line.length ≤ 1022

def configLine (line : List UInt8) : Option (StringT × UInt32) :=
  (splitLine line).map fun words => (words.1, swap32 (uvIp4Addr words.2))

def configEntries (lines : List (List UInt8)) : List (StringT × UInt32) :=
  lines.filterMap configLine

/-- The unset octet behind each copied address text happens to be zero. -/
def TokensEnded (env : Env) (lines : List (List UInt8)) : Prop :=
  ∀ index line words, lines[index]? = some line → splitLine line = some words →
    env.junk (.address index) words.2.length = 0

theorem fgetsAll_lines {lines : List (List UInt8)} {text : List UInt8}
    (config : ConfigText lines text) {fuel : Nat} (enough : text.length ≤ fuel) :
    fgetsAll fuel text = lines.map fun line => line ++ [10] := by
  have spelled : text = fileText lines [] := by
    rw [fileText, List.append_nil]
    exact config.spelled
  have pieces : ∀ line ∈ lines, filePieces (line ++ [10]) = [line ++ [10]] :=
    fun line member => filePieces_shortLine (config.single line member)
      (config.short line member)
  rw [fgetsAll_eq_filePieces enough, spelled, filePieces_fileText config.single,
    List.flatMap_congr pieces, ← List.map_eq_flatMap]
  exact List.append_nil _

theorem splitOn_of_splitLine {line : List UInt8} {words : StringT × StringT}
    (split : splitLine line = some words) : line.splitOn 32 = [words.1, words.2] := by
  unfold splitLine at split
  cases hWords : line.splitOn 32 with
  | nil =>
      rw [hWords] at split
      cases split
  | cons domain others =>
      rw [hWords] at split
      cases others with
      | nil => cases split
      | cons token others =>
          cases others with
          | nil =>
              cases split
              rfl
          | cons third others => cases split

theorem splitLine_eq_some {line : List UInt8} {words : StringT × StringT}
    (split : splitLine line = some words) : line = words.1 ++ 32 :: words.2 := by
  have whole : [32].intercalate (line.splitOn 32) = line := List.intercalate_splitOn 32
  rw [splitOn_of_splitLine split] at whole
  rw [← whole]
  simp [List.intercalate]

theorem lineEntry_of_line {env : Env} {index : Nat} {line : List UInt8}
    (printable : (0 : UInt8) ∉ line)
    (ended : ∀ words, splitLine line = some words →
      env.junk (.address index) words.2.length = 0) :
    lineEntry env index (line ++ [10]) = configLine line := by
  have whole : cString (line ++ [10]) = line ++ [10] := by
    apply cString_of_noZeros
    simpa using printable
  unfold lineEntry configLine
  rw [whole, List.dropLast_concat]
  cases hSplit : splitLine line with
  | none => simp only [Option.map_none]
  | some words =>
      have noZeros : (0 : UInt8) ∉ words.2 := by
        intro inside
        apply printable
        rw [splitLine_eq_some hSplit]
        exact List.mem_append_right _ (List.mem_cons_of_mem _ inside)
      have read := (readAddress_eq_iff _ noZeros).mpr (ended words hSplit)
      simp only [Option.map_some, read]

theorem lineEntries_of_lines {env : Env} {start : Nat} {lines : List (List UInt8)}
    (printable : ∀ line ∈ lines, (0 : UInt8) ∉ line)
    (ended : ∀ index line words, lines[index]? = some line → splitLine line = some words →
      env.junk (.address (start + index)) words.2.length = 0) :
    lineEntries env start (lines.map fun line => line ++ [10]) = configEntries lines := by
  induction lines generalizing start with
  | nil => rfl
  | cons line lines ih =>
      have here : lineEntry env start (line ++ [10]) = configLine line :=
        lineEntry_of_line (printable line List.mem_cons_self)
          (fun words => ended 0 line words rfl)
      have later := @ih (start + 1)
        (fun other member => printable other (List.mem_cons_of_mem _ member))
        (fun index other words at_ => by
          rw [Nat.add_assoc, Nat.add_comm 1 index]
          exact ended (index + 1) other words at_)
      rw [List.map_cons, lineEntries, here, later]
      unfold configEntries
      cases hLine : configLine line with
      | none => rw [List.filterMap_cons_none hLine, Option.toList_none, List.nil_append]
      | some entry =>
          rw [List.filterMap_cons_some hLine, Option.toList_some, List.singleton_append]

/-- The loader reads what the file says. -/
theorem fileEntries_of_text {env : Env} {lines : List (List UInt8)} {text : List UInt8}
    (config : ConfigText lines text) (ended : TokensEnded env lines) :
    fileEntries env (some text) = configEntries lines := by
  change lineEntries env 0 (fgetsAll text.length text) = _
  rw [fgetsAll_lines config le_rfl]
  apply lineEntries_of_lines config.printable
  intro index line words at_ split
  rw [Nat.zero_add]
  exact ended index line words at_ split

end PostDns
