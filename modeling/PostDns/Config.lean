/-
The command line (config.c, main.c).

`config_init` goes through the words once.  An option with a value takes the next word, whatever
that is, so that the words fall into options and values from the left; of the options of one kind
the last one counts.  The table of addresses is then read from the last file that `-4` names,
and the files of `-6` and `-c` are never read.
-/

import PostDns.Configured
import PostDns.HashedRuns

namespace PostDns

open Foundation

/-! ### The configuration -/

/-- A C string: its octets, without the zero that ends it. -/
abbrev CString := List UInt8

def CString.octet (text : CString) (index : Nat) : UInt8 := text.getD index 0

inductive LoggingLevel where
  | debug
  | information
  | warning
  | error
deriving DecidableEq

structure DnsConfig where
  upstreamName : Option CString
  ipv4ConfigFile : Option CString
  ipv6ConfigFile : Option CString
  cnameConfigFile : Option CString
  loggingLevel : LoggingLevel

/-- What `config_init` returns, and the variable `logging_level` that it sets. -/
structure Configured where
  config : DnsConfig
  loggingLevel : LoggingLevel

def defaultUpstream : CString := [49, 48, 46, 51, 46, 57, 46, 52, 52]

def Configured.init : Configured :=
  { config :=
      { upstreamName := some defaultUpstream
        ipv4ConfigFile := none
        ipv6ConfigFile := none
        cnameConfigFile := none
        loggingLevel := .information }
    loggingLevel := .information }

inductive Stop where
  | exited
  | nullPointer
deriving DecidableEq

/-- `*argv[i+1] - 48` of a signed character, as the value of an unsigned enumeration. -/
def levelOf (letter : UInt8) : UInt32 :=
  UInt32.ofInt (letter.toInt8.toInt - 48)

def loggingLevelOf (level : UInt32) : Option LoggingLevel :=
  if level = 0 then some .debug
  else if level = 1 then some .information
  else if level = 2 then some .warning
  else if level = 3 then some .error
  else none

/-- One turn of the loop: whether it takes the next word too, and the state after it. -/
def configWord (word : CString) (next : Option CString) (state : Configured) :
    Except Stop (Bool × Configured) :=
  let config := state.config
  if word.octet 0 = 45 then
    if word.octet 1 = 104 then .error .exited
    else if word.octet 1 = 115 then
      .ok (true, { state with config := { config with upstreamName := next } })
    else if word.octet 1 = 52 then
      .ok (true, { state with config := { config with ipv4ConfigFile := next } })
    else if word.octet 1 = 54 then
      .ok (true, { state with config := { config with ipv6ConfigFile := next } })
    else if word.octet 1 = 99 then
      .ok (true, { state with config := { config with cnameConfigFile := next } })
    else if word.octet 1 = 108 then
      match next with
      | none => .error .nullPointer
      | some value =>
          match loggingLevelOf (levelOf (value.octet 0)) with
          | none => .ok (false, state)
          | some level => .ok (false, { state with loggingLevel := level })
    else .ok (false, state)
  else .ok (false, state)

/-- The loop from one word on; `taken` says that the word is the value of an option. -/
def configLoop : List CString → Bool → Configured → Except Stop Configured
  | [], _, state => .ok state
  | _ :: rest, true, state => configLoop rest false state
  | word :: rest, false, state => do
      let turn ← configWord word rest.head? state
      configLoop rest turn.1 turn.2

def configInit (argv : List CString) : Except Stop Configured :=
  configLoop argv.tail false Configured.init

/-- What the two calls of `uv_udp_bind` return. -/
structure BindResults where
  bindSocket : Int
  querySocket : Int

def socketInit (binds : BindResults) : Except Stop Unit :=
  if binds.bindSocket = 0 then
    if binds.querySocket = 0 then .ok () else .error .exited
  else .error .exited

inductive Launch where
  | exited
  | crashed (fault : Fault)
  | serving (upstream : UInt32) (level : LoggingLevel) (world : HashedWorld)

def upstreamAddress : Option CString → UInt32
  | none => 0
  | some name => uvIp4Addr name

def Stop.launch : Stop → Launch
  | .exited => .exited
  | .nullPointer => .crashed .nullPointer

/-- The sockets, the upstream address and the tables; `files` are the texts of the files that
`fopen` finds. -/
def Configured.start (configured : Configured) (env : Env) (malloc : Malloc)
    (binds : BindResults) (now : Int) (files : CString → Option (List UInt8)) : Launch :=
  match socketInit binds with
  | .error stop => stop.launch
  | .ok _ =>
      match (startUpHashed env malloc now (configured.config.ipv4ConfigFile.bind files)).out with
      | .error fault => .crashed fault
      | .ok world =>
          .serving (upstreamAddress configured.config.upstreamName) configured.loggingLevel world

def launch (env : Env) (malloc : Malloc) (binds : BindResults) (now : Int)
    (files : CString → Option (List UInt8)) (argv : List CString) : Launch :=
  match configInit argv with
  | .error stop => stop.launch
  | .ok configured => configured.start env malloc binds now files

/-! ### Options and values -/

def asks (letter : UInt8) (word : CString) : Bool :=
  word.octet 0 == 45 && word.octet 1 == letter

def takesValue (word : CString) : Bool :=
  asks 115 word || asks 52 word || asks 54 word || asks 99 word

def optionWords (option : CString × Option CString) : List CString :=
  if takesValue option.1 then option.1 :: option.2.toList else [option.1]

/-- The words that are no values of an option before them, each with the next word. -/
def optionsOf : Bool → List CString → List (CString × Option CString)
  | _, [] => []
  | true, _ :: rest => optionsOf false rest
  | false, word :: rest => (word, rest.head?) :: optionsOf (takesValue word) rest

def lastValue (letter : UInt8) (options : List (CString × Option CString))
    (initial : Option CString) : Option CString :=
  ((options.filter fun option => asks letter option.1).map Prod.snd).getLast?.getD initial

def digitLevel (letter : UInt8) : Option LoggingLevel :=
  if letter = 48 then some .debug
  else if letter = 49 then some .information
  else if letter = 50 then some .warning
  else if letter = 51 then some .error
  else none

/-- The level that an option sets, by the first octet of the word behind it. -/
def levelSet (option : CString × Option CString) : Option LoggingLevel :=
  if asks 108 option.1 then option.2.bind fun value => digitLevel (value.octet 0) else none

def lastLevel (options : List (CString × Option CString)) (initial : LoggingLevel) :
    LoggingLevel :=
  (options.filterMap levelSet).getLast?.getD initial

def AsksHelp (options : List (CString × Option CString)) : Prop :=
  ∃ option ∈ options, asks 104 option.1 = true

def LacksLevel (options : List (CString × Option CString)) : Prop :=
  ∃ option ∈ options, asks 108 option.1 = true ∧ option.2 = none

/-! ### Reading -/

private theorem level_digits :
    ∀ value < 256,
      loggingLevelOf (levelOf (UInt8.ofNat value)) = digitLevel (UInt8.ofNat value) := by
  decide +kernel

theorem loggingLevelOf_levelOf (letter : UInt8) :
    loggingLevelOf (levelOf letter) = digitLevel letter := by
  have digits := level_digits letter.toNat letter.toNat_lt
  rw [UInt8.ofNat_toNat] at digits
  exact digits

/-- The options and their values are all words of the command line. -/
theorem optionsOf_words (taken : Bool) (words : List CString) :
    (optionsOf taken words).flatMap optionWords = if taken then words.tail else words := by
  induction words generalizing taken with
  | nil => cases taken <;> rfl
  | cons word rest ih =>
      cases taken with
      | true => exact ih false
      | false =>
          rw [optionsOf, List.flatMap_cons, ih]
          cases hTakes : takesValue word with
          | false => simp [optionWords, hTakes]
          | true =>
              cases rest with
              | nil => simp [optionWords, hTakes]
              | cons value others => simp [optionWords, hTakes]

instance (options : List (CString × Option CString)) : Decidable (AsksHelp options) :=
  inferInstanceAs (Decidable (∃ option ∈ options, asks 104 option.1 = true))

instance (options : List (CString × Option CString)) : Decidable (LacksLevel options) :=
  inferInstanceAs (Decidable
    (∃ option ∈ options, asks 108 option.1 = true ∧ option.2 = none))

def Configured.after (state : Configured) (options : List (CString × Option CString)) :
    Configured :=
  { config :=
      { upstreamName := lastValue 115 options state.config.upstreamName
        ipv4ConfigFile := lastValue 52 options state.config.ipv4ConfigFile
        ipv6ConfigFile := lastValue 54 options state.config.ipv6ConfigFile
        cnameConfigFile := lastValue 99 options state.config.cnameConfigFile
        loggingLevel := state.config.loggingLevel }
    loggingLevel := lastLevel options state.loggingLevel }

theorem lastValue_cons (letter : UInt8) (option : CString × Option CString)
    (options : List (CString × Option CString)) (initial : Option CString) :
    lastValue letter (option :: options) initial =
      lastValue letter options (if asks letter option.1 then option.2 else initial) := by
  unfold lastValue
  rw [List.filter_cons]
  split_ifs with isAsked
  · rw [List.map_cons, List.getLast?_cons]
    rfl
  · rfl

theorem lastLevel_cons (option : CString × Option CString)
    (options : List (CString × Option CString)) (initial : LoggingLevel) :
    lastLevel (option :: options) initial =
      lastLevel options ((levelSet option).getD initial) := by
  unfold lastLevel
  cases hSet : levelSet option with
  | none => rw [List.filterMap_cons_none hSet]; rfl
  | some level =>
      rw [List.filterMap_cons_some hSet, List.getLast?_cons]
      rfl

theorem Configured.after_cons (state : Configured) (option : CString × Option CString)
    (options : List (CString × Option CString)) :
    state.after (option :: options) = (state.after [option]).after options := by
  simp only [Configured.after, lastValue_cons, lastLevel_cons]
  rfl

/-- One turn takes the option as it reads. -/
theorem configWord_reads (word : CString) (next : Option CString) (state : Configured) :
    configWord word next state =
      if asks 104 word then .error .exited
      else if asks 108 word ∧ next = none then .error .nullPointer
      else .ok (takesValue word, state.after [(word, next)]) := by
  have values (letter : UInt8) (initial : Option CString) :
      lastValue letter [(word, next)] initial = if asks letter word then next else initial :=
    lastValue_cons letter (word, next) [] initial
  have level (initial : LoggingLevel) :
      lastLevel [(word, next)] initial = (levelSet (word, next)).getD initial :=
    lastLevel_cons (word, next) [] initial
  simp only [Configured.after, values, level]
  by_cases isOption : word.octet 0 = 45
  · have only (letter : UInt8) : asks letter word = (word.octet 1 == letter) := by
      rw [asks, isOption]
      rfl
    simp only [configWord, takesValue, levelSet, isOption, if_true, only, beq_iff_eq]
    generalize word.octet 1 = letter
    by_cases help : letter = 104
    · simp [help]
    by_cases upstream : letter = 115
    · simp [upstream]
    by_cases ipv4 : letter = 52
    · simp [ipv4]
    by_cases ipv6 : letter = 54
    · simp [ipv6]
    by_cases cname : letter = 99
    · simp [cname]
    by_cases sets : letter = 108
    · cases next with
      | none => simp [sets]
      | some value =>
          cases hLevel : digitLevel (value.octet 0) with
          | none => simp [sets, loggingLevelOf_levelOf, hLevel]
          | some level => simp [sets, loggingLevelOf_levelOf, hLevel]
    · simp [help, upstream, ipv4, ipv6, cname, sets]
  · have none (letter : UInt8) : asks letter word = false := by
      rw [asks, beq_eq_false_iff_ne.mpr isOption]
      rfl
    simp [configWord, takesValue, levelSet, isOption, none]

theorem asksHelp_cons (option : CString × Option CString)
    (options : List (CString × Option CString)) :
    AsksHelp (option :: options) ↔ asks 104 option.1 = true ∨ AsksHelp options := by
  simp [AsksHelp]

theorem lacksLevel_cons (option : CString × Option CString)
    (options : List (CString × Option CString)) :
    LacksLevel (option :: options) ↔
      (asks 108 option.1 = true ∧ option.2 = none) ∨ LacksLevel options := by
  simp [LacksLevel]

/-- The loop comes to what its options say. -/
theorem configLoop_reads (words : List CString) (taken : Bool) (state : Configured) :
    configLoop words taken state =
      if AsksHelp (optionsOf taken words) then .error .exited
      else if LacksLevel (optionsOf taken words) then .error .nullPointer
      else .ok (state.after (optionsOf taken words)) := by
  induction words generalizing taken state with
  | nil => simp [configLoop, optionsOf, AsksHelp, LacksLevel, Configured.after, lastValue,
      lastLevel]
  | cons word rest ih =>
      cases taken with
      | true => exact ih false state
      | false =>
          rw [configLoop, configWord_reads, optionsOf]
          simp only [asksHelp_cons, lacksLevel_cons]
          by_cases help : asks 104 word = true
          · rw [if_pos help, if_pos (Or.inl help)]
            rfl
          rw [if_neg help]
          by_cases missing : asks 108 word = true ∧ rest.head? = none
          · -- no word is left, so that no later option asks for help
            have isLast : rest = [] := List.head?_eq_none_iff.mp missing.2
            have noHelp : ¬ AsksHelp (optionsOf (takesValue word) rest) := by
              rw [isLast]
              simp [optionsOf, AsksHelp]
            rw [if_pos missing, if_neg (not_or.mpr ⟨help, noHelp⟩),
              if_pos (Or.inl missing)]
            rfl
          · rw [if_neg missing]
            have later := ih (takesValue word) (state.after [(word, rest.head?)])
            simp only [help, missing, false_or, Bool.false_eq_true]
            rw [Configured.after_cons state _ (optionsOf (takesValue word) rest)]
            exact later

/-! ### The launch -/

def BindResults.Bound (binds : BindResults) : Prop :=
  binds.bindSocket = 0 ∧ binds.querySocket = 0

instance (binds : BindResults) : Decidable binds.Bound :=
  inferInstanceAs (Decidable (_ ∧ _))

theorem socketInit_eq (binds : BindResults) :
    socketInit binds = if binds.Bound then .ok () else .error .exited := by
  unfold socketInit BindResults.Bound
  by_cases first : binds.bindSocket = 0
  · simp [first]
  · simp [first]

theorem startUpHashed_shows {env : Env} {malloc : Malloc} {now : Int}
    {file : Option (List UInt8)} {start : HashedWorld}
    (started : (startUpHashed env malloc now file).out = .ok start) :
    Shows start.caches (CacheMaps.configured now (fileEntries env file)) := by
  obtain ⟨caches, loaded, returned⟩ := Logged.bind_out_eq_ok.mp started
  cases returned
  have shows := startUp_shows loaded
  exact ⟨shows.ipv4, shows.ipv6, shows.cname⟩

section Launches

variable (env : Env) (malloc : Malloc) (binds : BindResults) (now : Int)
  (files : CString → Option (List UInt8)) (argv : List CString)

theorem launch_eq :
    launch env malloc binds now files argv =
      if AsksHelp (optionsOf false argv.tail) then .exited
      else if LacksLevel (optionsOf false argv.tail) then .crashed .nullPointer
      else
        (Configured.init.after (optionsOf false argv.tail)).start env malloc binds now files := by
  rw [launch, configInit, configLoop_reads]
  split_ifs
  · rfl
  · rfl
  · rfl

/-- The launch by its options.  The process exits when one asks for help or when a socket cannot
be bound, and it crashes when the level is missing.  Otherwise it serves with the last upstream
server named, the last level set and the addresses of the last file named, whatever the other
options are. -/
structure LaunchReads (options : List (CString × Option CString)) (outcome : Launch) :
    Prop where
  exited : AsksHelp options → outcome = .exited
  missing : ¬ AsksHelp options → LacksLevel options → outcome = .crashed .nullPointer
  unbound : ¬ LacksLevel options → ¬ binds.Bound → outcome = .exited
  unloaded : ¬ AsksHelp options → ¬ LacksLevel options → binds.Bound → ∀ fault,
    (startUpHashed env malloc now ((lastValue 52 options none).bind files)).out = .error fault →
      outcome = .crashed fault
  serving : ∀ upstream level hashed, outcome = .serving upstream level hashed ↔
    ¬ AsksHelp options ∧ ¬ LacksLevel options ∧ binds.Bound ∧
      upstream = upstreamAddress (lastValue 115 options (some defaultUpstream)) ∧
      level = lastLevel options .information ∧
      (startUpHashed env malloc now ((lastValue 52 options none).bind files)).out = .ok hashed
  shows : ∀ upstream level hashed, outcome = .serving upstream level hashed →
    hashed.clientsHashTable = hashTableNew malloc.clients ∧ Shows hashed.caches
      (CacheMaps.configured now (fileEntries env ((lastValue 52 options none).bind files)))

/-- Every command line falls into options and their values, and the launch goes by them. -/
theorem launch_reads :
    (optionsOf false argv.tail).flatMap optionWords = argv.tail ∧
      LaunchReads env malloc binds now files (optionsOf false argv.tail)
        (launch env malloc binds now files argv) := by
  refine ⟨optionsOf_words false argv.tail, ?_⟩
  rw [launch_eq]
  generalize optionsOf false argv.tail = options
  by_cases help : AsksHelp options
  · rw [if_pos help]
    constructor <;> simp [help]
  rw [if_neg help]
  by_cases missing : LacksLevel options
  · rw [if_pos missing]
    constructor <;> simp [help, missing]
  rw [if_neg missing, Configured.start, socketInit_eq]
  by_cases bound : binds.Bound
  · rw [if_pos bound]
    have file : (Configured.init.after options).config.ipv4ConfigFile = lastValue 52 options none :=
      rfl
    simp only [file]
    cases loaded : (startUpHashed env malloc now ((lastValue 52 options none).bind files)).out with
    | error fault => constructor <;> simp [help, missing, bound, loaded]
    | ok world =>
        have served (upstream : UInt32) (level : LoggingLevel) (hashed : HashedWorld)
            (serves : Launch.serving
              (upstreamAddress (Configured.init.after options).config.upstreamName)
              (Configured.init.after options).loggingLevel world =
                .serving upstream level hashed) :
            hashed = world := by
          injection serves with _ _ isWorld
          exact isWorld.symm
        constructor
        · exact fun asked => absurd asked help
        · exact fun _ lacks => absurd lacks missing
        · exact fun _ unbound => absurd bound unbound
        · intro _ _ _ fault failed
          rw [loaded] at failed
          cases failed
        · intro upstream level hashed
          simp [help, missing, bound, loaded, eq_comm, Configured.after, Configured.init]
        · intro upstream level hashed serves
          rw [served upstream level hashed serves]
          exact ⟨startUpHashed_clients loaded, startUpHashed_shows loaded⟩
  · rw [if_neg bound]
    constructor <;> simp [help, missing, bound, Stop.launch]

end Launches

end PostDns
