/-
Where the records of a local reply come from.

A reply that `bind_socket_read` makes itself repeats what the program was told: addresses that
a line of the configuration file gives, and addresses and aliases of upstream replies that
came before.
-/

import PostDns.CacheHistory
import PostDns.ConfigLines
import PostDns.Staleness

namespace PostDns

open Foundation

/-! ### What the program was told -/

/-- The record repeats what was said about a domain before the run, or answers of a reply in
the run. -/
inductive Told (said : StringT → UInt32 → Prop)
    (events : List ((Int × Occasion) × List Sent)) : ResourceRecord → Prop where
  | configured {domain : StringT} {address : UInt32} (isSaid : said domain address) :
      Told said events (generateIpv4Response domain address)
  | inet4 {now : Int} {message : Message} {sent : List Sent} {domain : StringT}
      {address : UInt32} (told : ((now, .reply message), sent) ∈ events)
      (owner : lastOwner 1 (answersIn message) = some domain)
      (among : address ∈ (answersIn message).filterMap answerAddress4) :
      Told said events (generateIpv4Response domain address)
  | inet6 {now : Int} {message : Message} {sent : List Sent} {domain : StringT}
      {address : List UInt8} (told : ((now, .reply message), sent) ∈ events)
      (owner : lastOwner 28 (answersIn message) = some domain)
      (among : address ∈ (answersIn message).filterMap answerAddress6) :
      Told said events (generateIpv6Response domain address)
  | cname {now : Int} {message : Message} {sent : List Sent} {answer : ResourceRecord}
      {name : StringT} (told : ((now, .reply message), sent) ∈ events)
      (among : answer ∈ answersIn message) (isCname : answer.type = 5)
      (data : answer.responseData = .domain name) :
      Told said events (generateCnameResponse answer.name name)

variable {said : StringT → UInt32 → Prop} {events : List ((Int × Occasion) × List Sent)}

theorem Told.snoc {record : ResourceRecord} (told : Told said events record)
    (label : (Int × Occasion) × List Sent) : Told said (events ++ [label]) record := by
  cases told with
  | configured isSaid => exact .configured isSaid
  | inet4 told owner among => exact .inet4 (List.mem_append_left _ told) owner among
  | inet6 told owner among => exact .inet6 (List.mem_append_left _ told) owner among
  | cname told among isCname data =>
      exact .cname (List.mem_append_left _ told) among isCname data

structure AllTold (said : StringT → UInt32 → Prop)
    (events : List ((Int × Occasion) × List Sent)) (maps : CacheMaps) : Prop where
  ipv4 : ∀ name cache, maps.ipv4 name = some cache → ∀ address ∈ cache.node,
    Told said events (generateIpv4Response name address)
  ipv6 : ∀ name cache, maps.ipv6 name = some cache → ∀ address ∈ cache.node,
    Told said events (generateIpv6Response name address)
  cname : ∀ name cache, maps.cname name = some cache →
    Told said events (generateCnameResponse name cache.name)

theorem AllTold.snoc {maps : CacheMaps} (all : AllTold said events maps)
    (label : (Int × Occasion) × List Sent) : AllTold said (events ++ [label]) maps :=
  { ipv4 := fun name cache stored address member =>
      (all.ipv4 name cache stored address member).snoc label
    ipv6 := fun name cache stored address member =>
      (all.ipv6 name cache stored address member).snoc label
    cname := fun name cache stored => (all.cname name cache stored).snoc label }

theorem mem_of_lastPut {α : Type} {entries : List (StringT × α)} {name : StringT} {data : α}
    (last : lastPut entries name = some data) : (name, data) ∈ entries := by
  obtain ⟨entry, found, isData⟩ := Option.map_eq_some_iff.mp last
  have equal : stringEqual entry.1 name = true := by
    have holds := List.find?_some found
    exact holds
  have isName := (stringEqual_iff _ _).mp equal
  have member := List.mem_reverse.mp (List.mem_of_find?_eq_some found)
  rw [← isName, ← isData]
  exact member

theorem allTold_configured (now : Int) (entries : List (StringT × UInt32)) :
    AllTold (fun domain address => (domain, address) ∈ entries) []
      (CacheMaps.configured now entries) := by
  constructor
  · intro name cache stored address member
    obtain ⟨configured, last, isCache⟩ := Option.map_eq_some_iff.mp stored
    rw [← isCache] at member
    rw [List.mem_singleton.mp member]
    exact .configured (mem_of_lastPut last)
  · intro name cache stored
    cases stored
  · intro name cache stored
    cases stored

/-! ### Callbacks -/

theorem AllTold.request {maps : CacheMaps} (all : AllTold said events maps)
    {ipv4 : StringT → Option Ipv4Cache} (flags : FlagsRevised maps.ipv4 ipv4) :
    AllTold said events { maps with ipv4 := ipv4 } := by
  refine { all with ipv4 := ?_ }
  intro name cache stored address member
  have isStored : ipv4 name = some cache := stored
  rcases flags name with same | revised
  · rw [same] at isStored
    exact all.ipv4 name cache isStored address member
  · rw [revised] at isStored
    obtain ⟨old, found, isFlagged⟩ := Option.map_eq_some_iff.mp isStored
    rw [← isFlagged] at member
    exact all.ipv4 name old found address member

theorem enterCname_told (told : StringT → StringT → Prop) {now : Int}
    {answers : List ResourceRecord} {map : StringT → Option CnameCache}
    (before : ∀ name cache, map name = some cache → told name cache.name)
    (new : ∀ answer ∈ answers, ∀ name, answer.type = 5 → answer.responseData = .domain name →
      told answer.name name) :
    ∀ name cache, answers.foldl (enterCname now) map name = some cache →
      told name cache.name := by
  induction answers generalizing map with
  | nil => exact before
  | cons answer answers ih =>
      refine ih ?_ fun later member => new later (List.mem_cons_of_mem _ member)
      intro name cache stored
      unfold enterCname at stored
      cases hData : answer.responseData with
      | domain target =>
          simp only [hData] at stored
          by_cases isCname : answer.type = 5
          · rw [if_pos isCname] at stored
            by_cases isOwner : name = answer.name
            · subst isOwner
              rw [Function.update_self] at stored
              cases stored
              exact new answer List.mem_cons_self target isCname hData
            · rw [Function.update_of_ne isOwner] at stored
              exact before name cache stored
          · rw [if_neg isCname] at stored
            exact before name cache stored
      | _ =>
          simp only [hData] at stored
          exact before name cache stored

theorem AllTold.reply {maps : CacheMaps} (all : AllTold said events maps) (now : Int)
    (message : Message) (sent : List Sent) :
    AllTold said (events ++ [((now, .reply message), sent)])
      (maps.reply now (answersIn message)) := by
  have older := all.snoc ((now, .reply message), sent)
  have told : ((now, Occasion.reply message), sent) ∈
      events ++ [((now, .reply message), sent)] :=
    List.mem_append_right _ (List.mem_singleton_self _)
  constructor
  · intro name cache stored address member
    unfold CacheMaps.reply at stored
    cases hOwner : lastOwner 1 (answersIn message) with
    | none =>
        simp only [hOwner] at stored
        exact older.ipv4 name cache stored address member
    | some owner =>
        simp only [hOwner, ipv4MapPut] at stored
        by_cases isManual : (maps.ipv4 owner).any (fun old => old.manual) = true
        · rw [if_pos isManual] at stored
          exact older.ipv4 name cache stored address member
        · rw [if_neg isManual] at stored
          by_cases isOwner : name = owner
          · subst isOwner
            rw [Function.update_self] at stored
            cases stored
            exact .inet4 told hOwner member
          · rw [Function.update_of_ne isOwner] at stored
            exact older.ipv4 name cache stored address member
  · intro name cache stored address member
    unfold CacheMaps.reply at stored
    cases hOwner : lastOwner 28 (answersIn message) with
    | none =>
        simp only [hOwner] at stored
        exact older.ipv6 name cache stored address member
    | some owner =>
        simp only [hOwner] at stored
        by_cases isOwner : name = owner
        · subst isOwner
          rw [Function.update_self] at stored
          cases stored
          exact .inet6 told hOwner member
        · rw [Function.update_of_ne isOwner] at stored
          exact older.ipv6 name cache stored address member
  · refine enterCname_told
      (fun name target => Told said (events ++ [((now, .reply message), sent)])
        (generateCnameResponse name target)) older.cname ?_
    intro answer among name isCname data
    exact .cname told among isCname data

theorem AllTold.step {before after : CacheMaps} {label : (Int × Occasion) × List Sent}
    (all : AllTold said events before) (step : MapStep before label.1 after) :
    AllTold said (events ++ [label]) after := by
  obtain ⟨⟨now, occasion⟩, sent⟩ := label
  cases step with
  | request flags => exact (all.request flags).snoc _
  | reply => exact all.reply now _ sent
  | sweep =>
      have older := all.snoc ((now, .sweep), sent)
      exact
        { ipv4 := fun name cache stored =>
            older.ipv4 name cache (Option.filter_eq_some_iff.mp stored).1
          ipv6 := fun name cache stored =>
            older.ipv6 name cache (Option.filter_eq_some_iff.mp stored).1
          cname := older.cname }

/-! ### Local replies -/

theorem Uses.told {world : World} {maps : CacheMaps} (shows : Shows world maps)
    (all : AllTold said events maps) {record : ResourceRecord} {written ttl : Int}
    {manual : Bool} (uses : Uses world record written ttl manual) :
    Told said events record := by
  cases uses with
  | cname found =>
      rw [shows.cnameGet] at found
      exact all.cname _ _ (Except.ok.inj found)
  | inet4 found member =>
      rw [shows.ipv4Get] at found
      exact all.ipv4 _ _ (Except.ok.inj found) _ member
  | inet6 found member =>
      rw [shows.ipv6Get] at found
      exact all.ipv6 _ _ (Except.ok.inj found) _ member

/-- After every run without a wrong removal, all that the caches hold was told. -/
theorem run_allTold {env : Env} {malloc : Malloc} {began : Int} {file : Option (List UInt8)}
    {start world : World} (started : (startUp env malloc began file).out = .ok start)
    (run : Run SafeServe start events world) :
    ∃ maps, Shows world maps ∧
      AllTold (fun domain address => (domain, address) ∈ fileEntries env file) events maps := by
  refine run.invariant (fun events world => ∃ maps, Shows world maps ∧
    AllTold (fun domain address => (domain, address) ∈ fileEntries env file) events maps)
    ⟨_, startUp_shows started, allTold_configured began _⟩ ?_
  rintro earlier label middle final ⟨maps, shows, all⟩ ⟨served, safe⟩
  obtain ⟨maps', shows', mapStep⟩ := served.mapStep shows safe
  exact ⟨maps', shows', all.step mapStep⟩

/-! ### Lines of the file -/

/-- The program is started without a configuration file, or with a file of these lines. -/
inductive ReadsLines (env : Env) : List (List UInt8) → Option (List UInt8) → Prop where
  | absent : ReadsLines env [] none
  | text {lines : List (List UInt8)} {text : List UInt8} (config : ConfigText lines text)
      (ended : TokensEnded env lines) : ReadsLines env lines (some text)

theorem ReadsLines.entries {env : Env} {lines : List (List UInt8)} {file : Option (List UInt8)}
    (reads : ReadsLines env lines file) : fileEntries env file = configEntries lines := by
  cases reads with
  | absent => rfl
  | text config ended => exact fileEntries_of_text config ended

/-- A line of the file maps the domain to the address; where its second word is no address
text it stands for 0.0.0.0. -/
def SaidIn (lines : List (List UInt8)) (domain : StringT) (address : UInt32) : Prop :=
  (∃ line ∈ lines, LineMaps line domain address) ∨
    address = 0 ∧ ∃ line ∈ lines, ∃ token,
      splitLine line = some (domain, token) ∧ ¬ ValidQuad token

theorem Told.mono {said' : StringT → UInt32 → Prop} {record : ResourceRecord}
    (told : Told said events record)
    (onward : ∀ domain address, said domain address → said' domain address) :
    Told said' events record := by
  cases told with
  | configured isSaid => exact .configured (onward _ _ isSaid)
  | inet4 told owner among => exact .inet4 told owner among
  | inet6 told owner among => exact .inet6 told owner among
  | cname told among isCname data => exact .cname told among isCname data

/-- What the loader made of the file is what its lines say. -/
theorem ReadsLines.told {env : Env} {lines : List (List UInt8)} {file : Option (List UInt8)}
    (reads : ReadsLines env lines file) {record : ResourceRecord}
    (told : Told (fun domain address => (domain, address) ∈ fileEntries env file) events
      record) : Told (SaidIn lines) events record := by
  apply told.mono
  intro domain address member
  rw [reads.entries] at member
  exact configEntries_said member

/-- The program makes nothing up: each record of each reply that it makes itself repeats a
line of the configuration file or an answer of an earlier upstream reply. -/
theorem localAnswers_told {env : Env} {malloc : Malloc} {began : Int}
    {lines : List (List UInt8)} {file : Option (List UInt8)}
    (reads : ReadsLines env lines file) {start world after : World}
    (started : (startUp env malloc began file).out = .ok start)
    (run : Run SafeServe start events world)
    {now : Int} {message : Message} {address : SockAddr} {sent : List Sent}
    (step : Serve world ((now, .request message address), sent) after)
    {client : SockAddr} {reply : Message} {buf : UvBuf}
    (isSent : .response client reply buf ∈ sent) :
    ∀ record ∈ reply.answers, Told (SaidIn lines) events record := by
  obtain ⟨maps, shows, all⟩ := run_allTold started run
  intro record member
  cases step with
  | request decoded done =>
      rw [bindSocketRead, Logged.bind_out_of_ok decoded] at done
      obtain ⟨_, _, _, uses⟩ := (handled_of_handleRequest done).uses isSent member
      exact reads.told (uses.told shows all)

/-! ### Asked after the reply -/

def asksForAddress6 : Datagram :=
  { buf :=
      { base := [0, 7, 1, 0, 0, 1, 0, 0, 0, 0, 0, 0, 1, 97, 0, 0, 28, 0, 1]
        len := 19 }
    nonempty := Nat.succ_pos (nat_lit 18)
    fits := Nat.le_refl (nat_lit 19) }

def asksForAddress6Message : Message :=
  { tellsAddress6Message with
    flags :=
      { qr := 0, opcode := 0, aa := 0, tc := 0, rd := 1, ra := 0, z := 0, rcode := 0 }
    answerCount := 0
    answers := [] }

def askedForAddress6 : World × List Sent :=
  returned (bindSocketRead fiveSteps asksForAddress6 [1] knowsAddress6.1)

theorem askedForAddress6_served : Serve knowsAddress6.1
    ((200, .request asksForAddress6Message [1]), askedForAddress6.2) askedForAddress6.1 := by
  have decoded : (buf2message fiveSteps asksForAddress6.buf).out =
      .ok asksForAddress6Message := by rfl
  exact .request decoded (out_eq_returned (by decide +kernel))

private def twoRecords (sent : Sent) : Bool :=
  match sent with
  | .query _ _ => false
  | .response _ reply _ => decide (reply.answers.length = 2)

theorem localAnswers_told_asked : ∃ client reply buf,
    .response client reply buf ∈ askedForAddress6.2 ∧ reply.answers.length = 2 ∧
      ∀ record ∈ reply.answers, Told (SaidIn []) toldAddress6 record := by
  have answered : askedForAddress6.2.any twoRecords = true := by decide +kernel
  obtain ⟨sent, isSent, two⟩ := List.any_eq_true.mp answered
  cases sent with
  | query _ _ => cases two
  | response client reply buf =>
      exact ⟨client, reply, buf, isSent, of_decide_eq_true two,
        localAnswers_told .absent startUp_fiveSteps toldAddress6_safeRun askedForAddress6_served
          isSent⟩

end PostDns
