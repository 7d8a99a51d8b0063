/-
How old an entry can be that a request is answered with (main.c, `clear_callback`).

No lookup looks at the time: an entry is as fresh as the last sweep has left it.  A sweep
drops what has expired in the two address caches, and nothing in the third one, where
`cname_cache_clear` has an empty body.
-/

import PostDns.Answering
import PostDns.Configured

namespace PostDns

open Foundation

/-! ### The clock -/

structure Timed where
  world : World
  clock : Int
  swept : Int

/-- The timer ticks every 120 seconds, and nothing else happens after a tick is due. -/
def TimerKept (before after : Timed) : Int × Occasion → Prop
  | (now, .sweep) => now = before.swept + 120 ∧ after.swept = now
  | (now, _) => now ≤ before.swept + 120 ∧ after.swept = before.swept

structure TimedServe (before : Timed) (label : (Int × Occasion) × List Sent)
    (after : Timed) : Prop where
  served : Serve before.world label after.world
  later : before.clock ≤ label.1.1
  clock : after.clock = label.1.1
  timer : TimerKept before after label.1

def SweepsAll (before : World) (event : Int × Occasion) : Prop :=
  event.2 = .sweep → SweepsSafe event.1 before ∧
    ∀ name cache, cnameCacheGet before.cnameTable name = .ok (some cache) →
      event.1 ≤ cache.timestamp + cache.ttl

def FreshServe (before : Timed) (label : (Int × Occasion) × List Sent) (after : Timed) :
    Prop :=
  TimedServe before label after ∧ SweepsAll before.world label.1

/-! ### What a record is made of -/

inductive Uses (world : World) : ResourceRecord → Int → Int → Bool → Prop where
  | cname {domain : StringT} {cache : CnameCache}
      (found : cnameCacheGet world.cnameTable domain = .ok (some cache)) :
      Uses world (generateCnameResponse domain cache.name) cache.timestamp cache.ttl
        cache.manual
  | inet4 {domain : StringT} {cache : Ipv4Cache} {address : UInt32}
      (found : ipv4CacheGet world.ipv4Table domain = .ok (some cache))
      (member : address ∈ cache.node) :
      Uses world (generateIpv4Response domain address) cache.timestamp cache.ttl cache.manual
  | inet6 {domain : StringT} {cache : Ipv6Cache} {address : List UInt8}
      (found : ipv6CacheGet world.ipv6Table domain = .ok (some cache))
      (member : address ∈ cache.node) :
      Uses world (generateIpv6Response domain address) cache.timestamp cache.ttl cache.manual

theorem Chased.found {t : HashTable CnameCache} {domain last : StringT}
    {links : List (StringT × CnameCache)} (chased : Chased t domain links last)
    {link : StringT × CnameCache} (member : link ∈ links) :
    cnameCacheGet t link.1 = .ok (some link.2) := by
  induction chased with
  | last _ => cases member
  | link found _ ih =>
      rcases List.mem_cons.mp member with same | inRest
      · rw [same]
        exact found
      · exact ih inRest

theorem QueryRecords.uses {env : Env} {world : World} {query : Query}
    {records : List ResourceRecord} (made : QueryRecords env world query records)
    {record : ResourceRecord} (member : record ∈ records) :
    ∃ timestamp ttl manual, Uses world record timestamp ttl manual := by
  have ofAlias {links : List (StringT × CnameCache)} {last : StringT}
      (chased : Chased world.cnameTable query.name links last)
      (inAliases : record ∈ aliasRecords links) :
      ∃ timestamp ttl manual, Uses world record timestamp ttl manual := by
    obtain ⟨link, inLinks, isRecord⟩ := List.mem_map.mp inAliases
    rw [← isRecord]
    exact ⟨_, _, _, .cname (chased.found inLinks)⟩
  cases made with
  | missing4 _ chased _ _ => exact ofAlias chased member
  | found4 _ chased _ found =>
      rcases List.mem_append.mp member with inAliases | inAddresses
      · exact ofAlias chased inAliases
      · obtain ⟨address, inNode, isRecord⟩ := List.mem_map.mp inAddresses
        rw [← isRecord]
        exact ⟨_, _, _, .inet4 found inNode⟩
  | aliases _ chased _ => exact ofAlias chased member
  | missing6 _ chased _ _ => exact ofAlias chased member
  | found6 _ chased _ found =>
      rcases List.mem_append.mp member with inAliases | inAddresses
      · exact ofAlias chased inAliases
      · obtain ⟨address, inNode, isRecord⟩ := List.mem_map.mp inAddresses
        rw [← isRecord]
        exact ⟨_, _, _, .inet6 found inNode⟩
  | unsupported _ _ _ => cases member

/-- Every record of a local reply is made of an entry of the caches. -/
theorem Handled.uses {env : Env} {address client : SockAddr} {message reply : Message}
    {before after : World} {sent : List Sent} {buf : UvBuf}
    (handled : Handled env address message before after sent)
    (isSent : .response client reply buf ∈ sent) {record : ResourceRecord}
    (member : record ∈ reply.answers) :
    ∃ timestamp ttl manual, Uses before record timestamp ttl manual := by
  cases handled with
  | forwarded _ _ _ => cases List.mem_singleton.mp isSent
  | blocked _ _ _ _ =>
      cases List.mem_singleton.mp isSent
      cases member
  | @answered pass records _ counted _ _ made _ =>
      cases List.mem_singleton.mp isSent
      obtain ⟨revised, _⟩ := countQueries_frame rfl rfl counted
      have made' := (forall₂_queryRecords_revised revised).mp made
      obtain ⟨mine, inRecords, inMine⟩ := List.mem_flatten.mp member
      obtain ⟨query, _, here⟩ := forall₂_right made' inRecords
      exact here.uses inMine

/-! ### Entries after a sweep -/

def WrittenAt (began : Int) (events : List ((Int × Occasion) × List Sent)) (time : Int) : Prop :=
  time = began ∨ ∃ message sent, ((time, .reply message), sent) ∈ events

theorem WrittenAt.snoc {began time : Int} {events : List ((Int × Occasion) × List Sent)}
    (written : WrittenAt began events time) (label : (Int × Occasion) × List Sent) :
    WrittenAt began (events ++ [label]) time := by
  rcases written with atStart | ⟨message, sent, member⟩
  · exact Or.inl atStart
  · exact Or.inr ⟨message, sent, List.mem_append_left _ member⟩

structure Current (written : Int → Prop) (swept timestamp ttl : Int) (manual : Bool) :
    Prop where
  written : written timestamp
  unexpired : manual = true ∨ swept ≤ timestamp + ttl

theorem Current.mono {written written' : Int → Prop} {swept timestamp ttl : Int}
    {manual : Bool} (current : Current written swept timestamp ttl manual)
    (weaker : ∀ time, written time → written' time) :
    Current written' swept timestamp ttl manual :=
  ⟨weaker timestamp current.written, current.unexpired⟩

structure CurrentIpv4 (written : Int → Prop) (swept : Int) (cache : Ipv4Cache) : Prop where
  current : Current written swept cache.timestamp cache.ttl cache.manual
  manual : cache.manual = true → cache.node.head? = some 0

theorem CurrentIpv4.flagged {written : Int → Prop} {swept : Int} {cache : Ipv4Cache}
    (current : CurrentIpv4 written swept cache) : CurrentIpv4 written swept cache.flagged := by
  refine ⟨⟨current.current.written, ?_⟩, of_decide_eq_true⟩
  rcases current.current.unexpired with manual | unexpired
  · exact Or.inl (decide_eq_true (current.manual manual))
  · exact Or.inr unexpired

structure AllCurrent (written : Int → Prop) (swept : Int) (maps : CacheMaps) : Prop where
  ipv4 : EachCached (CurrentIpv4 written swept) maps.ipv4
  ipv6 : EachCached
    (fun cache => Current written swept cache.timestamp cache.ttl cache.manual) maps.ipv6
  cname : EachCached
    (fun cache => Current written swept cache.timestamp cache.ttl cache.manual) maps.cname

theorem AllCurrent.mono {written written' : Int → Prop} {swept : Int} {maps : CacheMaps}
    (current : AllCurrent written swept maps) (weaker : ∀ time, written time → written' time) :
    AllCurrent written' swept maps :=
  { ipv4 := current.ipv4.mono fun _ old => ⟨old.current.mono weaker, old.manual⟩
    ipv6 := current.ipv6.mono fun _ old => old.mono weaker
    cname := current.cname.mono fun _ old => old.mono weaker }

theorem allCurrent_configured (began : Int) (entries : List (StringT × UInt32)) :
    AllCurrent (WrittenAt began []) began (CacheMaps.configured began entries) := by
  refine ⟨?_, nofun, nofun⟩
  intro name cache stored
  obtain ⟨address, _, isCache⟩ := Option.map_eq_some_iff.mp stored
  rw [← isCache]
  refine ⟨⟨Or.inl rfl, Or.inr ?_⟩, nofun⟩
  change began ≤ began + 1
  omega

theorem AllCurrent.reply {written : Int → Prop} {swept now : Int} {maps : CacheMaps}
    (current : AllCurrent written swept maps) (isWritten : written now) (later : swept ≤ now)
    (answers : List ResourceRecord) : AllCurrent written swept (maps.reply now answers) := by
  have fresh (manual : Bool) : Current written swept now 120 manual :=
    ⟨isWritten, Or.inr (by omega)⟩
  constructor
  · apply CacheMaps.reply_ipv4 current.ipv4
    intro owner _
    exact current.ipv4.mapPut ⟨fresh false, nofun⟩
  · unfold CacheMaps.reply
    cases lastOwner 28 answers with
    | none => exact current.ipv6
    | some domain => exact current.ipv6.update (fresh false)
  · exact current.cname.enterCname (fun _ => fresh false) answers

theorem AllCurrent.sweep {written : Int → Prop} {swept now : Int} {maps : CacheMaps}
    (current : AllCurrent written swept maps)
    (aliases : EachCached (fun cache : CnameCache => now ≤ cache.timestamp + cache.ttl)
      maps.cname) : AllCurrent written now (maps.sweep now) := by
  constructor
  · refine current.ipv4.filter ?_
    intro cache old keeps
    refine ⟨⟨old.current.written, ?_⟩, old.manual⟩
    cases hManual : cache.manual with
    | true => exact Or.inl rfl
    | false =>
        right
        simp only [ipv4Expired, hManual, Bool.not_false, Bool.true_and, Bool.not_eq_true',
          decide_eq_false_iff_not] at keeps
        omega
  · refine current.ipv6.filter ?_
    intro cache old keeps
    refine ⟨old.written, Or.inr ?_⟩
    simp only [ipv6Expired, Bool.not_eq_true', decide_eq_false_iff_not] at keeps
    omega
  · intro name cache stored
    exact ⟨(current.cname name cache stored).written, Or.inr (aliases name cache stored)⟩

/-! ### Runs -/

structure Kept (began : Int) (events : List ((Int × Occasion) × List Sent)) (timed : Timed)
    (maps : CacheMaps) : Prop where
  shows : Shows timed.world maps
  order : timed.swept ≤ timed.clock
  current : AllCurrent (WrittenAt began events) timed.swept maps

theorem FreshServe.kept {began : Int} {events : List ((Int × Occasion) × List Sent)}
    {before after : Timed} {maps : CacheMaps} {label : (Int × Occasion) × List Sent}
    (kept : Kept began events before maps) (step : FreshServe before label after) :
    ∃ maps', Kept began (events ++ [label]) after maps' := by
  obtain ⟨timed, sweeps⟩ := step
  obtain ⟨⟨now, occasion⟩, sent⟩ := label
  have later : before.clock ≤ now := timed.later
  have clock : after.clock = now := timed.clock
  have timer := timed.timer
  have order := kept.order
  obtain ⟨maps', shows', mapStep⟩ := timed.served.mapStep kept.shows fun isSweep =>
    (sweeps isSweep).1
  have older := kept.current.mono (fun time written => written.snoc ((now, occasion), sent))
  refine ⟨maps', shows', ?_, ?_⟩
  · cases occasion with
    | request message address =>
        have same : after.swept = before.swept := timer.2
        omega
    | reply message =>
        have same : after.swept = before.swept := timer.2
        omega
    | sweep =>
        have ticked : after.swept = now := timer.2
        omega
  · cases mapStep with
    | request flags =>
        have same : after.swept = before.swept := timer.2
        rw [same]
        exact { older with ipv4 := older.ipv4.flags flags fun _ old => old.flagged }
    | @reply _ message =>
        have same : after.swept = before.swept := timer.2
        rw [same]
        refine older.reply (Or.inr ⟨message, sent, ?_⟩) (by omega) _
        exact List.mem_append_right _ (List.mem_singleton_self _)
    | sweep =>
        have ticked : after.swept = now := timer.2
        rw [ticked]
        apply older.sweep
        intro name cache stored
        refine (sweeps rfl).2 name cache ?_
        rw [kept.shows.cnameGet, stored]

theorem freshRun_kept {began : Int} {start : World} {entries : List (StringT × UInt32)}
    (shows : Shows start (CacheMaps.configured began entries))
    {events : List ((Int × Occasion) × List Sent)} {timed : Timed}
    (run : Run FreshServe { world := start, clock := began, swept := began } events timed) :
    ∃ maps, Kept began events timed maps := by
  refine run.invariant (fun events timed => ∃ maps, Kept began events timed maps)
    ⟨_, shows, le_rfl, allCurrent_configured began entries⟩ ?_
  rintro events label before after ⟨maps, kept⟩ step
  exact step.kept kept

/-- Every record of a local reply comes from an entry that was last written when the
program started or a reply was handled, and that is manual or has outlived its time to
live by a sweep period at most. -/
def AnswersFresh (began : Int) (events : List ((Int × Occasion) × List Sent)) (world : World)
    (now : Int) (sent : List Sent) : Prop :=
  ∀ client reply buf, .response client reply buf ∈ sent → ∀ record ∈ reply.answers,
    ∃ written ttl manual, Uses world record written ttl manual ∧
      WrittenAt began events written ∧ (manual = true ∨ now ≤ written + ttl + 120)

theorem Kept.uses {began now : Int} {events : List ((Int × Occasion) × List Sent)}
    {timed : Timed} {maps : CacheMaps} (kept : Kept began events timed maps)
    (soon : now ≤ timed.swept + 120) {record : ResourceRecord} {written ttl : Int}
    {manual : Bool} (uses : Uses timed.world record written ttl manual) :
    WrittenAt began events written ∧ (manual = true ∨ now ≤ written + ttl + 120) := by
  have recent (current : Current (WrittenAt began events) timed.swept written ttl manual) :
      WrittenAt began events written ∧ (manual = true ∨ now ≤ written + ttl + 120) := by
    refine ⟨current.written, ?_⟩
    rcases current.unexpired with isManual | unexpired
    · exact Or.inl isManual
    · exact Or.inr (by omega)
  cases uses with
  | @cname domain cache found =>
      rw [kept.shows.cnameGet] at found
      exact recent (kept.current.cname domain cache (Except.ok.inj found))
  | @inet4 domain cache _ found _ =>
      rw [kept.shows.ipv4Get] at found
      exact recent (kept.current.ipv4 domain cache (Except.ok.inj found)).current
  | @inet6 domain cache _ found _ =>
      rw [kept.shows.ipv6Get] at found
      exact recent (kept.current.ipv6 domain cache (Except.ok.inj found))

/-- In every run in which each sweep finds no expired alias and makes safe removals, all
local answers are fresh. -/
theorem localAnswers_fresh {env : Env} {began : Int} {file : Option (List UInt8)}
    {start : World} {malloc : Malloc} (started : (startUp env malloc began file).out = .ok start)
    {events : List ((Int × Occasion) × List Sent)} {timed after : Timed}
    (run : Run FreshServe { world := start, clock := began, swept := began } events timed)
    {now : Int} {message : Message} {address : SockAddr} {sent : List Sent}
    (step : TimedServe timed ((now, .request message address), sent) after) :
    AnswersFresh began events timed.world now sent := by
  obtain ⟨maps, kept⟩ := freshRun_kept (startUp_shows started) run
  have soon : now ≤ timed.swept + 120 := step.timer.1
  intro client reply buf isSent record member
  cases step.served with
  | request decoded done =>
      rw [bindSocketRead, Logged.bind_out_of_ok decoded] at done
      obtain ⟨written, ttl, manual, uses⟩ :=
        (handled_of_handleRequest done).uses isSent member
      exact ⟨written, ttl, manual, uses, kept.uses soon uses⟩

/-! ### An alias that is never swept -/

private def threeTurns : Env := { fuel := 3, junk := fun _ _ => 0 }

private def tellsAlias : Datagram :=
  { buf :=
      { base := [0, 7, 0x81, 0x80, 0, 1, 0, 1, 0, 0, 0, 0, 1, 97, 0, 0, 5, 0, 1,
          0xc0, 12, 0, 5, 0, 1, 0, 0, 0, 60, 0, 3, 1, 98, 0]
        len := 34 }
    nonempty := Nat.succ_pos (nat_lit 33)
    fits := Nat.le_refl (nat_lit 34) }

private def asksForAlias : Datagram :=
  { buf :=
      { base := [0, 7, 1, 0, 0, 1, 0, 0, 0, 0, 0, 0, 1, 97, 0, 0, 5, 0, 1]
        len := 19 }
    nonempty := Nat.succ_pos (nat_lit 18)
    fits := Nat.le_refl (nat_lit 19) }

private def asksForAliasMessage : Message :=
  { id := 7
    flags :=
      { qr := 0, opcode := 0, aa := 0, tc := 0, rd := 1, ra := 0, z := 0, rcode := 0 }
    queryCount := 1
    answerCount := 0
    authorityCount := 0
    additionalCount := 0
    queries := [{ name := [97], type := 5, cls := 1 }]
    answers := [] }

private def tellsAliasMessage : Message :=
  { asksForAliasMessage with
    flags :=
      { qr := 1, opcode := 0, aa := 0, tc := 0, rd := 1, ra := 1, z := 0, rcode := 0 }
    answerCount := 1
    answers :=
      [{ name := [97]
         type := 5
         cls := 1
         ttl := 60
         responseDataLength := 3
         responseData := .domain [98] }] }

private def knowsAlias : World × List Sent :=
  returned (querySocketRead threeTurns 0 tellsAlias (World.init .ascending))

private def askedForAlias : World × List Sent :=
  returned (bindSocketRead threeTurns asksForAlias [1] knowsAlias.1)

private def startsFresh : Timed := { world := (World.init .ascending), clock := 0, swept := 0 }

private theorem aliasReplied : TimedServe startsFresh
    ((0, .reply tellsAliasMessage), knowsAlias.2)
    { world := knowsAlias.1, clock := 0, swept := 0 } := by
  have told : (buf2message threeTurns tellsAlias.buf).out = .ok tellsAliasMessage := by rfl
  have done : (querySocketRead threeTurns 0 tellsAlias (World.init .ascending)).out =
      .ok (knowsAlias.1, knowsAlias.2) := out_eq_returned (by decide +kernel)
  exact
    { served := .reply told done
      later := le_rfl
      clock := rfl
      timer := ⟨by decide, rfl⟩ }

private theorem aliasAsked {now swept : Int} (soon : now ≤ swept + 120)
    {clock : Int} (later : clock ≤ now) :
    TimedServe { world := knowsAlias.1, clock := clock, swept := swept }
      ((now, .request asksForAliasMessage [1]), askedForAlias.2)
      { world := askedForAlias.1, clock := now, swept := swept } := by
  have decoded : (buf2message threeTurns asksForAlias.buf).out = .ok asksForAliasMessage := by
    rfl
  have done : (bindSocketRead threeTurns asksForAlias [1] knowsAlias.1).out =
      .ok (askedForAlias.1, askedForAlias.2) := out_eq_returned (by decide +kernel)
  exact
    { served := .request decoded done
      later := later
      clock := rfl
      timer := ⟨soon, rfl⟩ }

theorem localAnswers_fresh_soon :
    AnswersFresh 0 [((0, .reply tellsAliasMessage), knowsAlias.2)] knowsAlias.1 60
      askedForAlias.2 := by
  have started : (startUp threeTurns .ascending 0 none).out = .ok (World.init .ascending) := rfl
  exact localAnswers_fresh started
    (Run.snoc Run.nil ⟨aliasReplied, nofun⟩) (aliasAsked (by decide) (by decide))

/-- A sweep leaves the alias where it is. -/
private theorem aliasKept (now : Int) :
    (clearCallback now knowsAlias.1).out = .ok knowsAlias.1 := by
  have ipv4 : knowsAlias.1.ipv4Table = (hashTableNew []) := by decide +kernel
  have ipv6 : knowsAlias.1.ipv6Table = (hashTableNew []) := by decide +kernel
  have clearIpv4 : (ipv4CacheClear now knowsAlias.1.ipv4Table).out =
      .ok knowsAlias.1.ipv4Table := by
    rw [ipv4]
    rfl
  have clearIpv6 : (ipv6CacheClear now knowsAlias.1.ipv6Table).out =
      .ok knowsAlias.1.ipv6Table := by
    rw [ipv6]
    rfl
  unfold clearCallback
  rw [Logged.bind_out_of_ok clearIpv4, Logged.bind_out_of_ok clearIpv6]
  rfl

private def answersAlias : Sent → Bool
  | .query _ _ => false
  | .response _ reply _ => reply.answers.contains (generateCnameResponse [97] [98])

private theorem aliasAnswered : ∃ client reply buf,
    Sent.response client reply buf ∈ askedForAlias.2 ∧
      generateCnameResponse [97] [98] ∈ reply.answers := by
  have isAnswered : askedForAlias.2.any answersAlias = true := by
    decide +kernel
  obtain ⟨sent, isSent, answers⟩ := List.any_eq_true.mp isAnswered
  cases sent with
  | query _ _ => cases answers
  | response client reply buf =>
      exact ⟨client, reply, buf, isSent, List.contains_iff_mem.mp answers⟩

/-- The alias was written at time 0 and is used 250 seconds later. -/
theorem not_localAnswers_fresh_alias :
    ∃ timed, Run TimedServe startsFresh
        [((0, .reply tellsAliasMessage), knowsAlias.2), ((120, .sweep), []), ((240, .sweep), [])]
        timed ∧
      TimedServe timed ((250, .request asksForAliasMessage [1]), askedForAlias.2)
        { world := askedForAlias.1, clock := 250, swept := 240 } ∧
      ¬ AnswersFresh 0
        [((0, .reply tellsAliasMessage), knowsAlias.2), ((120, .sweep), []), ((240, .sweep), [])]
        timed.world 250 askedForAlias.2 := by
  have swept (before now : Int) (due : now = before + 120) :
      TimedServe { world := knowsAlias.1, clock := before, swept := before }
        ((now, .sweep), []) { world := knowsAlias.1, clock := now, swept := now } :=
    { served := .sweep (aliasKept now)
      later := by
        change before ≤ now
        omega
      clock := rfl
      timer := ⟨due, rfl⟩ }
  refine ⟨{ world := knowsAlias.1, clock := 240, swept := 240 },
    Run.snoc (Run.snoc (Run.snoc Run.nil aliasReplied) (swept 0 120 rfl)) (swept 120 240 rfl),
    aliasAsked (by decide) (by decide), ?_⟩
  intro fresh
  obtain ⟨client, reply, buf, isSent, member⟩ := aliasAnswered
  obtain ⟨written, ttl, manual, uses, _, recent⟩ := fresh client reply buf isSent _ member
  generalize isRecord : generateCnameResponse [97] [98] = record at uses
  cases uses with
  | @cname domain cache found =>
      have isDomain : domain = [97] := (congrArg ResourceRecord.name isRecord).symm
      have stored : cnameCacheGet knowsAlias.1.cnameTable [97] =
          .ok (some { name := [98], ttl := 120, timestamp := 0, manual := false }) := by
        decide +kernel
      rw [isDomain, stored] at found
      cases found
      revert recent
      decide
  | inet4 _ _ => cases congrArg ResourceRecord.type isRecord
  | inet6 _ _ => cases congrArg ResourceRecord.type isRecord

end PostDns
