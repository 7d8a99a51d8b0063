/-
The caches as a record of the run (socket.c, cname_cache.c and ipv6_cache.c).

What a lookup finds is decided by the replies and the sweeps so far.  An alias stays for good
until another reply gives its owner a new one; IPv6 addresses stay until a reply gives new ones
or a sweep comes past their time.
-/

import PostDns.Agreement
import PostDns.Configured
import PostDns.Foundation.Stores

namespace PostDns

open Foundation

def answersIn (message : Message) : List ResourceRecord :=
  message.answers.take message.answerCount.toNat

/-! ### A reply with an alias and an IPv6 address -/

def fiveSteps : Env := { fuel := 5, junk := fun _ _ => 0 }

def tellsAddress6 : Datagram :=
  { buf :=
      { base := [0, 7, 0x81, 0x80, 0, 1, 0, 2, 0, 0, 0, 0, 1, 97, 0, 0, 28, 0, 1,
          0xc0, 12, 0, 5, 0, 1, 0, 0, 0, 60, 0, 3, 1, 98, 0,
          1, 98, 0, 0, 28, 0, 1, 0, 0, 0, 60, 0, 16,
          0, 0, 0, 0, 0, 0, 0, 0, 0, 0, 0, 0, 0, 0, 0, 1]
        len := 63 }
    nonempty := Nat.succ_pos (nat_lit 62)
    fits := Nat.le_refl (nat_lit 63) }

def tellsAddress6Message : Message :=
  { id := 7
    flags :=
      { qr := 1, opcode := 0, aa := 0, tc := 0, rd := 1, ra := 1, z := 0, rcode := 0 }
    queryCount := 1
    answerCount := 2
    authorityCount := 0
    additionalCount := 0
    queries := [{ name := [97], type := 28, cls := 1 }]
    answers :=
      [{ name := [97]
         type := 5
         cls := 1
         ttl := 60
         responseDataLength := 3
         responseData := .domain [98] },
        { name := [98]
          type := 28
          cls := 1
          ttl := 60
          responseDataLength := 16
          responseData := .inet6 [0, 0, 0, 0, 0, 0, 0, 0, 0, 0, 0, 0, 0, 0, 0, 1] }] }

def knowsAddress6 : World × List Sent :=
  returned (querySocketRead fiveSteps 100 tellsAddress6 (World.init .ascending))

def toldAddress6 : List ((Int × Occasion) × List Sent) :=
  [((100, .reply tellsAddress6Message), knowsAddress6.2)]

theorem startUp_fiveSteps :
    (startUp fiveSteps .ascending 0 none).out = .ok (World.init .ascending) :=
  rfl

theorem toldAddress6_served :
    Serve (World.init .ascending) ((100, .reply tellsAddress6Message), knowsAddress6.2)
      knowsAddress6.1 := by
  have decoded : (buf2message fiveSteps tellsAddress6.buf).out = .ok tellsAddress6Message := by
    rfl
  exact .reply decoded (out_eq_returned (by decide +kernel))

theorem toldAddress6_run : Run Serve (World.init .ascending) toldAddress6 knowsAddress6.1 :=
  Run.snoc Run.nil toldAddress6_served

theorem toldAddress6_safeRun :
    Run SafeServe (World.init .ascending) toldAddress6 knowsAddress6.1 := by
  refine Run.snoc Run.nil ⟨toldAddress6_served, ?_⟩
  intro isSweep
  cases isSweep

/-! ### Aliases -/

def aliasEntry (now : Int) (answer : ResourceRecord) : Option (StringT × CnameCache) :=
  match answer.responseData with
  | .domain name =>
      if answer.type = 5 then
        some (answer.name, { name := name, ttl := 120, timestamp := now, manual := false })
      else none
  | _ => none

def Occasion.aliases (now : Int) : Occasion → List (StringT × CnameCache)
  | .request _ _ => []
  | .reply message => (answersIn message).filterMap (aliasEntry now)
  | .sweep => []

def aliasEntries (events : List ((Int × Occasion) × List Sent)) :
    List (StringT × CnameCache) :=
  events.flatMap fun label => label.1.2.aliases label.1.1

theorem enterCname_lastPut (now : Int) (entries : List (StringT × CnameCache))
    (answers : List ResourceRecord) :
    answers.foldl (enterCname now) (lastPut entries) =
      lastPut (entries ++ answers.filterMap (aliasEntry now)) := by
  induction answers generalizing entries with
  | nil =>
      rw [List.filterMap_nil, List.append_nil]
      rfl
  | cons answer answers ih =>
      have step : enterCname now (lastPut entries) answer =
          lastPut (entries ++ (aliasEntry now answer).toList) := by
        unfold enterCname aliasEntry
        cases answer.responseData with
        | domain name =>
            by_cases isCname : answer.type = 5
            · simp only [isCname, if_true, Option.toList_some]
              rw [lastPut_snoc]
            · simp only [isCname, if_false, Option.toList_none, List.append_nil]
        | _ => simp only [Option.toList_none, List.append_nil]
      rw [List.foldl_cons, step, ih, List.append_assoc]
      congr 2
      cases hEntry : aliasEntry now answer with
      | none => rw [List.filterMap_cons_none hEntry, Option.toList_none, List.nil_append]
      | some entry =>
          rw [List.filterMap_cons_some hEntry, Option.toList_some, List.singleton_append]

theorem Serve.aliases {before after : World} {entries : List (StringT × CnameCache)}
    {label : (Int × Occasion) × List Sent} (isMap : IsMap before.cnameTable (lastPut entries))
    (step : Serve before label after) :
    IsMap after.cnameTable (lastPut (entries ++ label.1.2.aliases label.1.1)) := by
  cases step with
  | request decoded done =>
      rw [bindSocketRead, Logged.bind_out_of_ok decoded] at done
      obtain ⟨_, _, _, _, same⟩ := (handled_of_handleRequest done).tables
      rw [same, Occasion.aliases, List.append_nil]
      exact isMap
  | reply decoded done =>
      rw [querySocketRead, Logged.bind_out_of_ok decoded] at done
      obtain ⟨_, collected, collecting, _, _, same⟩ := handleReply_stored done
      rw [same, Occasion.aliases, ← enterCname_lastPut]
      exact (gathered_of_cacheAnswers collecting).cname _ isMap
  | sweep done =>
      obtain ⟨ipv4Table, _, rest⟩ := Logged.bind_out_eq_ok.mp done
      obtain ⟨ipv6Table, _, others⟩ := Logged.bind_out_eq_ok.mp rest
      obtain ⟨cnameTable, clearCname, returned⟩ := Logged.bind_out_eq_ok.mp others
      cases clearCname
      cases returned
      rw [Occasion.aliases, List.append_nil]
      exact isMap

theorem startUp_cnameTable {env : Env} {now : Int} {file : Option (List UInt8)} {start : World}
    {malloc : Malloc} (started : (startUp env malloc now file).out = .ok start) :
    start.cnameTable = hashTableNew malloc.cname := by
  cases file with
  | none =>
      cases started
      rfl
  | some text =>
      obtain ⟨t, _, returned⟩ := Logged.bind_out_eq_ok.mp started
      cases returned
      rfl

/-- A lookup of an alias finds the last one that a reply entered for the name, however many
sweeps come.  No removal happens in this table, and its memory is its own: what a sweep does
to released nodes of the address tables does not reach it here. -/
theorem aliasLookups_latest {env : Env} {now : Int} {file : Option (List UInt8)}
    {start world : World} {events : List ((Int × Occasion) × List Sent)} {malloc : Malloc}
    (started : (startUp env malloc now file).out = .ok start) (run : Run Serve start events world)
    (name : StringT) :
    cnameCacheGet world.cnameTable name = .ok (lastPut (aliasEntries events) name) := by
  have isMap : IsMap world.cnameTable (lastPut (aliasEntries events)) := by
    refine run.invariant
      (fun events world => IsMap world.cnameTable (lastPut (aliasEntries events))) ?_ ?_
    · rw [startUp_cnameTable started]
      exact hashTableNew_isMap malloc.cname
    · intro earlier label middle final isMap step
      rw [aliasEntries, List.flatMap_append, List.flatMap_singleton]
      exact step.aliases isMap
  exact hashTableGet_isMap isMap name

theorem aliasLookups_latest_told :
    cnameCacheGet knowsAddress6.1.cnameTable [97] =
      .ok (lastPut (aliasEntries toldAddress6) [97]) :=
  aliasLookups_latest startUp_fiveSteps toldAddress6_run [97]

/-! ### IPv6 addresses -/

def Occasion.ipv6Actions (now : Int) : Occasion → List (Store.Action StringT Ipv6Cache)
  | .request _ _ => []
  | .reply message =>
      match lastOwner 28 (answersIn message) with
      | none => []
      | some owner =>
          [.write owner (collectedCache now ((answersIn message).filterMap answerAddress6))]
  | .sweep => [.sweep (ipv6Expired now)]

def ipv6Actions (events : List ((Int × Occasion) × List Sent)) :
    List (Store.Action StringT Ipv6Cache) :=
  events.flatMap fun label => label.1.2.ipv6Actions label.1.1

theorem ipv6Actions_snoc (events : List ((Int × Occasion) × List Sent))
    (label : (Int × Occasion) × List Sent) :
    ipv6Actions (events ++ [label]) =
      ipv6Actions events ++ label.1.2.ipv6Actions label.1.1 := by
  rw [ipv6Actions, List.flatMap_append, List.flatMap_singleton]
  rfl

theorem MapStep.ipv6 {before after : CacheMaps} {event : Int × Occasion}
    (step : MapStep before event after) :
    after.ipv6 = (event.2.ipv6Actions event.1).foldl Store.Action.apply before.ipv6 := by
  cases step with
  | request flags => rfl
  | @reply now message =>
      cases hOwner : lastOwner 28 (message.answers.take message.answerCount.toNat) with
      | none => simp only [CacheMaps.reply, Occasion.ipv6Actions, answersIn, hOwner, List.foldl_nil]
      | some owner =>
          simp only [CacheMaps.reply, Occasion.ipv6Actions, answersIn, hOwner, List.foldl_cons,
            List.foldl_nil, Store.Action.apply]
  | sweep => rfl

/-- As long as no removal goes wrong, a lookup of IPv6 addresses finds those of the last reply
that ended with the name, and it finds them if and only if no sweep has come past their time
since. -/
theorem ipv6Lookups_latest {env : Env} {malloc : Malloc} {now : Int}
    {file : Option (List UInt8)} {start world : World}
    {events : List ((Int × Occasion) × List Sent)}
    (started : (startUp env malloc now file).out = .ok start)
    (run : Run SafeServe start events world) (name : StringT) (cache : Ipv6Cache) :
    ipv6CacheGet world.ipv6Table name = .ok (some cache) ↔
      ∃ written, Store.Last (ipv6Actions events) name cache written := by
  obtain ⟨maps, shows, isStore⟩ : ∃ maps, Shows world maps ∧
      maps.ipv6 = Store.storeAfter (ipv6Actions events) := by
    refine run.invariant (fun events world => ∃ maps, Shows world maps ∧
      maps.ipv6 = Store.storeAfter (ipv6Actions events)) ⟨_, startUp_shows started, rfl⟩ ?_
    rintro earlier label middle final ⟨maps, shows, isStore⟩ ⟨served, safe⟩
    obtain ⟨maps', shows', step⟩ := served.mapStep shows safe
    refine ⟨maps', shows', ?_⟩
    rw [step.ipv6, isStore, ipv6Actions_snoc, Store.storeAfter_append]
  rw [shows.ipv6Get, isStore, Except.ok.injEq]
  exact Store.storeAfter_eq_some_iff

theorem ipv6Lookups_latest_told :
    ipv6CacheGet knowsAddress6.1.ipv6Table [98] =
        .ok (some (collectedCache 100 [[0, 0, 0, 0, 0, 0, 0, 0, 0, 0, 0, 0, 0, 0, 0, 1]])) ↔
      ∃ written, Store.Last (ipv6Actions toldAddress6) [98]
        (collectedCache 100 [[0, 0, 0, 0, 0, 0, 0, 0, 0, 0, 0, 0, 0, 0, 0, 1]]) written :=
  ipv6Lookups_latest startUp_fiveSteps toldAddress6_safeRun [98] _

end PostDns
