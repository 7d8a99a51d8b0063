/-
What the caches hold after a run.

The three tables stay finite maps.  The cname cache is a graph with one edge for each
owner, that of the last alias that an upstream reply entered for it; client requests
leave it alone.
-/

import PostDns.CacheSemantics
import PostDns.Lookups
import PostDns.SocketSemantics
import Mathlib.Data.Set.Finite.Basic

namespace PostDns

open Foundation

/-! ### The alias graph -/

def enterAlias (aliases : StringT → Option StringT) (answer : ResourceRecord) :
    StringT → Option StringT :=
  if answer.type = 5 then
    match answer.responseData with
    | .domain name => Function.update aliases answer.name (some name)
    | _ => aliases
  else aliases

def answersOf : Event → List ResourceRecord
  | .request _ _ => []
  | .reply message => message.answers.take message.answerCount.toNat

def aliasesOf (events : List (Event × List Sent)) : StringT → Option StringT :=
  (events.flatMap fun label => answersOf label.1).foldl enterAlias (fun _ => none)

theorem aliasesOf_snoc (events : List (Event × List Sent)) (label : Event × List Sent) :
    aliasesOf (events ++ [label]) = (answersOf label.1).foldl enterAlias (aliasesOf events) := by
  simp [aliasesOf, List.foldl_append]

theorem enterAlias_finite {aliases : StringT → Option StringT}
    (finite : {name | (aliases name).isSome}.Finite) (answer : ResourceRecord) :
    {name | (enterAlias aliases answer name).isSome}.Finite := by
  refine (finite.insert answer.name).subset ?_
  intro name isAlias
  by_cases same : name = answer.name
  · exact Or.inl same
  · refine Or.inr ?_
    have kept : enterAlias aliases answer name = aliases name := by
      unfold enterAlias
      by_cases isCname : answer.type = 5
      · rw [if_pos isCname]
        cases answer.responseData with
        | domain target => exact Function.update_of_ne same _ _
        | _ => rfl
      · rw [if_neg isCname]
    change (aliases name).isSome
    rw [← kept]
    exact isAlias

theorem aliasesOf_finite (events : List (Event × List Sent)) :
    {name | (aliasesOf events name).isSome}.Finite := by
  unfold aliasesOf
  generalize events.flatMap (fun label => answersOf label.1) = answers
  induction answers using List.reverseRecOn with
  | nil => simp
  | append_singleton answers answer ih =>
      rw [List.foldl_append]
      exact enterAlias_finite ih answer

/-! ### The tables of a run -/

def aliasesIn (map : StringT → Option CnameCache) : StringT → Option StringT :=
  fun name => (map name).map (fun cache => cache.name)

theorem aliasesIn_update (map : StringT → Option CnameCache) (name : StringT)
    (cache : CnameCache) :
    aliasesIn (Function.update map name (some cache)) =
      Function.update (aliasesIn map) name (some cache.name) := by
  funext other
  by_cases same : other = name
  · subst same
    simp [aliasesIn]
  · simp [aliasesIn, Function.update_of_ne same]

structure Tables (world : World) (aliases : StringT → Option StringT) : Prop where
  ipv4 : ∃ map, IsMap world.ipv4Table map
  ipv6 : ∃ map, IsMap world.ipv6Table map
  cname : ∃ map, IsMap world.cnameTable map ∧ aliasesIn map = aliases

theorem tables_init (malloc : Malloc) : Tables (World.init malloc) (aliasesOf []) :=
  { ipv4 := ⟨_, hashTableNew_isMap malloc.ipv4⟩
    ipv6 := ⟨_, hashTableNew_isMap malloc.ipv6⟩
    cname := ⟨_, hashTableNew_isMap malloc.cname, rfl⟩ }

/-! ### Upstream replies -/

theorem AnswerStep.aliases {now : Int} {collected collected' : Collected}
    {answer : ResourceRecord} {map : StringT → Option CnameCache}
    (isMap : IsMap collected.cnameTable map)
    (step : AnswerStep now collected answer collected') :
    ∃ map', IsMap collected'.cnameTable map' ∧
      aliasesIn map' = enterAlias (aliasesIn map) answer := by
  have notEntered (notCname : answer.type ≠ 5) : enterAlias (aliasesIn map) answer =
      aliasesIn map := if_neg notCname
  cases step with
  | inet4 isA _ => exact ⟨map, isMap, (notEntered (by simp [isA])).symm⟩
  | @domain name cnameTable isCname data put =>
      obtain ⟨table, run, isMap'⟩ := cnameCachePut_isMap isMap now answer.name
        { name := name, ttl := 120, timestamp := now, manual := false }
      have same : table = cnameTable := Except.ok.inj (run.symm.trans put)
      subst same
      refine ⟨_, isMap', ?_⟩
      unfold enterAlias
      rw [if_pos isCname, data]
      exact aliasesIn_update map answer.name _
  | inet6 isAaaa _ => exact ⟨map, isMap, (notEntered (by simp [isAaaa])).symm⟩
  | skipped uncacheable => exact ⟨map, isMap, (notEntered uncacheable.2.1).symm⟩

theorem cacheAnswers_aliases {now : Int} {answers : List ResourceRecord}
    {collected collected' : Collected} {map : StringT → Option CnameCache}
    (isMap : IsMap collected.cnameTable map)
    (done : (cacheAnswers now answers collected).out = .ok collected') :
    ∃ map', IsMap collected'.cnameTable map' ∧
      aliasesIn map' = answers.foldl enterAlias (aliasesIn map) := by
  induction answers generalizing collected map with
  | nil =>
      cases done
      exact ⟨map, isMap, rfl⟩
  | cons answer answers ih =>
      obtain ⟨middle, first, rest⟩ := Logged.bind_out_eq_ok.mp done
      obtain ⟨map', isMap', entered⟩ := (answerStep_of_cacheAnswer first).aliases isMap
      rw [List.foldl_cons, ← entered]
      exact ih isMap' rest

theorem putNamed_isMap {α : Type} {t t' : HashTable α} {map : StringT → Option α}
    {put : StringT → Except Fault (HashTable α)} {domain : Option StringT}
    (isMap : IsMap t map) (puts : ∀ name, ∃ t' map', put name = .ok t' ∧ IsMap t' map')
    (done : (putNamed t put domain).out = .ok t') : ∃ map', IsMap t' map' := by
  cases domain with
  | none =>
      cases done
      exact ⟨map, isMap⟩
  | some name =>
      obtain ⟨table, map', run, isMap'⟩ := puts name
      have same : table = t' := Except.ok.inj (run.symm.trans done)
      subst same
      exact ⟨map', isMap'⟩

theorem handleReply_tables {env : Env} {now : Int} {message : Message}
    {before after : World} {sent : List Sent} {aliases : StringT → Option StringT}
    (tables : Tables before aliases)
    (done : (handleReply env now message before).out = .ok (after, sent)) :
    Tables after
      ((message.answers.take message.answerCount.toNat).foldl enterAlias aliases) := by
  obtain ⟨_, collected, collecting, putIpv4, putIpv6, isCname⟩ := handleReply_stored done
  obtain ⟨ipv4, isIpv4⟩ := tables.ipv4
  obtain ⟨ipv6, isIpv6⟩ := tables.ipv6
  obtain ⟨cname, isCnameMap, isAliases⟩ := tables.cname
  have starts : IsMap (Collected.start now before.cnameTable).cnameTable cname := isCnameMap
  obtain ⟨cname', isCnameMap', entered⟩ := cacheAnswers_aliases starts collecting
  rw [isAliases] at entered
  rw [← isCname] at isCnameMap'
  exact
    { ipv4 := putNamed_isMap isIpv4 (fun name => by
        obtain ⟨t', run, isMap'⟩ := ipv4CachePut_isMap isIpv4 now name collected.ipv4Cache
        exact ⟨t', _, run, isMap'⟩) putIpv4
      ipv6 := putNamed_isMap isIpv6 (fun name => by
        obtain ⟨t', run, isMap'⟩ := ipv6CachePut_isMap isIpv6 now name collected.ipv6Cache
        exact ⟨t', _, run, isMap'⟩) putIpv6
      cname := ⟨cname', isCnameMap', entered⟩ }

/-! ### Client requests -/

theorem countIpv4Cache_out {pass : FirstPass} {map : StringT → Option Ipv4Cache}
    (isMap : IsMap pass.ipv4Table map) {domain : StringT} {cache : Ipv4Cache}
    (stored : map domain = some cache) (answerCount : Nat) :
    (countIpv4Cache pass domain answerCount cache).out = .error .nullPointer ∨
      ∃ pass' map', (countIpv4Cache pass domain answerCount cache).out = .ok pass' ∧
        IsMap pass'.ipv4Table map' := by
  unfold countIpv4Cache
  cases hNode : cache.node with
  | nil => exact Or.inl rfl
  | cons address addresses =>
      right
      obtain ⟨t', written, isMap'⟩ := writeThrough_isMap isMap stored
        { cache with manual := decide (address = 0) }
      simp only [hNode] at written ⊢
      simp only [written, Logged.ofExcept_ok, Logged.pure_bind]
      by_cases isZero : address = 0
      · simp only [isZero, decide_true, if_true]
        exact ⟨_, _, rfl, isMap'⟩
      · simp only [isZero, decide_false, Bool.false_eq_true, if_false]
        exact ⟨_, _, rfl, isMap'⟩

/-- The first pass writes through pointers into the first table only. -/
theorem countQuery_isMap {env : Env} {world : World} {query : Query} {pass pass' : FirstPass}
    {map : StringT → Option Ipv4Cache} (isMap : IsMap pass.ipv4Table map)
    (done : (countQuery env world query pass).out = .ok pass') :
    ∃ map', IsMap pass'.ipv4Table map' := by
  cases countQuery_out_eq_ok.mp done with
  | missing4 _ _ _ _ => exact ⟨map, isMap⟩
  | @found4 links last cache _ _ _ _ found counted =>
      have stored : map last = some cache :=
        Except.ok.inj ((hashTableGet_isMap isMap last).symm.trans found)
      rcases countIpv4Cache_out isMap stored (pass.answerCount + links.length) with
        stopped | ⟨other, map', run, isMap'⟩
      · rw [stopped] at counted
        cases counted
      · rw [run] at counted
        cases counted
        exact ⟨map', isMap'⟩
  | missingAlias _ _ => exact ⟨map, isMap⟩
  | foundAlias _ _ _ _ => exact ⟨map, isMap⟩
  | missing6 _ _ _ _ => exact ⟨map, isMap⟩
  | found6 _ _ _ _ => exact ⟨map, isMap⟩
  | unsupported _ _ _ => exact ⟨map, isMap⟩

theorem countQueries_isMap {env : Env} {world : World} {queries : List Query}
    {pass pass' : FirstPass} {map : StringT → Option Ipv4Cache}
    (isMap : IsMap pass.ipv4Table map)
    (done : (countQueries env world queries pass).out = .ok pass') :
    ∃ map', IsMap pass'.ipv4Table map' := by
  induction queries generalizing pass map with
  | nil =>
      cases done
      exact ⟨map, isMap⟩
  | cons query queries ih =>
      unfold countQueries at done
      cases hCached : pass.cached with
      | true =>
          simp only [hCached, if_true] at done
          obtain ⟨middle, counted, rest⟩ := Logged.bind_out_eq_ok.mp done
          obtain ⟨map', isMap'⟩ := countQuery_isMap isMap counted
          exact ih isMap' rest
      | false =>
          simp only [hCached, Bool.false_eq_true, if_false] at done
          cases done
          exact ⟨map, isMap⟩

theorem handleRequest_tables {env : Env} {address : SockAddr} {message : Message}
    {before after : World} {sent : List Sent} {aliases : StringT → Option StringT}
    (tables : Tables before aliases)
    (done : (handleRequest env address message before).out = .ok (after, sent)) :
    Tables after aliases := by
  obtain ⟨pass, counted, ipv4Table, ipv6Table, cnameTable⟩ :=
    (handled_of_handleRequest done).tables
  obtain ⟨map, isMap⟩ := tables.ipv4
  have starts : IsMap (FirstPass.start before.ipv4Table).ipv4Table map := isMap
  constructor
  · rw [ipv4Table]
    exact countQueries_isMap starts counted
  · rw [ipv6Table]
    exact tables.ipv6
  · rw [cnameTable]
    exact tables.cname

/-! ### Runs -/

/-- In every run the tables are maps and the cached aliases are those entered last. -/
theorem serverRun_tables {malloc : Malloc} {events : List (Event × List Sent)}
    {world : World} (run : ServerRun malloc events world) : Tables world (aliasesOf events) := by
  refine run.invariant (fun events world => Tables world (aliasesOf events))
    (tables_init malloc) ?_
  rintro events ⟨⟨message, address⟩ | ⟨message⟩, sent⟩ before after tables callback
  · obtain ⟨env, done⟩ := callback.request_handled
    rw [aliasesOf_snoc]
    exact handleRequest_tables tables done
  · obtain ⟨env, now, done⟩ := callback.reply_handled
    rw [aliasesOf_snoc]
    exact handleReply_tables tables done

end PostDns
