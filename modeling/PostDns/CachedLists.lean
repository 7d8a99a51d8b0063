/-
The cached address lists of a running server.

Every address list that a table holds has at least one address: the configuration file
gives one, an upstream reply gives a list only with an address in it, and neither the
requests nor the sweeps make a list shorter.
-/

import PostDns.CacheSemantics
import PostDns.Holdings
import PostDns.Frame
import PostDns.Server

namespace PostDns

open Foundation

variable {α Address : Type}

/-! ### Cache operations -/

def PutsKeep (holds : HashTable (AddressCache Address) → Prop) : Prop :=
  ∀ t t' name cache, holds t → cache.node ≠ [] →
    hashTablePut t (some name) (some cache) = .ok t' → holds t'

theorem every_putsKeep : PutsKeep fun t : HashTable (AddressCache Address) =>
    t.Every fun cache => cache.node ≠ [] := by
  intro t t' name cache every filled done
  refine HashTable.Every.put every ?_ done
  intro other isOther
  cases isOther
  exact filled

/-- The entry is left alone, or it is inserted. -/
theorem ipv4CachePut_cases {now : Int} {t t' : HashTable Ipv4Cache} {name : StringT}
    {cache : Ipv4Cache} (done : ipv4CachePut now t name cache = .ok t') :
    t' = t ∨ hashTablePut t (some name) (some (cache.stored now)) = .ok t' := by
  obtain ⟨found, _, putting⟩ := except_bind_eq_ok.mp done
  cases found with
  | none => exact Or.inr putting
  | some old =>
      cases hManual : old.manual with
      | true =>
          simp only [hManual, if_true] at putting
          cases putting
          exact Or.inl rfl
      | false =>
          simp only [hManual, Bool.false_eq_true, if_false] at putting
          exact Or.inr (put_of_writeThrough putting)

theorem PutsKeep.ipv4Put {holds : HashTable Ipv4Cache → Prop} (keeps : PutsKeep holds)
    {now : Int} {t t' : HashTable Ipv4Cache} {name : StringT} {cache : Ipv4Cache}
    (before : holds t) (filled : cache.node ≠ [])
    (done : ipv4CachePut now t name cache = .ok t') : holds t' := by
  cases ipv4CachePut_cases done with
  | inl same =>
      rw [same]
      exact before
  | inr put => exact keeps t t' name (cache.stored now) before filled put

theorem PutsKeep.ipv6Put {holds : HashTable Ipv6Cache → Prop} (keeps : PutsKeep holds)
    {now : Int} {t t' : HashTable Ipv6Cache} {name : StringT} {cache : Ipv6Cache}
    (before : holds t) (filled : cache.node ≠ [])
    (done : ipv6CachePut now t name cache = .ok t') : holds t' := by
  obtain ⟨found, _, putting⟩ := except_bind_eq_ok.mp done
  cases found with
  | none => exact keeps t t' name (cache.stored now) before filled putting
  | some old =>
      exact keeps t t' name (cache.stored now) before filled (put_of_writeThrough putting)

theorem removeExpired_every {holds : α → Prop} {names : List StringT} {t t' : HashTable α}
    (every : t.Every holds) (done : (removeExpired names t).out = .ok t') :
    t'.Every holds := by
  induction names generalizing t with
  | nil =>
      cases done
      exact every
  | cons name names ih =>
      obtain ⟨middle, removed, rest⟩ := ofExcept_bind_out_eq_ok.mp done
      exact ih (every.remove removed) rest

theorem cacheClear_every {holds : α → Prop} {expired : α → Bool} {t t' : HashTable α}
    (every : t.Every holds) (done : (cacheClear expired t).out = .ok t') :
    t'.Every holds := by
  obtain ⟨names, _, removing⟩ := Logged.bind_out_eq_ok.mp done
  exact removeExpired_every every removing

/-! ### The configuration file -/

section Lines

variable {holds : HashTable Ipv4Cache → Prop} (keeps : PutsKeep holds)

include keeps

theorem PutsKeep.readLine {env : Env} {now : Int} {line : Nat} {buf : List UInt8}
    {t t' : HashTable Ipv4Cache} (before : holds t)
    (done : (readLine env now line buf t).out = .ok t') : holds t' := by
  unfold PostDns.readLine at done
  by_cases empty : cString buf = []
  · rw [if_pos empty] at done
    cases done
  · rw [if_neg empty] at done
    split at done
    · obtain ⟨text, _, putting⟩ := Logged.bind_out_eq_ok.mp done
      exact keeps.ipv4Put before (List.cons_ne_nil _ []) putting
    · cases done
      exact before

theorem PutsKeep.readLines {env : Env} {now : Int} {line : Nat} {bufs : List (List UInt8)}
    {t t' : HashTable Ipv4Cache} (before : holds t)
    (done : (readLines env now line bufs t).out = .ok t') : holds t' := by
  induction bufs generalizing line t with
  | nil =>
      cases done
      exact before
  | cons buf bufs ih =>
      obtain ⟨middle, first, rest⟩ := Logged.bind_out_eq_ok.mp done
      exact ih (keeps.readLine before first) rest

end Lines

/-! ### Callbacks -/

structure TablesHold (holds4 : HashTable Ipv4Cache → Prop)
    (holds6 : HashTable Ipv6Cache → Prop) (world : World) : Prop where
  ipv4 : holds4 world.ipv4Table
  ipv6 : holds6 world.ipv6Table

/-- A collected list has an owner only when it has an address. -/
structure CollectedFilled (collected : Collected) : Prop where
  ipv4 : collected.ipv4Domain ≠ none → collected.ipv4Cache.node ≠ []
  ipv6 : collected.ipv6Domain ≠ none → collected.ipv6Cache.node ≠ []

theorem AnswerStep.filled {now : Int} {collected collected' : Collected}
    {answer : ResourceRecord} (filled : CollectedFilled collected)
    (step : AnswerStep now collected answer collected') : CollectedFilled collected' := by
  cases step with
  | inet4 _ _ => exact ⟨fun _ => by simp, filled.ipv6⟩
  | domain _ _ _ => exact ⟨filled.ipv4, filled.ipv6⟩
  | inet6 _ _ => exact ⟨filled.ipv4, fun _ => by simp⟩
  | skipped _ => exact filled

theorem cacheAnswers_filled {now : Int} {answers : List ResourceRecord}
    {collected collected' : Collected} (filled : CollectedFilled collected)
    (done : (cacheAnswers now answers collected).out = .ok collected') :
    CollectedFilled collected' := by
  induction answers generalizing collected with
  | nil =>
      cases done
      exact filled
  | cons answer answers ih =>
      obtain ⟨middle, first, rest⟩ := Logged.bind_out_eq_ok.mp done
      exact ih ((answerStep_of_cacheAnswer first).filled filled) rest

section Tables

variable {holds4 : HashTable Ipv4Cache → Prop} {holds6 : HashTable Ipv6Cache → Prop}
  (keeps4 : PutsKeep holds4)

include keeps4

theorem startUp_tablesHold {env : Env} {malloc : Malloc} {now : Int}
    {file : Option (List UInt8)} {world : World}
    (new4 : ∀ choices, holds4 (hashTableNew choices))
    (new6 : ∀ choices, holds6 (hashTableNew choices))
    (started : (startUp env malloc now file).out = .ok world) :
    TablesHold holds4 holds6 world := by
  have new4 := new4 malloc.ipv4
  have new6 := new6 malloc.ipv6
  cases file with
  | none =>
      cases started
      exact ⟨new4, new6⟩
  | some text =>
      obtain ⟨t, read, returned⟩ := Logged.bind_out_eq_ok.mp started
      cases returned
      exact ⟨keeps4.readLines new4 read, new6⟩

theorem CountStep.kept {env : Env} {world : World} {query : Query} {pass pass' : FirstPass}
    (step : CountStep env world query pass pass') (before : holds4 pass.ipv4Table) :
    holds4 pass'.ipv4Table := by
  cases step with
  | @found4 links last cache _ isA _ _ found counted =>
      obtain ⟨address, addresses, t', isNode, written, isPass⟩ :=
        countIpv4Cache_out_eq_ok.mp counted
      have flaggedFilled : cache.flagged.node ≠ [] := by
        change cache.node ≠ []
        rw [isNode]
        exact List.cons_ne_nil address addresses
      have table : pass'.ipv4Table = t' := by
        rw [isPass]
        by_cases isZero : address = 0
        · rw [if_pos isZero]
        · rw [if_neg isZero]
      rw [table]
      exact keeps4 _ _ _ _ before flaggedFilled (put_of_writeThrough written)
  | missing4 _ _ _ _ => exact before
  | missingAlias _ _ => exact before
  | foundAlias _ _ _ _ => exact before
  | missing6 _ _ _ _ => exact before
  | found6 _ _ _ _ => exact before
  | unsupported _ _ _ => exact before

theorem countQueries_kept {env : Env} {world : World} {queries : List Query}
    {pass pass' : FirstPass} (before : holds4 pass.ipv4Table)
    (done : (countQueries env world queries pass).out = .ok pass') :
    holds4 pass'.ipv4Table := by
  induction queries generalizing pass with
  | nil =>
      cases done
      exact before
  | cons query queries ih =>
      cases hCached : pass.cached with
      | false =>
          rw [countQueries_uncached hCached] at done
          cases done
          exact before
      | true =>
          obtain ⟨middle, step, rest⟩ := (countQueries_cached hCached).mp done
          exact ih (step.kept keeps4 before) rest

theorem Handled.tablesHold {env : Env} {address : SockAddr} {message : Message}
    {before after : World} {sent : List Sent} (holds : TablesHold holds4 holds6 before)
    (handled : Handled env address message before after sent) :
    TablesHold holds4 holds6 after := by
  obtain ⟨pass, counted, ipv4, ipv6, _⟩ := handled.tables
  constructor
  · rw [ipv4]
    refine countQueries_kept keeps4 ?_ counted
    exact holds.ipv4
  · rw [ipv6]
    exact holds.ipv6

variable (keeps6 : PutsKeep holds6)

include keeps6

theorem ReplyStored.tablesHold {now : Int} {message : Message} {before after : World}
    (holds : TablesHold holds4 holds6 before)
    (stored : ReplyStored now message before after) : TablesHold holds4 holds6 after := by
  obtain ⟨_, collected, collecting, putIpv4, putIpv6, _⟩ := stored
  have starts : CollectedFilled (Collected.start now before.cnameTable) :=
    ⟨fun named => absurd rfl named, fun named => absurd rfl named⟩
  have ends := cacheAnswers_filled starts collecting
  constructor
  · rcases putNamed_cases putIpv4 with ⟨_, same⟩ | ⟨name, named, put⟩
    · rw [same]
      exact holds.ipv4
    · refine keeps4.ipv4Put holds.ipv4 (ends.ipv4 ?_) put
      rw [named]
      exact Option.some_ne_none name
  · rcases putNamed_cases putIpv6 with ⟨_, same⟩ | ⟨name, named, put⟩
    · rw [same]
      exact holds.ipv6
    · refine keeps6.ipv6Put holds.ipv6 (ends.ipv6 ?_) put
      rw [named]
      exact Option.some_ne_none name

/-- A datagram is handled with insertions alone. -/
theorem Serve.tablesHold {before after : World} {label : (Int × Occasion) × List Sent}
    (holds : TablesHold holds4 holds6 before) (step : Serve before label after)
    (received : label.1.2 ≠ .sweep) : TablesHold holds4 holds6 after := by
  cases step with
  | request decoded done =>
      rw [bindSocketRead, Logged.bind_out_of_ok decoded] at done
      exact (handled_of_handleRequest done).tablesHold keeps4 holds
  | reply decoded done =>
      rw [querySocketRead, Logged.bind_out_of_ok decoded] at done
      exact (handleReply_stored done).tablesHold keeps4 keeps6 holds
  | sweep done => exact absurd rfl received

end Tables

/-! ### Filled lists -/

structure ListsFilled (world : World) : Prop where
  ipv4 : world.ipv4Table.Every fun cache => cache.node ≠ []
  ipv6 : world.ipv6Table.Every fun cache => cache.node ≠ []

theorem clearCallback_listsFilled {now : Int} {before after : World}
    (filled : ListsFilled before) (done : (clearCallback now before).out = .ok after) :
    ListsFilled after := by
  obtain ⟨ipv4Table, clearIpv4, rest⟩ := Logged.bind_out_eq_ok.mp done
  obtain ⟨ipv6Table, clearIpv6, others⟩ := Logged.bind_out_eq_ok.mp rest
  obtain ⟨cnameTable, _, returned⟩ := Logged.bind_out_eq_ok.mp others
  cases returned
  exact ⟨cacheClear_every filled.ipv4 clearIpv4, cacheClear_every filled.ipv6 clearIpv6⟩

theorem Serve.listsFilled {before after : World} {label : (Int × Occasion) × List Sent}
    (filled : ListsFilled before) (step : Serve before label after) : ListsFilled after := by
  by_cases swept : label.1.2 = .sweep
  · cases step with
    | request decoded done => cases swept
    | reply decoded done => cases swept
    | sweep done => exact clearCallback_listsFilled filled done
  · have holds := step.tablesHold every_putsKeep every_putsKeep
      ⟨filled.ipv4, filled.ipv6⟩ swept
    exact ⟨holds.ipv4, holds.ipv6⟩

theorem startUp_listsFilled {env : Env} {now : Int} {file : Option (List UInt8)}
    {world : World} {malloc : Malloc} (started : (startUp env malloc now file).out = .ok world) :
    ListsFilled world := by
  have holds : TablesHold (fun t => t.Every fun cache => cache.node ≠ [])
      (fun t => t.Every fun cache => cache.node ≠ []) world :=
    startUp_tablesHold every_putsKeep every_new every_new started
  exact ⟨holds.ipv4, holds.ipv6⟩

/-- In no reachable state is a cached address list empty. -/
theorem Reachable.listsFilled {world : World} (reachable : Reachable world) :
    ListsFilled world := by
  obtain ⟨started, run⟩ := reachable
  exact run.invariant (fun _ world => ListsFilled world) (startUp_listsFilled started)
    fun _ _ _ _ filled step => step.listsFilled filled

end PostDns
