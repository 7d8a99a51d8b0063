/-
Which requests are answered from the caches (socket.c, `bind_socket_read`).

The first pass finds every question there or stops.  A question of a type without a
case of its own counts as found, so that a request is answered with nothing for it.
-/

import PostDns.CachedLists

namespace PostDns

open Foundation

/-! ### Lookups in a table whose flags have been revised -/

section Revised

variable {world : World} {t : HashTable Ipv4Cache}
  (revised : Revised AddressCache.flagged world.ipv4Table t)

include revised

/-- An entry is found with the same addresses or not at all. -/
theorem ipv4CacheGet_revised (domain : StringT) :
    (ipv4CacheGet t domain = ipv4CacheGet world.ipv4Table domain) ∨
      ∃ cache : Ipv4Cache, ipv4CacheGet world.ipv4Table domain = .ok (some cache) ∧
        ipv4CacheGet t domain = .ok (some cache.flagged) :=
  revised.get domain

theorem ipv4CacheGet_some_iff {domain : StringT} {node : List UInt32} :
    (∃ cache, ipv4CacheGet t domain = .ok (some cache) ∧ cache.node = node) ↔
      ∃ cache, ipv4CacheGet world.ipv4Table domain = .ok (some cache) ∧ cache.node = node := by
  rcases ipv4CacheGet_revised revised domain with same | ⟨old, before, after⟩
  · rw [same]
  · constructor
    · rintro ⟨cache, found, isNode⟩
      rw [after] at found
      cases found
      exact ⟨old, before, isNode⟩
    · rintro ⟨cache, found, isNode⟩
      rw [before] at found
      cases found
      exact ⟨old.flagged, after, isNode⟩

theorem ipv4CacheGet_none_iff {domain : StringT} :
    ipv4CacheGet t domain = .ok none ↔ ipv4CacheGet world.ipv4Table domain = .ok none := by
  rcases ipv4CacheGet_revised revised domain with same | ⟨old, before, after⟩
  · rw [same]
  · rw [before, after]
    exact iff_of_false nofun nofun

theorem found_revised {query : Query} :
    Found { world with ipv4Table := t } query ↔ Found world query := by
  have address4 (last : StringT) :
      (∃ cache, ipv4CacheGet t last = .ok (some cache)) ↔
        ∃ cache, ipv4CacheGet world.ipv4Table last = .ok (some cache) := by
    constructor
    · rintro ⟨cache, found⟩
      obtain ⟨old, before, _⟩ := (ipv4CacheGet_some_iff revised).mp ⟨cache, found, rfl⟩
      exact ⟨old, before⟩
    · rintro ⟨cache, found⟩
      obtain ⟨new, after, _⟩ := (ipv4CacheGet_some_iff revised).mpr ⟨cache, found, rfl⟩
      exact ⟨new, after⟩
  constructor
  · intro found
    refine ⟨fun isA => ?_, found.name, found.address6⟩
    obtain ⟨links, last, cache, chased, stored⟩ := found.address4 isA
    obtain ⟨old, before⟩ := (address4 last).mp ⟨cache, stored⟩
    exact ⟨links, last, old, chased, before⟩
  · intro found
    refine ⟨fun isA => ?_, found.name, found.address6⟩
    obtain ⟨links, last, cache, chased, stored⟩ := found.address4 isA
    obtain ⟨new, after⟩ := (address4 last).mpr ⟨cache, stored⟩
    exact ⟨links, last, new, chased, after⟩

end Revised

def Blocked (world : World) (query : Query) : Prop :=
  query.type = 1 ∧ ∃ links last cache, Chased world.cnameTable query.name links last ∧
    ipv4CacheGet world.ipv4Table last = .ok (some cache) ∧ cache.node.head? = some 0

theorem blocked_revised {world : World} {t : HashTable Ipv4Cache}
    (revised : Revised AddressCache.flagged world.ipv4Table t) {query : Query} :
    Blocked { world with ipv4Table := t } query ↔ Blocked world query := by
  unfold Blocked
  refine and_congr_right fun _ => ?_
  constructor
  · rintro ⟨links, last, cache, chased, stored, isZero⟩
    obtain ⟨old, before, isNode⟩ := (ipv4CacheGet_some_iff revised).mp ⟨cache, stored, rfl⟩
    exact ⟨links, last, old, chased, before, by rw [isNode]; exact isZero⟩
  · rintro ⟨links, last, cache, chased, stored, isZero⟩
    obtain ⟨new, after, isNode⟩ := (ipv4CacheGet_some_iff revised).mpr ⟨cache, stored, rfl⟩
    exact ⟨links, last, new, chased, after, by rw [isNode]; exact isZero⟩

theorem queryRecords_revised {env : Env} {world : World} {t : HashTable Ipv4Cache}
    (revised : Revised AddressCache.flagged world.ipv4Table t) {query : Query}
    {records : List ResourceRecord} :
    QueryRecords env { world with ipv4Table := t } query records ↔
      QueryRecords env world query records := by
  constructor
  · intro made
    cases made with
    | missing4 isA chased short missing =>
        exact .missing4 isA chased short ((ipv4CacheGet_none_iff revised).mp missing)
    | found4 isA chased short found =>
        obtain ⟨old, before, isNode⟩ := (ipv4CacheGet_some_iff revised).mp ⟨_, found, rfl⟩
        rw [← isNode]
        exact .found4 isA chased short before
    | aliases isCname chased short => exact .aliases isCname chased short
    | missing6 isAaaa chased short missing => exact .missing6 isAaaa chased short missing
    | found6 isAaaa chased short found => exact .found6 isAaaa chased short found
    | unsupported notA notCname notAaaa => exact .unsupported notA notCname notAaaa
  · intro made
    cases made with
    | missing4 isA chased short missing =>
        exact .missing4 isA chased short ((ipv4CacheGet_none_iff revised).mpr missing)
    | found4 isA chased short found =>
        obtain ⟨new, after, isNode⟩ := (ipv4CacheGet_some_iff revised).mpr ⟨_, found, rfl⟩
        rw [← isNode]
        exact .found4 isA chased short after
    | aliases isCname chased short => exact .aliases isCname chased short
    | missing6 isAaaa chased short missing => exact .missing6 isAaaa chased short missing
    | found6 isAaaa chased short found => exact .found6 isAaaa chased short found
    | unsupported notA notCname notAaaa => exact .unsupported notA notCname notAaaa

theorem forall₂_queryRecords_revised {env : Env} {world : World} {t : HashTable Ipv4Cache}
    (revised : Revised AddressCache.flagged world.ipv4Table t) {queries : List Query}
    {records : List (List ResourceRecord)} :
    List.Forall₂ (QueryRecords env { world with ipv4Table := t }) queries records ↔
      List.Forall₂ (QueryRecords env world) queries records := by
  constructor
  · exact List.Forall₂.imp fun _ _ made => (queryRecords_revised revised).mp made
  · exact List.Forall₂.imp fun _ _ made => (queryRecords_revised revised).mpr made

/-! ### The first pass decides -/

theorem CountStep.move {env : Env} {world : World} {query : Query} {pass pass' : FirstPass}
    (step : CountStep env world query pass pass') (t : HashTable Ipv4Cache) :
    CountStep env { world with ipv4Table := t } query pass pass' := by
  have counted := countQuery_out_eq_ok.mpr step
  apply countQuery_out_eq_ok.mp
  exact counted

theorem CountStep.revised {env : Env} {world : World} {query : Query}
    {pass pass' : FirstPass} (step : CountStep env world query pass pass') :
    Revised AddressCache.flagged pass.ipv4Table pass'.ipv4Table := by
  cases (step.move pass.ipv4Table).tableStep rfl with
  | same table _ =>
      rw [table]
      exact Revised.refl _ _
  | flagged found written _ => exact (writeThrough_revised found written).1

/-- A step that finds its question raises the banned flag exactly at a blocked one. -/
theorem CountStep.banned_iff {env : Env} {world : World} {query : Query}
    {pass pass' : FirstPass} (step : CountStep env world query pass pass')
    (cached : pass'.cached = true) (table : pass.ipv4Table = world.ipv4Table) :
    pass'.banned = true ↔ pass.banned = true ∨ Blocked world query := by
  have notAddress (notA : query.type ≠ 1) : ¬ Blocked world query :=
    fun blocked => notA blocked.1
  cases step with
  | missing4 _ _ _ _ => cases cached
  | @found4 links last cache _ isA chased _ found counted =>
      obtain ⟨address, addresses, t', isNode, _, isPass⟩ := countIpv4Cache_out_eq_ok.mp counted
      rw [table] at found
      have blocked : Blocked world query ↔ address = 0 := by
        constructor
        · rintro ⟨_, links', last', cache', chased', stored, isZero⟩
          rw [(chased.unique chased').2, found] at stored
          cases stored
          rw [isNode] at isZero
          exact Option.some.inj isZero
        · intro isZero
          refine ⟨isA, links, last, cache, chased, found, ?_⟩
          rw [isNode, isZero]
          rfl
      rw [blocked, isPass]
      by_cases isZero : address = 0
      · rw [if_pos isZero]
        exact iff_of_true rfl (Or.inr isZero)
      · rw [if_neg isZero]
        exact (or_iff_left isZero).symm
  | missingAlias _ _ => cases cached
  | foundAlias isCname _ _ _ => exact (or_iff_left (notAddress (by simp [isCname]))).symm
  | missing6 _ _ _ _ => cases cached
  | found6 isAaaa _ _ _ => exact (or_iff_left (notAddress (by simp [isAaaa]))).symm
  | unsupported notA _ _ => exact (or_iff_left (notAddress notA)).symm

structure Decided (world : World) (queries : List Query) (pass pass' : FirstPass) : Prop where
  cached : pass'.cached = true ↔ ∀ query ∈ queries, Found world query
  banned : pass'.cached = true →
    (pass'.banned = true ↔ pass.banned = true ∨ ∃ query ∈ queries, Blocked world query)

theorem countQueries_decided {env : Env} {world : World} {queries : List Query}
    {pass pass' : FirstPass} (cached : pass.cached = true)
    (table : pass.ipv4Table = world.ipv4Table)
    (done : (countQueries env world queries pass).out = .ok pass') :
    Decided world queries pass pass' := by
  induction queries generalizing world pass with
  | nil =>
      cases done
      exact ⟨iff_of_true cached (by simp), fun _ => by simp⟩
  | cons query queries ih =>
      obtain ⟨middle, step, rest⟩ := (countQueries_cached cached).mp done
      have isCached := step.cached_iff cached table
      cases hCached : middle.cached with
      | false =>
          rw [countQueries_uncached hCached] at rest
          cases rest
          have missing : ¬ Found world query := fun found => by
            rw [isCached.mpr found] at hCached
            cases hCached
          refine ⟨iff_of_false (by rw [hCached]; exact Bool.false_ne_true) ?_, ?_⟩
          · intro all
            exact missing (all query List.mem_cons_self)
          · intro impossible
            rw [hCached] at impossible
            cases impossible
      | true =>
          have revised := step.revised
          rw [table] at revised
          rw [← countQueries_moved env world middle.ipv4Table] at rest
          obtain ⟨restCached, restBanned⟩ := ih hCached rfl rest
          simp only [found_revised revised] at restCached
          simp only [blocked_revised revised, step.banned_iff hCached table] at restBanned
          refine ⟨?_, ?_⟩
          · rw [restCached, List.forall_mem_cons, and_iff_right (isCached.mp hCached)]
          · intro isCached'
            rw [restBanned isCached', or_assoc]
            simp only [List.mem_cons, exists_eq_or_imp]

theorem pass_decided {env : Env} {message : Message} {before : World} {pass : FirstPass}
    (counted : (countQueries env before (questionsOf message)
      (FirstPass.start before.ipv4Table)).out = .ok pass) :
    (pass.cached = true ↔ ∀ query ∈ questionsOf message, Found before query) ∧
      (pass.cached = true →
        (pass.banned = true ↔ ∃ query ∈ questionsOf message, Blocked before query)) := by
  obtain ⟨cached, banned⟩ := countQueries_decided rfl rfl counted
  refine ⟨cached, fun isCached => ?_⟩
  rw [banned isCached]
  exact or_iff_right Bool.false_ne_true

/-! ### The two passes agree -/

theorem aliasRecords_length (links : List (StringT × CnameCache)) :
    (aliasRecords links).length = links.length := List.length_map _

/-- The first pass counts the records that the second pass makes. -/
theorem CountStep.counts {env : Env} {world : World} {query : Query} {pass pass' : FirstPass}
    (step : CountStep env world query pass pass') (cached : pass'.cached = true)
    (unbanned : pass'.banned = false) (table : pass.ipv4Table = world.ipv4Table)
    {records : List ResourceRecord} (made : QueryRecords env world query records) :
    pass'.answerCount = pass.answerCount + records.length := by
  cases step with
  | missing4 _ _ _ _ => cases cached
  | found4 isA chased _ found counted =>
      obtain ⟨address, addresses, t', _, _, isPass⟩ := countIpv4Cache_out_eq_ok.mp counted
      have notZero : address ≠ 0 := by
        intro isZero
        rw [isPass, if_pos isZero] at unbanned
        cases unbanned
      rw [isPass, if_neg notZero]
      rw [table] at found
      cases made with
      | missing4 _ chased' _ missing =>
          rw [(chased.unique chased').2, found] at missing
          cases missing
      | found4 _ chased' _ found' =>
          obtain ⟨sameLinks, sameLast⟩ := chased.unique chased'
          rw [sameLast, found] at found'
          cases found'
          rw [sameLinks, List.length_append, aliasRecords_length, List.length_map]
          exact Nat.add_assoc _ _ _
      | aliases isCname _ _ => simp [isCname] at isA
      | missing6 isAaaa _ _ _ => simp [isAaaa] at isA
      | found6 isAaaa _ _ _ => simp [isAaaa] at isA
      | unsupported notA _ _ => exact absurd isA notA
  | missingAlias _ _ => cases cached
  | foundAlias isCname _ chased _ =>
      cases made with
      | aliases _ chased' _ => rw [(chased.unique chased').1, aliasRecords_length]
      | missing4 isA _ _ _ => simp [isA] at isCname
      | found4 isA _ _ _ => simp [isA] at isCname
      | missing6 isAaaa _ _ _ => simp [isAaaa] at isCname
      | found6 isAaaa _ _ _ => simp [isAaaa] at isCname
      | unsupported _ notCname _ => exact absurd isCname notCname
  | missing6 _ _ _ _ => cases cached
  | found6 isAaaa chased _ found =>
      cases made with
      | missing6 _ chased' _ missing =>
          rw [(chased.unique chased').2, found] at missing
          cases missing
      | found6 _ chased' _ found' =>
          obtain ⟨sameLinks, sameLast⟩ := chased.unique chased'
          rw [sameLast, found] at found'
          cases found'
          rw [sameLinks, List.length_append, aliasRecords_length, List.length_map]
          exact Nat.add_assoc _ _ _
      | missing4 isA _ _ _ => simp [isA] at isAaaa
      | found4 isA _ _ _ => simp [isA] at isAaaa
      | aliases isCname _ _ => simp [isCname] at isAaaa
      | unsupported _ _ notAaaa => exact absurd isAaaa notAaaa
  | unsupported notA notCname notAaaa =>
      cases made with
      | unsupported _ _ _ => rfl
      | missing4 isA _ _ _ => exact absurd isA notA
      | found4 isA _ _ _ => exact absurd isA notA
      | aliases isCname _ _ => exact absurd isCname notCname
      | missing6 isAaaa _ _ _ => exact absurd isAaaa notAaaa
      | found6 isAaaa _ _ _ => exact absurd isAaaa notAaaa

theorem countQueries_counts {env : Env} {world : World} {queries : List Query}
    {pass pass' : FirstPass} (cached : pass.cached = true)
    (table : pass.ipv4Table = world.ipv4Table)
    (done : (countQueries env world queries pass).out = .ok pass')
    (isCached : pass'.cached = true) (unbanned : pass'.banned = false)
    {records : List (List ResourceRecord)}
    (made : List.Forall₂ (QueryRecords env world) queries records) :
    pass'.answerCount = pass.answerCount + records.flatten.length := by
  induction queries generalizing world pass records with
  | nil =>
      cases done
      cases made
      rfl
  | cons query queries ih =>
      obtain ⟨middle, step, rest⟩ := (countQueries_cached cached).mp done
      cases made with
      | @cons _ first _ others made madeOthers =>
          cases hCached : middle.cached with
          | false =>
              rw [countQueries_uncached hCached] at rest
              cases rest
              rw [hCached] at isCached
              cases isCached
          | true =>
              have revised := step.revised
              rw [table] at revised
              rw [← countQueries_moved env world middle.ipv4Table] at rest
              have middleUnbanned : middle.banned = false := by
                rw [← Bool.not_eq_true]
                intro banned
                have raised := ((countQueries_decided hCached rfl rest).banned isCached).mpr
                  (Or.inl banned)
                rw [unbanned] at raised
                cases raised
              have here := step.counts hCached middleUnbanned table made
              have later := ih hCached rfl rest
                ((forall₂_queryRecords_revised revised).mpr madeOthers)
              rw [List.flatten_cons, List.length_append]
              omega

/-! ### Which records answer a question -/

def Supported (query : Query) : Prop := query.type = 1 ∨ query.type = 5 ∨ query.type = 28

theorem not_supported {query : Query} (notA : query.type ≠ 1) (notCname : query.type ≠ 5)
    (notAaaa : query.type ≠ 28) : ¬ Supported query := by
  intro supported
  rcases supported with isA | isCname | isAaaa
  · exact notA isA
  · exact notCname isCname
  · exact notAaaa isAaaa

/-- The records of a question of a supported type start with its aliases. -/
theorem queryRecords_aliases {env : Env} {world : World} {query : Query}
    {records : List ResourceRecord} (made : QueryRecords env world query records)
    (supported : Supported query) :
    ∃ links last rest, Chased world.cnameTable query.name links last ∧
      records = aliasRecords links ++ rest := by
  cases made with
  | missing4 _ chased _ _ => exact ⟨_, _, [], chased, (List.append_nil _).symm⟩
  | found4 _ chased _ _ => exact ⟨_, _, _, chased, rfl⟩
  | aliases _ chased _ => exact ⟨_, _, [], chased, (List.append_nil _).symm⟩
  | missing6 _ chased _ _ => exact ⟨_, _, [], chased, (List.append_nil _).symm⟩
  | found6 _ chased _ _ => exact ⟨_, _, _, chased, rfl⟩
  | unsupported notA notCname notAaaa =>
      exact absurd supported (not_supported notA notCname notAaaa)

end PostDns
