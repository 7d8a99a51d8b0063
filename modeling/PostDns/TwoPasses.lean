/-
The two passes over the questions (socket.c, `bind_socket_read`).

The first pass counts the records of a reply, the second one fills them in.  When the
first pass has found everything, the second one finds the same entries again: it fills
every record that was counted, in order, and no other.
-/

import PostDns.Answering
import PostDns.Initialised

namespace PostDns

open Foundation

/-! ### The second pass finds what the first one found -/

/-- What the first pass found the second one makes records of. -/
theorem CountStep.records {env : Env} {world : World} {query : Query}
    {pass pass' : FirstPass} (step : CountStep env world query pass pass')
    (cached : pass'.cached = true) (table : pass.ipv4Table = world.ipv4Table) :
    ∃ records, QueryRecords env world query records := by
  cases step with
  | missing4 _ _ _ _ => cases cached
  | found4 isA chased short found _ =>
      rw [table] at found
      exact ⟨_, .found4 isA chased short found⟩
  | missingAlias _ _ => cases cached
  | foundAlias isCname _ chased short => exact ⟨_, .aliases isCname chased short⟩
  | missing6 _ _ _ _ => cases cached
  | found6 isAaaa chased short found => exact ⟨_, .found6 isAaaa chased short found⟩
  | unsupported notA notCname notAaaa => exact ⟨_, .unsupported notA notCname notAaaa⟩

theorem countQueries_records {env : Env} {world : World} {queries : List Query}
    {pass pass' : FirstPass} (cached : pass.cached = true)
    (table : pass.ipv4Table = world.ipv4Table)
    (done : (countQueries env world queries pass).out = .ok pass')
    (isCached : pass'.cached = true) :
    ∃ records, List.Forall₂ (QueryRecords env world) queries records := by
  induction queries generalizing world pass with
  | nil => exact ⟨[], .nil⟩
  | cons query queries ih =>
      obtain ⟨middle, step, rest⟩ := (countQueries_cached cached).mp done
      cases hCached : middle.cached with
      | false =>
          rw [countQueries_uncached hCached] at rest
          cases rest
          rw [hCached] at isCached
          cases isCached
      | true =>
          have revised := step.revised
          rw [table] at revised
          rw [← countQueries_moved env world middle.ipv4Table] at rest
          obtain ⟨first, made⟩ := step.records hCached table
          obtain ⟨others, madeOthers⟩ := ih hCached rfl rest
          exact ⟨first :: others,
            .cons made ((forall₂_queryRecords_revised revised).mp madeOthers)⟩

theorem answerQueries_eq {env : Env} {world : World} {queries : List Query}
    {records : List (List ResourceRecord)}
    (made : List.Forall₂ (QueryRecords env world) queries records) (size : Nat)
    (answers : List ResourceRecord) :
    answerQueries env world size queries answers = putAll size records.flatten answers := by
  induction made generalizing answers with
  | nil => rfl
  | cons first _ ih =>
      rw [answerQueries, first.answerQuery_eq, List.flatten_cons, putAll_append]
      exact congrArg (putAll size _ answers >>= ·) (funext ih)

/-! ### Agreement -/

def Warns (env : Env) (world : World) (query : Query) : Prop :=
  ∃ size answers chased,
    (cnameLoop (putAlias size) world.cnameTable env.fuel query.name answers).out = .ok chased ∧
      (query.type = 1 ∧ ipv4CacheGet world.ipv4Table chased.1 = .ok none ∨
        query.type = 28 ∧ ipv6CacheGet world.ipv6Table chased.1 = .ok none)

theorem Found.not_warns {env : Env} {world : World} {query : Query}
    (found : Found world query) : ¬ Warns env world query := by
  intro warns
  obtain ⟨size, answers, ⟨last, made⟩, looped, missing⟩ := warns
  obtain ⟨links, chased, _, _⟩ := cnameLoop_put.mp looped
  rcases missing with ⟨isA, missing⟩ | ⟨isAaaa, missing⟩
  · obtain ⟨_, _, _, chased', stored⟩ := found.address4 isA
    rw [(chased.unique chased').2] at stored
    rw [stored] at missing
    cases missing
  · obtain ⟨_, _, _, chased', stored⟩ := found.address6 isAaaa
    rw [(chased.unique chased').2] at stored
    rw [stored] at missing
    cases missing

/-- With this many records allocated, the second pass writes each of them once and in
order, nothing else, and without a warning. -/
structure PassesAgree (env : Env) (world : World) (size : Nat) (queries : List Query) :
    Prop where
  filled : ∃ answers, (answerQueries env world size queries []).out = .ok answers ∧
    answers.length = size
  writes : (answerQueries env world size queries []).log =
    (List.range size).map fun (index : Nat) => .write (.answers size) (index : Int)
  unwarned : ∀ query ∈ queries, ¬ Warns env world query

/-- In whatever state of the caches, the second pass agrees with a first pass that has
found everything unblocked. -/
theorem passes_agree {env : Env} {world : World} {queries : List Query} {pass : FirstPass}
    (counted : (countQueries env world queries (FirstPass.start world.ipv4Table)).out =
      .ok pass)
    (cached : pass.cached = true) (unbanned : pass.banned = false) :
    PassesAgree env { world with ipv4Table := pass.ipv4Table } pass.answerCount queries := by
  obtain ⟨records, made⟩ := countQueries_records rfl rfl counted cached
  have count : pass.answerCount = records.flatten.length :=
    (countQueries_counts rfl rfl counted cached unbanned made).trans (Nat.zero_add _)
  obtain ⟨revised, _⟩ := countQueries_frame rfl rfl counted
  have again := answerQueries_eq ((forall₂_queryRecords_revised revised).mpr made)
    pass.answerCount []
  rw [putAll_eq] at again
  constructor
  · refine ⟨records.flatten, ?_, count.symm⟩
    rw [again, List.nil_append]
  · rw [again, ← count, List.range_eq_range']
    rfl
  · intro query member
    have found := ((countQueries_decided rfl rfl counted).cached.mp cached) query member
    exact ((found_revised revised).mpr found).not_warns

private def knowsAddress : World :=
  (returned (querySocketRead patient 0 oneAddress (World.init .ascending))).1

private def addressCounted : FirstPass :=
  (countQueries patient knowsAddress oneAddressMessage.queries
    (FirstPass.start knowsAddress.ipv4Table)).resultOr (FirstPass.start (hashTableNew []))

theorem passes_agree_oneAddress :
    PassesAgree patient { knowsAddress with ipv4Table := addressCounted.ipv4Table } 1
      oneAddressMessage.queries := by
  have counted : (countQueries patient knowsAddress oneAddressMessage.queries
      (FirstPass.start knowsAddress.ipv4Table)).out = .ok addressCounted :=
    Logged.out_eq_resultOr (by decide +kernel)
  have cached : addressCounted.cached = true := by decide +kernel
  have unbanned : addressCounted.banned = false := by decide +kernel
  have one : addressCounted.answerCount = 1 := by decide +kernel
  have agree := passes_agree counted cached unbanned
  rw [one] at agree
  exact agree

end PostDns
