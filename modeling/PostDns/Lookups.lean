/-
What the callbacks find in the caches and put there (socket.c).

Both passes of `bind_socket_read` follow the aliases of a question and then look for an
address.  The loops are described by the aliases they pass, whatever the tables hold:
the callbacks go through the same pointers in a state that an earlier fault has damaged.
-/

import Mathlib.Data.List.Forall2
import PostDns.SocketSemantics

namespace PostDns

open Foundation

theorem forall₂_right {β γ : Type} {related : β → γ → Prop} {lefts : List β} {rights : List γ}
    (all : List.Forall₂ related lefts rights) {right : γ} (member : right ∈ rights) :
    ∃ left ∈ lefts, related left right := by
  induction all with
  | nil => cases member
  | @cons left _ _ _ here _ ih =>
      rcases List.mem_cons.mp member with same | later
      · rw [same]
        exact ⟨left, List.mem_cons_self, here⟩
      · obtain ⟨other, inLefts, isRelated⟩ := ih later
        exact ⟨other, List.mem_cons_of_mem _ inLefts, isRelated⟩

/-! ### Chains of aliases -/

/-- The loop over the aliases of a name passes the links and ends at the last name. -/
inductive Chased (t : HashTable CnameCache) :
    StringT → List (StringT × CnameCache) → StringT → Prop where
  | last {domain : StringT} (missing : cnameCacheGet t domain = .ok none) :
      Chased t domain [] domain
  | link {domain last : StringT} {cache : CnameCache} {links : List (StringT × CnameCache)}
      (found : cnameCacheGet t domain = .ok (some cache))
      (rest : Chased t cache.name links last) : Chased t domain ((domain, cache) :: links) last

theorem Chased.unique {t : HashTable CnameCache} {domain last other : StringT}
    {links links' : List (StringT × CnameCache)} (chased : Chased t domain links last)
    (again : Chased t domain links' other) : links' = links ∧ other = last := by
  induction chased generalizing links' other with
  | last missing =>
      cases again with
      | last _ => exact ⟨rfl, rfl⟩
      | link found _ =>
          rw [missing] at found
          cases found
  | link found rest ih =>
      cases again with
      | last missing =>
          rw [found] at missing
          cases missing
      | link found' rest' =>
          rw [found] at found'
          cases found'
          obtain ⟨sameLinks, sameLast⟩ := ih rest'
          exact ⟨congrArg _ sameLinks, sameLast⟩

def aliasRecords (links : List (StringT × CnameCache)) : List ResourceRecord :=
  links.map fun link => generateCnameResponse link.1 link.2.name

/-! ### The loop over the aliases -/

def visitAll {β : Type} (visit : StringT → CnameCache → β → Exec β) :
    List (StringT × CnameCache) → β → Exec β
  | [], made => pure made
  | link :: links, made => do
      let made ← visit link.1 link.2 made
      visitAll visit links made

theorem cnameLoop_out_eq_ok {β : Type} {visit : StringT → CnameCache → β → Exec β}
    {t : HashTable CnameCache} {fuel : Nat} {domain last : StringT} {made made' : β} :
    (cnameLoop visit t fuel domain made).out = .ok (last, made') ↔
      ∃ links, Chased t domain links last ∧ links.length < fuel ∧
        (visitAll visit links made).out = .ok made' := by
  induction fuel generalizing domain made with
  | zero =>
      constructor
      · intro done
        cases done
      · rintro ⟨links, _, short, _⟩
        cases short
  | succ fuel ih =>
      rw [cnameLoop]
      cases hFound : cnameCacheGet t domain with
      | error fault =>
          constructor
          · intro done
            cases done
          · rintro ⟨links, chased, _⟩
            cases chased with
            | last missing =>
                rw [hFound] at missing
                cases missing
            | link found _ =>
                rw [hFound] at found
                cases found
      | ok cache =>
          rw [Logged.ofExcept_ok, Logged.pure_bind]
          cases cache with
          | none =>
              constructor
              · intro done
                cases done
                exact ⟨[], .last hFound, Nat.succ_pos fuel, rfl⟩
              · rintro ⟨links, chased, _, visited⟩
                obtain ⟨noLinks, isLast⟩ := (Chased.last hFound).unique chased
                subst noLinks isLast
                cases visited
                rfl
          | some cache =>
              constructor
              · intro done
                obtain ⟨middle, visited, rest⟩ := Logged.bind_out_eq_ok.mp done
                obtain ⟨links, chased, short, others⟩ := ih.mp rest
                refine ⟨_, .link hFound chased, Nat.succ_lt_succ short, ?_⟩
                exact (Logged.bind_out_of_ok visited _).trans others
              · rintro ⟨links, chased, short, visited⟩
                cases chased with
                | last missing =>
                    rw [hFound] at missing
                    cases missing
                | link found chased =>
                    rw [hFound] at found
                    cases found
                    obtain ⟨middle, first, others⟩ := Logged.bind_out_eq_ok.mp visited
                    apply (Logged.bind_out_of_ok first _).trans
                    exact ih.mpr ⟨_, chased, Nat.lt_of_succ_lt_succ short, others⟩

theorem visitAll_countAlias (links : List (StringT × CnameCache)) (answerCount : Nat) :
    (visitAll countAlias links answerCount).out = .ok (answerCount + links.length) := by
  induction links generalizing answerCount with
  | nil => rfl
  | cons link links ih =>
      rw [List.length_cons, Nat.add_comm links.length 1, ← Nat.add_assoc]
      exact ih (answerCount + 1)

theorem visitAll_putAlias (size : Nat) (links : List (StringT × CnameCache))
    (answers : List ResourceRecord) :
    (visitAll (putAlias size) links answers).out = .ok (answers ++ aliasRecords links) := by
  induction links generalizing answers with
  | nil =>
      rw [aliasRecords, List.map_nil, List.append_nil]
      rfl
  | cons link links ih =>
      have put : (putAlias size link.1 link.2 answers).out =
          .ok (answers ++ [generateCnameResponse link.1 link.2.name]) := rfl
      apply (Logged.bind_out_of_ok put _).trans
      rw [ih, List.append_assoc]
      rfl

theorem cnameLoop_count {t : HashTable CnameCache} {fuel : Nat} {domain : StringT}
    {answerCount : Nat} {result : StringT × Nat} :
    (cnameLoop countAlias t fuel domain answerCount).out = .ok result ↔
      ∃ links, Chased t domain links result.1 ∧ links.length < fuel ∧
        result.2 = answerCount + links.length := by
  obtain ⟨last, answerCount'⟩ := result
  rw [cnameLoop_out_eq_ok]
  simp only [visitAll_countAlias, Except.ok.injEq, eq_comm]

theorem cnameLoop_put {t : HashTable CnameCache} {fuel size : Nat} {domain : StringT}
    {answers : List ResourceRecord} {result : StringT × List ResourceRecord} :
    (cnameLoop (putAlias size) t fuel domain answers).out = .ok result ↔
      ∃ links, Chased t domain links result.1 ∧ links.length < fuel ∧
        result.2 = answers ++ aliasRecords links := by
  obtain ⟨last, answers'⟩ := result
  rw [cnameLoop_out_eq_ok]
  simp only [visitAll_putAlias, Except.ok.injEq, eq_comm]

theorem ofExcept_bind_out_eq_ok {β γ : Type} {lookup : Except Fault β}
    {next : β → Exec γ} {result : γ} :
    (Logged.ofExcept lookup >>= next).out = .ok result ↔
      ∃ value, lookup = .ok value ∧ (next value).out = .ok result :=
  Logged.bind_out_eq_ok

/-- A lookup at the end of the aliases. -/
theorem chasedLookup_out_eq_ok {β γ δ : Type} {visit : StringT → CnameCache → β → Exec β}
    {made : β} {collect : List (StringT × CnameCache) → β}
    (visits : ∀ links, (visitAll visit links made).out = .ok (collect links))
    {t : HashTable CnameCache} {fuel : Nat} {domain : StringT}
    {lookup : StringT → Except Fault γ} {next : StringT × β → γ → Exec δ} {result : δ} :
    (cnameLoop visit t fuel domain made >>= fun chased =>
        Logged.ofExcept (lookup chased.1) >>= next chased).out = .ok result ↔
      ∃ links last value, Chased t domain links last ∧ links.length < fuel ∧
        lookup last = .ok value ∧ (next (last, collect links) value).out = .ok result := by
  constructor
  · intro done
    obtain ⟨⟨last, made'⟩, looped, rest⟩ := Logged.bind_out_eq_ok.mp done
    obtain ⟨links, chased, short, visited⟩ := cnameLoop_out_eq_ok.mp looped
    obtain ⟨value, found, continued⟩ := ofExcept_bind_out_eq_ok.mp rest
    rw [visits] at visited
    cases visited
    exact ⟨links, last, value, chased, short, found, continued⟩
  · rintro ⟨links, last, value, chased, short, found, continued⟩
    have looped : (cnameLoop visit t fuel domain made).out = .ok (last, collect links) :=
      cnameLoop_out_eq_ok.mpr ⟨links, chased, short, visits links⟩
    rw [Logged.bind_out_of_ok looped]
    exact ofExcept_bind_out_eq_ok.mpr ⟨value, found, continued⟩

/-! ### The first pass -/

inductive CountStep (env : Env) (world : World) (query : Query) (pass : FirstPass) :
    FirstPass → Prop where
  | missing4 {links : List (StringT × CnameCache)} {last : StringT}
      (isA : query.type = 1) (chased : Chased world.cnameTable query.name links last)
      (short : links.length < env.fuel)
      (missing : ipv4CacheGet pass.ipv4Table last = .ok none) :
      CountStep env world query pass
        { pass with answerCount := pass.answerCount + links.length, cached := false }
  | found4 {links : List (StringT × CnameCache)} {last : StringT} {cache : Ipv4Cache}
      {pass' : FirstPass} (isA : query.type = 1)
      (chased : Chased world.cnameTable query.name links last)
      (short : links.length < env.fuel)
      (found : ipv4CacheGet pass.ipv4Table last = .ok (some cache))
      (counted : (countIpv4Cache pass last (pass.answerCount + links.length) cache).out =
        .ok pass') : CountStep env world query pass pass'
  | missingAlias (isCname : query.type = 5)
      (missing : cnameCacheGet world.cnameTable query.name = .ok none) :
      CountStep env world query pass { pass with cached := false }
  | foundAlias {links : List (StringT × CnameCache)} {last : StringT} {cache : CnameCache}
      (isCname : query.type = 5)
      (found : cnameCacheGet world.cnameTable query.name = .ok (some cache))
      (chased : Chased world.cnameTable query.name links last)
      (short : links.length < env.fuel) :
      CountStep env world query pass
        { pass with answerCount := pass.answerCount + links.length }
  | missing6 {links : List (StringT × CnameCache)} {last : StringT}
      (isAaaa : query.type = 28) (chased : Chased world.cnameTable query.name links last)
      (short : links.length < env.fuel)
      (missing : ipv6CacheGet world.ipv6Table last = .ok none) :
      CountStep env world query pass
        { pass with answerCount := pass.answerCount + links.length, cached := false }
  | found6 {links : List (StringT × CnameCache)} {last : StringT} {cache : Ipv6Cache}
      (isAaaa : query.type = 28) (chased : Chased world.cnameTable query.name links last)
      (short : links.length < env.fuel)
      (found : ipv6CacheGet world.ipv6Table last = .ok (some cache)) :
      CountStep env world query pass
        { pass with answerCount := pass.answerCount + links.length + cache.node.length }
  | unsupported (notA : query.type ≠ 1) (notCname : query.type ≠ 5)
      (notAaaa : query.type ≠ 28) : CountStep env world query pass pass

theorem countStep_of_countQuery {env : Env} {world : World} {query : Query}
    {pass pass' : FirstPass} (done : (countQuery env world query pass).out = .ok pass') :
    CountStep env world query pass pass' := by
  have visits (links : List (StringT × CnameCache)) := visitAll_countAlias links pass.answerCount
  unfold countQuery at done
  by_cases isA : query.type = 1
  · rw [if_pos isA] at done
    obtain ⟨links, last, cache, chased, short, found, counted⟩ :=
      (chasedLookup_out_eq_ok visits).mp done
    cases cache with
    | none =>
        cases counted
        exact .missing4 isA chased short found
    | some cache => exact .found4 isA chased short found counted
  rw [if_neg isA] at done
  by_cases isCname : query.type = 5
  · rw [if_pos isCname] at done
    obtain ⟨cache, found, rest⟩ := ofExcept_bind_out_eq_ok.mp done
    cases cache with
    | none =>
        cases rest
        exact .missingAlias isCname found
    | some cache =>
        obtain ⟨⟨last, answerCount⟩, looped, counted⟩ := Logged.bind_out_eq_ok.mp rest
        obtain ⟨links, chased, short, isCount⟩ := cnameLoop_count.mp looped
        dsimp only at isCount
        subst isCount
        cases counted
        exact .foundAlias isCname found chased short
  rw [if_neg isCname] at done
  by_cases isAaaa : query.type = 28
  · rw [if_pos isAaaa] at done
    obtain ⟨links, last, cache, chased, short, found, counted⟩ :=
      (chasedLookup_out_eq_ok visits).mp done
    cases cache with
    | none =>
        cases counted
        exact .missing6 isAaaa chased short found
    | some cache =>
        cases counted
        exact .found6 isAaaa chased short found
  rw [if_neg isAaaa] at done
  cases done
  exact .unsupported isA isCname isAaaa

theorem CountStep.countQuery_out {env : Env} {world : World} {query : Query}
    {pass pass' : FirstPass} (step : CountStep env world query pass pass') :
    (countQuery env world query pass).out = .ok pass' := by
  have visits (links : List (StringT × CnameCache)) := visitAll_countAlias links pass.answerCount
  unfold countQuery
  cases step with
  | missing4 isA chased short missing =>
      rw [if_pos isA]
      exact (chasedLookup_out_eq_ok visits).mpr ⟨_, _, none, chased, short, missing, rfl⟩
  | found4 isA chased short found counted =>
      rw [if_pos isA]
      exact (chasedLookup_out_eq_ok visits).mpr ⟨_, _, some _, chased, short, found, counted⟩
  | missingAlias isCname missing =>
      have notA : query.type ≠ 1 := by simp [isCname]
      rw [if_neg notA, if_pos isCname]
      exact ofExcept_bind_out_eq_ok.mpr ⟨none, missing, rfl⟩
  | @foundAlias links last _ isCname found chased short =>
      have notA : query.type ≠ 1 := by simp [isCname]
      have looped : (cnameLoop countAlias world.cnameTable env.fuel query.name
          pass.answerCount).out = .ok (last, pass.answerCount + links.length) :=
        cnameLoop_count.mpr ⟨links, chased, short, rfl⟩
      rw [if_neg notA, if_pos isCname]
      apply ofExcept_bind_out_eq_ok.mpr ⟨some _, found, _⟩
      exact Logged.bind_out_of_ok looped _
  | missing6 isAaaa chased short missing =>
      have notA : query.type ≠ 1 := by simp [isAaaa]
      have notCname : query.type ≠ 5 := by simp [isAaaa]
      rw [if_neg notA, if_neg notCname, if_pos isAaaa]
      exact (chasedLookup_out_eq_ok visits).mpr ⟨_, _, none, chased, short, missing, rfl⟩
  | found6 isAaaa chased short found =>
      have notA : query.type ≠ 1 := by simp [isAaaa]
      have notCname : query.type ≠ 5 := by simp [isAaaa]
      rw [if_neg notA, if_neg notCname, if_pos isAaaa]
      exact (chasedLookup_out_eq_ok visits).mpr ⟨_, _, some _, chased, short, found, rfl⟩
  | unsupported notA notCname notAaaa =>
      rw [if_neg notA, if_neg notCname, if_neg notAaaa]
      rfl

theorem countQuery_out_eq_ok {env : Env} {world : World} {query : Query}
    {pass pass' : FirstPass} :
    (countQuery env world query pass).out = .ok pass' ↔ CountStep env world query pass pass' :=
  ⟨countStep_of_countQuery, CountStep.countQuery_out⟩

/-! ### The second pass -/

inductive QueryRecords (env : Env) (world : World) (query : Query) :
    List ResourceRecord → Prop where
  | missing4 {links : List (StringT × CnameCache)} {last : StringT}
      (isA : query.type = 1) (chased : Chased world.cnameTable query.name links last)
      (short : links.length < env.fuel)
      (missing : ipv4CacheGet world.ipv4Table last = .ok none) :
      QueryRecords env world query (aliasRecords links)
  | found4 {links : List (StringT × CnameCache)} {last : StringT} {cache : Ipv4Cache}
      (isA : query.type = 1) (chased : Chased world.cnameTable query.name links last)
      (short : links.length < env.fuel)
      (found : ipv4CacheGet world.ipv4Table last = .ok (some cache)) :
      QueryRecords env world query
        (aliasRecords links ++ cache.node.map (generateIpv4Response last))
  | aliases {links : List (StringT × CnameCache)} {last : StringT}
      (isCname : query.type = 5) (chased : Chased world.cnameTable query.name links last)
      (short : links.length < env.fuel) :
      QueryRecords env world query (aliasRecords links)
  | missing6 {links : List (StringT × CnameCache)} {last : StringT}
      (isAaaa : query.type = 28) (chased : Chased world.cnameTable query.name links last)
      (short : links.length < env.fuel)
      (missing : ipv6CacheGet world.ipv6Table last = .ok none) :
      QueryRecords env world query (aliasRecords links)
  | found6 {links : List (StringT × CnameCache)} {last : StringT} {cache : Ipv6Cache}
      (isAaaa : query.type = 28) (chased : Chased world.cnameTable query.name links last)
      (short : links.length < env.fuel)
      (found : ipv6CacheGet world.ipv6Table last = .ok (some cache)) :
      QueryRecords env world query
        (aliasRecords links ++ cache.node.map (generateIpv6Response last))
  | unsupported (notA : query.type ≠ 1) (notCname : query.type ≠ 5)
      (notAaaa : query.type ≠ 28) : QueryRecords env world query []

theorem putAddresses_out {Address : Type} (size : Nat) (generate : Address → ResourceRecord)
    (addresses : List Address) (answers : List ResourceRecord) :
    (putAddresses size generate addresses answers).out =
      .ok (answers ++ addresses.map generate) := by
  induction addresses generalizing answers with
  | nil =>
      rw [List.map_nil, List.append_nil]
      rfl
  | cons address addresses ih =>
      have put : (putAnswer size answers (generate address)).out =
          .ok (answers ++ [generate address]) := rfl
      apply (Logged.bind_out_of_ok put _).trans
      rw [ih, List.append_assoc]
      rfl

theorem queryRecords_of_answerQuery {env : Env} {world : World} {size : Nat} {query : Query}
    {answers answers' : List ResourceRecord}
    (done : (answerQuery env world size query answers).out = .ok answers') :
    ∃ records, QueryRecords env world query records ∧ answers' = answers ++ records := by
  have visits (links : List (StringT × CnameCache)) := visitAll_putAlias size links answers
  unfold answerQuery at done
  by_cases isA : query.type = 1
  · rw [if_pos isA] at done
    obtain ⟨links, last, cache, chased, short, found, answered⟩ :=
      (chasedLookup_out_eq_ok visits).mp done
    cases cache with
    | none =>
        cases answered
        exact ⟨_, .missing4 isA chased short found, rfl⟩
    | some cache =>
        rw [putAddresses_out, List.append_assoc] at answered
        exact ⟨_, .found4 isA chased short found, (Except.ok.inj answered).symm⟩
  rw [if_neg isA] at done
  by_cases isCname : query.type = 5
  · rw [if_pos isCname] at done
    obtain ⟨⟨last, made⟩, looped, rest⟩ := Logged.bind_out_eq_ok.mp done
    obtain ⟨links, chased, short, isMade⟩ := cnameLoop_put.mp looped
    dsimp only at isMade
    subst isMade
    cases rest
    exact ⟨_, .aliases isCname chased short, rfl⟩
  rw [if_neg isCname] at done
  by_cases isAaaa : query.type = 28
  · rw [if_pos isAaaa] at done
    obtain ⟨links, last, cache, chased, short, found, answered⟩ :=
      (chasedLookup_out_eq_ok visits).mp done
    cases cache with
    | none =>
        cases answered
        exact ⟨_, .missing6 isAaaa chased short found, rfl⟩
    | some cache =>
        rw [putAddresses_out, List.append_assoc] at answered
        exact ⟨_, .found6 isAaaa chased short found, (Except.ok.inj answered).symm⟩
  rw [if_neg isAaaa] at done
  cases done
  exact ⟨[], .unsupported isA isCname isAaaa, (List.append_nil _).symm⟩

def putAll (size : Nat) :
    List ResourceRecord → List ResourceRecord → Exec (List ResourceRecord)
  | [], answers => pure answers
  | record :: records, answers => do
      let answers ← putAnswer size answers record
      putAll size records answers

theorem putAll_append (size : Nat) (first second answers : List ResourceRecord) :
    putAll size (first ++ second) answers =
      putAll size first answers >>= putAll size second := by
  induction first generalizing answers with
  | nil => rw [List.nil_append, putAll, Logged.pure_bind]
  | cons record first ih =>
      rw [List.cons_append, putAll, putAll, Logged.bind_assoc]
      exact congrArg (putAnswer size answers record >>= ·) (funext ih)

/-- Each record goes to the next slot. -/
theorem putAll_eq (size : Nat) (records answers : List ResourceRecord) :
    putAll size records answers =
      { log := (List.range' answers.length records.length).map
          fun (index : Nat) => .write (.answers size) (index : Int)
        out := .ok (answers ++ records) } := by
  induction records generalizing answers with
  | nil =>
      rw [List.append_nil]
      rfl
  | cons record records ih =>
      have put : (putAnswer size answers record).out = .ok (answers ++ [record]) := rfl
      rw [putAll, Logged.bind_of_ok put, ih, List.append_assoc, List.length_append,
        List.length_singleton, List.length_cons, List.range'_succ]
      rfl

theorem putAddresses_eq {Address : Type} (size : Nat) (generate : Address → ResourceRecord)
    (addresses : List Address) (answers : List ResourceRecord) :
    putAddresses size generate addresses answers =
      putAll size (addresses.map generate) answers := by
  induction addresses generalizing answers with
  | nil => rfl
  | cons address addresses ih =>
      rw [putAddresses, List.map_cons, putAll]
      exact congrArg (putAnswer size answers (generate address) >>= ·) (funext ih)

/-- The loop over the aliases of a name fills in their records. -/
theorem cnameLoop_put_eq {t : HashTable CnameCache} {domain last : StringT}
    {links : List (StringT × CnameCache)} (chased : Chased t domain links last)
    {fuel : Nat} (short : links.length < fuel) (size : Nat) (answers : List ResourceRecord)
    {β : Type} (next : StringT × List ResourceRecord → Exec β) :
    cnameLoop (putAlias size) t fuel domain answers >>= next =
      putAll size (aliasRecords links) answers >>= fun answers => next (last, answers) := by
  induction chased generalizing fuel answers with
  | last missing =>
      obtain ⟨fuel, rfl⟩ := Nat.exists_eq_succ_of_ne_zero (Nat.ne_of_gt short)
      rw [cnameLoop, missing]
      rfl
  | @link domain _ cache _ found _ ih =>
      obtain ⟨fuel, rfl⟩ := Nat.exists_eq_succ_of_ne_zero (Nat.ne_of_gt (Nat.zero_lt_of_lt short))
      rw [cnameLoop, found, Logged.ofExcept_ok, Logged.pure_bind, aliasRecords, List.map_cons,
        putAll, Logged.bind_assoc, Logged.bind_assoc]
      exact congrArg (putAlias size domain cache answers >>= ·)
        (funext fun answers => ih (Nat.lt_of_succ_lt_succ short) answers)

theorem QueryRecords.answerQuery_eq {env : Env} {world : World} {query : Query}
    {records : List ResourceRecord} (made : QueryRecords env world query records) (size : Nat)
    (answers : List ResourceRecord) :
    answerQuery env world size query answers = putAll size records answers := by
  unfold answerQuery
  cases made with
  | missing4 isA chased short missing =>
      rw [if_pos isA, cnameLoop_put_eq chased short]
      simp only [missing, Logged.ofExcept_ok, Logged.pure_bind, Logged.bind_pure]
  | found4 isA chased short found =>
      rw [if_pos isA, cnameLoop_put_eq chased short, putAll_append]
      simp only [found, Logged.ofExcept_ok, Logged.pure_bind, putAddresses_eq]
  | aliases isCname chased short =>
      have notA : query.type ≠ 1 := by simp [isCname]
      rw [if_neg notA, if_pos isCname, cnameLoop_put_eq chased short]
      simp only [Logged.bind_pure]
  | missing6 isAaaa chased short missing =>
      have notA : query.type ≠ 1 := by simp [isAaaa]
      have notCname : query.type ≠ 5 := by simp [isAaaa]
      rw [if_neg notA, if_neg notCname, if_pos isAaaa, cnameLoop_put_eq chased short]
      simp only [missing, Logged.ofExcept_ok, Logged.pure_bind, Logged.bind_pure]
  | found6 isAaaa chased short found =>
      have notA : query.type ≠ 1 := by simp [isAaaa]
      have notCname : query.type ≠ 5 := by simp [isAaaa]
      rw [if_neg notA, if_neg notCname, if_pos isAaaa, cnameLoop_put_eq chased short,
        putAll_append]
      simp only [found, Logged.ofExcept_ok, Logged.pure_bind, putAddresses_eq]
  | unsupported notA notCname notAaaa =>
      rw [if_neg notA, if_neg notCname, if_neg notAaaa]
      rfl

theorem QueryRecords.answerQuery_out {env : Env} {world : World} {query : Query}
    {records : List ResourceRecord} (made : QueryRecords env world query records) (size : Nat)
    (answers : List ResourceRecord) :
    (answerQuery env world size query answers).out = .ok (answers ++ records) := by
  rw [made.answerQuery_eq, putAll_eq]

theorem answerQuery_out_eq_ok {env : Env} {world : World} {size : Nat} {query : Query}
    {answers answers' : List ResourceRecord} :
    (answerQuery env world size query answers).out = .ok answers' ↔
      ∃ records, QueryRecords env world query records ∧ answers' = answers ++ records := by
  constructor
  · exact queryRecords_of_answerQuery
  · rintro ⟨records, made, isAnswers⟩
    rw [isAnswers]
    exact made.answerQuery_out size answers

theorem answerQueries_out_eq_ok {env : Env} {world : World} {size : Nat}
    {queries : List Query} {answers answers' : List ResourceRecord} :
    (answerQueries env world size queries answers).out = .ok answers' ↔
      ∃ records, List.Forall₂ (QueryRecords env world) queries records ∧
        answers' = answers ++ records.flatten := by
  induction queries generalizing answers with
  | nil =>
      constructor
      · intro done
        cases done
        exact ⟨[], .nil, (List.append_nil _).symm⟩
      · rintro ⟨records, made, isAnswers⟩
        cases made
        rw [isAnswers, List.flatten_nil, List.append_nil]
        rfl
  | cons query queries ih =>
      constructor
      · intro done
        obtain ⟨middle, first, rest⟩ := Logged.bind_out_eq_ok.mp done
        obtain ⟨head, made, isMiddle⟩ := answerQuery_out_eq_ok.mp first
        obtain ⟨records, others, isAnswers⟩ := ih.mp rest
        refine ⟨head :: records, .cons made others, ?_⟩
        rw [isAnswers, isMiddle, List.append_assoc, List.flatten_cons]
      · rintro ⟨records, made, isAnswers⟩
        cases made with
        | cons made others =>
            apply (Logged.bind_out_of_ok (answerQuery_out_eq_ok.mpr ⟨_, made, rfl⟩) _).trans
            refine ih.mpr ⟨_, others, ?_⟩
            rw [isAnswers, List.flatten_cons, List.append_assoc]

/-! ### The loop of the first pass -/

/-- The first pass reads the names and the second table only. -/
theorem countQueries_congr {env : Env} {world world' : World}
    (cnames : world'.cnameTable = world.cnameTable) (ipv6 : world'.ipv6Table = world.ipv6Table)
    (queries : List Query) (pass : FirstPass) :
    countQueries env world' queries pass = countQueries env world queries pass := by
  induction queries generalizing pass with
  | nil => rfl
  | cons query queries ih =>
      have same : countQuery env world' query pass = countQuery env world query pass := by
        unfold countQuery
        rw [cnames, ipv6]
      unfold countQueries
      rw [same]
      simp only [ih]

theorem countQueries_moved (env : Env) (world : World) (t : HashTable Ipv4Cache)
    (queries : List Query) (pass : FirstPass) :
    countQueries env { world with ipv4Table := t } queries pass =
      countQueries env world queries pass := by
  apply countQueries_congr <;> rfl

theorem countQueries_uncached {env : Env} {world : World} {queries : List Query}
    {pass : FirstPass} (uncached : pass.cached = false) :
    countQueries env world queries pass = pure pass := by
  cases queries with
  | nil => rfl
  | cons query queries =>
      unfold countQueries
      rw [uncached]
      rfl

theorem countQueries_cached {env : Env} {world : World} {query : Query}
    {queries : List Query} {pass pass' : FirstPass} (cached : pass.cached = true) :
    (countQueries env world (query :: queries) pass).out = .ok pass' ↔
      ∃ middle, CountStep env world query pass middle ∧
        (countQueries env world queries middle).out = .ok pass' := by
  have start : countQueries env world (query :: queries) pass =
      countQuery env world query pass >>= countQueries env world queries := by
    rw [countQueries, cached]
    rfl
  rw [start, Logged.bind_out_eq_ok]
  simp only [countQuery_out_eq_ok]

/-- The second pass reads the three tables only. -/
theorem answerQueries_clients (env : Env) (world : World) (clients : Clients) (size : Nat)
    (queries : List Query) (answers : List ResourceRecord) :
    answerQueries env { world with clients := clients } size queries answers =
      answerQueries env world size queries answers := by
  induction queries generalizing answers with
  | nil => rfl
  | cons query queries ih =>
      unfold answerQueries
      simp only [ih]
      rfl

/-! ### A request -/

def blockedReply (message : Message) : Message :=
  let back := backMessage message (questionsOf message)
  { back with flags := { back.flags with rcode := 3 } }

def cachedReply (message : Message) (answerCount : Nat) (answers : List ResourceRecord) :
    Message :=
  { backMessage message (questionsOf message) with
    answerCount := UInt16.ofNat answerCount
    answers := answers }

inductive Handled (env : Env) (address : SockAddr) (message : Message) (before : World) :
    World → List Sent → Prop where
  | forwarded {pass : FirstPass} {buf : UvBuf}
      (counted : (countQueries env before (questionsOf message)
        (FirstPass.start before.ipv4Table)).out = .ok pass)
      (uncached : pass.cached = false)
      (encoded : (message2buf env (clearReserved message)).out = .ok buf) :
      Handled env address message before
        { before with
          ipv4Table := pass.ipv4Table
          clients := Function.update before.clients (featureOf message) (some address) }
        [.query (clearReserved message) buf]
  | blocked {pass : FirstPass} {buf : UvBuf}
      (counted : (countQueries env before (questionsOf message)
        (FirstPass.start before.ipv4Table)).out = .ok pass)
      (cached : pass.cached = true) (banned : pass.banned = true)
      (encoded : (message2buf env (clearReserved (blockedReply message))).out = .ok buf) :
      Handled env address message before
        { before with
          ipv4Table := pass.ipv4Table
          clients := Function.update before.clients (featureOf message) none }
        [.response address (clearReserved (blockedReply message)) buf]
  | answered {pass : FirstPass} {records : List (List ResourceRecord)} {buf : UvBuf}
      (counted : (countQueries env before (questionsOf message)
        (FirstPass.start before.ipv4Table)).out = .ok pass)
      (cached : pass.cached = true) (unbanned : pass.banned = false)
      (made : List.Forall₂ (QueryRecords env { before with ipv4Table := pass.ipv4Table })
        (questionsOf message) records)
      (encoded : (message2buf env (clearReserved
        (cachedReply message pass.answerCount records.flatten))).out = .ok buf) :
      Handled env address message before
        { before with
          ipv4Table := pass.ipv4Table
          clients := Function.update before.clients (featureOf message) none }
        [.response address
          (clearReserved (cachedReply message pass.answerCount records.flatten)) buf]

theorem message2featureString_asked {message : Message}
    (asked : message.queryCount.toNat ≤ message.queries.length) :
    message2featureString message = pure (featureOf message) := by
  unfold message2featureString
  rw [initialised_of_le asked, Logged.pure_bind]
  rfl

theorem sendQueryFrom_out_eq_ok {env : Env} {world after : World} {message : Message}
    {sent : List Sent} :
    (sendQueryFrom env world message).out = .ok (after, sent) ↔
      ∃ buf, (message2buf env (clearReserved message)).out = .ok buf ∧ after = world ∧
        sent = [.query (clearReserved message) buf] := by
  unfold sendQueryFrom sendQuery
  rw [Logged.bind_out_eq_ok]
  simp only [Logged.pure_out, Except.ok.injEq, Prod.mk.injEq, eq_comm]

/-- A reply to a client that waits. -/
theorem sendResponseFrom_out_eq_ok {env : Env} {world after : World} {reply : Message}
    {address : SockAddr} {sent : List Sent}
    (asked : reply.queryCount.toNat ≤ reply.queries.length)
    (waiting : world.clients (featureOf reply) = some address) :
    (sendResponseFrom env world reply).out = .ok (after, sent) ↔
      ∃ buf, (message2buf env (clearReserved reply)).out = .ok buf ∧
        after =
          { world with clients := Function.update world.clients (featureOf reply) none } ∧
        sent = [.response address (clearReserved reply) buf] := by
  have unfolded : sendResponseFrom env world reply =
      message2buf env (clearReserved reply) >>= fun buf =>
        pure ({ world with clients := Function.update world.clients (featureOf reply) none },
          [.response address (clearReserved reply) buf]) := by
    unfold sendResponseFrom sendResponse
    rw [message2featureString_asked asked, Logged.pure_bind]
    simp only [waiting]
    rw [Logged.bind_assoc]
    rfl
  rw [unfolded, Logged.bind_out_eq_ok]
  simp only [Logged.pure_out, Except.ok.injEq, Prod.mk.injEq, eq_comm]

section Requests

variable {env : Env} {address : SockAddr} {message : Message} {before after : World}
  {sent : List Sent}

theorem handleRequest_ready (ready : LogReady message) :
    handleRequest env address message before =
      countQueries env before (questionsOf message) (FirstPass.start before.ipv4Table) >>=
        fun pass =>
          let world : World :=
            { before with
              ipv4Table := pass.ipv4Table
              clients := Function.update before.clients (featureOf message) (some address) }
          if pass.cached then answerLocally env world pass message (questionsOf message)
          else sendQueryFrom env world message := by
  have same (clients : Clients) (pass : FirstPass) :
      countQueries env { before with clients := clients } (questionsOf message) pass =
        countQueries env before (questionsOf message) pass := by
    apply countQueries_congr <;> rfl
  unfold handleRequest
  rw [ready.messageLog_bind, message2featureString_asked ready.queries, Logged.pure_bind,
    initialised_of_le ready.queries, Logged.pure_bind]
  exact congrArg (fun run => run >>= _) (same _ _)

theorem blockedReply_asked (asked : message.queryCount.toNat ≤ message.queries.length) :
    (blockedReply message).queryCount.toNat ≤ (blockedReply message).queries.length := by
  change message.queryCount.toNat ≤ (questionsOf message).length
  rw [questionsOf, List.length_take]
  omega

theorem cachedReply_asked (asked : message.queryCount.toNat ≤ message.queries.length)
    (answerCount : Nat) (answers : List ResourceRecord) :
    (cachedReply message answerCount answers).queryCount.toNat ≤
      (cachedReply message answerCount answers).queries.length := by
  change message.queryCount.toNat ≤ (questionsOf message).length
  rw [questionsOf, List.length_take]
  omega

/-- A reply to the client that has just been entered. -/
theorem reply_out_eq_ok {reply : Message} (same : featureOf reply = featureOf message)
    (ready : reply.queryCount.toNat ≤ reply.queries.length) (t : HashTable Ipv4Cache) :
    (sendResponseFrom env
        { before with
          ipv4Table := t
          clients := Function.update before.clients (featureOf message) (some address) }
        reply).out = .ok (after, sent) ↔
      ∃ buf, (message2buf env (clearReserved reply)).out = .ok buf ∧
        after =
          { before with
            ipv4Table := t
            clients := Function.update before.clients (featureOf message) none } ∧
        sent = [.response address (clearReserved reply) buf] := by
  have waiting : Function.update before.clients (featureOf message) (some address)
      (featureOf reply) = some address := by
    rw [same, Function.update_self]
  rw [sendResponseFrom_out_eq_ok ready waiting, same, Function.update_idem]

/-- A request that is handled is one of the three cases. -/
theorem handleRequest_out_eq_ok (ready : LogReady message) :
    (handleRequest env address message before).out = .ok (after, sent) ↔
      Handled env address message before after sent := by
  have blocked : featureOf (blockedReply message) = featureOf message :=
    SameQuestion.feature ⟨rfl, (sameQuestion_backMessage message).2⟩
  have cached (answerCount : Nat) (answers : List ResourceRecord) :
      featureOf (cachedReply message answerCount answers) = featureOf message :=
    SameQuestion.feature ⟨rfl, (sameQuestion_backMessage message).2⟩
  have asked := ready.queries
  rw [handleRequest_ready ready, Logged.bind_out_eq_ok]
  constructor
  · rintro ⟨pass, counted, decided⟩
    cases hCached : pass.cached with
    | false =>
        simp only [hCached, Bool.false_eq_true, if_false] at decided
        obtain ⟨buf, encoded, isAfter, isSent⟩ := sendQueryFrom_out_eq_ok.mp decided
        rw [isAfter, isSent]
        exact .forwarded counted hCached encoded
    | true =>
        simp only [hCached, if_true] at decided
        unfold answerLocally at decided
        cases hBanned : pass.banned with
        | true =>
            simp only [hBanned, if_true] at decided
            obtain ⟨buf, encoded, isAfter, isSent⟩ :=
              (reply_out_eq_ok blocked (blockedReply_asked asked) pass.ipv4Table).mp decided
            rw [isAfter, isSent]
            exact .blocked counted hCached hBanned encoded
        | false =>
            simp only [hBanned, Bool.false_eq_true, if_false] at decided
            obtain ⟨answers, answered, sending⟩ := Logged.bind_out_eq_ok.mp decided
            rw [answerQueries_clients env { before with ipv4Table := pass.ipv4Table }]
              at answered
            obtain ⟨records, made, isAnswers⟩ := answerQueries_out_eq_ok.mp answered
            rw [List.nil_append] at isAnswers
            subst isAnswers
            obtain ⟨buf, encoded, isAfter, isSent⟩ :=
              (reply_out_eq_ok (cached _ _) (cachedReply_asked asked _ _)
                pass.ipv4Table).mp sending
            rw [isAfter, isSent]
            exact .answered counted hCached hBanned made encoded
  · intro handled
    cases handled with
    | @forwarded pass buf counted uncached encoded =>
        refine ⟨pass, counted, ?_⟩
        simp only [uncached, Bool.false_eq_true, if_false]
        exact sendQueryFrom_out_eq_ok.mpr ⟨buf, encoded, rfl, rfl⟩
    | @blocked pass buf counted isCached banned encoded =>
        refine ⟨pass, counted, ?_⟩
        simp only [isCached, if_true]
        unfold answerLocally
        simp only [banned, if_true]
        exact (reply_out_eq_ok blocked (blockedReply_asked asked) pass.ipv4Table).mpr
          ⟨buf, encoded, rfl, rfl⟩
    | @answered pass records buf counted isCached unbanned made encoded =>
        refine ⟨pass, counted, ?_⟩
        simp only [isCached, if_true]
        unfold answerLocally
        simp only [unbanned, Bool.false_eq_true, if_false]
        have answered : (answerQueries env { before with ipv4Table := pass.ipv4Table }
            pass.answerCount (questionsOf message) []).out = .ok records.flatten :=
          answerQueries_out_eq_ok.mpr ⟨records, made, rfl⟩
        rw [← answerQueries_clients env { before with ipv4Table := pass.ipv4Table }
          (Function.update before.clients (featureOf message) (some address))] at answered
        apply (Logged.bind_out_of_ok answered _).trans
        exact (reply_out_eq_ok (cached _ _) (cachedReply_asked asked _ _) pass.ipv4Table).mpr
          ⟨buf, encoded, rfl, rfl⟩

end Requests

theorem logReady_of_handleRequest {env : Env} {address : SockAddr} {message : Message}
    {before after : World} {sent : List Sent}
    (done : (handleRequest env address message before).out = .ok (after, sent)) :
    LogReady message := by
  obtain ⟨lines, logged, _⟩ := Logged.bind_out_eq_ok.mp done
  exact (messageLog_returns_iff message).mp ⟨lines, logged⟩

theorem logReady_of_handleReply {env : Env} {now : Int} {message : Message}
    {before after : World} {sent : List Sent}
    (done : (handleReply env now message before).out = .ok (after, sent)) :
    LogReady message := by
  obtain ⟨lines, logged, _⟩ := Logged.bind_out_eq_ok.mp done
  exact (messageLog_returns_iff message).mp ⟨lines, logged⟩

theorem handled_of_handleRequest {env : Env} {address : SockAddr} {message : Message}
    {before after : World} {sent : List Sent}
    (done : (handleRequest env address message before).out = .ok (after, sent)) :
    Handled env address message before after sent :=
  (handleRequest_out_eq_ok (logReady_of_handleRequest done)).mp done

theorem Handled.tables {env : Env} {address : SockAddr} {message : Message}
    {before after : World} {sent : List Sent}
    (handled : Handled env address message before after sent) :
    ∃ pass, (countQueries env before (questionsOf message)
        (FirstPass.start before.ipv4Table)).out = .ok pass ∧
      after.ipv4Table = pass.ipv4Table ∧ after.ipv6Table = before.ipv6Table ∧
        after.cnameTable = before.cnameTable := by
  cases handled with
  | forwarded counted _ _ => exact ⟨_, counted, rfl, rfl, rfl⟩
  | blocked counted _ _ _ => exact ⟨_, counted, rfl, rfl, rfl⟩
  | answered counted _ _ _ _ => exact ⟨_, counted, rfl, rfl, rfl⟩

/-! ### A reply -/

structure ReplyStored (now : Int) (message : Message) (before after : World) : Prop where
  counted : message.answerCount.toNat ≤ message.answers.length
  collected : ∃ collected,
    (cacheAnswers now (message.answers.take message.answerCount.toNat)
      (Collected.start now before.cnameTable)).out = .ok collected ∧
    (putNamed before.ipv4Table
      (fun domain => ipv4CachePut now before.ipv4Table domain collected.ipv4Cache)
      collected.ipv4Domain).out = .ok after.ipv4Table ∧
    (putNamed before.ipv6Table
      (fun domain => ipv6CachePut now before.ipv6Table domain collected.ipv6Cache)
      collected.ipv6Domain).out = .ok after.ipv6Table ∧
    after.cnameTable = collected.cnameTable

theorem handleReply_stored {env : Env} {now : Int} {message : Message}
    {before after : World} {sent : List Sent}
    (done : (handleReply env now message before).out = .ok (after, sent)) :
    ReplyStored now message before after := by
  have counted := (logReady_of_handleReply done).answers
  obtain ⟨_, _, done⟩ := Logged.bind_out_eq_ok.mp done
  obtain ⟨answers, ready, cached⟩ := Logged.bind_out_eq_ok.mp done
  obtain ⟨collected, collecting, stored⟩ := Logged.bind_out_eq_ok.mp cached
  obtain ⟨world, storing, sending⟩ := Logged.bind_out_eq_ok.mp stored
  obtain ⟨ipv4Table, putIpv4, rest⟩ := Logged.bind_out_eq_ok.mp storing
  obtain ⟨ipv6Table, putIpv6, returned⟩ := Logged.bind_out_eq_ok.mp rest
  cases returned
  rw [initialised_of_le counted] at ready
  cases ready
  refine ⟨counted, collected, collecting, ?_⟩
  rcases sendResponseFrom_eq_ok sending with ⟨_, _, same⟩ | ⟨_, _, _, _, same⟩
  · rw [same]
    exact ⟨putIpv4, putIpv6, rfl⟩
  · rw [same]
    exact ⟨putIpv4, putIpv6, rfl⟩

theorem putNamed_cases {Table : Type} {table table' : Table}
    {put : StringT → Except Fault Table} {domain : Option StringT}
    (done : (putNamed table put domain).out = .ok table') :
    (domain = none ∧ table' = table) ∨ ∃ name, domain = some name ∧ put name = .ok table' := by
  cases domain with
  | none =>
      cases done
      exact Or.inl ⟨rfl, rfl⟩
  | some name => exact Or.inr ⟨name, rfl, done⟩

/-- The tables before and the answers determine the tables after. -/
theorem ReplyStored.unique {now : Int} {message : Message} {before before' after after' : World}
    (ipv4 : before'.ipv4Table = before.ipv4Table) (ipv6 : before'.ipv6Table = before.ipv6Table)
    (cname : before'.cnameTable = before.cnameTable)
    (stored : ReplyStored now message before after)
    (stored' : ReplyStored now message before' after') :
    after'.ipv4Table = after.ipv4Table ∧ after'.ipv6Table = after.ipv6Table ∧
      after'.cnameTable = after.cnameTable := by
  obtain ⟨_, collected, collecting, putIpv4, putIpv6, isCname⟩ := stored
  obtain ⟨_, collected', collecting', putIpv4', putIpv6', isCname'⟩ := stored'
  rw [cname, collecting] at collecting'
  cases collecting'
  rw [ipv4, putIpv4] at putIpv4'
  rw [ipv6, putIpv6] at putIpv6'
  exact ⟨(Except.ok.inj putIpv4').symm, (Except.ok.inj putIpv6').symm,
    isCname'.trans isCname.symm⟩

/-- The switch over the answers has no case for the record. -/
def Uncacheable (answer : ResourceRecord) : Prop :=
  answer.type ≠ 1 ∧ answer.type ≠ 5 ∧ answer.type ≠ 28

inductive AnswerStep (now : Int) (collected : Collected) (answer : ResourceRecord) :
    Collected → Prop where
  | inet4 {address : UInt32} (isA : answer.type = 1)
      (data : answer.responseData = .inet4 address) :
      AnswerStep now collected answer
        { collected with
          ipv4Domain := some answer.name
          ipv4Cache :=
            { collected.ipv4Cache with node := collected.ipv4Cache.node ++ [address] } }
  | domain {name : StringT} {cnameTable : HashTable CnameCache} (isCname : answer.type = 5)
      (data : answer.responseData = .domain name)
      (put : cnameCachePut now collected.cnameTable answer.name
        { name := name, ttl := 120, timestamp := now, manual := false } = .ok cnameTable) :
      AnswerStep now collected answer { collected with cnameTable := cnameTable }
  | inet6 {address : List UInt8} (isAaaa : answer.type = 28)
      (data : answer.responseData = .inet6 address) :
      AnswerStep now collected answer
        { collected with
          ipv6Domain := some answer.name
          ipv6Cache :=
            { collected.ipv6Cache with node := collected.ipv6Cache.node ++ [address] } }
  | skipped (uncacheable : Uncacheable answer) : AnswerStep now collected answer collected

theorem answerStep_of_cacheAnswer {now : Int} {collected collected' : Collected}
    {answer : ResourceRecord}
    (done : (cacheAnswer now collected answer).out = .ok collected') :
    AnswerStep now collected answer collected' := by
  unfold cacheAnswer at done
  by_cases isA : answer.type = 1
  · rw [if_pos isA] at done
    cases data : answer.responseData with
    | inet4 address =>
        simp only [data] at done
        cases done
        exact .inet4 isA data
    | _ =>
        simp only [data] at done
        cases done
  rw [if_neg isA] at done
  by_cases isCname : answer.type = 5
  · rw [if_pos isCname] at done
    cases data : answer.responseData with
    | domain name =>
        simp only [data] at done
        obtain ⟨cnameTable, put, returned⟩ := ofExcept_bind_out_eq_ok.mp done
        cases returned
        exact .domain isCname data put
    | _ =>
        simp only [data] at done
        cases done
  rw [if_neg isCname] at done
  by_cases isAaaa : answer.type = 28
  · rw [if_pos isAaaa] at done
    cases data : answer.responseData with
    | inet6 address =>
        simp only [data] at done
        cases done
        exact .inet6 isAaaa data
    | _ =>
        simp only [data] at done
        cases done
  rw [if_neg isAaaa] at done
  cases done
  exact .skipped ⟨isA, isCname, isAaaa⟩

theorem cacheAnswers_uncacheable (now : Int) {answers : List ResourceRecord}
    (uncacheable : ∀ answer ∈ answers, Uncacheable answer) (collected : Collected) :
    cacheAnswers now answers collected = pure collected := by
  induction answers with
  | nil => rfl
  | cons answer answers ih =>
      obtain ⟨notA, notCname, notAaaa⟩ := uncacheable answer List.mem_cons_self
      have skipped : cacheAnswer now collected answer = pure collected := by
        unfold cacheAnswer
        rw [if_neg notA, if_neg notCname, if_neg notAaaa]
      unfold cacheAnswers
      rw [skipped, Logged.pure_bind]
      exact ih fun other member => uncacheable other (List.mem_cons_of_mem _ member)

theorem ReplyStored.of_uncacheable {now : Int} {message : Message} {before after : World}
    (stored : ReplyStored now message before after)
    (uncacheable : ∀ answer ∈ message.answers.take message.answerCount.toNat,
      Uncacheable answer) :
    after.ipv4Table = before.ipv4Table ∧ after.ipv6Table = before.ipv6Table ∧
      after.cnameTable = before.cnameTable := by
  obtain ⟨_, collected, collecting, putIpv4, putIpv6, isCname⟩ := stored
  rw [cacheAnswers_uncacheable now uncacheable] at collecting
  cases collecting
  exact ⟨(Except.ok.inj putIpv4).symm, (Except.ok.inj putIpv6).symm, isCname⟩

end PostDns
