/-
A request right after the reply to it (socket.c).

`query_socket_read` puts the aliases and addresses of a reply into the three caches, and
`bind_socket_read` collects them again for the same question.  It collects what the reply
carried unless an older entry comes in between: an alias of the name that the reply ends
at, or a manual entry for that name.
-/

import PostDns.ManualEntries

namespace PostDns

open Foundation

/-! ### Replies along aliases -/

def ResourceRecord.content (record : ResourceRecord) : StringT × UInt16 × ResponseData :=
  (record.name, record.type, record.responseData)

inductive AliasChain : StringT → List ResourceRecord → StringT → Prop where
  | last {name : StringT} : AliasChain name [] name
  | link {answer : ResourceRecord} {next last : StringT} {answers : List ResourceRecord}
      (isCname : answer.type = 5) (data : answer.responseData = .domain next)
      (rest : AliasChain next answers last) : AliasChain answer.name (answer :: answers) last

structure AcyclicChain (name : StringT) (answers : List ResourceRecord) (last : StringT) :
    Prop where
  chain : AliasChain name answers last
  distinct : (answers.map ResourceRecord.name).Nodup
  ends : ∀ answer ∈ answers, answer.name ≠ last

/-- The answers are aliases from the name asked for and the addresses of the name they end
at, and for a question about an alias the aliases alone. -/
inductive ChainReply (query : Query) (last : StringT) : List ResourceRecord → Prop where
  | inet4 {aliases addresses : List ResourceRecord} (isA : query.type = 1)
      (chain : AcyclicChain query.name aliases last) (nonempty : addresses ≠ [])
      (owned : ∀ answer ∈ addresses, answer.name = last ∧ answer.type = 1 ∧
        ∃ address, answer.responseData = .inet4 address) :
      ChainReply query last (aliases ++ addresses)
  | cname {aliases : List ResourceRecord} (isCname : query.type = 5)
      (chain : AcyclicChain query.name aliases last) (nonempty : aliases ≠ []) :
      ChainReply query last aliases
  | inet6 {aliases addresses : List ResourceRecord} (isAaaa : query.type = 28)
      (chain : AcyclicChain query.name aliases last) (nonempty : addresses ≠ [])
      (owned : ∀ answer ∈ addresses, answer.name = last ∧ answer.type = 28 ∧
        ∃ address, answer.responseData = .inet6 address) :
      ChainReply query last (aliases ++ addresses)

def AnsweredAs (world : World) (message : Message) (client : SockAddr)
    (answers : List ResourceRecord) : Prop :=
  ∃ records, AnsweredLocally world message client records ∧
    records.map ResourceRecord.content = answers.map ResourceRecord.content

/-- No older entry comes in between: the last name has no alias, and for an address
question no manual entry. -/
structure Undiverted (world : World) (query : Query) (last : StringT) : Prop where
  unaliased : cnameCacheGet world.cnameTable last = .ok none
  unmarked : query.type = 1 → ∀ cache,
    ipv4CacheGet world.ipv4Table last = .ok (some cache) → cache.manual = false

/-! ### The aliases in the cache -/

theorem AliasChain.isCname {name last : StringT} {answers : List ResourceRecord}
    (chain : AliasChain name answers last) {answer : ResourceRecord}
    (member : answer ∈ answers) :
    answer.type = 5 ∧ ∃ next, answer.responseData = .domain next := by
  induction chain with
  | last => cases member
  | link isCname data _ ih =>
      rcases List.mem_cons.mp member with isFirst | later
      · rw [isFirst]
        exact ⟨isCname, _, data⟩
      · exact ih later

theorem AliasChain.noAddress4 {name last : StringT} {answers : List ResourceRecord}
    (chain : AliasChain name answers last) : ∀ answer ∈ answers, answerAddress4 answer = none := by
  intro answer member
  obtain ⟨_, next, data⟩ := chain.isCname member
  unfold answerAddress4
  rw [data]

theorem AliasChain.noAddress6 {name last : StringT} {answers : List ResourceRecord}
    (chain : AliasChain name answers last) : ∀ answer ∈ answers, answerAddress6 answer = none := by
  intro answer member
  obtain ⟨_, next, data⟩ := chain.isCname member
  unfold answerAddress6
  rw [data]

theorem notAliases_of_owned {last : StringT} {type : UInt16} {addresses : List ResourceRecord}
    (owned : ∀ answer ∈ addresses, answer.name = last ∧ answer.type = type)
    (notCname : type ≠ 5) : ∀ answer ∈ addresses, answer.type ≠ 5 := by
  intro answer member
  rw [(owned answer member).2]
  exact notCname

/-- An alias is cached as it was answered when no later answer has the same owner. -/
theorem enterCname_own {now : Int} {answers : List ResourceRecord}
    (distinct : (answers.map ResourceRecord.name).Nodup) {answer : ResourceRecord}
    (member : answer ∈ answers) (isCname : answer.type = 5) {next : StringT}
    (data : answer.responseData = .domain next) (map : StringT → Option CnameCache) :
    answers.foldl (enterCname now) map answer.name =
      some { name := next, ttl := 120, timestamp := now, manual := false } := by
  induction answers generalizing map with
  | nil => cases member
  | cons first answers ih =>
      obtain ⟨fresh, others⟩ := List.nodup_cons.mp distinct
      rw [List.foldl_cons]
      rcases List.mem_cons.mp member with isFirst | later
      · subst isFirst
        have different : ∀ other ∈ answers, other.type = 5 → other.name ≠ answer.name := by
          intro other inRest _ same
          apply fresh
          rw [← same]
          exact List.mem_map_of_mem inRest
        rw [enterCname_others different]
        unfold enterCname
        simp only [data, isCname, if_true]
        exact Function.update_self _ _ _
      · exact ih others later _

section Entered

variable {t : HashTable CnameCache} {name last : StringT} {answers : List ResourceRecord}
  (chain : AliasChain name answers last)
  (entered : ∀ answer ∈ answers, ∀ next, answer.responseData = .domain next →
    ∃ cache, cnameCacheGet t answer.name = .ok (some cache) ∧ cache.name = next)

include chain entered

/-- The loop over the aliases goes along the chain and on from its end. -/
theorem AliasChain.chased {links : List (StringT × CnameCache)} {final : StringT}
    (beyond : Chased t last links final) :
    ∃ passed, Chased t name (passed ++ links) final ∧
      (aliasRecords passed).map ResourceRecord.content =
        answers.map ResourceRecord.content := by
  induction chain with
  | last => exact ⟨[], beyond, rfl⟩
  | @link answer next last answers isCname data _ ih =>
      obtain ⟨cache, found, leads⟩ := entered answer List.mem_cons_self next data
      obtain ⟨passed, rest, same⟩ :=
        ih (fun other member => entered other (List.mem_cons_of_mem _ member)) beyond
      rw [← leads] at rest
      refine ⟨(answer.name, cache) :: passed, .link found rest, ?_⟩
      have here : (generateCnameResponse answer.name cache.name).content = answer.content := by
        simp [ResourceRecord.content, generateCnameResponse, isCname, data, leads]
      change _ :: _ = _ :: _
      rw [here]
      exact congrArg (answer.content :: ·) same

/-- A loop that came to an end came past the end of the chain. -/
theorem AliasChain.beyond {links : List (StringT × CnameCache)} {final : StringT}
    (chased : Chased t name links final) : ∃ rest, Chased t last rest final := by
  induction chain generalizing links with
  | last => exact ⟨links, chased⟩
  | @link answer next last answers isCname data _ ih =>
      obtain ⟨cache, found, leads⟩ := entered answer List.mem_cons_self next data
      cases chased with
      | last missing =>
          rw [found] at missing
          cases missing
      | link found' rest =>
          rw [found] at found'
          cases found'
          rw [leads] at rest
          exact ih (fun other member => entered other (List.mem_cons_of_mem _ member)) rest

end Entered

/-! ### What the reply leaves in the caches -/

theorem AcyclicChain.entered {name last : StringT} {aliases addresses : List ResourceRecord}
    (chain : AcyclicChain name aliases last) (notAliases : ∀ answer ∈ addresses, answer.type ≠ 5)
    (now : Int) (maps : CacheMaps) :
    (∀ answer ∈ aliases, ∀ next, answer.responseData = .domain next →
      (maps.reply now (aliases ++ addresses)).cname answer.name =
        some { name := next, ttl := 120, timestamp := now, manual := false }) ∧
      (maps.reply now (aliases ++ addresses)).cname last = maps.cname last := by
  have split (domain : StringT) : (maps.reply now (aliases ++ addresses)).cname domain =
      aliases.foldl (enterCname now) maps.cname domain := by
    change (aliases ++ addresses).foldl (enterCname now) maps.cname domain = _
    rw [List.foldl_append]
    apply enterCname_others
    intro answer member isCname
    exact absurd isCname (notAliases answer member)
  constructor
  · intro answer member next data
    rw [split]
    exact enterCname_own chain.distinct member (chain.chain.isCname member).1 data maps.cname
  · rw [split]
    exact enterCname_others (fun answer member _ => chain.ends answer member) maps.cname

theorem ownerAfter_owned {type : UInt16} {last : StringT} {addresses : List ResourceRecord}
    (nonempty : addresses ≠ [])
    (owned : ∀ answer ∈ addresses, answer.name = last ∧ answer.type = type)
    (owner : Option StringT) : addresses.foldl (ownerAfter type) owner = some last := by
  induction addresses generalizing owner with
  | nil => exact absurd rfl nonempty
  | cons first addresses ih =>
      obtain ⟨isLast, isType⟩ := owned first List.mem_cons_self
      have first : ownerAfter type owner first = some last := by
        unfold ownerAfter
        rw [if_pos isType, isLast]
      rw [List.foldl_cons, first]
      cases addresses with
      | nil => rfl
      | cons second addresses =>
          exact ih (List.cons_ne_nil _ _)
            (fun answer member => owned answer (List.mem_cons_of_mem _ member)) _

theorem lastOwner_owned {type : UInt16} {last : StringT}
    {aliases addresses : List ResourceRecord} (nonempty : addresses ≠ [])
    (owned : ∀ answer ∈ addresses, answer.name = last ∧ answer.type = type) :
    lastOwner type (aliases ++ addresses) = some last := by
  unfold lastOwner
  rw [List.foldl_append]
  exact ownerAfter_owned nonempty owned _

/-- The addresses that are taken out of the records make the same records again. -/
theorem filterMap_generate {Address : Type} {address : ResourceRecord → Option Address}
    {generate : Address → ResourceRecord} {aliases addresses : List ResourceRecord}
    (none : ∀ answer ∈ aliases, address answer = none)
    (each : ∀ answer ∈ addresses, ∃ found, address answer = some found ∧
      (generate found).content = answer.content) :
    (((aliases ++ addresses).filterMap address).map generate).map ResourceRecord.content =
      addresses.map ResourceRecord.content := by
  have skipped : aliases.filterMap address = [] := List.filterMap_eq_nil_iff.mpr none
  rw [List.filterMap_append, skipped, List.nil_append]
  induction addresses with
  | nil => rfl
  | cons first addresses ih =>
      obtain ⟨found, isFound, same⟩ := each first List.mem_cons_self
      rw [List.filterMap_cons_some isFound, List.map_cons, List.map_cons, List.map_cons, same,
        ih fun answer member => each answer (List.mem_cons_of_mem _ member)]

/-! ### The size of the reply -/

theorem QueryRecords.contiguous {env : Env} {world : World} {query : Query}
    {records : List ResourceRecord} (made : QueryRecords env world query records)
    (sixteen : ∀ record ∈ records, ∀ address,
      record.responseData = .inet6 address → address.length = 16) :
    ∀ record ∈ records, Contiguous record := by
  intro record member
  have ofAlias {links : List (StringT × CnameCache)} (inAliases : record ∈ aliasRecords links) :
      Contiguous record := by
    obtain ⟨link, _, isRecord⟩ := List.mem_map.mp inAliases
    rw [← isRecord]
    exact contiguous_generateCnameResponse _ _
  cases made with
  | missing4 _ _ _ _ => exact ofAlias member
  | found4 _ _ _ _ =>
      rcases List.mem_append.mp member with inAliases | inAddresses
      · exact ofAlias inAliases
      · obtain ⟨address, _, isRecord⟩ := List.mem_map.mp inAddresses
        rw [← isRecord]
        exact contiguous_generateIpv4Response _ _
  | aliases _ _ _ => exact ofAlias member
  | missing6 _ _ _ _ => exact ofAlias member
  | found6 _ _ _ _ =>
      rcases List.mem_append.mp member with inAliases | inAddresses
      · exact ofAlias inAliases
      · obtain ⟨address, _, isRecord⟩ := List.mem_map.mp inAddresses
        have size := sixteen record member address (by rw [← isRecord]; rfl)
        rw [← isRecord]
        exact contiguous_generateIpv6Response _ size
  | unsupported _ _ _ => cases member

/-- Records of the same owners and data take as many octets. -/
theorem replyLength_content {query : Query} {records answers : List ResourceRecord}
    (same : records.map ResourceRecord.content = answers.map ResourceRecord.content) :
    replyLength query records = replyLength query answers := by
  have sizes (entries : List ResourceRecord) :
      (entries.map fun record => record.name.length + 12 + payloadLength record.responseData) =
        (entries.map ResourceRecord.content).map fun content =>
          content.1.length + 12 + payloadLength content.2.2 := by
    rw [List.map_map]
    rfl
  unfold replyLength
  rw [sizes records, sizes answers, same]

/-- The addresses of a reply that was logged have sixteen octets. -/
theorem ChainReply.sixteen {query : Query} {last : StringT} {answers : List ResourceRecord}
    (carries : ChainReply query last answers) (shapes : ∀ answer ∈ answers, HasShape answer) :
    ∀ answer ∈ answers, ∀ address,
      answer.responseData = .inet6 address → address.length = 16 := by
  intro answer member address data
  have shape := shapes answer member
  have ofAlias {name last : StringT} {aliases : List ResourceRecord}
      (chain : AliasChain name aliases last) (inAliases : answer ∈ aliases) :
      address.length = 16 := by
    obtain ⟨_, next, isDomain⟩ := chain.isCname inAliases
    rw [isDomain] at data
    cases data
  cases carries with
  | inet4 _ chain _ owned =>
      rcases List.mem_append.mp member with inAliases | inAddresses
      · exact ofAlias chain.chain inAliases
      · obtain ⟨_, _, found, isInet4⟩ := owned answer inAddresses
        rw [isInet4] at data
        cases data
  | cname _ chain _ => exact ofAlias chain.chain member
  | inet6 _ chain _ owned =>
      rcases List.mem_append.mp member with inAliases | inAddresses
      · exact ofAlias chain.chain inAliases
      · obtain ⟨found, isInet6, size⟩ := shape.inet6 (owned answer inAddresses).2.1
        rw [isInet6] at data
        cases data
        exact size

/-! ### What the request collects -/

section Again

variable {world : World} {again : Message} {query : Query} {client : SockAddr}
  (queryCount : again.queryCount = 1) (single : again.queries = [query])

include queryCount single

theorem AnsweredLocally.made {records : List ResourceRecord}
    (answered : AnsweredLocally world again client records) :
    ¬ Blocked world query ∧ ∃ env, QueryRecords env world query records := by
  have questions := questionsOf_single queryCount single
  obtain ⟨enough, answers⟩ := answered
  obtain ⟨after, reply, buf, done, isZero, _, isRecords⟩ :=
    answers { fuel := enough, junk := fun _ _ => 0 } le_rfl
  generalize isSent : [Sent.response client reply buf] = sent at done
  cases handled_of_handleRequest done with
  | forwarded _ _ _ => cases isSent
  | blocked _ _ _ _ =>
      cases isSent
      cases isZero
  | answered counted cached unbanned made _ =>
      cases isSent
      obtain ⟨_, isBanned⟩ := pass_decided counted
      obtain ⟨revised, _⟩ := countQueries_frame rfl rfl counted
      have made' := (forall₂_queryRecords_revised revised).mp made
      rw [questions] at made'
      constructor
      · intro blocked
        have banned := (isBanned cached).mpr
          ⟨query, by rw [questions]; exact List.mem_singleton_self _, blocked⟩
        rw [unbanned] at banned
        cases banned
      · cases made' with
        | @cons _ mine _ _ here others =>
            cases others with
            | nil =>
                have flat : [mine].flatten = records := isRecords
                rw [List.flatten_singleton] at flat
                rw [flat] at here
                exact ⟨_, here⟩

/-- A question whose aliases end is answered with the records made for it. -/
theorem answeredAs_of_made (ready : LogReady again) {map : StringT → Option Ipv4Cache}
    (isMap : IsMap world.ipv4Table map)
    (filled : world.ipv4Table.Every fun cache => cache.node ≠ [])
    {links : List (StringT × CnameCache)} {last : StringT}
    (chased : Chased world.cnameTable query.name links last) (found : Found world query)
    (unblocked : ¬ Blocked world query) {records answers : List ResourceRecord}
    (made : ∀ env : Env, links.length < env.fuel → QueryRecords env world query records)
    (same : records.map ResourceRecord.content = answers.map ResourceRecord.content)
    (sixteen : ∀ answer ∈ answers, ∀ address,
      answer.responseData = .inet6 address → address.length = 16)
    (few : answers.length < 65536) (short : replyLength query answers ≤ 1500) :
    AnsweredAs world again client answers := by
  have resolved : Resolved world (links.length + 1) query :=
    { found := found
      ends := fun _ => ⟨links, last, chased, Nat.lt_succ_self _⟩ }
  have size : records.length = answers.length := by
    have lengths := congrArg List.length same
    rw [List.length_map, List.length_map] at lengths
    exact lengths
  have few' : records.length < 65536 := by rw [size]; exact few
  have addresses : ∀ record ∈ records, ∀ address,
      record.responseData = .inet6 address → address.length = 16 := by
    intro record member address data
    have here : record.content ∈ answers.map ResourceRecord.content := by
      rw [← same]
      exact List.mem_map_of_mem member
    obtain ⟨answer, inAnswers, isContent⟩ := List.mem_map.mp here
    apply sixteen answer inAnswers address
    rw [← data]
    exact congrArg (fun content => content.2.2) isContent
  have contiguous := (made ⟨links.length + 1, fun _ _ => 0⟩ (Nat.lt_succ_self _)).contiguous
    addresses
  have fits : FitsPacket (cachedReply again records.length records) := by
    rw [fitsPacket_cachedReply_iff queryCount single few' contiguous, replyLength_content same]
    exact short
  exact ⟨records, answeredLocally_single isMap filled ready queryCount single resolved
    unblocked made few' fits client, same⟩

end Again

/-! ### Manual entries -/

def ManualZero (map : StringT → Option Ipv4Cache) : Prop :=
  EachCached (fun cache => cache.manual = true → cache.node.head? = some 0) map

theorem manualZero_configured (began : Int) (entries : List (StringT × UInt32)) :
    ManualZero (configuredMap began entries) := by
  intro name cache stored manual
  obtain ⟨address, _, isCache⟩ := Option.map_eq_some_iff.mp stored
  rw [← isCache] at manual
  cases manual

theorem ManualZero.step {before after : CacheMaps} (manualZero : ManualZero before.ipv4)
    {event : Int × Occasion} (step : MapStep before event after) : ManualZero after.ipv4 := by
  cases step with
  | request flags => exact manualZero.flags flags fun _ _ marked => of_decide_eq_true marked
  | reply =>
      apply CacheMaps.reply_ipv4 manualZero
      intro owner _
      apply manualZero.mapPut
      intro marked
      cases marked
  | sweep => exact manualZero.filter fun _ holds _ => holds

def SafeServe (before : World) (label : (Int × Occasion) × List Sent) (after : World) : Prop :=
  Serve before label after ∧ SafeWhen before label.1

theorem safeRun_manualZero {env : Env} {began : Int} {file : Option (List UInt8)}
    {start world : World} {malloc : Malloc}
    (started : (startUp env malloc began file).out = .ok start)
    {events : List ((Int × Occasion) × List Sent)}
    (run : Run SafeServe start events world) :
    ∃ maps, Shows world maps ∧ ManualZero maps.ipv4 := by
  exact showsInvariant (fun _ _ _ step => step) (fun maps => ManualZero maps.ipv4)
    (fun _ _ _ _ _ _ manualZero _ mapStep => manualZero.step mapStep)
    (startUp_shows started) (manualZero_configured began _) run

/-! ### The reply and the request -/

theorem ChainReply.parts {query : Query} {last : StringT} {answers : List ResourceRecord}
    (carries : ChainReply query last answers) :
    Supported query ∧ ∃ aliases addresses, answers = aliases ++ addresses ∧
      AcyclicChain query.name aliases last ∧ ∀ answer ∈ addresses, answer.type ≠ 5 := by
  cases carries with
  | @inet4 aliases addresses isA chain _ owned =>
      refine ⟨Or.inl isA, aliases, addresses, rfl, chain, ?_⟩
      exact notAliases_of_owned
        (fun answer member => ⟨(owned answer member).1, (owned answer member).2.1⟩) (by decide)
  | cname isCname chain _ =>
      exact ⟨Or.inr (Or.inl isCname), answers, [], (List.append_nil _).symm, chain, nofun⟩
  | @inet6 aliases addresses isAaaa chain _ owned =>
      refine ⟨Or.inr (Or.inr isAaaa), aliases, addresses, rfl, chain, ?_⟩
      exact notAliases_of_owned
        (fun answer member => ⟨(owned answer member).1, (owned answer member).2.1⟩) (by decide)

section Chains

variable {after : World} {maps : CacheMaps} {now : Int} {name last : StringT}
  {aliases addresses : List ResourceRecord} (chain : AcyclicChain name aliases last)
  (notAliases : ∀ answer ∈ addresses, answer.type ≠ 5)
  (shows : Shows after (maps.reply now (aliases ++ addresses)))

include chain notAliases shows

theorem AcyclicChain.cached : ∀ answer ∈ aliases, ∀ next,
    answer.responseData = .domain next → ∃ cache,
      cnameCacheGet after.cnameTable answer.name = .ok (some cache) ∧ cache.name = next := by
  intro answer member next data
  obtain ⟨own, _⟩ := chain.entered notAliases now maps
  exact ⟨_, by rw [shows.cnameGet, own answer member next data], rfl⟩

/-- Without an older alias of its last name the aliases of the reply are followed. -/
theorem AcyclicChain.chased (unaliased : maps.cname last = none) :
    ∃ passed, Chased after.cnameTable name passed last ∧
      (aliasRecords passed).map ResourceRecord.content =
        aliases.map ResourceRecord.content := by
  obtain ⟨_, kept⟩ := chain.entered notAliases now maps
  have ends : Chased after.cnameTable last [] last := by
    apply Chased.last
    rw [shows.cnameGet, kept, unaliased]
  obtain ⟨passed, whole, same⟩ :=
    chain.chain.chased (chain.cached notAliases shows) ends
  rw [List.append_nil] at whole
  exact ⟨passed, whole, same⟩

/-- What was followed starts with the aliases of the reply. -/
theorem AcyclicChain.passed {links : List (StringT × CnameCache)} {final : StringT}
    (chased : Chased after.cnameTable name links final) :
    ∃ passed rest, links = passed ++ rest ∧ Chased after.cnameTable last rest final ∧
      (aliasRecords passed).map ResourceRecord.content =
        aliases.map ResourceRecord.content := by
  have cached := chain.cached notAliases shows
  obtain ⟨rest, beyond⟩ := chain.chain.beyond cached chased
  obtain ⟨passed, whole, same⟩ := chain.chain.chased cached beyond
  exact ⟨passed, rest, (chased.unique whole).1.symm, beyond, same⟩

/-- Records that agree with the reply's were collected without another alias. -/
theorem AcyclicChain.unaliased {env : Env} {query : Query} (asks : query.name = name)
    (supported : Supported query) {records : List ResourceRecord}
    (made : QueryRecords env after query records)
    (same : records.map ResourceRecord.content =
      (aliases ++ addresses).map ResourceRecord.content) : maps.cname last = none := by
  obtain ⟨links, final, others, chased, isRecords⟩ := queryRecords_aliases made supported
  rw [asks] at chased
  obtain ⟨passed, rest, isLinks, beyond, agrees⟩ := chain.passed notAliases shows chased
  obtain ⟨_, kept⟩ := chain.entered notAliases now maps
  cases beyond with
  | last missing =>
      rw [shows.cnameGet, kept] at missing
      exact Except.ok.inj missing
  | @link _ _ cache rest found _ =>
      have split : aliasRecords links =
          aliasRecords passed ++ generateCnameResponse last cache.name :: aliasRecords rest := by
        rw [isLinks]
        exact List.map_append
      rw [isRecords, split, List.append_assoc, List.map_append, List.map_append, agrees,
        List.map_append] at same
      have member : (generateCnameResponse last cache.name).content ∈
          addresses.map ResourceRecord.content := by
        rw [← List.append_cancel_left same]
        exact List.mem_cons_self
      obtain ⟨answer, inAddresses, isContent⟩ := List.mem_map.mp member
      exact absurd (congrArg (fun content => content.2.1) isContent)
        (notAliases answer inAddresses)

end Chains

/-! ### The same records again -/

section Exchange

variable {after : World} {maps : CacheMaps} {now : Int} {query : Query} {last : StringT}
  {answers : List ResourceRecord} (shows : Shows after (maps.reply now answers))

include shows

theorem reply_found4 (owner : lastOwner 1 answers = some last)
    (unmarked : ∀ old, maps.ipv4 last = some old → old.manual = false) :
    ∃ cache, ipv4CacheGet after.ipv4Table last = .ok (some cache) ∧
      cache.node = answers.filterMap answerAddress4 := by
  have unmanual : ¬ (maps.ipv4 last).any (fun old => old.manual) = true := by
    cases hOld : maps.ipv4 last with
    | none => exact Bool.false_ne_true
    | some old =>
        change ¬ old.manual = true
        rw [unmarked old hOld]
        exact Bool.false_ne_true
  refine ⟨(collectedCache now (answers.filterMap answerAddress4)).stored now, ?_, rfl⟩
  rw [shows.ipv4Get]
  unfold CacheMaps.reply
  simp only [owner]
  unfold ipv4MapPut
  rw [if_neg unmanual, Function.update_self]

theorem reply_found6 (owner : lastOwner 28 answers = some last) :
    ipv6CacheGet after.ipv6Table last =
      .ok (some (collectedCache now (answers.filterMap answerAddress6))) := by
  rw [shows.ipv6Get]
  unfold CacheMaps.reply
  simp only [owner]
  rw [Function.update_self]

/-- A manual entry for the last name stays, and its first address is zero. -/
theorem reply_marked (manualZero : ManualZero maps.ipv4)
    (owner : lastOwner 1 answers = some last) {old : Ipv4Cache}
    (stored : maps.ipv4 last = some old) (marked : old.manual = true) :
    ∃ cache, ipv4CacheGet after.ipv4Table last = .ok (some cache) ∧
      cache.node.head? = some 0 := by
  refine ⟨old, ?_, manualZero last old stored marked⟩
  rw [shows.ipv4Get]
  unfold CacheMaps.reply
  simp only [owner]
  unfold ipv4MapPut
  rw [stored, if_pos (show (some old).any (fun old => old.manual) = true from marked), stored]

variable {again : Message} (queryCount : again.queryCount = 1)
  (single : again.queries = [query]) {client : SockAddr}

section Fitting

variable (ready : LogReady again)
  (sixteen : ∀ answer ∈ answers, ∀ address,
    answer.responseData = .inet6 address → address.length = 16)
  (few : answers.length < 65536) (short : replyLength query answers ≤ 1500)

include queryCount single ready sixteen few short

theorem answeredAs_inet4 (filled : ListsFilled after) (isA : query.type = 1)
    {aliases addresses : List ResourceRecord} (isAnswers : answers = aliases ++ addresses)
    (chain : AcyclicChain query.name aliases last) (nonempty : addresses ≠ [])
    (owned : ∀ answer ∈ addresses, answer.name = last ∧ answer.type = 1 ∧
      ∃ address, answer.responseData = .inet4 address)
    (notZero : (answers.filterMap answerAddress4).head? ≠ some 0)
    (unaliased : maps.cname last = none)
    (unmarked : ∀ old, maps.ipv4 last = some old → old.manual = false) :
    AnsweredAs after again client answers := by
  subst isAnswers
  have owns : ∀ answer ∈ addresses, answer.name = last ∧ answer.type = 1 :=
    fun answer member => ⟨(owned answer member).1, (owned answer member).2.1⟩
  have notAliases := notAliases_of_owned owns (by decide)
  obtain ⟨passed, chased, agrees⟩ := chain.chased notAliases shows unaliased
  obtain ⟨cache, found, isNode⟩ := reply_found4 shows (lastOwner_owned nonempty owns) unmarked
  have isFound := found_inet4 isA chased found
  have unblocked : ¬ Blocked after query := by
    rintro ⟨_, links, final, other, chased', stored, isZero⟩
    rw [(chased.unique chased').2, found] at stored
    cases stored
    rw [isNode] at isZero
    exact notZero isZero
  have each : ∀ answer ∈ addresses, ∃ address, answerAddress4 answer = some address ∧
      (generateIpv4Response last address).content = answer.content := by
    intro answer member
    obtain ⟨isLast, isType, address, data⟩ := owned answer member
    refine ⟨address, ?_, ?_⟩
    · unfold answerAddress4
      simp only [data, isType, if_true]
    · rw [ResourceRecord.content, ResourceRecord.content, isLast, isType, data]
      rfl
  have made (env : Env) (short : passed.length < env.fuel) :=
    QueryRecords.found4 isA chased short found
  apply answeredAs_of_made queryCount single ready shows.ipv4 filled.ipv4 chased isFound
    unblocked made _ sixteen few short
  rw [List.map_append, List.map_append, agrees, isNode,
    filterMap_generate chain.chain.noAddress4 each]

theorem answeredAs_cname (filled : ListsFilled after) (isCname : query.type = 5)
    (chain : AcyclicChain query.name answers last) (nonempty : answers ≠ [])
    (unaliased : maps.cname last = none) : AnsweredAs after again client answers := by
  have notAliases : ∀ answer ∈ ([] : List ResourceRecord), answer.type ≠ 5 := nofun
  rw [← List.append_nil answers] at shows
  obtain ⟨passed, chased, agrees⟩ := chain.chased notAliases shows unaliased
  obtain ⟨cache, found⟩ : ∃ cache,
      cnameCacheGet after.cnameTable query.name = .ok (some cache) := by
    cases chased with
    | last _ => exact absurd (List.map_eq_nil_iff.mp agrees.symm) nonempty
    | link found _ => exact ⟨_, found⟩
  have isFound := found_cname isCname found
  have unblocked : ¬ Blocked after query := by
    rintro ⟨isA, _⟩
    exact absurd (isCname.symm.trans isA) (by decide)
  have made (env : Env) (short : passed.length < env.fuel) :=
    QueryRecords.aliases isCname chased short
  exact answeredAs_of_made queryCount single ready shows.ipv4 filled.ipv4 chased isFound
    unblocked made agrees sixteen few short

theorem answeredAs_inet6 (filled : ListsFilled after) (isAaaa : query.type = 28)
    {aliases addresses : List ResourceRecord} (isAnswers : answers = aliases ++ addresses)
    (chain : AcyclicChain query.name aliases last) (nonempty : addresses ≠ [])
    (owned : ∀ answer ∈ addresses, answer.name = last ∧ answer.type = 28 ∧
      ∃ address, answer.responseData = .inet6 address)
    (unaliased : maps.cname last = none) : AnsweredAs after again client answers := by
  subst isAnswers
  have owns : ∀ answer ∈ addresses, answer.name = last ∧ answer.type = 28 :=
    fun answer member => ⟨(owned answer member).1, (owned answer member).2.1⟩
  have notAliases := notAliases_of_owned owns (by decide)
  obtain ⟨passed, chased, agrees⟩ := chain.chased notAliases shows unaliased
  have found := reply_found6 shows (lastOwner_owned nonempty owns)
  have isFound := found_inet6 isAaaa chased found
  have unblocked : ¬ Blocked after query := by
    rintro ⟨isA, _⟩
    exact absurd (isAaaa.symm.trans isA) (by decide)
  have each : ∀ answer ∈ addresses, ∃ address, answerAddress6 answer = some address ∧
      (generateIpv6Response last address).content = answer.content := by
    intro answer member
    obtain ⟨isLast, isType, address, data⟩ := owned answer member
    refine ⟨address, ?_, ?_⟩
    · unfold answerAddress6
      simp only [data, isType, if_true]
    · rw [ResourceRecord.content, ResourceRecord.content, isLast, isType, data]
      rfl
  have made (env : Env) (short : passed.length < env.fuel) :=
    QueryRecords.found6 isAaaa chased short found
  apply answeredAs_of_made queryCount single ready shows.ipv4 filled.ipv4 chased isFound
    unblocked made _ sixteen few short
  rw [List.map_append, List.map_append, agrees]
  exact congrArg _ (filterMap_generate chain.chain.noAddress6 each)

theorem ChainReply.answeredAs (filled : ListsFilled after)
    (carries : ChainReply query last answers)
    (notZero : query.type = 1 → (answers.filterMap answerAddress4).head? ≠ some 0)
    (unaliased : maps.cname last = none)
    (unmarked : query.type = 1 → ∀ old, maps.ipv4 last = some old → old.manual = false) :
    AnsweredAs after again client answers := by
  cases carries with
  | inet4 isA chain nonempty owned =>
      exact answeredAs_inet4 shows queryCount single ready sixteen few short filled isA rfl
        chain nonempty owned (notZero isA) unaliased (unmarked isA)
  | cname isCname chain nonempty =>
      exact answeredAs_cname shows queryCount single ready sixteen few short filled isCname
        chain nonempty unaliased
  | inet6 isAaaa chain nonempty owned =>
      exact answeredAs_inet6 shows queryCount single ready sixteen few short filled isAaaa rfl
        chain nonempty owned unaliased

end Fitting

include queryCount single

theorem AnsweredAs.unaliased (answered : AnsweredAs after again client answers)
    (carries : ChainReply query last answers) : maps.cname last = none := by
  obtain ⟨records, answeredLocally, same⟩ := answered
  obtain ⟨_, env, made⟩ := answeredLocally.made queryCount single
  obtain ⟨supported, aliases, addresses, isAnswers, chain, notAliases⟩ := carries.parts
  subst isAnswers
  exact chain.unaliased notAliases shows rfl supported made same

theorem AnsweredAs.unmarked (answered : AnsweredAs after again client answers)
    (carries : ChainReply query last answers) (manualZero : ManualZero maps.ipv4)
    (isA : query.type = 1) {old : Ipv4Cache} (stored : maps.ipv4 last = some old) :
    old.manual = false := by
  have unaliased := answered.unaliased shows queryCount single carries
  obtain ⟨records, answeredLocally, _⟩ := answered
  obtain ⟨unblocked, _⟩ := answeredLocally.made queryCount single
  cases carries with
  | @inet4 aliases addresses _ chain nonempty owned =>
      have owns : ∀ answer ∈ addresses, answer.name = last ∧ answer.type = 1 :=
        fun answer member => ⟨(owned answer member).1, (owned answer member).2.1⟩
      obtain ⟨passed, chased, _⟩ :=
        chain.chased (notAliases_of_owned owns (by decide)) shows unaliased
      by_contra marked
      rw [Bool.not_eq_false] at marked
      obtain ⟨cache, found, isZero⟩ :=
        reply_marked shows manualZero (lastOwner_owned nonempty owns) stored marked
      exact unblocked ⟨isA, passed, last, cache, chased, found, isZero⟩
  | cname isCname _ _ => exact absurd (isA.symm.trans isCname) (by decide)
  | inet6 isAaaa _ _ _ => exact absurd (isA.symm.trans isAaaa) (by decide)

end Exchange

theorem Serve.shapes {before after : World} {now : Int} {message : Message} {sent : List Sent}
    (told : Serve before ((now, .reply message), sent) after) :
    ∀ answer ∈ countedAnswers message, HasShape answer := by
  cases told with
  | reply decoded done =>
      rw [querySocketRead, Logged.bind_out_of_ok decoded] at done
      have full := (decodedFrom decoded).full_iff.mpr (logReady_of_handleReply done)
      intro answer member
      exact full.shapes answer (List.mem_of_mem_take member)

/-- A request right after the reply to its question is answered with the records of the
reply exactly when no older entry comes in between. -/
theorem answeredAs_iff {env : Env} {began : Int} {file : Option (List UInt8)} {start : World}
    {malloc : Malloc} (started : (startUp env malloc began file).out = .ok start)
    {events : List ((Int × Occasion) × List Sent)} {before : World}
    (run : Run SafeServe start events before) {now : Int} {message : Message}
    {sent : List Sent} {after : World}
    (told : Serve before ((now, .reply message), sent) after)
    {query : Query} {last : StringT} (carries : ChainReply query last (countedAnswers message))
    (notZero : query.type = 1 →
      ((countedAnswers message).filterMap answerAddress4).head? ≠ some 0)
    (short : replyLength query (countedAnswers message) ≤ 1500) {again : Message}
    (ready : LogReady again) (queryCount : again.queryCount = 1)
    (single : again.queries = [query]) (client : SockAddr) :
    AnsweredAs after again client (countedAnswers message) ↔ Undiverted before query last := by
  obtain ⟨maps, shows, manualZero⟩ := safeRun_manualZero started run
  have reachable : Reachable after :=
    .intro started (Run.snoc (run.mono fun _ _ _ step => step.1) told)
  have shows' := told.reply_shows shows
  have few : (countedAnswers message).length < 65536 := by
    unfold countedAnswers
    have counted := List.length_take_le message.answerCount.toNat message.answers
    have bounded := message.answerCount.toNat_lt
    omega
  constructor
  · intro answered
    constructor
    · rw [shows.cnameGet, answered.unaliased shows' queryCount single carries]
    · intro isA old stored
      rw [shows.ipv4Get] at stored
      exact answered.unmarked shows' queryCount single carries manualZero isA
        (Except.ok.inj stored)
  · rintro ⟨unaliased, unmarked⟩
    rw [shows.cnameGet] at unaliased
    apply carries.answeredAs shows' queryCount single ready (carries.sixteen told.shapes) few
      short reachable.listsFilled notZero (Except.ok.inj unaliased)
    intro isA old stored
    exact unmarked isA old (by rw [shows.ipv4Get, stored])

/-! ### Replies that are not found again -/

private def fewTurns : Env := { fuel := 4, junk := fun _ _ => 0 }

private def asksAgain : Datagram :=
  { buf :=
      { base := [0, 7, 1, 0, 0, 1, 0, 0, 0, 0, 0, 0, 1, 97, 0, 0, 1, 0, 1]
        len := 19 }
    nonempty := Nat.succ_pos (nat_lit 18)
    fits := Nat.le_refl (nat_lit 19) }

private def asksAgainMessage : Message :=
  { id := 7
    flags :=
      { qr := 0, opcode := 0, aa := 0, tc := 0, rd := 1, ra := 0, z := 0, rcode := 0 }
    queryCount := 1
    answerCount := 0
    authorityCount := 0
    additionalCount := 0
    queries := [{ name := [97], type := 1, cls := 1 }]
    answers := [] }

private def chainOfA : Datagram :=
  { buf :=
      { base := [0, 7, 0x81, 0x80, 0, 1, 0, 2, 0, 0, 0, 0, 1, 97, 0, 0, 1, 0, 1,
          0xc0, 12, 0, 5, 0, 1, 0, 0, 0, 60, 0, 3, 1, 98, 0,
          1, 98, 0, 0, 1, 0, 1, 0, 0, 0, 60, 0, 4, 1, 2, 3, 4]
        len := 51 }
    nonempty := Nat.succ_pos (nat_lit 50)
    fits := Nat.le_refl (nat_lit 51) }

private def plainOfA : Datagram :=
  { buf :=
      { base := [0, 7, 0x81, 0x80, 0, 1, 0, 1, 0, 0, 0, 0, 1, 97, 0, 0, 1, 0, 1,
          0xc0, 12, 0, 1, 0, 1, 0, 0, 0, 60, 0, 4, 1, 2, 3, 4]
        len := 35 }
    nonempty := Nat.succ_pos (nat_lit 34)
    fits := Nat.le_refl (nat_lit 35) }

private def aliasRecordOfA : ResourceRecord :=
  { name := [97]
    type := 5
    cls := 1
    ttl := 60
    responseDataLength := 3
    responseData := .domain [98] }

private def addressRecord (owner : StringT) : ResourceRecord :=
  { name := owner
    type := 1
    cls := 1
    ttl := 60
    responseDataLength := 4
    responseData := .inet4 0x01020304 }

private def replyMessage (answers : List ResourceRecord) : Message :=
  { asksAgainMessage with
    flags :=
      { qr := 1, opcode := 0, aa := 0, tc := 0, rd := 1, ra := 1, z := 0, rcode := 0 }
    answerCount := UInt16.ofNat answers.length
    answers := answers }

private def chainMessage : Message := replyMessage [aliasRecordOfA, addressRecord [98]]

private def plainMessage : Message := replyMessage [addressRecord [97]]

private theorem chainOfA_decoded :
    (buf2message fewTurns chainOfA.buf).out = .ok chainMessage := by
  rfl

private theorem plainOfA_decoded :
    (buf2message fewTurns plainOfA.buf).out = .ok plainMessage := by
  rfl

private theorem asksAgain_decoded :
    (buf2message fewTurns asksAgain.buf).out = .ok asksAgainMessage := by
  rfl

private theorem asksAgain_ready : LogReady asksAgainMessage :=
  { queries := le_rfl
    answers := le_rfl
    loggable := nofun }

private theorem chainMessage_carries :
    ChainReply { name := [97], type := 1, cls := 1 } [98] (countedAnswers chainMessage) := by
  have chain : AcyclicChain [97] [aliasRecordOfA] [98] :=
    { chain := @AliasChain.link aliasRecordOfA [98] [98] [] rfl rfl .last
      distinct := List.nodup_singleton _
      ends := by decide }
  apply @ChainReply.inet4 _ _ [aliasRecordOfA] [addressRecord [98]] rfl chain
    (List.cons_ne_nil _ _)
  intro answer member
  rw [List.mem_singleton.mp member]
  exact ⟨rfl, rfl, _, rfl⟩

private theorem plainMessage_carries :
    ChainReply { name := [97], type := 1, cls := 1 } [97] (countedAnswers plainMessage) := by
  have chain : AcyclicChain [97] [] [97] :=
    { chain := .last
      distinct := List.nodup_nil
      ends := nofun }
  apply @ChainReply.inet4 _ _ [] [addressRecord [97]] rfl chain (List.cons_ne_nil _ _)
  intro answer member
  rw [List.mem_singleton.mp member]
  exact ⟨rfl, rfl, _, rfl⟩

private def nothingCached : World := World.init .ascending

private def afterChain (before : World) : World × List Sent :=
  returned (querySocketRead fewTurns 0 chainOfA before)

private def afterPlain (before : World) : World × List Sent :=
  returned (querySocketRead fewTurns 2 plainOfA before)

theorem answeredAs_iff_chain :
    AnsweredAs (afterChain nothingCached).1 asksAgainMessage [1] (countedAnswers chainMessage) := by
  have started : (startUp fewTurns .ascending 0 none).out = .ok nothingCached := rfl
  have told : Serve nothingCached ((0, .reply chainMessage), (afterChain nothingCached).2)
      (afterChain nothingCached).1 :=
    .reply chainOfA_decoded (out_eq_returned (by decide +kernel))
  apply (answeredAs_iff started Run.nil told chainMessage_carries (fun _ => by decide)
    (by decide) asksAgain_ready rfl rfl [1]).mpr
  have nothing : ipv4CacheGet nothingCached.ipv4Table [98] = .ok none := by decide +kernel
  constructor
  · decide +kernel
  · intro _ cache stored
    rw [nothing] at stored
    cases stored

private def blockedOfA : World :=
  reached (startUp fewTurns .ascending 0 (some [97, 32, 48, 46, 48, 46, 48, 46, 48, 10]))

private def askedBefore : World × List Sent :=
  returned (bindSocketRead fewTurns asksAgain [1] blockedOfA)

/-- An older alias of `a`, or a manual entry for it, comes before its new address. -/
theorem not_answeredAs_diverted :
    ((startUp fewTurns .ascending 0 none).out = .ok nothingCached ∧
      Run Serve nothingCached [((0, .reply chainMessage), (afterChain nothingCached).2)]
        (afterChain nothingCached).1 ∧
      Serve (afterChain nothingCached).1
        ((2, .reply plainMessage), (afterPlain (afterChain nothingCached).1).2)
        (afterPlain (afterChain nothingCached).1).1 ∧
      ChainReply { name := [97], type := 1, cls := 1 } [97] (countedAnswers plainMessage) ∧
      ¬ AnsweredAs (afterPlain (afterChain nothingCached).1).1 asksAgainMessage [1]
        (countedAnswers plainMessage)) ∧
    ((startUp fewTurns .ascending 0 (some [97, 32, 48, 46, 48, 46, 48, 46, 48, 10])).out =
        .ok blockedOfA ∧
      Run Serve blockedOfA [((1, .request asksAgainMessage [1]), askedBefore.2)] askedBefore.1 ∧
      Serve askedBefore.1 ((2, .reply plainMessage), (afterPlain askedBefore.1).2)
        (afterPlain askedBefore.1).1 ∧
      ¬ AnsweredAs (afterPlain askedBefore.1).1 asksAgainMessage [1]
        (countedAnswers plainMessage)) := by
  refine ⟨⟨rfl, ?_, ?_, plainMessage_carries, ?_⟩, out_eq_reached (by decide +kernel), ?_, ?_, ?_⟩
  · exact Run.snoc Run.nil (.reply chainOfA_decoded (out_eq_returned (by decide +kernel)))
  · exact .reply plainOfA_decoded (out_eq_returned (by decide +kernel))
  · rintro ⟨records, answered, same⟩
    obtain ⟨_, env, made⟩ := answered.made rfl rfl
    obtain ⟨links, final, rest, chased, isRecords⟩ := queryRecords_aliases made (Or.inl rfl)
    rw [isRecords] at same
    cases chased with
    | last missing =>
        have aliased : cnameCacheGet (afterPlain (afterChain nothingCached).1).1.cnameTable [97] ≠
            .ok none := by
          decide +kernel
        exact aliased missing
    | link _ _ =>
        have first : some (5 : UInt16) = some 1 :=
          congrArg (fun contents => contents.head?.map fun content => content.2.1) same
        exact absurd first (by decide)
  · exact Run.snoc Run.nil (.request asksAgain_decoded (out_eq_returned (by decide +kernel)))
  · exact .reply plainOfA_decoded (out_eq_returned (by decide +kernel))
  · rintro ⟨records, answered, _⟩
    obtain ⟨unblocked, _⟩ := answered.made rfl rfl
    have unaliased : cnameCacheGet (afterPlain askedBefore.1).1.cnameTable [97] = .ok none := by
      decide +kernel
    have stays : ipv4CacheGet (afterPlain askedBefore.1).1.ipv4Table [97] =
        .ok (some { node := [0], ttl := 1, timestamp := 0, manual := true }) := by
      decide +kernel
    exact unblocked ⟨rfl, [], [97], _, .last unaliased, stays, rfl⟩

end PostDns
