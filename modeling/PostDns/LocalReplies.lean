/-
Requests that are answered from the caches (socket.c, `bind_socket_read`).

A request returns when the caches hold what its questions ask for and their aliases end.
Then the reply is the one that the entries determine: an error when a question leads to
a blocked address, and else the records of all questions in order.
-/

import PostDns.Answering
import PostDns.CacheMaps
import PostDns.Initialised
import PostDns.PacketBounds

namespace PostDns

open Foundation

structure Resolved (world : World) (bound : Nat) (query : Query) : Prop where
  found : Found world query
  ends : Supported query → ∃ links last, Chased world.cnameTable query.name links last ∧
    links.length < bound

/-! ### Questions of a datagram -/

structure Readable (world : World) (bound : Nat) (query : Query) : Prop where
  ends : Supported query → ∃ links last, Chased world.cnameTable query.name links last ∧
    links.length < bound
  name : query.type = 5 → ∃ found, cnameCacheGet world.cnameTable query.name = .ok found
  address6 : ∀ links last, query.type = 28 →
    Chased world.cnameTable query.name links last →
      ∃ found, ipv6CacheGet world.ipv6Table last = .ok found

theorem Resolved.readable {world : World} {bound : Nat} {query : Query}
    (resolved : Resolved world bound query) : Readable world bound query :=
  { ends := resolved.ends
    name := by
      intro isCname
      obtain ⟨cache, found⟩ := resolved.found.name isCname
      exact ⟨some cache, found⟩
    address6 := by
      intro links last isAaaa chased
      obtain ⟨_, _, cache, chased', found⟩ := resolved.found.address6 isAaaa
      rw [(chased.unique chased').2] at found
      exact ⟨some cache, found⟩ }

theorem countQuery_returns {env : Env} {world : World} {bound : Nat} {query : Query}
    {pass : FirstPass} {map : StringT → Option Ipv4Cache}
    (isMap : IsMap pass.ipv4Table map)
    (filled : pass.ipv4Table.Every fun cache => cache.node ≠ [])
    (readable : Readable world bound query) (enough : bound ≤ env.fuel) :
    ∃ pass', CountStep env world query pass pass' := by
  by_cases isA : query.type = 1
  · obtain ⟨links, last, chased, short⟩ := readable.ends (Or.inl isA)
    have found : ipv4CacheGet pass.ipv4Table last = .ok (map last) :=
      hashTableGet_isMap isMap last
    cases hCache : map last with
    | none =>
        rw [hCache] at found
        exact ⟨_, .missing4 isA chased (by omega) found⟩
    | some cache =>
        rw [hCache] at found
        obtain ⟨t', written, _⟩ := writeThrough_isMap isMap hCache cache.flagged
        cases hNode : cache.node with
        | nil => exact absurd hNode (filled.get found)
        | cons address addresses =>
            exact ⟨_, .found4 isA chased (by omega) found
              (countIpv4Cache_out_eq_ok.mpr ⟨address, addresses, t', hNode, written, rfl⟩)⟩
  by_cases isCname : query.type = 5
  · obtain ⟨links, last, chased, short⟩ := readable.ends (Or.inr (Or.inl isCname))
    obtain ⟨found, looked⟩ := readable.name isCname
    cases found with
    | none => exact ⟨_, .missingAlias isCname looked⟩
    | some cache => exact ⟨_, .foundAlias isCname looked chased (by omega)⟩
  by_cases isAaaa : query.type = 28
  · obtain ⟨links, last, chased, short⟩ := readable.ends (Or.inr (Or.inr isAaaa))
    obtain ⟨found, looked⟩ := readable.address6 links last isAaaa chased
    cases found with
    | none => exact ⟨_, .missing6 isAaaa chased (by omega) looked⟩
    | some cache => exact ⟨_, .found6 isAaaa chased (by omega) looked⟩
  exact ⟨_, .unsupported isA isCname isAaaa⟩

/-- Every question is so, up to the first one that is not found. -/
def UpToMissing (world : World) (holds : Query → Prop) : List Query → Prop
  | [] => True
  | query :: queries => holds query ∧ (Found world query → UpToMissing world holds queries)

theorem upToMissing_of_all {world : World} {holds : Query → Prop} {queries : List Query}
    (all : ∀ query ∈ queries, holds query) : UpToMissing world holds queries := by
  induction queries with
  | nil => trivial
  | cons query queries ih =>
      exact ⟨all query List.mem_cons_self,
        fun _ => ih fun other member => all other (List.mem_cons_of_mem _ member)⟩

theorem UpToMissing.imp {world : World} {holds holds' : Query → Prop} {queries : List Query}
    (before : UpToMissing world holds queries) (step : ∀ query, holds query → holds' query) :
    UpToMissing world holds' queries := by
  induction queries with
  | nil => trivial
  | cons query queries ih => exact ⟨step query before.1, fun found => ih (before.2 found)⟩

theorem upToMissing_revised {world : World} {t : HashTable Ipv4Cache}
    (revised : Revised AddressCache.flagged world.ipv4Table t) {holds : Query → Prop}
    {queries : List Query} :
    UpToMissing { world with ipv4Table := t } holds queries ↔
      UpToMissing world holds queries := by
  induction queries with
  | nil => exact Iff.rfl
  | cons query queries ih => rw [UpToMissing, UpToMissing, ih, found_revised revised]

theorem countQueries_returns {env : Env} {world : World} {bound : Nat} {queries : List Query}
    {pass : FirstPass} {map : StringT → Option Ipv4Cache}
    (table : pass.ipv4Table = world.ipv4Table) (isMap : IsMap pass.ipv4Table map)
    (filled : pass.ipv4Table.Every fun cache => cache.node ≠ [])
    (readable : UpToMissing world (Readable world bound) queries) (enough : bound ≤ env.fuel) :
    ∃ pass', (countQueries env world queries pass).out = .ok pass' := by
  induction queries generalizing world pass map with
  | nil => exact ⟨pass, rfl⟩
  | cons query queries ih =>
      cases cached : pass.cached with
      | false =>
          rw [countQueries_uncached cached]
          exact ⟨pass, rfl⟩
      | true =>
          obtain ⟨middle, step⟩ := countQuery_returns isMap filled readable.1 enough
          have counted := countQuery_out_eq_ok.mpr step
          cases hMiddle : middle.cached with
          | false =>
              refine ⟨middle, (countQueries_cached cached).mpr ⟨middle, step, ?_⟩⟩
              rw [countQueries_uncached hMiddle]
              rfl
          | true =>
              have revised := step.revised
              rw [table] at revised
              have found := (step.cached_iff cached table).mp hMiddle
              obtain ⟨map', isMap'⟩ := countQuery_isMap isMap counted
              have later : UpToMissing { world with ipv4Table := middle.ipv4Table }
                  (Readable { world with ipv4Table := middle.ipv4Table } bound) queries :=
                ((upToMissing_revised revised).mpr (readable.2 found)).imp
                  fun _ same => ⟨same.ends, same.name, same.address6⟩
              obtain ⟨pass', rest⟩ :=
                ih rfl isMap' (step.kept every_putsKeep filled) later
              rw [countQueries_moved] at rest
              exact ⟨pass', (countQueries_cached cached).mpr ⟨middle, step, rest⟩⟩

theorem CountStep.chased {env : Env} {world : World} {query : Query} {pass pass' : FirstPass}
    (step : CountStep env world query pass pass') (supported : Supported query) :
    ∃ links last, Chased world.cnameTable query.name links last ∧ links.length ≤ env.fuel := by
  cases step with
  | missing4 _ chased short _ => exact ⟨_, _, chased, Nat.le_of_lt short⟩
  | found4 _ chased short _ _ => exact ⟨_, _, chased, Nat.le_of_lt short⟩
  | missingAlias _ missing => exact ⟨[], _, .last missing, Nat.zero_le _⟩
  | foundAlias _ _ chased short => exact ⟨_, _, chased, Nat.le_of_lt short⟩
  | missing6 _ chased short _ => exact ⟨_, _, chased, Nat.le_of_lt short⟩
  | found6 _ chased short _ => exact ⟨_, _, chased, Nat.le_of_lt short⟩
  | unsupported notA notCname notAaaa =>
      exact absurd supported (not_supported notA notCname notAaaa)

theorem UpToMissing.all {world : World} {holds : Query → Prop} {queries : List Query}
    (before : UpToMissing world holds queries) (found : ∀ query ∈ queries, Found world query) :
    ∀ query ∈ queries, holds query := by
  induction queries with
  | nil => exact nofun
  | cons first queries ih =>
      intro query member
      cases List.mem_cons.mp member with
      | inl isFirst =>
          rw [isFirst]
          exact before.1
      | inr inRest =>
          exact ih (before.2 (found first List.mem_cons_self))
            (fun other asks => found other (List.mem_cons_of_mem _ asks)) query inRest

/-- A first pass that returned came to the end of the aliases of each of its questions. -/
theorem countQueries_chased {env : Env} {world : World} {queries : List Query}
    {pass pass' : FirstPass} (start : pass.cached = true)
    (table : pass.ipv4Table = world.ipv4Table)
    (counted : (countQueries env world queries pass).out = .ok pass') :
    UpToMissing world (fun query => Supported query → ∃ links last,
      Chased world.cnameTable query.name links last ∧ links.length ≤ env.fuel) queries := by
  induction queries generalizing world pass with
  | nil => trivial
  | cons query queries ih =>
      obtain ⟨middle, step, rest⟩ := (countQueries_cached start).mp counted
      refine ⟨step.chased, ?_⟩
      intro found
      have cached := (step.cached_iff start table).mpr found
      have revised := step.revised
      rw [table] at revised
      rw [← countQueries_moved env world middle.ipv4Table] at rest
      exact (upToMissing_revised revised).mp (ih cached rfl rest)

/-! ### The reply -/

theorem QueryRecords.carry {env : Env} {world : World} {query : Query}
    {records : List ResourceRecord} (made : QueryRecords env world query records)
    {record : ResourceRecord} (member : record ∈ records) : CarriesData record := by
  have ofAlias {links : List (StringT × CnameCache)} (inAliases : record ∈ aliasRecords links) :
      CarriesData record := by
    obtain ⟨link, _, isRecord⟩ := List.mem_map.mp inAliases
    rw [← isRecord]
    exact ⟨by simp [generateCnameResponse], by simp [generateCnameResponse]⟩
  cases made with
  | missing4 _ _ _ _ => exact ofAlias member
  | found4 _ _ _ _ =>
      rcases List.mem_append.mp member with inAliases | inAddresses
      · exact ofAlias inAliases
      · obtain ⟨address, _, isRecord⟩ := List.mem_map.mp inAddresses
        rw [← isRecord]
        exact ⟨by simp [generateIpv4Response], by simp [generateIpv4Response]⟩
  | aliases _ _ _ => exact ofAlias member
  | missing6 _ _ _ _ => exact ofAlias member
  | found6 _ _ _ _ =>
      rcases List.mem_append.mp member with inAliases | inAddresses
      · exact ofAlias inAliases
      · obtain ⟨address, _, isRecord⟩ := List.mem_map.mp inAddresses
        rw [← isRecord]
        exact ⟨by simp [generateIpv6Response], by simp [generateIpv6Response]⟩
  | unsupported _ _ _ => cases member

theorem QueryRecords.mono {env env' : Env} {world : World} {query : Query}
    {records : List ResourceRecord} (made : QueryRecords env world query records)
    (more : env.fuel ≤ env'.fuel) : QueryRecords env' world query records := by
  cases made with
  | missing4 isA chased short missing => exact .missing4 isA chased (short.trans_le more) missing
  | found4 isA chased short found => exact .found4 isA chased (short.trans_le more) found
  | aliases isCname chased short => exact .aliases isCname chased (short.trans_le more)
  | missing6 isAaaa chased short missing =>
      exact .missing6 isAaaa chased (short.trans_le more) missing
  | found6 isAaaa chased short found => exact .found6 isAaaa chased (short.trans_le more) found
  | unsupported notA notCname notAaaa => exact .unsupported notA notCname notAaaa

/-- The caches determine the records. -/
theorem QueryRecords.unique {env env' : Env} {world : World} {query : Query}
    {records records' : List ResourceRecord} (made : QueryRecords env world query records)
    (made' : QueryRecords env' world query records') : records = records' := by
  have left := (@QueryRecords.mono env ⟨max env.fuel env'.fuel, env.junk⟩ world query records made
    (Nat.le_max_left _ _)).answerQuery_out 0 []
  have right := (@QueryRecords.mono env' ⟨max env.fuel env'.fuel, env.junk⟩ world query records'
    made' (Nat.le_max_right _ _)).answerQuery_out 0 []
  rw [left] at right
  exact Except.ok.inj right

theorem forall₂_queryRecords_unique {env env' : Env} {world : World} {queries : List Query}
    {records records' : List (List ResourceRecord)}
    (made : List.Forall₂ (QueryRecords env world) queries records)
    (made' : List.Forall₂ (QueryRecords env' world) queries records') : records = records' := by
  induction made generalizing records' with
  | nil =>
      cases made'
      rfl
  | cons here _ ih =>
      cases made' with
      | cons here' rest' => rw [here.unique here', ih rest']

section Counted

variable {env : Env} {world : World} {message : Message} {pass : FirstPass}
  (ready : LogReady message)
  (counted : (countQueries env world (questionsOf message)
    (FirstPass.start world.ipv4Table)).out = .ok pass)
  (cached : pass.cached = true)

include ready counted cached

theorem handleRequest_of_banned (banned : pass.banned = true)
    (fits : FitsPacket (blockedReply message)) (address : SockAddr) :
    ∃ after buf, (handleRequest env address message world).out =
      .ok (after, [.response address (clearReserved (blockedReply message)) buf]) := by
  obtain ⟨buf, encoded⟩ :=
    (@message2buf_returns_iff env (clearReserved (blockedReply message))
      (blockedReply_asked ready.queries) (Nat.zero_le _)
      (by simp [clearReserved, blockedReply, backMessage])).mpr
      ((fitsPacket_clearReserved _).mpr fits)
  exact ⟨_, buf, (handleRequest_out_eq_ok ready).mpr (.blocked counted cached banned encoded)⟩

theorem handleRequest_of_made (unbanned : pass.banned = false)
    {records : List (List ResourceRecord)}
    (made : List.Forall₂ (QueryRecords env world) (questionsOf message) records)
    (fits : FitsPacket (cachedReply message records.flatten.length records.flatten))
    (address : SockAddr) :
    ∃ after buf, (handleRequest env address message world).out =
      .ok (after, [.response address
        (clearReserved (cachedReply message records.flatten.length records.flatten)) buf]) := by
  have count : pass.answerCount = records.flatten.length := by
    rw [countQueries_counts rfl rfl counted cached unbanned made]
    exact Nat.zero_add _
  obtain ⟨revised, _⟩ := countQueries_frame rfl rfl counted
  have carry : ∀ record ∈ records.flatten, CarriesData record := by
    intro record member
    obtain ⟨mine, inRecords, inMine⟩ := List.mem_flatten.mp member
    obtain ⟨query, _, here⟩ := forall₂_right made inRecords
    exact here.carry inMine
  have counts : (UInt16.ofNat records.flatten.length).toNat ≤ records.flatten.length := by
    rw [UInt16.toNat_ofNat']
    exact Nat.mod_le _ _
  obtain ⟨buf, encoded⟩ := (@message2buf_returns_iff env
    (clearReserved (cachedReply message records.flatten.length records.flatten))
    (cachedReply_asked ready.queries _ _) counts carry).mpr
    ((fitsPacket_clearReserved _).mpr fits)
  rw [← count] at encoded ⊢
  exact ⟨_, buf, (handleRequest_out_eq_ok ready).mpr
    (.answered counted cached unbanned
      ((forall₂_queryRecords_revised revised).mpr made) encoded)⟩

end Counted

section Replies

variable {env : Env} {world : World} {message : Message} {bound : Nat}
  {map : StringT → Option Ipv4Cache}
  (ready : LogReady message) (isMap : IsMap world.ipv4Table map)
  (filled : world.ipv4Table.Every fun cache => cache.node ≠ [])
  (resolved : ∀ query ∈ questionsOf message, Resolved world bound query)
  (enough : bound ≤ env.fuel)

include isMap filled resolved enough

/-- The first pass finds everything that is resolved, and bans what is blocked. -/
theorem firstPass_of_resolved :
    ∃ pass, (countQueries env world (questionsOf message)
        (FirstPass.start world.ipv4Table)).out = .ok pass ∧ pass.cached = true ∧
      (pass.banned = true ↔ ∃ query ∈ questionsOf message, Blocked world query) := by
  obtain ⟨pass, counted⟩ := @countQueries_returns env world bound (questionsOf message)
    (FirstPass.start world.ipv4Table) map rfl isMap filled
    (upToMissing_of_all fun query member => (resolved query member).readable) enough
  obtain ⟨isCached, isBanned⟩ := pass_decided counted
  have cached := isCached.mpr fun query member => (resolved query member).found
  exact ⟨pass, counted, cached, isBanned cached⟩

include ready

/-- Otherwise the reply has the records of all questions. -/
theorem handleRequest_answered (address : SockAddr)
    (unblocked : ¬ ∃ query ∈ questionsOf message, Blocked world query)
    {records : List (List ResourceRecord)}
    (made : List.Forall₂ (QueryRecords env world) (questionsOf message) records)
    (fits : FitsPacket (cachedReply message records.flatten.length records.flatten)) :
    ∃ after buf, (handleRequest env address message world).out =
      .ok (after, [.response address
        (clearReserved (cachedReply message records.flatten.length records.flatten)) buf]) := by
  obtain ⟨pass, counted, cached, isBanned⟩ := firstPass_of_resolved isMap filled resolved enough
  have unbanned : pass.banned = false := by
    rw [← Bool.not_eq_true, isBanned]
    exact unblocked
  exact handleRequest_of_made ready counted cached unbanned made fits address

end Replies

/-! ### Local answers -/

theorem questionsOf_single {message : Message} {query : Query}
    (queryCount : message.queryCount = 1) (single : message.queries = [query]) :
    questionsOf message = [query] := by
  unfold questionsOf
  rw [queryCount, single]
  rfl

theorem contiguous_generateCnameResponse (domain name : StringT) :
    Contiguous (generateCnameResponse domain name) :=
  { carries := by simp [CarriesData, generateCnameResponse]
    extent := by simp [dataExtent, payloadLength, generateCnameResponse]
    advance := by simp [dataAdvance, payloadLength, generateCnameResponse] }

theorem contiguous_generateIpv4Response (name : StringT) (address : UInt32) :
    Contiguous (generateIpv4Response name address) :=
  { carries := by simp [CarriesData, generateIpv4Response]
    extent := by simp [dataExtent, payloadLength, generateIpv4Response]
    advance := by simp [dataAdvance, payloadLength, generateIpv4Response] }

theorem contiguous_generateIpv6Response (name : StringT) {address : List UInt8}
    (sixteen : address.length = 16) : Contiguous (generateIpv6Response name address) :=
  { carries := by simp [CarriesData, generateIpv6Response]
    extent := by simp [dataExtent, payloadLength, generateIpv6Response]
    advance := by simp [dataAdvance, payloadLength, generateIpv6Response, sixteen] }

def replyLength (query : Query) (records : List ResourceRecord) : Nat :=
  12 + (query.name.length + 6) +
    (records.map fun record => record.name.length + 12 + payloadLength record.responseData).sum

theorem fitsPacket_cachedReply_iff {message : Message} {query : Query}
    (queryCount : message.queryCount = 1) (single : message.queries = [query])
    {records : List ResourceRecord} (few : records.length < 65536)
    (contiguous : ∀ record ∈ records, Contiguous record) :
    FitsPacket (cachedReply message records.length records) ↔
      replyLength query records ≤ 1500 := by
  have questions := questionsOf_single queryCount single
  have count : (UInt16.ofNat records.length).toNat = records.length := by
    rw [UInt16.toNat_ofNat']
    exact Nat.mod_eq_of_lt few
  rw [@fitsPacket_iff_encodedLength (cachedReply message records.length records) query
    questions queryCount count contiguous]
  change 12 + ((questionsOf message).map _).sum + _ ≤ 1500 ↔ _
  rw [questions, List.map_singleton, List.sum_singleton]
  rfl

def AnsweredLocally (world : World) (message : Message) (address : SockAddr)
    (records : List ResourceRecord) : Prop :=
  ∃ enough, ∀ env : Env, enough ≤ env.fuel → ∃ after reply buf,
    (handleRequest env address message world).out =
        .ok (after, [.response address reply buf]) ∧
      reply.flags.rcode = 0 ∧ reply.answerCount.toNat = records.length ∧
      reply.answers = records

/-- A single question is answered with the records made for it. -/
theorem answeredLocally_single {world : World} {message : Message} {query : Query}
    {map : StringT → Option Ipv4Cache} (isMap : IsMap world.ipv4Table map)
    (filled : world.ipv4Table.Every fun cache => cache.node ≠ [])
    (ready : LogReady message) (queryCount : message.queryCount = 1)
    (single : message.queries = [query]) {bound : Nat} (resolved : Resolved world bound query)
    (unblocked : ¬ Blocked world query)
    {records : List ResourceRecord}
    (made : ∀ env : Env, bound ≤ env.fuel → QueryRecords env world query records)
    (few : records.length < 65536)
    (fits : FitsPacket (cachedReply message records.length records)) (address : SockAddr) :
    AnsweredLocally world message address records := by
  have questions := questionsOf_single queryCount single
  have all : ∀ other ∈ questionsOf message, Resolved world bound other := by
    rw [questions]
    intro other member
    rw [List.mem_singleton.mp member]
    exact resolved
  have none : ¬ ∃ other ∈ questionsOf message, Blocked world other := by
    rw [questions]
    rintro ⟨other, member, blocked⟩
    rw [List.mem_singleton.mp member] at blocked
    exact unblocked blocked
  have flat : [records].flatten = records := by simp
  refine ⟨bound, fun env enough => ?_⟩
  have whole : List.Forall₂ (QueryRecords env world) (questionsOf message) [records] := by
    rw [questions]
    exact .cons (made env enough) .nil
  obtain ⟨after, buf, done⟩ :=
    handleRequest_answered ready isMap filled all enough address none whole
      (by rw [flat]; exact fits)
  rw [flat] at done
  refine ⟨after, _, buf, done, rfl, ?_, rfl⟩
  exact (UInt16.toNat_ofNat').trans (Nat.mod_eq_of_lt few)

/-- Only what is in the caches is answered locally. -/
theorem AnsweredLocally.found {world : World} {message : Message} {address : SockAddr}
    {records : List ResourceRecord} (answered : AnsweredLocally world message address records)
    {query : Query} (asks : query ∈ questionsOf message) : Found world query := by
  obtain ⟨enough, answers⟩ := answered
  obtain ⟨after, reply, buf, done, _⟩ := answers ⟨enough, fun _ _ => 0⟩ le_rfl
  generalize isSent : [Sent.response address reply buf] = sent at done
  cases handled_of_handleRequest done with
  | forwarded _ _ _ => cases isSent
  | blocked counted cached _ _ => exact (pass_decided counted).1.mp cached query asks
  | answered counted cached _ _ _ => exact (pass_decided counted).1.mp cached query asks

end PostDns
