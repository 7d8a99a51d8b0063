/-
Callbacks within the arrays (message.c, socket.c and the sweeps of the caches).

Past the decoder, a callback indexes the packet it sends, the spelled names, the records of its
own reply and the names that a sweep collects.  The packet has 1500 octets and the run stops
behind it; the others are as large as they have to be.
-/

import PostDns.CountedSweeps
import PostDns.InBounds
import PostDns.Pieces
import PostDns.TwoPasses

namespace PostDns

open Foundation
open Foundation.Logged (Always)

/-! ### The encoder -/

def Access.Encodes : Access → Prop
  | .write .packet _ => True
  | .write (.output length) index => 0 ≤ index ∧ index < 2 * length + 2
  | _ => False

theorem memcpyTo_encodes (cells : Nat → UInt8) (position : Nat) (octets : List UInt8) :
    Always Access.Encodes (memcpyTo .packet cells position octets) := by
  intro access member
  obtain ⟨index, _, isWrite⟩ := mem_memcpyTo_log.mp member
  rw [← isWrite]
  trivial

theorem transferName_encodes (junk : Nat → UInt8) {name : StringT} (nonempty : 1 ≤ name.length) :
    Always Access.Encodes (transferName junk name) := by
  refine Logged.always_bind.mpr ⟨?_, fun _ _ => Logged.always_pure _ _⟩
  intro access member
  obtain ⟨index, isWrite, below⟩ := name2message_inOutput junk nonempty access member
  rw [isWrite]
  exact ⟨Int.natCast_nonneg index, by exact_mod_cast below⟩

theorem message2bufHeader_encodes (message : Message) (cells : Nat → UInt8) :
    Always Access.Encodes (message2bufHeader message cells) :=
  Logged.always_bind.mpr ⟨memcpyTo_encodes _ _ _, fun _ _ =>
    Logged.always_bind.mpr ⟨memcpyTo_encodes _ _ _, fun _ _ =>
      Logged.always_bind.mpr ⟨memcpyTo_encodes _ _ _, fun _ _ =>
        Logged.always_bind.mpr ⟨memcpyTo_encodes _ _ _, fun _ _ =>
          Logged.always_bind.mpr ⟨memcpyTo_encodes _ _ _, fun _ _ =>
            memcpyTo_encodes _ _ _⟩⟩⟩⟩⟩

theorem message2bufQuestion_encodes (env : Env) (start : Nat) {queries : List Query}
    (named : ∀ query ∈ queries, 1 ≤ query.name.length) (bufPos endPos : Nat)
    (cells : Nat → UInt8) :
    Always Access.Encodes (message2bufQuestion env start queries bufPos endPos cells) := by
  induction queries generalizing bufPos endPos cells with
  | nil => exact Logged.always_pure _ _
  | cons query queries ih =>
      have here : Always Access.Encodes (message2bufQuery env start query bufPos cells) :=
        Logged.always_bind.mpr ⟨transferName_encodes _ (named query List.mem_cons_self),
          fun _ _ => Logged.always_bind.mpr ⟨memcpyTo_encodes _ _ _, fun _ _ =>
            Logged.always_bind.mpr ⟨memcpyTo_encodes _ _ _, fun _ _ =>
              Logged.always_bind.mpr ⟨memcpyTo_encodes _ _ _, fun _ _ =>
                Logged.always_pure _ _⟩⟩⟩⟩
      exact Logged.always_bind.mpr ⟨here, fun written _ =>
        ih (fun other member => named other (List.mem_cons_of_mem _ member)) _ _ _⟩

structure Named (record : ResourceRecord) : Prop where
  owner : 1 ≤ record.name.length
  target : ∀ target, record.responseData = .domain target → 1 ≤ target.length

theorem message2bufData_encodes (env : Env) (start : Nat) {record : ResourceRecord}
    (named : Named record) (bufPos : Nat) (cells : Nat → UInt8) :
    Always Access.Encodes (message2bufData env start record bufPos cells) := by
  unfold message2bufData
  cases hData : record.responseData with
  | unset | rootDomain =>
      split_ifs
      · exact Logged.always_fail _ _
      · exact Logged.always_fail _ _
      · exact Logged.always_fail _ _
      · exact Logged.always_pure _ _
  | inet4 address =>
      split_ifs
      · exact Logged.always_bind.mpr ⟨memcpyTo_encodes _ _ _, fun _ _ =>
          Logged.always_bind.mpr ⟨memcpyTo_encodes _ _ _, fun _ _ => Logged.always_pure _ _⟩⟩
      · exact Logged.always_fail _ _
      · exact Logged.always_fail _ _
      · exact Logged.always_pure _ _
  | domain target =>
      split_ifs
      · exact Logged.always_fail _ _
      · exact Logged.always_bind.mpr ⟨memcpyTo_encodes _ _ _, fun _ _ =>
          Logged.always_bind.mpr ⟨transferName_encodes _ (named.target target hData),
            fun _ _ => Logged.always_bind.mpr ⟨memcpyTo_encodes _ _ _, fun _ _ =>
              Logged.always_pure _ _⟩⟩⟩
      · exact Logged.always_fail _ _
      · exact Logged.always_pure _ _
  | inet6 address =>
      split_ifs
      · exact Logged.always_fail _ _
      · exact Logged.always_fail _ _
      · exact Logged.always_bind.mpr ⟨memcpyTo_encodes _ _ _, fun _ _ =>
          Logged.always_bind.mpr ⟨memcpyTo_encodes _ _ _, fun _ _ => Logged.always_pure _ _⟩⟩
      · exact Logged.always_pure _ _

theorem message2bufAnswer_encodes (env : Env) (start : Nat) {records : List ResourceRecord}
    (named : ∀ record ∈ records, Named record) (bufPos : Nat) (cells : Nat → UInt8) :
    Always Access.Encodes (message2bufAnswer env start records bufPos cells) := by
  induction records generalizing bufPos cells with
  | nil => exact Logged.always_pure _ _
  | cons record records ih =>
      have isNamed := named record List.mem_cons_self
      have here : Always Access.Encodes (message2bufRecord env start record bufPos cells) :=
        Logged.always_bind.mpr ⟨transferName_encodes _ isNamed.owner, fun _ _ =>
          Logged.always_bind.mpr ⟨memcpyTo_encodes _ _ _, fun _ _ =>
            Logged.always_bind.mpr ⟨memcpyTo_encodes _ _ _, fun _ _ =>
              Logged.always_bind.mpr ⟨memcpyTo_encodes _ _ _, fun _ _ =>
                Logged.always_bind.mpr ⟨memcpyTo_encodes _ _ _, fun _ _ =>
                  message2bufData_encodes env start isNamed _ _⟩⟩⟩⟩⟩
      exact Logged.always_bind.mpr ⟨here, fun written _ =>
        ih (fun other member => named other (List.mem_cons_of_mem _ member)) _ _⟩

theorem initialised_always {α : Type} (good : Access → Prop) (count : UInt16)
    (entries : List α) : Always good (initialised count entries) := by
  unfold initialised
  split_ifs
  · exact Logged.always_pure _ _
  · exact Logged.always_fail _ _

theorem writeMessage_encodes (env : Env) {message : Message}
    (queries : ∀ query ∈ message.queries, 1 ≤ query.name.length)
    (answers : ∀ record ∈ message.answers, Named record) :
    Always Access.Encodes (writeMessage env message) := by
  have records (endPos : Nat) (cells : Nat → UInt8) :
      Always Access.Encodes (answersToBuf env message endPos cells) := by
    unfold answersToBuf
    split_ifs
    · refine Logged.always_bind.mpr ⟨initialised_always _ _ _, fun taken isTaken => ?_⟩
      rw [initialised_eq_ok isTaken]
      exact message2bufAnswer_encodes env endPos
        (fun record member => answers record (List.mem_of_mem_take member)) 0 cells
    · exact Logged.always_pure _ _
  refine Logged.always_bind.mpr ⟨message2bufHeader_encodes _ _, fun headed _ =>
    Logged.always_bind.mpr ⟨initialised_always _ _ _, fun taken isTaken =>
      Logged.always_bind.mpr ⟨?_, fun asked _ =>
        Logged.always_bind.mpr ⟨records _ _, fun _ _ => Logged.always_pure _ _⟩⟩⟩⟩
  rw [initialised_eq_ok isTaken]
  exact message2bufQuestion_encodes env 12
    (fun query member => queries query (List.mem_of_mem_take member)) 0 12 headed

/-! ### Messages in plain speech -/

theorem HostName.length_pos {name : StringT} (host : HostName name) : 1 ≤ name.length := by
  obtain ⟨labels, good, isName, _⟩ := host
  have size := dotJoin_length good.nonempty
  rw [isName]
  cases labels with
  | nil => exact absurd rfl good.nonempty
  | cons label rest =>
      have labelSize := (good.sizes label List.mem_cons_self).1
      rw [Rfc1035.nameLength, List.map_cons, List.sum_cons] at size
      omega

theorem named_of_payload {record : ResourceRecord} (owner : HostName record.name)
    (payload : HasPayload record) : Named record := by
  refine ⟨owner.length_pos, ?_⟩
  intro target isTarget
  rw [HasPayload, isTarget] at payload
  exact payload.2.length_pos

theorem Access.Encodes.inBounds {access : Access} (encodes : access.Encodes)
    (inPacket : access.InPacket) (limit : Nat) : access.InBounds limit := by
  cases access with
  | read region index => cases encodes
  | write region index =>
      cases region with
      | packet =>
          have last : (1499 : Int) < 1500 := by decide
          exact ⟨inPacket.1, Int.lt_of_le_of_lt inPacket.2 last⟩
      | output length => exact ⟨encodes.1, by exact_mod_cast encodes.2⟩
      | _ => cases encodes

/-- A message in plain speech that is encoded at all is encoded within the arrays. -/
theorem message2buf_inBounds {env : Env} (limit : Nat) {message : Message} {buf : UvBuf}
    (queries : ∀ query ∈ message.queries, HostName query.name)
    (answers : ∀ record ∈ message.answers, HostName record.name ∧ HasPayload record)
    (encoded : (message2buf env message).out = .ok buf) :
    Always (Access.InBounds limit) (message2buf env message) := by
  have fits := (message2buf_out_eq_ok.mp encoded).1
  have inPacket := (message2buf_inPacket_iff env message).mpr fits
  have encodes := writeMessage_encodes env
    (fun query member => (queries query member).length_pos) fun record member =>
      named_of_payload (answers record member).1 (answers record member).2
  rw [← message2buf_of_fits env fits] at encodes
  intro access member
  exact (encodes access member).inBounds (inPacket access member) limit

/-! ### Callbacks that touch no array -/

section Quiet

variable (good : Access → Prop)

theorem ofExcept_always {α : Type} (out : Except Fault α) :
    Always good (Logged.ofExcept out) := by
  intro access member
  cases member

theorem cnameLoop_always {β : Type} {visit : StringT → CnameCache → β → Exec β}
    (visits : ∀ domain cache made, Always good (visit domain cache made))
    (t : HashTable CnameCache) (fuel : Nat) (domain : StringT) (made : β) :
    Always good (cnameLoop visit t fuel domain made) := by
  induction fuel generalizing domain made with
  | zero => exact Logged.always_fail _ _
  | succ fuel ih =>
      refine Logged.always_bind.mpr ⟨ofExcept_always good _, fun found _ => ?_⟩
      cases found with
      | none => exact Logged.always_pure _ _
      | some cache =>
          exact Logged.always_bind.mpr ⟨visits domain cache made, fun visited _ => ih _ visited⟩

theorem countIpv4Cache_always (pass : FirstPass) (domain : StringT) (answerCount : Nat)
    (cache : Ipv4Cache) : Always good (countIpv4Cache pass domain answerCount cache) := by
  unfold countIpv4Cache
  cases cache.node with
  | nil => exact Logged.always_fail _ _
  | cons address addresses =>
      refine Logged.always_bind.mpr ⟨ofExcept_always good _, fun _ _ => ?_⟩
      split_ifs
      · exact Logged.always_pure _ _
      · exact Logged.always_pure _ _

theorem countQuery_always (env : Env) (world : World) (query : Query) (pass : FirstPass) :
    Always good (countQuery env world query pass) := by
  have counts (domain : StringT) (cache : CnameCache) (made : Nat) :
      Always good (countAlias domain cache made) := Logged.always_pure _ _
  have chase := cnameLoop_always good counts world.cnameTable env.fuel query.name
    pass.answerCount
  unfold countQuery
  split_ifs
  · refine Logged.always_bind.mpr ⟨chase, fun _ _ =>
      Logged.always_bind.mpr ⟨ofExcept_always good _, fun found _ => ?_⟩⟩
    cases found with
    | none => exact Logged.always_pure _ _
    | some cache => exact countIpv4Cache_always good _ _ _ _
  · refine Logged.always_bind.mpr ⟨ofExcept_always good _, fun found _ => ?_⟩
    cases found with
    | none => exact Logged.always_pure _ _
    | some cache => exact Logged.always_bind.mpr ⟨chase, fun _ _ => Logged.always_pure _ _⟩
  · refine Logged.always_bind.mpr ⟨chase, fun _ _ =>
      Logged.always_bind.mpr ⟨ofExcept_always good _, fun found _ => ?_⟩⟩
    cases found with
    | none => exact Logged.always_pure _ _
    | some cache => exact Logged.always_pure _ _
  · exact Logged.always_pure _ _

theorem countQueries_always (env : Env) (world : World) (queries : List Query)
    (pass : FirstPass) : Always good (countQueries env world queries pass) := by
  induction queries generalizing pass with
  | nil => exact Logged.always_pure _ _
  | cons query queries ih =>
      unfold countQueries
      split_ifs
      · exact Logged.always_bind.mpr
          ⟨countQuery_always good env world query pass, fun middle _ => ih middle⟩
      · exact Logged.always_pure _ _

theorem cacheAnswers_always (now : Int) (answers : List ResourceRecord)
    (collected : Collected) : Always good (cacheAnswers now answers collected) := by
  induction answers generalizing collected with
  | nil => exact Logged.always_pure _ _
  | cons answer answers ih =>
      refine Logged.always_bind.mpr ⟨?_, fun middle _ => ih middle⟩
      unfold cacheAnswer
      cases answer.responseData with
      | domain name =>
          split_ifs
          · exact Logged.always_fail _ _
          · exact Logged.always_bind.mpr
              ⟨ofExcept_always good _, fun _ _ => Logged.always_pure _ _⟩
          · exact Logged.always_fail _ _
          · exact Logged.always_pure _ _
      | _ =>
          split_ifs
          all_goals first
            | exact Logged.always_fail _ _
            | exact Logged.always_pure _ _

theorem storeAddresses_always (now : Int) (world : World) (collected : Collected) :
    Always good (storeAddresses now world collected) := by
  have puts {Table : Type} (table : Table) (put : StringT → Except Fault Table)
      (domain : Option StringT) : Always good (putNamed table put domain) := by
    cases domain with
    | none => exact Logged.always_pure _ _
    | some name => exact ofExcept_always good _
  exact Logged.always_bind.mpr ⟨puts _ _ _, fun _ _ =>
    Logged.always_bind.mpr ⟨puts _ _ _, fun _ _ => Logged.always_pure _ _⟩⟩

theorem removeExpired_always {α : Type} (names : List StringT) (t : HashTable α) :
    Always good (removeExpired names t) := by
  induction names generalizing t with
  | nil => exact Logged.always_pure _ _
  | cons name names ih =>
      exact Logged.always_bind.mpr ⟨ofExcept_always good _, fun middle _ => ih middle⟩

end Quiet

/-! ### Sweeps -/

/-- The array of names is as long as the table counts, and no more are collected. -/
theorem cacheClear_inBounds {α : Type} {expired : α → Bool} {t : HashTable α}
    {map : StringT → Option α} (isMap : IsMap t map)
    (counted : (storedNames t).length ≤ t.count) (limit : Nat) :
    Always (Access.InBounds limit) (cacheClear expired t) := by
  obtain ⟨names, collected, _⟩ := collectExpired_isMap isMap t.count expired
  have below := (collectExpired_notes t.count expired t t.capacity 0 [] names collected).2
  have few := collectExpired_length isMap t.count expired collected
  rw [cacheClear, Logged.always_bind_of_ok collected]
  constructor
  · intro access member
    obtain ⟨index, isWrite, inside⟩ := below access member
    rw [isWrite]
    have inArray : index < t.count := by omega
    exact ⟨Int.natCast_nonneg index, Int.ofNat_lt.mpr inArray⟩
  · exact removeExpired_always _ names t

/-! ### Requests and replies -/

section Callbacks

variable {good : Access → Prop} {env : Env}

theorem sendResponseFrom_always {world : World} {reply : Message}
    (encodes : ∀ address, world.clients (featureOf reply) = some address →
      Always good (message2buf env (clearReserved reply))) :
    Always good (sendResponseFrom env world reply) := by
  have asks : Always good (message2featureString reply) :=
    Logged.always_bind.mpr ⟨initialised_always _ _ _, fun _ _ => Logged.always_pure _ _⟩
  have responds : Always good (sendResponse env world.clients reply) := by
    refine Logged.always_bind.mpr ⟨asks, fun feature featured => ?_⟩
    rw [message2featureString_eq_ok featured]
    cases hClient : world.clients (featureOf reply) with
    | none => exact Logged.always_pure _ _
    | some address =>
        exact Logged.always_bind.mpr ⟨encodes address hClient, fun _ _ =>
          Logged.always_pure _ _⟩
  refine Logged.always_bind.mpr ⟨responds, fun sent _ => ?_⟩
  cases sent.1 with
  | none => exact Logged.always_pure _ _
  | some pair => exact Logged.always_pure _ _

/-- A request makes good accesses when the records of its own reply are, and what it sends is
encoded with good ones. -/
theorem Handled.always {address : SockAddr} {message : Message} {before after : World}
    {sent : List Sent} (handled : Handled env address message before after sent)
    (ready : LogReady message)
    (answers : ∀ size index : Nat, index < size → good (.write (.answers size) index))
    (encodes : ∀ one ∈ sent, Always good (message2buf env one.message)) :
    Always good (handleRequest env address message before) := by
  rw [handleRequest_ready ready]
  cases handled with
  | forwarded counted uncached _ =>
      rw [Logged.always_bind_of_ok counted]
      refine ⟨countQueries_always good _ _ _ _, ?_⟩
      simp only [uncached, Bool.false_eq_true, if_false]
      have sends := encodes _ (List.mem_singleton_self _)
      exact Logged.always_bind.mpr ⟨sends, fun _ _ => Logged.always_pure _ _⟩
  | blocked counted cached banned _ =>
      rw [Logged.always_bind_of_ok counted]
      refine ⟨countQueries_always good _ _ _ _, ?_⟩
      simp only [cached, if_true, answerLocally, banned]
      have sends := encodes _ (List.mem_singleton_self _)
      exact sendResponseFrom_always fun _ _ => sends
  | @answered pass records buf counted cached unbanned made _ =>
      rw [Logged.always_bind_of_ok counted]
      refine ⟨countQueries_always good _ _ _ _, ?_⟩
      simp only [cached, if_true, answerLocally, unbanned, Bool.false_eq_true, if_false]
      have clients := answerQueries_clients env { before with ipv4Table := pass.ipv4Table }
        (Function.update before.clients (featureOf message) (some address)) pass.answerCount
        (questionsOf message) []
      obtain ⟨revised, _⟩ := countQueries_frame rfl rfl counted
      have count : pass.answerCount = records.flatten.length :=
        (countQueries_counts rfl rfl counted cached unbanned
          ((forall₂_queryRecords_revised revised).mp made)).trans (Nat.zero_add _)
      have filled := clients.trans ((answerQueries_eq made pass.answerCount []).trans
        (putAll_eq _ _ _))
      rw [filled]
      refine Logged.always_bind.mpr ⟨?_, fun answers' isAnswers => ?_⟩
      · intro access member
        obtain ⟨index, inRange, isWrite⟩ := List.mem_map.mp member
        have inside := (List.mem_range'_1.mp inRange).2
        rw [List.length_nil, Nat.zero_add, ← count] at inside
        rw [← isWrite]
        exact answers _ _ inside
      · have sends := encodes _ (List.mem_singleton_self _)
        have same : records.flatten = answers' := Except.ok.inj isAnswers
        rw [← same]
        exact sendResponseFrom_always fun _ _ => sends

theorem handleReply_always {now : Int} {message : Message} {before after : World}
    {sent : List Sent} (done : (handleReply env now message before).out = .ok (after, sent))
    (encodes : ∀ one ∈ sent, Always good (message2buf env one.message)) :
    Always good (handleReply env now message before) := by
  have logged := logReady_of_handleReply done
  rw [handleReply, logged.messageLog_bind] at done ⊢
  obtain ⟨answers, ready, caching⟩ := Logged.bind_out_eq_ok.mp done
  obtain ⟨collected, cached, storing⟩ := Logged.bind_out_eq_ok.mp caching
  obtain ⟨world, stored, sending⟩ := Logged.bind_out_eq_ok.mp storing
  rw [Logged.always_bind_of_ok ready, Logged.always_bind_of_ok cached,
    Logged.always_bind_of_ok stored]
  refine ⟨initialised_always _ _ _, cacheAnswers_always good now answers _,
    storeAddresses_always good now before collected, ?_⟩
  apply sendResponseFrom_always
  intro address waits
  rcases sendResponseFrom_eq_ok sending with dropped | answered
  · rw [waits] at dropped
    cases dropped.1
  · obtain ⟨client, buf, _, isSent, _⟩ := answered
    rw [isSent] at encodes
    have sends := encodes _ (List.mem_singleton_self _)
    exact sends

end Callbacks

end PostDns
