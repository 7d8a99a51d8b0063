/-
What the receive callbacks do to the pending table.

Whatever the caches hold, a callback that returns has done one of few things
with the pending table and the sockets.
-/

import PostDns.Foundation.Run
import PostDns.Socket

namespace PostDns

open Foundation

/-! ### What identifies a request -/

def questionsOf (message : Message) : List Query :=
  message.queries.take message.queryCount.toNat

/-- The feature string of a message whose questions are initialised. -/
def featureOf (message : Message) : StringT :=
  (questionsOf message).flatMap queryFeature ++ littleEndian16 message.id

def SameQuestion (reply message : Message) : Prop :=
  reply.id = message.id ∧ questionsOf reply = questionsOf message

instance (reply message : Message) : Decidable (SameQuestion reply message) :=
  inferInstanceAs (Decidable (_ ∧ _))

theorem SameQuestion.feature {reply message : Message} (same : SameQuestion reply message) :
    featureOf reply = featureOf message := by
  rw [featureOf, same.1, same.2, featureOf]

theorem SameQuestion.symm {reply message : Message} (same : SameQuestion reply message) :
    SameQuestion message reply :=
  ⟨same.1.symm, same.2.symm⟩

theorem SameQuestion.trans {first second third : Message}
    (left : SameQuestion first second) (right : SameQuestion second third) :
    SameQuestion first third :=
  ⟨left.1.trans right.1, left.2.trans right.2⟩

theorem sameQuestion_clearReserved (message : Message) :
    SameQuestion (clearReserved message) message :=
  ⟨rfl, rfl⟩

theorem initialised_eq_ok {α : Type} {count : UInt16} {entries taken : List α}
    (done : (initialised count entries).out = .ok taken) :
    taken = entries.take count.toNat := by
  unfold initialised at done
  by_cases enough : count.toNat ≤ entries.length
  · rw [if_pos enough] at done
    exact (Except.ok.inj done).symm
  · rw [if_neg enough] at done
    cases done

theorem message2featureString_eq_ok {message : Message} {feature : StringT}
    (done : (message2featureString message).out = .ok feature) :
    feature = featureOf message := by
  obtain ⟨queries, ready, joined⟩ := Logged.bind_out_eq_ok.mp done
  rw [initialised_eq_ok ready] at joined
  exact (Except.ok.inj joined).symm

/-! ### Senders -/

theorem sendQueryFrom_eq_ok {env : Env} {world after : World} {message : Message}
    {sent : List Sent} (done : (sendQueryFrom env world message).out = .ok (after, sent)) :
    ∃ buf, sent = [.query (clearReserved message) buf] ∧ after = world := by
  obtain ⟨buf, _, returned⟩ := Logged.bind_out_eq_ok.mp done
  cases returned
  exact ⟨buf, rfl, rfl⟩

/-- The reply goes to the client that the table names, and its entry goes. -/
theorem sendResponseFrom_eq_ok {env : Env} {world after : World} {message : Message}
    {sent : List Sent}
    (done : (sendResponseFrom env world message).out = .ok (after, sent)) :
    (world.clients (featureOf message) = none ∧ sent = [] ∧ after = world) ∨
      ∃ address buf, world.clients (featureOf message) = some address ∧
        sent = [.response address (clearReserved message) buf] ∧
        after =
          { world with clients := Function.update world.clients (featureOf message) none } := by
  obtain ⟨result, responded, returned⟩ := Logged.bind_out_eq_ok.mp done
  obtain ⟨feature, featured, looked⟩ := Logged.bind_out_eq_ok.mp responded
  rw [message2featureString_eq_ok featured] at looked
  cases hClient : world.clients (featureOf message) with
  | none =>
      simp only [hClient] at looked
      cases looked
      cases returned
      exact Or.inl ⟨rfl, rfl, rfl⟩
  | some address =>
      simp only [hClient] at looked
      obtain ⟨buf, _, paired⟩ := Logged.bind_out_eq_ok.mp looked
      cases paired
      cases returned
      exact Or.inr ⟨address, buf, rfl, rfl, rfl⟩

/-! ### Callbacks -/

theorem storeAddresses_clients {now : Int} {world after : World} {collected : Collected}
    (done : (storeAddresses now world collected).out = .ok after) :
    after.clients = world.clients := by
  obtain ⟨ipv4Table, _, rest⟩ := Logged.bind_out_eq_ok.mp done
  obtain ⟨ipv6Table, _, returned⟩ := Logged.bind_out_eq_ok.mp rest
  cases returned
  rfl

/-- An upstream reply is passed on to the client that waits for it, or dropped. -/
theorem handleReply_eq_ok {env : Env} {now : Int} {message : Message}
    {before after : World} {sent : List Sent}
    (done : (handleReply env now message before).out = .ok (after, sent)) :
    (before.clients (featureOf message) = none ∧ sent = [] ∧
        after.clients = before.clients) ∨
      ∃ address buf, before.clients (featureOf message) = some address ∧
        sent = [.response address (clearReserved message) buf] ∧
        after.clients = Function.update before.clients (featureOf message) none := by
  obtain ⟨_, _, done⟩ := Logged.bind_out_eq_ok.mp done
  obtain ⟨answers, _, cached⟩ := Logged.bind_out_eq_ok.mp done
  obtain ⟨collected, _, stored⟩ := Logged.bind_out_eq_ok.mp cached
  obtain ⟨world, storing, sending⟩ := Logged.bind_out_eq_ok.mp stored
  have clients := storeAddresses_clients storing
  rw [← clients]
  rcases sendResponseFrom_eq_ok sending with
    ⟨missing, nothing, same⟩ | ⟨address, buf, found, one, cleared⟩
  · exact Or.inl ⟨missing, nothing, congrArg World.clients same⟩
  · exact Or.inr ⟨address, buf, found, one, congrArg World.clients cleared⟩

theorem sameQuestion_backMessage (message : Message) :
    SameQuestion (backMessage message (questionsOf message)) message :=
  ⟨rfl, by simp [questionsOf, backMessage]⟩

/-- A reply made from the caches goes to the client the table names. -/
theorem answerLocally_eq_ok {env : Env} {world after : World} {pass : FirstPass}
    {message : Message} {sent : List Sent} {address : SockAddr}
    (waiting : world.clients (featureOf message) = some address)
    (done : (answerLocally env world pass message (questionsOf message)).out =
      .ok (after, sent)) :
    ∃ reply buf, sent = [.response address reply buf] ∧ SameQuestion reply message ∧
      after.clients = Function.update world.clients (featureOf message) none := by
  have replied (reply : Message) (same : SameQuestion reply message)
      (sending : (sendResponseFrom env world reply).out = .ok (after, sent)) :
      ∃ reply buf, sent = [.response address reply buf] ∧ SameQuestion reply message ∧
        after.clients = Function.update world.clients (featureOf message) none := by
    rw [← same.feature] at waiting ⊢
    rcases sendResponseFrom_eq_ok sending with
      ⟨missing, _, _⟩ | ⟨client, buf, found, one, cleared⟩
    · rw [missing] at waiting
      cases waiting
    · rw [found] at waiting
      cases waiting
      exact ⟨clearReserved reply, buf, one, (sameQuestion_clearReserved reply).trans same,
        congrArg World.clients cleared⟩
  have same := sameQuestion_backMessage message
  unfold answerLocally at done
  cases hBanned : pass.banned with
  | true =>
      simp only [hBanned, if_true] at done
      refine replied _ ?_ done
      exact same
  | false =>
      simp only [hBanned, Bool.false_eq_true, if_false] at done
      obtain ⟨answers, _, sending⟩ := Logged.bind_out_eq_ok.mp done
      refine replied _ ?_ sending
      exact same

/-- A request is forwarded and waits in the table, or is answered and leaves it. -/
theorem handleRequest_eq_ok {env : Env} {address : SockAddr} {message : Message}
    {before after : World} {sent : List Sent}
    (done : (handleRequest env address message before).out = .ok (after, sent)) :
    (∃ buf, sent = [.query (clearReserved message) buf] ∧
        after.clients =
          Function.update before.clients (featureOf message) (some address)) ∨
      ∃ reply buf, sent = [.response address reply buf] ∧ SameQuestion reply message ∧
        after.clients = Function.update before.clients (featureOf message) none := by
  obtain ⟨_, _, done⟩ := Logged.bind_out_eq_ok.mp done
  obtain ⟨feature, featured, entered⟩ := Logged.bind_out_eq_ok.mp done
  obtain ⟨queries, ready, counted⟩ := Logged.bind_out_eq_ok.mp entered
  obtain ⟨pass, _, decided⟩ := Logged.bind_out_eq_ok.mp counted
  rw [message2featureString_eq_ok featured] at decided
  have queriesAre : queries = questionsOf message := initialised_eq_ok ready
  subst queriesAre
  cases hCached : pass.cached with
  | true =>
      simp only [hCached, if_true] at decided
      obtain ⟨reply, buf, one, same, cleared⟩ :=
        answerLocally_eq_ok (Function.update_self _ _ _) decided
      exact Or.inr ⟨reply, buf, one, same, by rw [cleared, Function.update_idem]⟩
  | false =>
      simp only [hCached, Bool.false_eq_true, if_false] at decided
      obtain ⟨buf, one, same⟩ := sendQueryFrom_eq_ok decided
      exact Or.inl ⟨buf, one, congrArg World.clients same⟩

/-! ### Runs of the server -/

inductive Event where
  | request (message : Message) (address : SockAddr)
  | reply (message : Message)

/-- A callback that returned, with what it sent. -/
inductive Callback (before : World) : Event × List Sent → World → Prop where
  | request {env : Env} {datagram : Datagram} {address : SockAddr} {message : Message}
      {sent : List Sent} {after : World} :
      (buf2message env datagram.buf).out = .ok message →
      (bindSocketRead env datagram address before).out = .ok (after, sent) →
      Callback before (.request message address, sent) after
  | reply {env : Env} {now : Int} {datagram : Datagram} {message : Message}
      {sent : List Sent} {after : World} :
      (buf2message env datagram.buf).out = .ok message →
      (querySocketRead env now datagram before).out = .ok (after, sent) →
      Callback before (.reply message, sent) after

abbrev ServerRun (malloc : Malloc) := Run Callback (World.init malloc)

theorem Callback.request_handled {before after : World} {message : Message}
    {address : SockAddr} {sent : List Sent}
    (callback : Callback before (.request message address, sent) after) :
    ∃ env, (handleRequest env address message before).out = .ok (after, sent) := by
  cases callback with
  | @request env _ _ _ _ _ decoded done =>
      refine ⟨env, ?_⟩
      rw [bindSocketRead, Logged.bind_out_of_ok decoded] at done
      exact done

theorem Callback.reply_handled {before after : World} {message : Message}
    {sent : List Sent} (callback : Callback before (.reply message, sent) after) :
    ∃ env now, (handleReply env now message before).out = .ok (after, sent) := by
  cases callback with
  | @reply env now _ _ _ _ decoded done =>
      refine ⟨env, now, ?_⟩
      rw [querySocketRead, Logged.bind_out_of_ok decoded] at done
      exact done

def returned (run : Exec (World × List Sent)) : World × List Sent :=
  match run.out with
  | .ok result => result
  | .error _ => (World.init .ascending, [])

theorem out_eq_returned {run : Exec (World × List Sent)} (done : run.out.isOk = true) :
    run.out = .ok ((returned run).1, (returned run).2) := by
  unfold returned
  cases hOut : run.out with
  | ok result => rfl
  | error fault =>
      rw [hOut] at done
      cases done

def reached (run : Exec World) : World :=
  match run.out with
  | .ok world => world
  | .error _ => World.init .ascending

theorem out_eq_reached {run : Exec World} (done : run.out.isOk = true) :
    run.out = .ok (reached run) := by
  unfold reached
  cases hOut : run.out with
  | ok world => rfl
  | error fault =>
      rw [hOut] at done
      cases done

end PostDns
