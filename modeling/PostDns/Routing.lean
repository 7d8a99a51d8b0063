/-
Whom the replies go to.

The pending table knows a request by its feature string only.  As long as nothing
else with the feature string of a forwarded request comes in before the upstream
answer, each request gets one reply; a second client with the same id and questions
takes the place of the first.
-/

import PostDns.Foundation.PendingTable
import PostDns.SocketSemantics

namespace PostDns

open Foundation
open Foundation.PendingTable (Action Answered Undisturbed Waits tableAfter
  tableAfter_eq_some_iff)

abbrev Trace := List (Event × List Sent)

def Event.message : Event → Message
  | .request message _ => message
  | .reply message => message

def Sent.isQuery : Sent → Bool
  | .query _ _ => true
  | .response _ _ _ => false

def Sent.RepliesTo (address : SockAddr) (message : Message) : Sent → Prop
  | .query _ _ => False
  | .response client reply _ => client = address ∧ SameQuestion reply message

instance (address : SockAddr) (message : Message) (sent : Sent) :
    Decidable (sent.RepliesTo address message) :=
  match sent with
  | .query _ _ => instDecidableFalse
  | .response _ _ _ => inferInstanceAs (Decidable (_ ∧ _))

/-! ### Requests and their answers -/

def Requested (events : Trace) (index : Nat) (message : Message) (address : SockAddr) :
    Prop :=
  ∃ sent, events[index]? = some (.request message address, sent)

def Forwarded (events : Trace) (index : Nat) (message : Message) (address : SockAddr) :
    Prop :=
  ∃ sent, events[index]? = some (.request message address, sent) ∧
    sent.any Sent.isQuery = true

theorem Forwarded.requested {events : Trace} {index : Nat} {message : Message}
    {address : SockAddr} (isForwarded : Forwarded events index message address) :
    Requested events index message address := by
  obtain ⟨sent, here, _⟩ := isForwarded
  exact ⟨sent, here⟩

def Replied (events : Trace) (index : Nat) (message : Message) : Prop :=
  ∃ sent, events[index]? = some (.reply message, sent)

def DistinctRequests (events : Trace) : Prop :=
  ∀ first second message other address, Requested events first message address →
    Requested events second other address → SameQuestion message other → first = second

/-- Each forwarded request has exactly one upstream reply with its id and questions. -/
structure EachAnswered (events : Trace) (answer : Nat → Nat) : Prop where
  later : ∀ index message address, Forwarded events index message address →
    index < answer index
  answered : ∀ index message address, Forwarded events index message address →
    ∃ reply, Replied events (answer index) reply ∧ SameQuestion reply message
  own : ∀ first second message other address client,
    Forwarded events first message address → Forwarded events second other client →
      answer first = answer second → first = second
  only : ∀ index message address, Forwarded events index message address →
    ∀ place reply, Replied events place reply → SameQuestion reply message →
      ∃ other request client, Forwarded events other request client ∧ answer other = place

/-- Between a forwarded request and its upstream reply, nothing comes in with the same
feature string except upstream replies with the same id and questions. -/
def Exclusive (events : Trace) (answer : Nat → Nat) : Prop :=
  ∀ index message address, Forwarded events index message address →
    ∀ other label, index < other → other < answer index → events[other]? = some label →
      featureOf label.1.message = featureOf message →
        ∃ reply, label.1 = .reply reply ∧ SameQuestion reply message

/-- Exactly one reply with the id and the questions of the message has been sent to
the address. -/
def ServedOnce (events : Trace) (message : Message) (address : SockAddr) : Prop :=
  (events.flatMap Prod.snd).countP (fun sent => sent.RepliesTo address message) = 1

/-! ### The pending table of a run -/

def actionOf : Event × List Sent → Action StringT SockAddr
  | (.request message address, sent) =>
      if sent.any Sent.isQuery then .enter (featureOf message) address
      else .leave (featureOf message)
  | (.reply message, _) => .leave (featureOf message)

theorem actionOf_key (label : Event × List Sent) :
    (actionOf label).key = featureOf label.1.message := by
  rcases label with ⟨_ | _, sent⟩
  · cases hSent : sent.any Sent.isQuery with
    | true => simp only [actionOf, hSent, if_true, Action.key, Event.message]
    | false =>
        simp only [actionOf, hSent, Bool.false_eq_true, if_false, Action.key, Event.message]
  · rfl

theorem Callback.clients {before after : World} {label : Event × List Sent}
    (callback : Callback before label after) :
    after.clients = (actionOf label).apply before.clients := by
  rcases label with ⟨⟨message, address⟩ | ⟨message⟩, sent⟩
  · obtain ⟨env, done⟩ := callback.request_handled
    rcases handleRequest_eq_ok done with ⟨buf, isSent, clients⟩ | ⟨reply, buf, isSent, _, clients⟩
    · rw [clients, isSent]
      rfl
    · rw [clients, isSent]
      rfl
  · obtain ⟨env, now, done⟩ := callback.reply_handled
    rcases handleReply_eq_ok done with ⟨missing, _, clients⟩ | ⟨address, buf, _, _, clients⟩
    · rw [clients]
      exact (Function.update_eq_self_iff.mpr missing.symm).symm
    · exact clients

/-- The pending table follows the requests and replies of the run. -/
theorem callbacks_clients {start world : World} {events : Trace}
    (unasked : start.clients = fun _ => none) (run : Run Callback start events world) :
    world.clients = tableAfter (events.map actionOf) := by
  refine run.invariant
    (fun events world => world.clients = tableAfter (events.map actionOf)) unasked ?_
  intro earlier label middle final same callback
  rw [callback.clients, same, List.map_append]
  exact (PendingTable.tableAfter_snoc _ _).symm

theorem entered_iff {events : Trace} {index : Nat} {key : StringT} {address : SockAddr} :
    (events.map actionOf)[index]? = some (.enter key address) ↔
      ∃ message, Forwarded events index message address ∧ featureOf message = key := by
  rw [List.getElem?_map, Option.map_eq_some_iff]
  constructor
  · rintro ⟨⟨⟨message, client⟩ | ⟨message⟩, sent⟩, here, isEnter⟩
    · cases hSent : sent.any Sent.isQuery with
      | true =>
          simp only [actionOf, hSent, if_true] at isEnter
          cases isEnter
          exact ⟨message, ⟨sent, here, hSent⟩, rfl⟩
      | false =>
          simp only [actionOf, hSent, Bool.false_eq_true, if_false] at isEnter
          cases isEnter
    · cases isEnter
  · rintro ⟨message, ⟨sent, here, isForwarded⟩, rfl⟩
    exact ⟨_, here, by simp only [actionOf, isForwarded, if_true]⟩

theorem EachAnswered.answeredActions {events : Trace} {answer : Nat → Nat}
    (each : EachAnswered events answer) : Answered (events.map actionOf) answer := by
  intro index key address entered
  obtain ⟨message, isForwarded, rfl⟩ := entered_iff.mp entered
  obtain ⟨reply, ⟨sent, here⟩, same⟩ := each.answered index message address isForwarded
  refine ⟨each.later index message address isForwarded, ?_⟩
  rw [List.getElem?_map, here, ← same.feature]
  rfl

/-- An upstream reply in between would be the answer to another request, and one of
the two requests would come in while the other waits. -/
theorem EachAnswered.undisturbed {events : Trace} {answer : Nat → Nat}
    (each : EachAnswered events answer) (exclusive : Exclusive events answer) :
    Undisturbed (events.map actionOf) answer := by
  intro index key address entered other action after before here sameKey
  obtain ⟨message, isForwarded, rfl⟩ := entered_iff.mp entered
  rw [List.getElem?_map, Option.map_eq_some_iff] at here
  obtain ⟨⟨event, sent⟩, there, rfl⟩ := here
  rw [actionOf_key] at sameKey
  obtain ⟨reply, isReply, same⟩ :=
    exclusive index message address isForwarded other _ after before there sameKey
  change event = .reply reply at isReply
  subst isReply
  obtain ⟨request, asked, client, isForwarded', isOther⟩ :=
    each.only index message address isForwarded other reply ⟨sent, there⟩ same
  obtain ⟨answered, ⟨passed, here⟩, sameAsked⟩ :=
    each.answered request asked client isForwarded'
  rw [isOther, there] at here
  cases here
  have sameFeature : featureOf asked = featureOf message :=
    (sameAsked.symm.trans same).feature
  have earlier := each.later request asked client isForwarded'
  obtain ⟨_, atIndex⟩ := isForwarded.requested
  obtain ⟨_, atRequest⟩ := isForwarded'.requested
  rcases Nat.lt_trichotomy request index with below | isIndex | above
  · obtain ⟨_, impossible, _⟩ := exclusive request asked client isForwarded' index _
      below (by omega) atIndex sameFeature.symm
    cases impossible
  · subst isIndex
    omega
  · obtain ⟨_, impossible, _⟩ := exclusive index message address isForwarded request _
      above (by omega) atRequest sameFeature
    cases impossible

/-! ### Replies -/

section Replies

variable {start world : World} {events : Trace} {answer : Nat → Nat}
  (unasked : start.clients = fun _ => none) (run : Run Callback start events world)
  (each : EachAnswered events answer) (exclusive : Exclusive events answer)

include run in
/-- A request is forwarded or answered at once. -/
theorem request_sends {index : Nat} {message : Message} {address : SockAddr}
    {sent : List Sent} (here : events[index]? = some (.request message address, sent)) :
    (∃ asked buf, sent = [.query asked buf]) ∨
      ∃ reply buf, sent = [.response address reply buf] ∧ SameQuestion reply message := by
  obtain ⟨before, after, _, callback, _⟩ := run.at here
  obtain ⟨env, done⟩ := callback.request_handled
  rcases handleRequest_eq_ok done with ⟨buf, isSent, _⟩ | ⟨reply, buf, isSent, same, _⟩
  · exact Or.inl ⟨_, buf, isSent⟩
  · exact Or.inr ⟨reply, buf, isSent, same⟩

include unasked run each exclusive

/-- The pending table names the request that waits for an upstream reply. -/
theorem reply_sends {index : Nat} {message : Message} {sent : List Sent}
    (here : events[index]? = some (.reply message, sent)) :
    ∃ waiting : Option SockAddr,
      (∀ address, waiting = some address ↔ ∃ request,
        Waits (events.map actionOf) answer (featureOf message) address request index) ∧
      (waiting = none ∧ sent = [] ∨
        ∃ address buf, waiting = some address ∧
          sent = [.response address (clearReserved message) buf]) := by
  obtain ⟨before, after, runBefore, callback, _⟩ := run.at here
  obtain ⟨env, now, done⟩ := callback.reply_handled
  have inside : index ≤ (events.map actionOf).length := by
    obtain ⟨below, _⟩ := List.getElem?_eq_some_iff.mp here
    rw [List.length_map]
    omega
  refine ⟨before.clients (featureOf message), ?_, ?_⟩
  · intro address
    rw [callbacks_clients unasked runBefore, List.map_take]
    exact tableAfter_eq_some_iff each.answeredActions (each.undisturbed exclusive) inside
  · rcases handleReply_eq_ok done with ⟨missing, isSent, _⟩ | ⟨address, buf, found, isSent, _⟩
    · exact Or.inl ⟨missing, isSent⟩
    · exact Or.inr ⟨address, buf, found, isSent⟩

theorem reply_passed {index request : Nat} {message : Message} {address : SockAddr}
    {sent : List Sent} (here : events[index]? = some (.reply message, sent))
    (waits : Waits (events.map actionOf) answer (featureOf message) address request index) :
    ∃ buf, sent = [.response address (clearReserved message) buf] := by
  obtain ⟨waiting, names, outcome⟩ := reply_sends unasked run each exclusive here
  have named := (names address).mpr ⟨request, waits⟩
  rcases outcome with ⟨missing, _⟩ | ⟨client, buf, found, isSent⟩
  · rw [missing] at named
    cases named
  · rw [found] at named
    cases named
    exact ⟨buf, isSent⟩

/-- What is passed on is the answer to a forwarded request with these questions. -/
theorem reply_answers {index : Nat} {message reply : Message} {address : SockAddr}
    {buf : UvBuf} {sent : List Sent} (here : events[index]? = some (.reply message, sent))
    (member : .response address reply buf ∈ sent) :
    ∃ request asked, Forwarded events request asked address ∧ answer request = index ∧
      SameQuestion reply asked := by
  obtain ⟨waiting, names, outcome⟩ := reply_sends unasked run each exclusive here
  rcases outcome with ⟨_, isSent⟩ | ⟨client, passed, found, isSent⟩
  · rw [isSent] at member
    cases member
  · rw [isSent, List.mem_singleton] at member
    cases member
    obtain ⟨request, waits⟩ := (names address).mp found
    obtain ⟨asked, isForwarded, _⟩ := entered_iff.mp waits.1
    have due : (events.map actionOf)[index]? = some (.leave (featureOf message)) := by
      rw [List.getElem?_map, here]
      rfl
    have isAnswer := (each.undisturbed exclusive).answer_eq due rfl waits
    obtain ⟨answered, ⟨others, there⟩, same⟩ :=
      each.answered request asked address isForwarded
    rw [isAnswer, here] at there
    cases there
    exact ⟨request, asked, isForwarded, isAnswer,
      (sameQuestion_clearReserved message).trans same⟩

/-- Each request is replied to at its own index or at that of its upstream reply. -/
theorem served_at {index : Nat} {message : Message} {address : SockAddr}
    (requested : Requested events index message address) :
    ∃ place label, events[place]? = some label ∧
      label.2.countP (fun sent => sent.RepliesTo address message) = 1 ∧
      (place = index ∧ ¬ Forwarded events index message address ∨
        place = answer index ∧ Forwarded events index message address) := by
  obtain ⟨sent, here⟩ := requested
  rcases request_sends run here with ⟨asked, buf, isSent⟩ | ⟨reply, buf, isSent, same⟩
  · have isForwarded : Forwarded events index message address :=
      ⟨sent, here, by rw [isSent]; rfl⟩
    obtain ⟨reply, ⟨passed, there⟩, same⟩ :=
      each.answered index message address isForwarded
    have waits : Waits (events.map actionOf) answer (featureOf reply) address index
        (answer index) :=
      ⟨entered_iff.mpr ⟨message, isForwarded, same.feature.symm⟩,
        each.later index message address isForwarded, Nat.le_refl _⟩
    obtain ⟨buf, isPassed⟩ := reply_passed unasked run each exclusive there waits
    refine ⟨answer index, _, there, ?_, Or.inr ⟨rfl, isForwarded⟩⟩
    have carries := (sameQuestion_clearReserved reply).trans same
    simp [isPassed, Sent.RepliesTo, carries]
  · refine ⟨index, _, here, ?_, Or.inl ⟨rfl, ?_⟩⟩
    · simp [isSent, Sent.RepliesTo, same]
    · rintro ⟨others, there, isForwarded⟩
      rw [here] at there
      cases there
      rw [isSent] at isForwarded
      cases isForwarded

/-- A reply to a request is sent nowhere else. -/
theorem index_of_replies {index place : Nat} {message : Message} {address : SockAddr}
    {label : Event × List Sent} {output : Sent} (distinct : DistinctRequests events)
    (requested : Requested events index message address)
    (here : events[place]? = some label) (member : output ∈ label.2)
    (replies : output.RepliesTo address message) :
    place = index ∧ ¬ Forwarded events index message address ∨
      place = answer index ∧ Forwarded events index message address := by
  cases output with
  | query asked buf => cases replies
  | response client reply buf =>
      obtain ⟨isClient, same⟩ := replies
      subst isClient
      rcases label with ⟨⟨asked, address⟩ | ⟨passed⟩, sent⟩
      · rcases request_sends run here with ⟨_, _, isSent⟩ | ⟨_, _, isSent, sameAsked⟩
        · simp [isSent] at member
        · simp only [isSent, List.mem_singleton, Sent.response.injEq] at member
          obtain ⟨rfl, rfl, _⟩ := member
          have isIndex := distinct place index asked message client ⟨sent, here⟩ requested
            (sameAsked.symm.trans same)
          subst isIndex
          refine Or.inl ⟨rfl, ?_⟩
          rintro ⟨others, there, isForwarded⟩
          rw [here] at there
          cases there
          rw [isSent] at isForwarded
          cases isForwarded
      · obtain ⟨request, asked, isForwarded, isAnswer, sameAsked⟩ :=
          reply_answers unasked run each exclusive here member
        have sameRequest := sameAsked.symm.trans same
        have isIndex := distinct request index asked message client isForwarded.requested
          requested sameRequest
        subst isIndex
        have isMessage : asked = message := by
          obtain ⟨_, first, _⟩ := isForwarded
          obtain ⟨_, second⟩ := requested
          rw [first] at second
          cases second
          rfl
        subst isMessage
        exact Or.inr ⟨isAnswer.symm, isForwarded⟩

/-- When nothing else with the feature string of a forwarded request comes in before its
reply, each request is replied to exactly once. -/
theorem servedOnce_of_exclusive (distinct : DistinctRequests events) :
    ∀ index message address, Requested events index message address →
      ServedOnce events message address := by
  intro index message address requested
  obtain ⟨place, label, here, once, isPlace⟩ := served_at unasked run each exclusive requested
  refine countP_flatMap_eq_one here once ?_
  intro other later there different
  rw [List.countP_eq_zero]
  intro output member replies
  have isOther := index_of_replies unasked run each exclusive distinct requested there member
    (of_decide_eq_true replies)
  apply different
  rcases isPlace with ⟨rfl, kept⟩ | ⟨rfl, passed⟩
  · rcases isOther with ⟨same, _⟩ | ⟨_, passed⟩
    · exact same
    · exact absurd passed kept
  · rcases isOther with ⟨_, kept⟩ | ⟨same, _⟩
    · exact absurd passed kept
    · exact same

end Replies

end PostDns
