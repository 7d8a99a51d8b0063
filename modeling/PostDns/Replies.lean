/-
Which request a reply belongs to.

Seen from the clients the server is a desk: requests come in, replies go out, and a
reply goes out only to whom the pending table names.  Whatever comes in, and in
whatever order, a request is replied to once at most and nobody else gets its reply.
-/

import PostDns.Foundation.PendingTable
import PostDns.Server
import PostDns.SocketSemantics

namespace PostDns

open Foundation
open Foundation.PendingTable (Action Exchange Moment exchanges_counted exchanges_latest
  waiting)

/-! ### What the clients see -/

def Occasion.requested : Occasion → List (Moment StringT SockAddr)
  | .request message address => [.requested (featureOf message) address]
  | .reply _ => []
  | .sweep => []

def Sent.replied : Sent → List (Moment StringT SockAddr)
  | .query _ _ => []
  | .response address message _ => [.replied (featureOf message) address]

def momentsOf (label : (Int × Occasion) × List Sent) : List (Moment StringT SockAddr) :=
  label.1.2.requested ++ label.2.flatMap Sent.replied

def historyOf (events : List ((Int × Occasion) × List Sent)) :
    List (Moment StringT SockAddr) :=
  events.flatMap momentsOf

/-- At every moment there are no more replies than requests with a feature string, and
each reply goes to the latest request with it, which has had none before. -/
structure RepliesMatch (history : List (Moment StringT SockAddr)) : Prop where
  counted : ∀ (now : Nat) (feature : StringT),
    (history.take now).countP (Moment.replies feature) ≤
      (history.take now).countP (Moment.requests feature)
  latest : ∀ (place : Nat) (feature : StringT) (address : SockAddr),
    history[place]? = some (.replied feature address) →
      ∃ request, request < place ∧ history[request]? = some (.requested feature address) ∧
        ∀ other moment, request < other → other < place →
          history[other]? = some moment → moment.key ≠ feature

/-! ### The server as a desk -/

theorem startUp_clients {env : Env} {now : Int} {file : Option (List UInt8)} {start : World}
    {malloc : Malloc}
    (started : (startUp env malloc now file).out = .ok start) : start.clients = fun _ => none := by
  cases file with
  | none =>
      cases started
      rfl
  | some text =>
      obtain ⟨ipv4Table, _, returned⟩ := Logged.bind_out_eq_ok.mp started
      cases returned
      rfl

theorem clearCallback_clients {now : Int} {before after : World}
    (done : (clearCallback now before).out = .ok after) : after.clients = before.clients := by
  obtain ⟨ipv4Table, _, afterIpv4⟩ := Logged.bind_out_eq_ok.mp done
  obtain ⟨ipv6Table, _, afterIpv6⟩ := Logged.bind_out_eq_ok.mp afterIpv4
  obtain ⟨cnameTable, _, returned⟩ := Logged.bind_out_eq_ok.mp afterIpv6
  cases returned
  rfl

theorem handleRequest_exchanges {env : Env} {now : Int} {address : SockAddr}
    {message : Message} {before after : World} {sent : List Sent}
    (done : (handleRequest env address message before).out = .ok (after, sent)) :
    Run Exchange before.clients (momentsOf ((now, .request message address), sent))
      after.clients := by
  have entered : Run Exchange before.clients [.requested (featureOf message) address]
      (Function.update before.clients (featureOf message) (some address)) :=
    Run.snoc Run.nil (.requested _ _)
  rcases handleRequest_eq_ok done with
    ⟨buf, isSent, clients⟩ | ⟨reply, buf, isSent, same, clients⟩
  · rw [isSent, clients]
    exact entered
  · have named : Function.update before.clients (featureOf message) (some address)
        (featureOf message) = some address := Function.update_self _ _ _
    have left := Run.snoc entered (.replied named)
    rw [Function.update_idem] at left
    rw [isSent, clients]
    change Run Exchange before.clients
      ([.requested (featureOf message) address] ++ [.replied (featureOf reply) address]) _
    rw [same.feature]
    exact left

theorem handleReply_exchanges {env : Env} {now : Int} {message : Message}
    {before after : World} {sent : List Sent}
    (done : (handleReply env now message before).out = .ok (after, sent)) :
    Run Exchange before.clients (momentsOf ((now, .reply message), sent)) after.clients := by
  rcases handleReply_eq_ok done with
    ⟨missing, isSent, clients⟩ | ⟨address, buf, found, isSent, clients⟩
  · rw [isSent, clients]
    exact Run.nil
  · rw [isSent, clients]
    change Run Exchange before.clients
      ([] ++ [.replied (featureOf (clearReserved message)) address]) _
    rw [(sameQuestion_clearReserved message).feature]
    exact Run.snoc Run.nil (.replied found)

/-- What one callback takes in and sends out are steps of the desk. -/
theorem Serve.exchanges {before after : World} {label : (Int × Occasion) × List Sent}
    (serve : Serve before label after) :
    Run Exchange before.clients (momentsOf label) after.clients := by
  cases serve with
  | request decoded done =>
      rw [bindSocketRead, Logged.bind_out_of_ok decoded] at done
      exact handleRequest_exchanges done
  | reply decoded done =>
      rw [querySocketRead, Logged.bind_out_of_ok decoded] at done
      exact handleReply_exchanges done
  | sweep done =>
      rw [clearCallback_clients done]
      exact Run.nil

theorem run_exchanges {start world : World} {events : List ((Int × Occasion) × List Sent)}
    (run : Run Serve start events world) :
    Run Exchange start.clients (historyOf events) world.clients := by
  refine run.invariant
    (fun events world => Run Exchange start.clients (historyOf events) world.clients)
    Run.nil ?_
  intro earlier label middle final soFar serve
  rw [historyOf, List.flatMap_append, List.flatMap_singleton]
  exact soFar.append serve.exchanges

/-- No reply is duplicated and none goes astray, in every run from start-up on. -/
theorem replies_match {env : Env} {now : Int} {file : Option (List UInt8)}
    {start world : World} {events : List ((Int × Occasion) × List Sent)} {malloc : Malloc}
    (started : (startUp env malloc now file).out = .ok start)
    (run : Run Serve start events world) : RepliesMatch (historyOf events) := by
  have exchanges := run_exchanges run
  rw [startUp_clients started] at exchanges
  constructor
  · intro now feature
    obtain ⟨table, untilNow⟩ := exchanges.take now
    exact (Nat.le_add_right _ (waiting table feature)).trans
      (exchanges_counted untilNow feature)
  · intro place feature address here
    exact exchanges_latest exchanges here

/-! ### A duplicated upstream reply -/

private def threeLabels : Env := { fuel := 3, junk := fun _ _ => 0 }

private def addressOrReply (flags : UInt8) : Datagram :=
  { buf :=
      { base := [0, 7, flags, 0, 0, 1, 0, 0, 0, 0, 0, 0, 1, 97, 0, 0, 1, 0, 1]
        len := 19 }
    nonempty := Nat.succ_pos (nat_lit 18)
    fits := Nat.le_refl (nat_lit 19) }

private def addressOrReplyMessage (qr : UInt8) : Message :=
  { id := 7
    flags :=
      { qr := qr, opcode := 0, aa := 0, tc := 0, rd := 1, ra := 0, z := 0, rcode := 0 }
    queryCount := 1
    answerCount := 0
    authorityCount := 0
    additionalCount := 0
    queries := [{ name := [97], type := 1, cls := 1 }]
    answers := [] }

private def onceAsked : World × List Sent :=
  returned (bindSocketRead threeLabels (addressOrReply 1) [1] (World.init .ascending))

private def onceReplied : World × List Sent :=
  returned (querySocketRead threeLabels 0 (addressOrReply 0x81) onceAsked.1)

private def twiceReplied : World × List Sent :=
  returned (querySocketRead threeLabels 0 (addressOrReply 0x81) onceReplied.1)

private def repeatedReply : List ((Int × Occasion) × List Sent) :=
  [((0, .request (addressOrReplyMessage 0) [1]), onceAsked.2),
    ((0, .reply (addressOrReplyMessage 1)), onceReplied.2),
    ((0, .reply (addressOrReplyMessage 1)), twiceReplied.2)]

/-- The second copy of an upstream reply is dropped. -/
theorem replies_match_repeated : RepliesMatch (historyOf repeatedReply) := by
  have asked : (buf2message threeLabels (addressOrReply 1).buf).out =
      .ok (addressOrReplyMessage 0) := by rfl
  have told : (buf2message threeLabels (addressOrReply 0x81).buf).out =
      .ok (addressOrReplyMessage 1) := by rfl
  have started : (startUp threeLabels .ascending 0 none).out = .ok (World.init .ascending) := rfl
  exact replies_match started (Run.snoc (Run.snoc (Run.snoc Run.nil
    (.request asked (out_eq_returned (by decide +kernel))))
    (.reply told (out_eq_returned (by decide +kernel))))
    (.reply told (out_eq_returned (by decide +kernel))))

end PostDns
