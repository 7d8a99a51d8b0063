/-
The callbacks with the hash table of clients (socket.c and main.c).

`clients_hash_table` is the chained hash table here that the program keeps, with its chains
and its resizes, in place of a finite map.  As long as no removal from it meets its feature
string at the head of a long chain, each callback is the one on finite maps: it makes the
same accesses, sends the same datagrams and stops with the same faults.
-/

import PostDns.Replies
import PostDns.Sweeping

namespace PostDns

open Foundation

/-! ### State -/

structure HashedWorld where
  ipv4Table : HashTable Ipv4Cache
  ipv6Table : HashTable Ipv6Cache
  cnameTable : HashTable CnameCache
  clientsHashTable : HashTable SockAddr

def HashedWorld.init (malloc : Malloc) : HashedWorld :=
  { ipv4Table := hashTableNew malloc.ipv4
    ipv6Table := hashTableNew malloc.ipv6
    cnameTable := hashTableNew malloc.cname
    clientsHashTable := hashTableNew malloc.clients }

/-- The caches, for the functions that leave the clients alone. -/
def HashedWorld.caches (world : HashedWorld) : World :=
  { ipv4Table := world.ipv4Table
    ipv6Table := world.ipv6Table
    cnameTable := world.cnameTable
    clients := fun _ => none }

def HashedWorld.withCaches (world : HashedWorld) (caches : World) : HashedWorld :=
  { world with
    ipv4Table := caches.ipv4Table
    ipv6Table := caches.ipv6Table
    cnameTable := caches.cnameTable }

/-! ### Senders -/

def sendQueryHashed (env : Env) (world : HashedWorld) (message : Message) :
    Exec (HashedWorld × List Sent) := do
  let buf ← sendQuery env message
  pure (world, [.query (clearReserved message) buf])

/-- The reply is handed over before the entry of the client is removed. -/
def sendResponseHashed (env : Env) (world : HashedWorld) (message : Message) :
    Exec (HashedWorld × List Sent) := do
  let featureVector ← message2featureString message
  let clientAddress ← Logged.ofExcept (hashTableGet world.clientsHashTable featureVector)
  match clientAddress with
  | none => pure (world, [])
  | some address => do
      let buf ← message2buf env (clearReserved message)
      let clientsHashTable ←
        Logged.ofExcept (hashTableRemove world.clientsHashTable featureVector)
      pure
        ({ world with clientsHashTable := clientsHashTable },
          [.response address (clearReserved message) buf])

/-! ### Callbacks -/

def handleReplyHashed (env : Env) (now : Int) (message : Message) (world : HashedWorld) :
    Exec (HashedWorld × List Sent) := do
  let _ ← messageLog message
  let answers ← initialised message.answerCount message.answers
  let collected ← cacheAnswers now answers (Collected.start now world.cnameTable)
  let caches ← storeAddresses now world.caches collected
  sendResponseHashed env (world.withCaches caches) message

def querySocketReadHashed (env : Env) (now : Int) (datagram : Datagram) (world : HashedWorld) :
    Exec (HashedWorld × List Sent) := do
  let message ← buf2message env datagram.buf
  handleReplyHashed env now message world

def answerLocallyHashed (env : Env) (world : HashedWorld) (pass : FirstPass) (message : Message)
    (queries : List Query) : Exec (HashedWorld × List Sent) :=
  let back := backMessage message queries
  if pass.banned then
    sendResponseHashed env world { back with flags := { back.flags with rcode := 3 } }
  else do
    let answers ← answerQueries env world.caches pass.answerCount queries []
    sendResponseHashed env world
      { back with answerCount := UInt16.ofNat pass.answerCount, answers := answers }

def handleRequestHashed (env : Env) (address : SockAddr) (message : Message)
    (world : HashedWorld) : Exec (HashedWorld × List Sent) := do
  let _ ← messageLog message
  let feature ← message2featureString message
  let clientsHashTable ←
    Logged.ofExcept (hashTablePut world.clientsHashTable (some feature) (some address))
  let world := { world with clientsHashTable := clientsHashTable }
  let queries ← initialised message.queryCount message.queries
  let pass ← countQueries env world.caches queries (FirstPass.start world.ipv4Table)
  let world := { world with ipv4Table := pass.ipv4Table }
  if pass.cached then answerLocallyHashed env world pass message queries
  else sendQueryHashed env world message

def bindSocketReadHashed (env : Env) (datagram : Datagram) (address : SockAddr)
    (world : HashedWorld) : Exec (HashedWorld × List Sent) := do
  let message ← buf2message env datagram.buf
  handleRequestHashed env address message world

def clearCallbackHashed (now : Int) (world : HashedWorld) : Exec HashedWorld := do
  let caches ← clearCallback now world.caches
  pure (world.withCaches caches)

/-- The pending table is set up first, then the caches. -/
def startUpHashed (env : Env) (malloc : Malloc) (now : Int) (file : Option (List UInt8)) :
    Exec HashedWorld := do
  let caches ← startUp env malloc now file
  pure ((HashedWorld.init malloc).withCaches caches)

inductive ServeHashed (before : HashedWorld) :
    (Int × Occasion) × List Sent → HashedWorld → Prop where
  | request {env : Env} {now : Int} {datagram : Datagram} {address : SockAddr}
      {message : Message} {sent : List Sent} {after : HashedWorld} :
      (buf2message env datagram.buf).out = .ok message →
      (bindSocketReadHashed env datagram address before).out = .ok (after, sent) →
      ServeHashed before ((now, .request message address), sent) after
  | reply {env : Env} {now : Int} {datagram : Datagram} {message : Message}
      {sent : List Sent} {after : HashedWorld} :
      (buf2message env datagram.buf).out = .ok message →
      (querySocketReadHashed env now datagram before).out = .ok (after, sent) →
      ServeHashed before ((now, .reply message), sent) after
  | sweep {now : Int} {after : HashedWorld} :
      (clearCallbackHashed now before).out = .ok after →
      ServeHashed before ((now, .sweep), []) after

/-! ### The finite map behind the hash table -/

def HashedWorld.plain (world : HashedWorld) (clients : Clients) : World :=
  { world.caches with clients := clients }

inductive Matches (hashed : HashedWorld) : World → Prop where
  | intro {clients : Clients} (isMap : IsMap hashed.clientsHashTable clients) :
      Matches hashed (hashed.plain clients)

structure ResultsMatch (hashed : HashedWorld × List Sent) (plain : World × List Sent) :
    Prop where
  states : Matches hashed.1 plain.1
  sent : plain.2 = hashed.2

theorem Matches.get {hashed : HashedWorld} {world : World} (matching : Matches hashed world)
    (feature : StringT) :
    hashTableGet hashed.clientsHashTable feature = .ok (world.clients feature) := by
  cases matching with
  | intro isMap => exact hashTableGet_isMap isMap feature

/-- The functions that write the caches leave the clients alone. -/
theorem storeAddresses_parallel (now : Int) (world : World) (clients : Clients)
    (collected : Collected) :
    Logged.Parallel (fun left right => right = { left with clients := clients })
      (storeAddresses now world collected)
      (storeAddresses now { world with clients := clients } collected) := by
  refine (Logged.parallel_self _).bind ?_
  rintro ipv4Table _ ⟨_, rfl⟩
  refine (Logged.parallel_self _).bind ?_
  rintro ipv6Table _ ⟨_, rfl⟩
  exact Logged.parallel_pure rfl

theorem clearCallback_parallel (now : Int) (world : World) (clients : Clients) :
    Logged.Parallel (fun left right => right = { left with clients := clients })
      (clearCallback now world) (clearCallback now { world with clients := clients }) := by
  refine (Logged.parallel_self _).bind ?_
  rintro ipv4Table _ ⟨_, rfl⟩
  refine (Logged.parallel_self _).bind ?_
  rintro ipv6Table _ ⟨_, rfl⟩
  refine (Logged.parallel_self _).bind ?_
  rintro cnameTable _ ⟨_, rfl⟩
  exact Logged.parallel_pure rfl

/-! ### Senders side by side -/

section Parallel

variable {env : Env} {hashed : HashedWorld} {clients : Clients} {message : Message}
  (isMap : IsMap hashed.clientsHashTable clients)

include isMap

theorem sendQueryHashed_parallel :
    Logged.Parallel ResultsMatch (sendQueryHashed env hashed message)
      (sendQueryFrom env (hashed.plain clients) message) := by
  refine (Logged.parallel_self _).bind ?_
  rintro buf _ ⟨_, rfl⟩
  exact Logged.parallel_pure ⟨.intro isMap, rfl⟩

/-- The removal of a client that waits is that of the map, away from long chains. -/
theorem removeClient_of_safe {feature : StringT} {address : SockAddr}
    (waits : clients feature = some address)
    (safe : ¬ HeadOfLongChain hashed.clientsHashTable feature) :
    ∃ t, hashTableRemove hashed.clientsHashTable feature = .ok t ∧
      IsMap t (Function.update clients feature none) := by
  obtain ⟨contents, laid, means⟩ := isMap
  rw [means] at waits
  rcases removal_cases laid waits with long | ⟨t, entries, done, removed⟩
  · exact absurd long safe
  · exact ⟨t, done, removed.isMap laid means⟩

theorem sendResponseHashed_parallel
    (safe : ¬ HeadOfLongChain hashed.clientsHashTable (featureOf message)) :
    Logged.Parallel ResultsMatch (sendResponseHashed env hashed message)
      (sendResponseFrom env (hashed.plain clients) message) := by
  rw [sendResponseFrom, sendResponse, Logged.bind_assoc]
  refine (Logged.parallel_self _).bind ?_
  rintro feature _ ⟨featured, rfl⟩
  have isFeature := message2featureString_eq_ok featured
  subst isFeature
  rw [hashTableGet_isMap isMap, Logged.ofExcept_ok, Logged.pure_bind]
  cases hWaits : clients (featureOf message) with
  | none =>
      simp only [HashedWorld.plain, hWaits]
      exact Logged.parallel_pure ⟨.intro isMap, rfl⟩
  | some address =>
      obtain ⟨t, removed, isMap'⟩ := removeClient_of_safe isMap hWaits safe
      simp only [HashedWorld.plain, hWaits, removed]
      rw [Logged.bind_assoc]
      refine (Logged.parallel_self _).bind ?_
      rintro buf _ ⟨_, rfl⟩
      exact Logged.parallel_pure ⟨.intro isMap', rfl⟩

/-! ### Callbacks side by side -/

theorem handleReplyHashed_parallel {now : Int}
    (safe : ¬ HeadOfLongChain hashed.clientsHashTable (featureOf message)) :
    Logged.Parallel ResultsMatch (handleReplyHashed env now message hashed)
      (handleReply env now message (hashed.plain clients)) := by
  refine (Logged.parallel_self _).bind ?_
  rintro lines _ ⟨_, rfl⟩
  refine (Logged.parallel_self _).bind ?_
  rintro answers _ ⟨_, rfl⟩
  refine (Logged.parallel_self _).bind ?_
  rintro collected _ ⟨_, rfl⟩
  refine (storeAddresses_parallel now hashed.caches clients collected).bind ?_
  rintro caches _ rfl
  have kept : IsMap (hashed.withCaches caches).clientsHashTable clients := isMap
  exact sendResponseHashed_parallel kept safe

theorem answerLocallyHashed_parallel {pass : FirstPass}
    (safe : ¬ HeadOfLongChain hashed.clientsHashTable (featureOf message)) :
    Logged.Parallel ResultsMatch
      (answerLocallyHashed env hashed pass message (questionsOf message))
      (answerLocally env (hashed.plain clients) pass message (questionsOf message)) := by
  rw [← (sameQuestion_backMessage message).feature] at safe
  unfold answerLocallyHashed answerLocally
  cases hBanned : pass.banned with
  | true =>
      simp only [if_true]
      exact sendResponseHashed_parallel isMap safe
  | false =>
      simp only [Bool.false_eq_true, if_false]
      have same : answerQueries env (hashed.plain clients) pass.answerCount
          (questionsOf message) [] =
          answerQueries env hashed.caches pass.answerCount (questionsOf message) [] :=
        answerQueries_clients env hashed.caches clients _ _ _
      rw [same]
      refine (Logged.parallel_self _).bind ?_
      rintro answers _ ⟨_, rfl⟩
      exact sendResponseHashed_parallel isMap safe

theorem handleRequestHashed_parallel {address : SockAddr}
    (safe : ∀ t, hashTablePut hashed.clientsHashTable (some (featureOf message))
      (some address) = .ok t → ¬ HeadOfLongChain t (featureOf message)) :
    Logged.Parallel ResultsMatch (handleRequestHashed env address message hashed)
      (handleRequest env address message (hashed.plain clients)) := by
  refine (Logged.parallel_self _).bind ?_
  rintro lines _ ⟨_, rfl⟩
  refine (Logged.parallel_self _).bind ?_
  rintro feature _ ⟨featured, rfl⟩
  have isFeature := message2featureString_eq_ok featured
  subst isFeature
  obtain ⟨t, put, isMap'⟩ := hashTablePut_isMap isMap (featureOf message) address
  rw [put, Logged.ofExcept_ok, Logged.pure_bind]
  refine (Logged.parallel_self _).bind ?_
  rintro queries _ ⟨ready, rfl⟩
  have isQuestions : queries = questionsOf message := initialised_eq_ok ready
  subst isQuestions
  let entered : HashedWorld := { hashed with clientsHashTable := t }
  let waiting : Clients := Function.update clients (featureOf message) (some address)
  have same : countQueries env (entered.plain waiting) (questionsOf message)
      (FirstPass.start entered.ipv4Table) =
      countQueries env entered.caches (questionsOf message)
        (FirstPass.start entered.ipv4Table) := by
    apply countQueries_congr <;> rfl
  have counts : Logged.Parallel Eq
      (countQueries env entered.caches (questionsOf message)
        (FirstPass.start entered.ipv4Table))
      (countQueries env (entered.plain waiting) (questionsOf message)
        (FirstPass.start entered.ipv4Table)) := by
    rw [same]
    exact (Logged.parallel_self _).of_ok fun _ _ _ both => both.2
  refine counts.bind ?_
  rintro pass _ rfl
  let counted : HashedWorld := { entered with ipv4Table := pass.ipv4Table }
  have kept : IsMap counted.clientsHashTable waiting := isMap'
  cases hCached : pass.cached with
  | true =>
      simp only [if_true]
      exact answerLocallyHashed_parallel kept (safe t put)
  | false =>
      simp only [Bool.false_eq_true, if_false]
      exact sendQueryHashed_parallel kept

end Parallel

end PostDns
