/-
The two receive callbacks (socket.c).

A callback takes the state that the callbacks share and returns it with what it
handed to `uv_udp_send`, in order.
-/

import PostDns.Caches
import PostDns.Decode
import PostDns.MessageLog
import PostDns.Send

namespace PostDns

open Foundation

structure World where
  ipv4Table : HashTable Ipv4Cache
  ipv6Table : HashTable Ipv6Cache
  cnameTable : HashTable CnameCache
  clients : Clients

/-- What `malloc` returns for the chain nodes of each table; none of them gets an address
that another one has released. -/
structure Malloc where
  ipv4 : List Nat
  ipv6 : List Nat
  cname : List Nat
  clients : List Nat

def Malloc.ascending : Malloc :=
  { ipv4 := []
    ipv6 := []
    cname := []
    clients := [] }

def World.init (malloc : Malloc) : World :=
  { ipv4Table := hashTableNew malloc.ipv4
    ipv6Table := hashTableNew malloc.ipv6
    cnameTable := hashTableNew malloc.cname
    clients := fun _ => none }

inductive Sent where
  | query (message : Message) (buf : UvBuf)
  | response (address : SockAddr) (message : Message) (buf : UvBuf)

def sendQueryFrom (env : Env) (world : World) (message : Message) :
    Exec (World × List Sent) := do
  let buf ← sendQuery env message
  pure (world, [.query (clearReserved message) buf])

def sendResponseFrom (env : Env) (world : World) (message : Message) :
    Exec (World × List Sent) := do
  let sent ← sendResponse env world.clients message
  match sent.1 with
  | none => pure ({ world with clients := sent.2 }, [])
  | some (address, buf) =>
      pure ({ world with clients := sent.2 },
        [.response address (clearReserved message) buf])

/-! ### Upstream replies -/

/-- The local variables of `query_socket_read` and the table that its loop
writes. -/
structure Collected where
  cnameTable : HashTable CnameCache
  ipv4Domain : Option StringT
  ipv4Cache : Ipv4Cache
  ipv6Domain : Option StringT
  ipv6Cache : Ipv6Cache

def Collected.start (now : Int) (cnameTable : HashTable CnameCache) : Collected :=
  { cnameTable := cnameTable
    ipv4Domain := none
    ipv4Cache := { node := [], ttl := 120, timestamp := now, manual := false }
    ipv6Domain := none
    ipv6Cache := { node := [], ttl := 120, timestamp := now, manual := false } }

/-- The `switch` over one answer. -/
def cacheAnswer (now : Int) (collected : Collected) (answer : ResourceRecord) :
    Exec Collected :=
  if answer.type = 1 then
    match answer.responseData with
    | .inet4 address =>
        let cache := collected.ipv4Cache
        pure
          { collected with
            ipv4Domain := some answer.name
            ipv4Cache := { cache with node := cache.node ++ [address] } }
    | _ => Logged.fail .uninitialised
  else if answer.type = 5 then
    match answer.responseData with
    | .domain name => do
        let cnameTable ← Logged.ofExcept (cnameCachePut now collected.cnameTable
          answer.name { name := name, ttl := 120, timestamp := now, manual := false })
        pure { collected with cnameTable := cnameTable }
    | _ => Logged.fail .uninitialised
  else if answer.type = 28 then
    match answer.responseData with
    | .inet6 address =>
        let cache := collected.ipv6Cache
        pure
          { collected with
            ipv6Domain := some answer.name
            ipv6Cache := { cache with node := cache.node ++ [address] } }
    | _ => Logged.fail .uninitialised
  else pure collected

def cacheAnswers (now : Int) : List ResourceRecord → Collected → Exec Collected
  | [], collected => pure collected
  | answer :: answers, collected => do
      let collected ← cacheAnswer now collected answer
      cacheAnswers now answers collected

/-- `if (domain != NULL) put(domain)`. -/
def putNamed {Table : Type} (table : Table) (put : StringT → Except Fault Table) :
    Option StringT → Exec Table
  | some domain => Logged.ofExcept (put domain)
  | none => pure table

def storeAddresses (now : Int) (world : World) (collected : Collected) : Exec World := do
  let ipv4Table ← putNamed world.ipv4Table
    (fun domain => ipv4CachePut now world.ipv4Table domain collected.ipv4Cache)
    collected.ipv4Domain
  let ipv6Table ← putNamed world.ipv6Table
    (fun domain => ipv6CachePut now world.ipv6Table domain collected.ipv6Cache)
    collected.ipv6Domain
  pure
    { world with
      ipv4Table := ipv4Table
      ipv6Table := ipv6Table
      cnameTable := collected.cnameTable }

/-- `query_socket_read` once the message is decoded. -/
def handleReply (env : Env) (now : Int) (message : Message) (world : World) :
    Exec (World × List Sent) := do
  let _ ← messageLog message
  let answers ← initialised message.answerCount message.answers
  let collected ← cacheAnswers now answers (Collected.start now world.cnameTable)
  let world ← storeAddresses now world collected
  sendResponseFrom env world message

def querySocketRead (env : Env) (now : Int) (datagram : Datagram) (world : World) :
    Exec (World × List Sent) := do
  let message ← buf2message env datagram.buf
  handleReply env now message world

/-! ### Client requests -/

/-- `while (cname_cache != NULL)`, from the lookup in front of the loop on: the
name without an alias that the loop ends at, and what its body made of each
alias. -/
def cnameLoop {β : Type} (visit : StringT → CnameCache → β → Exec β)
    (cnameTable : HashTable CnameCache) : Nat → StringT → β → Exec (StringT × β)
  | 0, _, _ => Logged.fail .outOfFuel
  | fuel + 1, domain, made => do
      let cnameCache ← Logged.ofExcept (cnameCacheGet cnameTable domain)
      match cnameCache with
      | none => pure (domain, made)
      | some cache => do
          let made ← visit domain cache made
          cnameLoop visit cnameTable fuel cache.name made

/-- `answer_count++`. -/
def countAlias (_ : StringT) (_ : CnameCache) (answerCount : Nat) : Exec Nat :=
  pure (answerCount + 1)

/-- The local variables of the first pass and the table that it writes: the
condition of the banned branch assigns to `manual`. -/
structure FirstPass where
  answerCount : Nat
  cached : Bool
  banned : Bool
  ipv4Table : HashTable Ipv4Cache

def FirstPass.start (ipv4Table : HashTable Ipv4Cache) : FirstPass :=
  { answerCount := 0
    cached := true
    banned := false
    ipv4Table := ipv4Table }

/-- The first pass at a cached address list, with the assignment in its condition. -/
def countIpv4Cache (pass : FirstPass) (domain : StringT) (answerCount : Nat)
    (cache : Ipv4Cache) : Exec FirstPass :=
  match cache.node with
  | [] => Logged.fail .nullPointer
  | address :: _ => do
      let manual := decide (address = 0)
      let ipv4Table ← Logged.ofExcept
        (writeThrough pass.ipv4Table domain { cache with manual := manual })
      if manual then
        pure
          { pass with
            answerCount := answerCount
            banned := true
            ipv4Table := ipv4Table }
      else
        pure
          { pass with
            answerCount := answerCount + cache.node.length
            ipv4Table := ipv4Table }

def countQuery (env : Env) (world : World) (query : Query) (pass : FirstPass) :
    Exec FirstPass :=
  if query.type = 1 then do
    let chased ← cnameLoop countAlias world.cnameTable env.fuel query.name pass.answerCount
    let cache ← Logged.ofExcept (ipv4CacheGet pass.ipv4Table chased.1)
    match cache with
    | none => pure { pass with answerCount := chased.2, cached := false }
    | some cache => countIpv4Cache pass chased.1 chased.2 cache
  else if query.type = 5 then do
    let cnameCache ← Logged.ofExcept (cnameCacheGet world.cnameTable query.name)
    match cnameCache with
    | none => pure { pass with cached := false }
    | some _ => do
        let chased ←
          cnameLoop countAlias world.cnameTable env.fuel query.name pass.answerCount
        pure { pass with answerCount := chased.2 }
  else if query.type = 28 then do
    let chased ← cnameLoop countAlias world.cnameTable env.fuel query.name pass.answerCount
    let cache ← Logged.ofExcept (ipv6CacheGet world.ipv6Table chased.1)
    match cache with
    | none => pure { pass with answerCount := chased.2, cached := false }
    | some cache => pure { pass with answerCount := chased.2 + cache.node.length }
  else pure pass

def countQueries (env : Env) (world : World) : List Query → FirstPass → Exec FirstPass
  | [], pass => pure pass
  | query :: queries, pass =>
      if pass.cached then do
        let pass ← countQuery env world query pass
        countQueries env world queries pass
      else pure pass

def generateCnameResponse (domain name : StringT) : ResourceRecord :=
  { name := domain
    type := 5
    cls := 1
    ttl := 120
    responseDataLength := UInt16.ofNat domain.length
    responseData := .domain name }

def generateIpv4Response (name : StringT) (address : UInt32) : ResourceRecord :=
  { name := name
    type := 1
    cls := 1
    ttl := 120
    responseDataLength := 4
    responseData := .inet4 address }

def generateIpv6Response (name : StringT) (address : List UInt8) : ResourceRecord :=
  { name := name
    type := 28
    cls := 1
    ttl := 120
    responseDataLength := 16
    responseData := .inet6 address }

/-- `back_message->answers[answer_count]` is filled in and `answer_count` goes up;
`size` records were allocated. -/
def putAnswer (size : Nat) (answers : List ResourceRecord) (record : ResourceRecord) :
    Exec (List ResourceRecord) := do
  writeAt (.answers size) answers.length
  pure (answers ++ [record])

def putAlias (size : Nat) (domain : StringT) (cache : CnameCache)
    (answers : List ResourceRecord) : Exec (List ResourceRecord) :=
  putAnswer size answers (generateCnameResponse domain cache.name)

/-- `while (node != NULL)` of the second pass. -/
def putAddresses {Address : Type} (size : Nat) (generate : Address → ResourceRecord) :
    List Address → List ResourceRecord → Exec (List ResourceRecord)
  | [], answers => pure answers
  | address :: addresses, answers => do
      let answers ← putAnswer size answers (generate address)
      putAddresses size generate addresses answers

def answerQuery (env : Env) (world : World) (size : Nat) (query : Query)
    (answers : List ResourceRecord) : Exec (List ResourceRecord) :=
  if query.type = 1 then do
    let chased ← cnameLoop (putAlias size) world.cnameTable env.fuel query.name answers
    let cache ← Logged.ofExcept (ipv4CacheGet world.ipv4Table chased.1)
    match cache with
    | none => pure chased.2
    | some cache =>
        putAddresses size (generateIpv4Response chased.1) cache.node chased.2
  else if query.type = 5 then do
    let chased ← cnameLoop (putAlias size) world.cnameTable env.fuel query.name answers
    pure chased.2
  else if query.type = 28 then do
    let chased ← cnameLoop (putAlias size) world.cnameTable env.fuel query.name answers
    let cache ← Logged.ofExcept (ipv6CacheGet world.ipv6Table chased.1)
    match cache with
    | none => pure chased.2
    | some cache =>
        putAddresses size (generateIpv6Response chased.1) cache.node chased.2
  else pure answers

def answerQueries (env : Env) (world : World) (size : Nat) :
    List Query → List ResourceRecord → Exec (List ResourceRecord)
  | [], answers => pure answers
  | query :: queries, answers => do
      let answers ← answerQuery env world size query answers
      answerQueries env world size queries answers

/-- `message_copy_header_queries` and the three assignments behind it.  `Z` stays
unset until the sender clears it. -/
def backMessage (message : Message) (queries : List Query) : Message :=
  { id := message.id
    flags :=
      { qr := 1
        opcode := message.flags.opcode
        aa := message.flags.aa
        tc := message.flags.tc
        rd := 0
        ra := message.flags.ra
        z := 0
        rcode := 0 }
    queryCount := message.queryCount
    answerCount := 0
    authorityCount := 0
    additionalCount := 0
    queries := queries
    answers := [] }

/-- The reply from the caches, once the first pass has found everything there. -/
def answerLocally (env : Env) (world : World) (pass : FirstPass) (message : Message)
    (queries : List Query) : Exec (World × List Sent) :=
  let back := backMessage message queries
  if pass.banned then
    sendResponseFrom env world { back with flags := { back.flags with rcode := 3 } }
  else do
    let answers ← answerQueries env world pass.answerCount queries []
    sendResponseFrom env world
      { back with answerCount := UInt16.ofNat pass.answerCount, answers := answers }

/-- `bind_socket_read` once the message is decoded. -/
def handleRequest (env : Env) (address : SockAddr) (message : Message) (world : World) :
    Exec (World × List Sent) := do
  let _ ← messageLog message
  let feature ← message2featureString message
  let world := { world with clients := Function.update world.clients feature (some address) }
  let queries ← initialised message.queryCount message.queries
  let pass ← countQueries env world queries (FirstPass.start world.ipv4Table)
  let world := { world with ipv4Table := pass.ipv4Table }
  if pass.cached then answerLocally env world pass message queries
  else sendQueryFrom env world message

def bindSocketRead (env : Env) (datagram : Datagram) (address : SockAddr)
    (world : World) : Exec (World × List Sent) := do
  let message ← buf2message env datagram.buf
  handleRequest env address message world

end PostDns
