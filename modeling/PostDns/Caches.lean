/-
The three caches (ipv4_cache.c, ipv6_cache.c, cname_cache.c).

A cached value is kept in its table by value: the program reads and writes it
through the pointer that `hash_table_get` returns.  One callback reads the clock
once.  The sweeps here leave the release of address lists out.
-/

import PostDns.HashTable

namespace PostDns

open Foundation

/-- `ipv4_cache_t` and `ipv6_cache_t`, with the addresses of the list behind
`node`. -/
structure AddressCache (Address : Type) where
  node : List Address
  ttl : Int
  timestamp : Int
  manual : Bool
deriving DecidableEq

abbrev Ipv4Cache := AddressCache UInt32

abbrev Ipv6Cache := AddressCache (List UInt8)

structure CnameCache where
  name : StringT
  ttl : Int
  timestamp : Int
  manual : Bool
deriving DecidableEq

variable {α Address : Type}

def writeThrough (t : HashTable α) (name : StringT) (data : α) :
    Except Fault (HashTable α) := do
  let found ← findNode t name t.chainBound (some (.head (bucketIndex name t.capacity)))
  match found with
  | some ref => do
      let node ← t.read ref
      pure (t.write ref { node with data := some data })
  | none => .error .nullPointer

/-! ### Address caches -/

/-- What both `put` functions leave in the entry they create or renew. -/
def AddressCache.stored (now : Int) (cache : AddressCache Address) :
    AddressCache Address :=
  { node := cache.node
    ttl := cache.ttl
    timestamp := now
    manual := false }

def ipv4CacheGet (t : HashTable Ipv4Cache) (name : StringT) :
    Except Fault (Option Ipv4Cache) :=
  hashTableGet t name

def ipv4CachePut (now : Int) (t : HashTable Ipv4Cache) (name : StringT)
    (cache : Ipv4Cache) : Except Fault (HashTable Ipv4Cache) := do
  let oldCache ← ipv4CacheGet t name
  match oldCache with
  | none => hashTablePut t (some name) (some (cache.stored now))
  | some old =>
      if old.manual then pure t
      else writeThrough t name (cache.stored now)

def ipv6CacheGet (t : HashTable Ipv6Cache) (name : StringT) :
    Except Fault (Option Ipv6Cache) :=
  hashTableGet t name

def ipv6CachePut (now : Int) (t : HashTable Ipv6Cache) (name : StringT)
    (cache : Ipv6Cache) : Except Fault (HashTable Ipv6Cache) := do
  let oldCache ← ipv6CacheGet t name
  match oldCache with
  | none => hashTablePut t (some name) (some (cache.stored now))
  | some _ => writeThrough t name (cache.stored now)

/-! ### Aliases -/

def cnameCacheGet (t : HashTable CnameCache) (name : StringT) :
    Except Fault (Option CnameCache) :=
  hashTableGet t name

def cnameCachePut (now : Int) (t : HashTable CnameCache) (name : StringT)
    (cache : CnameCache) : Except Fault (HashTable CnameCache) :=
  hashTablePut t (some name)
    (some { name := cache.name, ttl := cache.ttl, timestamp := now, manual := false })

/-! ### Sweeps -/

/-- The body of the loop along a chain, which notes the name of an expired entry in
`result`. -/
def noteExpired (size : Nat) (expired : α → Bool) (name : StringT) :
    Option α → List StringT → Exec (List StringT)
  | none, _ => Logged.fail .nullPointer
  | some cache, result =>
      if expired cache then do
        writeAt (.expired size) result.length
        pure (result ++ [name])
      else pure result

def collectChain (size : Nat) (expired : α → Bool) (t : HashTable α) :
    Nat → Option NodeRef → List StringT → Exec (List StringT)
  | 0, _, _ => Logged.fail .outOfFuel
  | _ + 1, none, result => pure result
  | fuel + 1, some ref, result => do
      let node ← Logged.ofExcept (t.read ref)
      match node.name with
      | none => pure result
      | some name => do
          let result ← noteExpired size expired name node.data result
          collectChain size expired t fuel (node.next.map .chain) result

/-- The loop over the buckets with `count` of them to go. -/
def collectExpired (size : Nat) (expired : α → Bool) (t : HashTable α) :
    Nat → Nat → List StringT → Exec (List StringT)
  | 0, _, result => pure result
  | count + 1, i, result => do
      let result ← collectChain size expired t t.chainBound (some (.head i)) result
      collectExpired size expired t count (i + 1) result

def removeExpired : List StringT → HashTable α → Exec (HashTable α)
  | [], t => pure t
  | name :: names, t => do
      let t ← Logged.ofExcept (hashTableRemove t name)
      removeExpired names t

/-- What `ipv4_cache_clear` and `ipv6_cache_clear` share; the array of names has as many
elements as the table counts. -/
def cacheClear (expired : α → Bool) (t : HashTable α) : Exec (HashTable α) := do
  let result ← collectExpired t.count expired t t.capacity 0 []
  removeExpired result t

def ipv4CacheClear (now : Int) (t : HashTable Ipv4Cache) : Exec (HashTable Ipv4Cache) :=
  cacheClear (fun cache => !cache.manual && decide (cache.timestamp + cache.ttl < now)) t

def ipv6CacheClear (now : Int) (t : HashTable Ipv6Cache) : Exec (HashTable Ipv6Cache) :=
  cacheClear (fun cache => decide (cache.timestamp + cache.ttl < now)) t

/-- The body is empty. -/
def cnameCacheClear (t : HashTable CnameCache) : Exec (HashTable CnameCache) :=
  pure t

end PostDns
