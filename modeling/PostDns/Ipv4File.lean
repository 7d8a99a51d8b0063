/-
The configuration file of the ipv4 cache (ipv4_cache.c, `ipv4_read_file`).

The text of the file is read with `fgets` into a buffer of 1024 octets.  The copied
address text has no terminator of its own: the zero octet is written one place past the
end of the array, and the last place in the array is never written.
-/

import PostDns.Caches
import PostDns.Encode

namespace PostDns

open Foundation

/-! ### Address texts (libuv, inet.c) -/

/-- The loop of `inet_pton4` over a text without its terminating zero: whether a digit
has been seen in this part, the number of parts, the finished parts and `*tp`. -/
def inetPton4 : List UInt8 → Bool → Nat → List UInt8 → UInt8 → Option (List UInt8)
  | [], _, octets, tmp, tp => if octets < 4 then none else some (tmp ++ [tp])
  | ch :: src, sawDigit, octets, tmp, tp =>
      if 48 ≤ ch ∧ ch ≤ 57 then
        let nw := tp.toNat * 10 + (ch.toNat - 48)
        if sawDigit ∧ tp = 0 then none
        else if 255 < nw then none
        else if sawDigit then inetPton4 src true octets tmp (UInt8.ofNat nw)
        else if 4 < octets + 1 then none
        else inetPton4 src true (octets + 1) tmp (UInt8.ofNat nw)
      else if ch = dot ∧ sawDigit then
        if octets = 4 then none else inetPton4 src false octets (tmp ++ [tp]) 0
      else none

/-- `uv_ip4_addr`: the `s_addr` it leaves, which it has set to zero before it parses. -/
def uvIp4Addr (ip : List UInt8) : UInt32 :=
  match inetPton4 ip false 0 [] 0 with
  | some [b0, b1, b2, b3] => littleEndian32 b0 b1 b2 b3
  | _ => 0

/-! ### Lines -/

/-- `fgets` with room for so many octets: what it reads and what it leaves. -/
def fgets : Nat → List UInt8 → List UInt8 × List UInt8
  | 0, text => ([], text)
  | _ + 1, [] => ([], [])
  | room + 1, letter :: text =>
      if letter = 10 then ([letter], text)
      else (letter :: (fgets room text).1, (fgets room text).2)

/-- What `fgets(buf, 1024, file)` reads until it returns NULL. -/
def fgetsAll : Nat → List UInt8 → List (List UInt8)
  | 0, _ => []
  | _ + 1, [] => []
  | fuel + 1, text => (fgets 1023 text).1 :: fgetsAll fuel (fgets 1023 text).2

def cString (text : List UInt8) : List UInt8 := text.takeWhile (fun letter => letter ≠ 0)

/-- The address text that `uv_ip4_addr` sees: the token and what stands behind it. -/
def addressText (junk : Nat → UInt8) (token : StringT) : Exec (List UInt8) := do
  writeAt (.address (token.length + 1)) (token.length + 1)
  let cells ← memcpyTo (.address (token.length + 1))
    (overlay junk (token.length + 1) [0]) 0 token
  pure (cString (firstCells cells (token.length + 2)))

def putConfigured (env : Env) (now : Int) (line : Nat) (t : HashTable Ipv4Cache)
    (domain token : StringT) : Exec (HashTable Ipv4Cache) := do
  let text ← addressText (env.junk (.address line)) token
  Logged.ofExcept (ipv4CachePut now t domain
    { node := [swap32 (uvIp4Addr text)]
      ttl := 1
      timestamp := -1
      manual := true })

/-- The body of the loop of `ipv4_read_file`.  A line that starts with a zero octet makes
`string_malloc` copy as many octets as an `int` of -1 stands for. -/
def readLine (env : Env) (now : Int) (line : Nat) (buf : List UInt8)
    (t : HashTable Ipv4Cache) : Exec (HashTable Ipv4Cache) :=
  if cString buf = [] then Logged.fail .nullPointer
  else
    match stringSplit (cString buf).dropLast 32 with
    | { array := [domain, token], length := 2 } => putConfigured env now line t domain token
    | _ => pure t

def readLines (env : Env) (now : Int) :
    Nat → List (List UInt8) → HashTable Ipv4Cache → Exec (HashTable Ipv4Cache)
  | _, [], t => pure t
  | line, buf :: bufs, t => do
      let t ← readLine env now line buf t
      readLines env now (line + 1) bufs t

def ipv4ReadFile (env : Env) (now : Int) (text : List UInt8) (t : HashTable Ipv4Cache) :
    Exec (HashTable Ipv4Cache) :=
  readLines env now 0 (fgetsAll text.length text) t

end PostDns
