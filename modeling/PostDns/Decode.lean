/-
Decoding a datagram (message.c, `buf2message` and what it calls).

Positions are absolute in the receive allocation.  Loops that the datagram
steers take a bound on their iterations and report when they run into it; that
bound is the only difference from the loops of the source.
-/

import PostDns.Memory
import PostDns.Message
import PostDns.Utils

namespace PostDns

open Foundation

/-- `char2Short(buf[index], buf[index + 1])`. -/
def readShort (buf : List UInt8) (index : Nat) : Exec UInt16 := do
  let high ← readBase buf index
  let low ← readBase buf (index + 1)
  pure (char2Short high low)

/-! ### Header -/

/-- The bits of a `char`, most significant first. -/
def char2bit (ch : UInt8) : List UInt8 :=
  ([7, 6, 5, 4, 3, 2, 1, 0] : List UInt32).map
    (fun j => ((promote ch >>> j) &&& 1).toUInt8)

def bits2flags (flags : List UInt8) : Flags :=
  let bit := fun i => flags.getD i 0
  { qr := bit 0
    opcode := (bit 1 <<< 3) + (bit 2 <<< 2) + (bit 3 <<< 1) + bit 4
    aa := bit 5
    tc := bit 6
    rd := bit 7
    ra := bit 8
    z := (bit 9 <<< 2) + (bit 10 <<< 1) + bit 11
    rcode := (bit 12 <<< 3) + (bit 13 <<< 2) + (bit 14 <<< 1) + bit 15 }

def buf2messageHeader (buf : List UInt8) : Exec Message := do
  let id ← readShort buf 0
  let first ← readBase buf 2
  let second ← readBase buf 3
  let queryCount ← readShort buf 4
  let answerCount ← readShort buf 6
  let authorityCount ← readShort buf 8
  let additionalCount ← readShort buf 10
  pure
    { id := id
      flags := bits2flags (char2bit first ++ char2bit second)
      queryCount := queryCount
      answerCount := answerCount
      authorityCount := authorityCount
      additionalCount := additionalCount
      queries := []
      answers := [] }

/-! ### Names -/

/-- The inner `for` loop of the three readers: the next `count` octets go to the
cells of the array from the current one on. -/
def copyLetters (buf : List UInt8) (region : Region) :
    Nat → Nat → List UInt8 → Exec (List UInt8)
  | 0, _, cells => pure cells
  | count + 1, bufPos, cells => do
      let octet ← readBase buf bufPos
      writeAt region cells.length
      copyLetters buf region count (bufPos + 1) (cells ++ [octet])

/-- The terminating write one cell before the current one, and the string that
ends there.  Without a cell the write is at index -1 and a length of -1 is handed on,
which is more octets than there are to copy. -/
def closeString (region : Region) (cells : List UInt8) : Exec StringT := do
  writeAt region ((cells.length : Int) - 1)
  match cells with
  | [] => Logged.fail .emptyName
  | _ => pure cells.dropLast

/-- The `while` loop over the labels of a question name. -/
def questionName (buf : List UInt8) :
    Nat → Nat → List UInt8 → Exec (Nat × List UInt8)
  | 0, _, _ => Logged.fail .outOfFuel
  | fuel + 1, bufPos, cells => do
      let octet ← readBase buf bufPos
      if octet = 0 then
        pure (bufPos, cells)
      else do
        let copied ← copyLetters buf .qvalue octet.toNat (bufPos + 1) cells
        writeAt .qvalue copied.length
        questionName buf fuel (bufPos + 1 + octet.toNat) (copied ++ [dot])

/-- The recursive reader of possibly compressed names, returning the position of
the last octet it read in place. -/
def createName (buf : List UInt8) (region : Region) :
    Nat → Nat → List UInt8 → Exec (Nat × List UInt8)
  | 0, _, _ => Logged.fail .outOfFuel
  | fuel + 1, bufPos, cells => do
      let octet ← readBase buf bufPos
      if octet = 0 then
        pure (bufPos, cells)
      else if octet &&& 0xc0 = 0xc0 then do
        let low ← readBase buf (bufPos + 1)
        let jumped ←
          createName buf region fuel (char2Short (octet &&& 0x3f) low).toNat cells
        pure (bufPos + 1, jumped.2)
      else do
        let copied ← copyLetters buf region octet.toNat (bufPos + 1) cells
        writeAt region copied.length
        createName buf region fuel (bufPos + 1 + octet.toNat) (copied ++ [dot])

/-! ### Questions -/

def buf2messageQuery (env : Env) (buf : List UInt8) (bufPos : Nat) :
    Exec (Query × Nat) := do
  let named ← questionName buf env.fuel bufPos []
  let name ← closeString .qvalue named.2
  let type ← readShort buf (named.1 + 1)
  let cls ← readShort buf (named.1 + 3)
  pure ({ name := name, type := type, cls := cls }, named.1 + 5)

def buf2messageQuestion (env : Env) (buf : List UInt8) :
    Nat → Nat → Exec (List Query × Nat)
  | 0, bufPos => pure ([], bufPos)
  | count + 1, bufPos => do
      let entry ← buf2messageQuery env buf bufPos
      let rest ← buf2messageQuestion env buf count entry.2
      pure (entry.1 :: rest.1, rest.2)

/-! ### Records -/

/-- `strcpy(result, Name)` into an array as long as the name and its
terminator: everything past the first zero octet keeps its old contents. -/
def strcpyResult (junk : Nat → UInt8) (name : List UInt8) : StringT :=
  let copied := name.takeWhile (fun letter => letter ≠ 0)
  if copied.length = name.length then name
  else
    copied ++ 0 ::
      (List.range (name.length - copied.length - 1)).map
        (fun i => junk (copied.length + 1 + i))

/-- The outer loop runs at most once, because the inner one advances by the
whole length; it leaves the cell after the data as it was initialised. -/
def createRDataAddress (buf : List UInt8) (bufPos length : Nat) :
    Exec (Nat × List UInt8) :=
  if 0 < length then do
    let copied ← copyLetters buf .rdata length bufPos []
    pure (bufPos + length - 1, copied ++ [0])
  else pure (bufPos - 1, [])

def createRData (env : Env) (buf : List UInt8) (bufPos : Nat)
    (type : UInt16) (length : Nat) : Exec (Nat × List UInt8) :=
  if type = 1 then createRDataAddress buf bufPos length
  else if type = 5 then createName buf .rdata env.fuel bufPos []
  else if type = 28 then createRDataAddress buf bufPos length
  else pure (bufPos + length - 1, [])

def readValue (junk : Nat → UInt8) (value : StringT) (index : Nat) : Exec UInt8 :=
  { log := [.read (.value value.length) index]
    out := .ok (value.getD index (junk index)) }

def string2inet4address (junk : Nat → UInt8) (address : StringT) : Exec UInt32 := do
  let octet0 ← readValue junk address 0
  let octet1 ← readValue junk address 1
  let octet2 ← readValue junk address 2
  let octet3 ← readValue junk address 3
  pure (shorts2Int (char2Short octet0 octet1) (char2Short octet2 octet3))

/-- The loop of `string2inet6address` with `count` octets to go. -/
def string2inet6Loop (junk : Nat → UInt8) (address : StringT) :
    Nat → Nat → Exec (List UInt8)
  | 0, _ => pure []
  | count + 1, index => do
      let octet ← readValue junk address index
      let rest ← string2inet6Loop junk address count (index + 1)
      pure (octet :: rest)

def string2inet6address (junk : Nat → UInt8) (address : StringT) :
    Exec (List UInt8) :=
  string2inet6Loop junk address 16 0

/-- The string of a CNAME target, of length -1 when no octet was copied. -/
def closeTarget (cells : List UInt8) : Exec ResponseData := do
  writeAt .rdata ((cells.length : Int) - 1)
  pure (if cells = [] then .rootDomain else .domain cells.dropLast)

/-- The `switch` that turns the copied data into `response_data`. -/
def responseDataOf (junk : Nat → UInt8) (type : UInt16) (cells : List UInt8) :
    Exec ResponseData :=
  if type = 1 then do
    let value ← closeString .rdata cells
    let address ← string2inet4address junk value
    pure (.inet4 address)
  else if type = 5 then closeTarget cells
  else if type = 28 then do
    let value ← closeString .rdata cells
    let address ← string2inet6address junk value
    pure (.inet6 address)
  else pure .unset

def buf2messageRecord (env : Env) (buf : List UInt8) (bufPos : Nat) :
    Exec (ResourceRecord × Nat) := do
  let named ← createName buf .name env.fuel bufPos []
  let name ← closeString .name named.2
  let type ← readShort buf (named.1 + 1)
  let cls ← readShort buf (named.1 + 3)
  let ttlHigh ← readShort buf (named.1 + 5)
  let ttlLow ← readShort buf (named.1 + 7)
  let length ← readShort buf (named.1 + 9)
  let data ← createRData env buf (named.1 + 11) type length.toNat
  let responseData ← responseDataOf (env.junk (.value bufPos)) type data.2
  pure
    ({ name := strcpyResult (env.junk (.result bufPos)) name
       type := type
       cls := cls
       ttl := shorts2Int ttlHigh ttlLow
       responseDataLength := length
       responseData := responseData }, data.1 + 1)

def buf2messageRR (env : Env) (buf : List UInt8) :
    Nat → Nat → Exec (List ResourceRecord)
  | 0, _ => pure []
  | count + 1, bufPos => do
      let entry ← buf2messageRecord env buf bufPos
      let rest ← buf2messageRR env buf count entry.2
      pure (entry.1 :: rest)

/-! ### Messages -/

/-- The question section, read only when the datagram is longer than a header. -/
def questionSection (env : Env) (buf : UvBuf) (queryCount : UInt16) :
    Exec (List Query × Nat) :=
  if 12 < buf.len then buf2messageQuestion env buf.base queryCount.toNat 12
  else pure ([], 12)

def answerSection (env : Env) (buf : UvBuf) (answerCount : UInt16) (endPos : Nat) :
    Exec (List ResourceRecord) :=
  if 0 < answerCount then buf2messageRR env buf.base answerCount.toNat endPos
  else pure []

def buf2message (env : Env) (buf : UvBuf) : Exec Message := do
  let message ← buf2messageHeader buf.base
  let questions ← questionSection env buf message.queryCount
  let answers ← answerSection env buf message.answerCount questions.2
  pure { message with queries := questions.1, answers := answers }

end PostDns
