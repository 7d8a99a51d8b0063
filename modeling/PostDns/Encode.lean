/-
Encoding a message (message.c, `message2buf` and what it calls) and the feature
string of a request.

The packet buffer holds 1500 octets.  Writes are recorded with the index the
source computes for them; a run with a write behind the packet does not come to
its end.
-/

import PostDns.Foundation.Buffer
import PostDns.Memory
import PostDns.Message
import PostDns.Utils

namespace PostDns

open Foundation

/-- `memcpy(&buf[position], octets, octets.length)`. -/
def memcpyTo (region : Region) (cells : Nat → UInt8) (position : Nat)
    (octets : List UInt8) : Exec (Nat → UInt8) :=
  { log := (List.range octets.length).map
      (fun index => .write region ((position : Int) + index))
    out := .ok (overlay cells position octets) }

@[simp] theorem memcpyTo_out (region : Region) (cells : Nat → UInt8) (position : Nat)
    (octets : List UInt8) :
    (memcpyTo region cells position octets).out =
      .ok (overlay cells position octets) := rfl

/-- The entries of an array that a consumer with this count goes through. -/
def initialised {α : Type} (count : UInt16) (entries : List α) : Exec (List α) :=
  if count.toNat ≤ entries.length then pure (entries.take count.toNat)
  else Logged.fail .uninitialised

/-! ### Names -/

/-- The loop of `name2message` with `count` tokens to go: each `sprintf` writes
the length, the token up to its first zero octet and a zero octet. -/
def name2messageLoop (length : Nat) (tokens : List StringT) :
    Nat → Nat → Nat → (Nat → UInt8) → Exec (Nat × (Nat → UInt8))
  | 0, _, current, output => pure (current, output)
  | count + 1, i, current, output =>
      match tokens[i]? with
      | none => Logged.fail .uninitialised
      | some token => do
          let output ← memcpyTo (.output length) output current
            (UInt8.ofNat token.length :: (stringPrint token ++ [0]))
          name2messageLoop length tokens count (i + 1) (current + token.length + 1)
            output

def name2message (junk : Nat → UInt8) (domainName : StringT) : Exec (Nat → UInt8) := do
  let written ←
    name2messageLoop domainName.length (stringSplit domainName dot).array
      (stringSplit domainName dot).length 0 0 junk
  let output ← memcpyTo (.output domainName.length) written.2 written.1 [0]
  memcpyTo (.output domainName.length) output (written.1 + 1) [0]

/-- The `length + 2` octets that every caller copies out of `name2message`. -/
def transferName (junk : Nat → UInt8) (domainName : StringT) : Exec (List UInt8) := do
  let transfer ← name2message junk domainName
  pure (firstCells transfer (domainName.length + 2))

/-! ### Header -/

/-- `dec2bin` for a value that fits its `length` digits: they are written least
significant first, then reversed. -/
def dec2binDigits : Nat → Nat → List UInt8
  | 0, _ => []
  | length + 1, dec => UInt8.ofNat (dec % 2) :: dec2binDigits length (dec / 2)

def dec2bin (dec length : Nat) : List UInt8 := (dec2binDigits length dec).reverse

def packBits (bits : List UInt8) : UInt8 :=
  (List.range 8).foldl
    (fun flags i => flags ||| (bits.getD (7 - i) 0 <<< UInt8.ofNat i)) 0

def flags2bytes (flags : Flags) : List UInt8 :=
  let opcode := dec2bin flags.opcode.toNat 4
  let rcode := dec2bin flags.rcode.toNat 4
  [packBits ([flags.qr] ++ opcode ++ [flags.aa, flags.tc, flags.rd]),
    packBits ([flags.ra, flags.z, flags.z, flags.z] ++ rcode)]

/-- Copy a `short` and swap its octets in place. -/
def putShort (cells : Nat → UInt8) (position : Nat) (value : UInt16) :
    Exec (Nat → UInt8) :=
  memcpyTo .packet cells position (littleEndian16 (swap16 value))

def putInt (cells : Nat → UInt8) (position : Nat) (value : UInt32) :
    Exec (Nat → UInt8) :=
  memcpyTo .packet cells position (littleEndianInt (swap32 value))

def message2bufHeader (message : Message) (cells : Nat → UInt8) :
    Exec (Nat → UInt8) := do
  let cells ← putShort cells 0 message.id
  let cells ← memcpyTo .packet cells 2 (flags2bytes message.flags)
  let cells ← putShort cells 4 message.queryCount
  let cells ← putShort cells 6 message.answerCount
  let cells ← putShort cells 8 message.authorityCount
  putShort cells 10 message.additionalCount

/-! ### Questions -/

/-- One question written from `start + bufPos` on, with the position of its class
field, which is where the cursor stays. -/
def message2bufQuery (env : Env) (start : Nat) (query : Query) (bufPos : Nat)
    (cells : Nat → UInt8) : Exec (Nat × (Nat → UInt8)) := do
  let qname ← transferName (env.junk (.output (start + bufPos))) query.name
  let cells ← memcpyTo .packet cells (start + bufPos) qname
  let cells ← putShort cells (start + bufPos + (query.name.length + 2)) query.type
  let cells ← putShort cells (start + bufPos + (query.name.length + 2) + 2) query.cls
  pure (bufPos + (query.name.length + 2) + 2, cells)

def message2bufQuestion (env : Env) (start : Nat) :
    List Query → Nat → Nat → (Nat → UInt8) → Exec (Nat × (Nat → UInt8))
  | [], _, endPos, cells => pure (endPos, cells)
  | query :: queries, bufPos, endPos, cells => do
      let written ← message2bufQuery env start query bufPos cells
      message2bufQuestion env start queries written.1 (endPos + (written.1 + 2))
        written.2

/-! ### Answers -/

/-- RDLENGTH and RDATA.  The cursor is at the TTL; only the three supported
types move it past the TTL and write a length. -/
def message2bufData (env : Env) (start : Nat) (record : ResourceRecord) (bufPos : Nat)
    (cells : Nat → UInt8) : Exec (Nat × (Nat → UInt8)) :=
  if record.type = 1 then
    match record.responseData with
    | .inet4 address => do
        let cells ← putShort cells (start + bufPos + 4) record.responseDataLength
        let cells ← putInt cells (start + bufPos + 4 + 2) address
        pure (bufPos + 4 + 2 + record.responseDataLength.toNat, cells)
    | _ => Logged.fail .uninitialised
  else if record.type = 5 then
    match record.responseData with
    | .domain data => do
        let cells ← putShort cells (start + bufPos + 4)
          (UInt16.ofNat (data.length + 2))
        let cname ← transferName (env.junk (.output (start + bufPos + 4 + 2))) data
        let cells ← memcpyTo .packet cells (start + bufPos + 4 + 2) cname
        pure (bufPos + 4 + 2 + (data.length + 2), cells)
    | .rootDomain => Logged.fail .emptyName
    | _ => Logged.fail .uninitialised
  else if record.type = 28 then
    match record.responseData with
    | .inet6 address => do
        let cells ← putShort cells (start + bufPos + 4) record.responseDataLength
        let cells ← memcpyTo .packet cells (start + bufPos + 4 + 2) address
        pure (bufPos + 4 + 2 + record.responseDataLength.toNat, cells)
    | _ => Logged.fail .uninitialised
  else pure (bufPos + 2, cells)

def message2bufRecord (env : Env) (start : Nat) (record : ResourceRecord)
    (bufPos : Nat) (cells : Nat → UInt8) : Exec (Nat × (Nat → UInt8)) := do
  let name ← transferName (env.junk (.output (start + bufPos))) record.name
  let cells ← memcpyTo .packet cells (start + bufPos) name
  let cells ← putShort cells (start + (bufPos + (record.name.length + 2))) record.type
  let cells ←
    putShort cells (start + (bufPos + (record.name.length + 2) + 2)) record.cls
  let cells ←
    putInt cells (start + (bufPos + (record.name.length + 2) + 2 + 2)) record.ttl
  message2bufData env start record (bufPos + (record.name.length + 2) + 2 + 2) cells

def message2bufAnswer (env : Env) (start : Nat) :
    List ResourceRecord → Nat → (Nat → UInt8) → Exec (Nat × (Nat → UInt8))
  | [], bufPos, cells => pure (start + bufPos, cells)
  | record :: records, bufPos, cells => do
      let written ← message2bufRecord env start record bufPos cells
      message2bufAnswer env start records written.1 written.2

/-! ### Messages -/

def answersToBuf (env : Env) (message : Message) (endPos : Nat) (cells : Nat → UInt8) :
    Exec (Nat × (Nat → UInt8)) :=
  if 0 < message.answerCount then do
    let answers ← initialised message.answerCount message.answers
    message2bufAnswer env endPos answers 0 cells
  else pure (endPos, cells)

/-- The writes of `message2buf`, as far as they would go. -/
def writeMessage (env : Env) (message : Message) : Exec UvBuf := do
  let cells ← message2bufHeader message (env.junk .packet)
  let queries ← initialised message.queryCount message.queries
  let questions ← message2bufQuestion env 12 queries 0 12 cells
  let written ← answersToBuf env message questions.1 questions.2
  pure { base := firstCells written.2 (max 1500 written.1), len := written.1 }

def message2buf (env : Env) (message : Message) : Exec UvBuf :=
  Logged.stopping Access.InPacket .overrun (writeMessage env message)

/-! ### Feature strings -/

def queryFeature (query : Query) : StringT :=
  query.name ++ (littleEndian16 query.cls ++ littleEndian16 query.type)

def message2featureString (message : Message) : Exec StringT := do
  let queries ← initialised message.queryCount message.queries
  pure (queries.flatMap queryFeature ++ littleEndian16 message.id)

end PostDns
