/-
The decoded message (message.h, resource_record.h).

`short` and `int` fields are kept as the unsigned value of the same width: the
program only copies, compares and switches on them.
-/

import PostDns.StringT

namespace PostDns

structure Flags where
  qr : UInt8
  opcode : UInt8
  aa : UInt8
  tc : UInt8
  rd : UInt8
  ra : UInt8
  z : UInt8
  rcode : UInt8
deriving DecidableEq

structure Query where
  name : StringT
  type : UInt16
  cls : UInt16
deriving DecidableEq

/-- What `response_data` points to.  The decoder leaves the pointer unset for record
types it skips, and makes a string of length -1 of a target without labels. -/
inductive ResponseData where
  | unset
  | inet4 (address : UInt32)
  | domain (name : StringT)
  | rootDomain
  | inet6 (address : List UInt8)
deriving DecidableEq

structure ResourceRecord where
  name : StringT
  type : UInt16
  cls : UInt16
  ttl : UInt32
  responseDataLength : UInt16
  responseData : ResponseData
deriving DecidableEq

/-- A message with its initialised queries and answers.  The counts are the
ones the consumers trust; an array shorter than its count has entries that were
never written. -/
structure Message where
  id : UInt16
  flags : Flags
  queryCount : UInt16
  answerCount : UInt16
  authorityCount : UInt16
  additionalCount : UInt16
  queries : List Query
  answers : List ResourceRecord
deriving DecidableEq

end PostDns
