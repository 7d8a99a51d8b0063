/-
The copied address text of a configuration line (ipv4_cache.c, `ipv4_read_file`).

The array has one element more than the second word of the line has octets.  The
terminating zero is written behind its last element, so the element in front of it,
which ends the text, keeps what the stack held.
-/

import PostDns.BadLines

namespace PostDns

open Foundation
open Foundation.Logged (Always)

def Access.InAddress : Access → Prop
  | .write (.address size) index => 0 ≤ index ∧ index < size
  | _ => True

/-- The address array of a line is written in bounds, and `uv_ip4_addr` sees the token
and the zero octet that ends it. -/
structure AddressHandled (env : Env) (now : Int) (line : Nat) (buf : List UInt8)
    (t : HashTable Ipv4Cache) (token : StringT) : Prop where
  bounded : Always Access.InAddress (readLine env now line buf t)
  ended : (addressText (env.junk (.address line)) token).out = .ok token

theorem addressText_writes_past (junk : Nat → UInt8) (token : StringT) :
    .write (.address (token.length + 1)) (token.length + 1 : Nat) ∈
      (addressText junk token).log := by
  rw [addressText, Logged.mem_bind_log]
  left
  exact List.mem_singleton_self _

theorem readLine_writes_past (env : Env) (now : Int) (line : Nat) {buf : List UInt8}
    (t : HashTable Ipv4Cache) {domain token : StringT}
    (words : splitLine (cString buf).dropLast = some (domain, token)) :
    .write (.address (token.length + 1)) (token.length + 1 : Nat) ∈
      (readLine env now line buf t).log := by
  have nonempty : cString buf ≠ [] := by
    intro empty
    rw [empty] at words
    cases words
  have split : stringSplit (cString buf).dropLast 32 =
      { array := [domain, token], length := 2 } := by
    rw [stringSplit_eq, splitOn_of_splitLine words]
    rfl
  rw [readLine, if_neg nonempty, split]
  change _ ∈ (putConfigured env now line t domain token).log
  rw [putConfigured, Logged.mem_bind_log]
  left
  exact addressText_writes_past _ token

theorem not_inAddress_of_words (env : Env) (now : Int) (line : Nat) {buf : List UInt8}
    (t : HashTable Ipv4Cache) {domain token : StringT}
    (words : splitLine (cString buf).dropLast = some (domain, token)) :
    ¬ Always Access.InAddress (readLine env now line buf t) := by
  intro bounded
  have inside := bounded _ (readLine_writes_past env now line t words)
  have below : (token.length + 1 : Int) < (token.length + 1 : Nat) := inside.2
  omega

/-- What ends the text is left to the stack. -/
theorem addressText_ended_iff (junk : Nat → UInt8) {token : StringT}
    (noZeros : (0 : UInt8) ∉ token) :
    (addressText junk token).out = .ok token ↔ junk token.length = 0 := by
  rw [← readAddress_eq_iff junk noZeros]
  constructor
  · intro ended
    exact Except.ok.inj ended
  · intro ended
    exact congrArg _ ended

/-- Whatever the words are, and whatever the stack holds. -/
theorem not_addressHandled (env : Env) (now : Int) (line : Nat) (buf : List UInt8)
    (t : HashTable Ipv4Cache) (domain token : StringT)
    (words : splitLine (cString buf).dropLast = some (domain, token)) :
    ¬ AddressHandled env now line buf t token := by
  intro handled
  exact not_inAddress_of_words env now line t words handled.bounded

/-- `a 1` with its line end. -/
theorem not_addressHandled_short :
    ¬ AddressHandled zeroEnv 0 0 [97, 32, 49, 10] (hashTableNew []) [49] :=
  not_addressHandled zeroEnv 0 0 [97, 32, 49, 10] (hashTableNew []) [97] [49] (by decide)

/-- `a 1.2.3.4`, where the octet that ends the text happens to be zero. -/
theorem address_written_past :
    splitLine (cString [97, 32, 49, 46, 50, 46, 51, 46, 52, 10]).dropLast =
        some ([97], [49, 46, 50, 46, 51, 46, 52]) ∧
      (addressText (zeroEnv.junk (.address 0)) [49, 46, 50, 46, 51, 46, 52]).out =
        .ok [49, 46, 50, 46, 51, 46, 52] ∧
      ¬ AddressHandled zeroEnv 0 0 [97, 32, 49, 46, 50, 46, 51, 46, 52, 10] (hashTableNew [])
        [49, 46, 50, 46, 51, 46, 52] := by
  have words : splitLine (cString [97, 32, 49, 46, 50, 46, 51, 46, 52, 10]).dropLast =
      some ([97], [49, 46, 50, 46, 51, 46, 52]) := by
    decide
  refine ⟨words, (addressText_ended_iff _ (by decide)).mpr rfl, ?_⟩
  intro handled
  exact not_inAddress_of_words zeroEnv 0 0 (hashTableNew []) words handled.bounded

end PostDns
