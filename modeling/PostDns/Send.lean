/-
Sending (socket.c, `send_query` and `send_response`).

The pending table `clients_hash_table` is a finite map from feature strings to
client addresses.
-/

import PostDns.Encode
import Mathlib.Logic.Function.Basic

namespace PostDns

/-- The copied octets of a `struct sockaddr`. -/
abbrev SockAddr := List UInt8

abbrev Clients := StringT → Option SockAddr

def clearReserved (message : Message) : Message :=
  { message with
    flags := { message.flags with z := 0 }
    additionalCount := 0
    authorityCount := 0 }

def sendQuery (env : Env) (message : Message) : Exec UvBuf :=
  message2buf env (clearReserved message)

/-- The reply handed to `uv_udp_send`, if the pending table names a client, and
the pending table left behind. -/
def sendResponse (env : Env) (clients : Clients) (message : Message) :
    Exec (Option (SockAddr × UvBuf) × Clients) := do
  let featureVector ← message2featureString message
  match clients featureVector with
  | none => pure (none, clients)
  | some clientAddress => do
      let buf ← message2buf env (clearReserved message)
      pure (some (clientAddress, buf), Function.update clients featureVector none)

end PostDns
