/-
The program around the callbacks (main.c).

The event loop runs one callback at a time: a client request, an upstream reply or the
timer that sweeps the caches.  Each reads the clock once.
-/

import PostDns.Foundation.Run
import PostDns.Ipv4File
import PostDns.Socket

namespace PostDns

open Foundation

def clearCallback (now : Int) (world : World) : Exec World := do
  let ipv4Table ← ipv4CacheClear now world.ipv4Table
  let ipv6Table ← ipv6CacheClear now world.ipv6Table
  let cnameTable ← cnameCacheClear world.cnameTable
  pure
    { world with
      ipv4Table := ipv4Table
      ipv6Table := ipv6Table
      cnameTable := cnameTable }

/-- The tables that `main` sets up, with the text of the configuration file if there is
one that can be read. -/
def startUp (env : Env) (malloc : Malloc) (now : Int) : Option (List UInt8) → Exec World
  | none => pure (World.init malloc)
  | some text => do
      let ipv4Table ← ipv4ReadFile env now text (World.init malloc).ipv4Table
      pure { World.init malloc with ipv4Table := ipv4Table }

inductive Occasion where
  | request (message : Message) (address : SockAddr)
  | reply (message : Message)
  | sweep

/-- A callback that returned at a time, with what it sent. -/
inductive Serve (before : World) : (Int × Occasion) × List Sent → World → Prop where
  | request {env : Env} {now : Int} {datagram : Datagram} {address : SockAddr}
      {message : Message} {sent : List Sent} {after : World} :
      (buf2message env datagram.buf).out = .ok message →
      (bindSocketRead env datagram address before).out = .ok (after, sent) →
      Serve before ((now, .request message address), sent) after
  | reply {env : Env} {now : Int} {datagram : Datagram} {message : Message}
      {sent : List Sent} {after : World} :
      (buf2message env datagram.buf).out = .ok message →
      (querySocketRead env now datagram before).out = .ok (after, sent) →
      Serve before ((now, .reply message), sent) after
  | sweep {now : Int} {after : World} :
      (clearCallback now before).out = .ok after →
      Serve before ((now, .sweep), []) after

inductive Reachable : World → Prop where
  | intro {env : Env} {malloc : Malloc} {now : Int} {file : Option (List UInt8)}
      {start world : World} {events : List ((Int × Occasion) × List Sent)}
      (started : (startUp env malloc now file).out = .ok start)
      (run : Run Serve start events world) :
      Reachable world

end PostDns
