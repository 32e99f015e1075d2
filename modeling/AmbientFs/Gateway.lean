import AmbientFs.Lib.Mpsc
import AmbientFs.Message

/-!
# The gateway

Relays events between daemons that cannot reach each other. A daemon registers for each of its
projects and opens a relay stream, on which it sends its events and is to be sent those of others.
A handler of an RPC and the task that reads a stream take the lock of the routing table and each
such section is one step; so is the return of a handler, which drops what the handler still holds.
The senders of a channel are the connections with its number: the relay handler drops the one
sender of the channel it returns.
-/

namespace AmbientFs

open Mpsc

/-- Maximum events to buffer per project. -/
def maxBufferSize : ℕ := 3000

/-- Connection from a daemon to the gateway. Instants are counted in nanoseconds. -/
structure DaemonConnection where
  machineId : String
  /-- The number of the channel it sends on. -/
  tx : ℕ
  connectedAt : ℕ
  lastSeen : ℕ
  deriving DecidableEq

namespace DaemonConnection

def new (machineId : String) (tx now : ℕ) : DaemonConnection := ⟨machineId, tx, now, now⟩

def updateLastSeen (c : DaemonConnection) (now : ℕ) : DaemonConnection := { c with lastSeen := now }

/-- The time since the connection was last seen is taken in whole seconds. -/
def isStale (c : DaemonConnection) (now timeoutSecs : ℕ) : Bool :=
  timeoutSecs < (now - c.lastSeen) / 1000000000

end DaemonConnection

structure GatewayServer where
  /-- The connected daemons of each project. -/
  connections : String → List DaemonConnection
  /-- Recent events of each project. -/
  buffer : String → List FileEventMessage

/-- The channels, by number. -/
abbrev Channels := ℕ → Channel FileEventMessage

namespace GatewayServer

def new : GatewayServer := ⟨fun _ => [], fun _ => []⟩

variable (g : GatewayServer)

def registerDaemon (projectId machineId : String) (tx now : ℕ) : GatewayServer :=
  { g with
    connections := Function.update g.connections projectId
      (g.connections projectId ++ [.new machineId tx now]) }

def unregisterDaemon (projectId machineId : String) : GatewayServer :=
  { g with
    connections := Function.update g.connections projectId
      ((g.connections projectId).filter (·.machineId ≠ machineId)) }

/-- Tries to send an event on the connections of machines other than the sender, and counts those
it is sent on. -/
def sendToOthers (sender : String) (event : FileEventMessage) :
    List DaemonConnection → Channels → Channels × ℕ
  | [], channels => (channels, 0)
  | c :: conns, channels =>
    if c.machineId = sender then sendToOthers sender event conns channels
    else
      match (channels c.tx).trySend event with
      | .error _ => sendToOthers sender event conns channels
      | .ok ch =>
        let r := sendToOthers sender event conns (Function.update channels c.tx ch)
        (r.1, r.2 + 1)

/-- The sender's connections are seen now. -/
def seen (projectId sender : String) (now : ℕ) : GatewayServer :=
  { g with
    connections := Function.update g.connections projectId
      ((g.connections projectId).map fun c =>
        if c.machineId = sender then c.updateLastSeen now else c) }

def forwardEvent (channels : Channels) (projectId sender : String) (event : FileEventMessage)
    (now : ℕ) : GatewayServer × Channels × ℕ :=
  let g := g.seen projectId sender now
  (g, sendToOthers sender event (g.connections projectId) channels)

/-- The oldest event makes room in a full buffer. -/
def bufferEvent (projectId : String) (event : FileEventMessage) : GatewayServer :=
  let buffer := g.buffer projectId
  let buffer := if maxBufferSize ≤ buffer.length then buffer.tail else buffer
  { g with buffer := Function.update g.buffer projectId (buffer ++ [event]) }

def getBufferedEvents (projectId : String) : List FileEventMessage := g.buffer projectId

def cleanupStaleConnections (timeoutSecs now : ℕ) : GatewayServer :=
  { g with connections := fun projectId =>
      (g.connections projectId).filter fun c => ¬ c.isStale now timeoutSecs }

end GatewayServer

/-- A relay stream that is open. -/
structure Relay where
  /-- The machine at the other end, which the gateway is not told. -/
  daemon : String
  /-- The channel of the response. -/
  outbound : ℕ
  /-- Project and machine of the first event on the stream. -/
  identity : Option (String × String)
  deriving DecidableEq

/-- The gateway with its channels and streams. -/
structure GatewayService where
  server : GatewayServer
  channels : Channels
  /-- How many channels have been made. -/
  made : ℕ
  /-- The channels whose register handler has not returned. -/
  registering : List ℕ
  relays : ℕ → Option Relay
  now : ℕ

inductive GatewayAction
  | register (projectId machineId : String)
  | registered (ch : ℕ)
  /-- A daemon opens a relay stream. -/
  | relay (k : ℕ) (daemon : String)
  | message (k : ℕ) (event : FileEventMessage)
  /-- The daemon reads from the response. -/
  | read (k : ℕ)
  /-- A stream ends, or fails. -/
  | close (k : ℕ)
  | cleanup
  | wait (nanos : ℕ)

namespace GatewayService

def new : GatewayService := ⟨.new, fun _ => .new 0, 0, [], fun _ => none, 0⟩

/-- The capacity of the channels the handlers make. -/
def channelBound : ℕ := 32

/-- Seconds without a sign of a daemon after which its connections are removed. -/
def staleSecs : ℕ := 300

variable (s : GatewayService)

def makeChannel : GatewayService :=
  { s with channels := Function.update s.channels s.made (.new channelBound), made := s.made + 1 }

/-- The handler up to its return. It holds the receiver of the new connection's channel; the
buffered events are counted. -/
def register (projectId machineId : String) : Except String GatewayService :=
  if projectId = "" then .error "project_id is required"
  else if machineId = "" then .error "machine_id is required"
  else .ok { s.makeChannel with
    server := s.server.registerDaemon projectId machineId s.made s.now
    registering := s.registering ++ [s.made] }

/-- The register handler returns, and its receiver goes. -/
def registered (ch : ℕ) : GatewayService :=
  if ch ∈ s.registering then
    { s with
      channels := Function.update s.channels ch (s.channels ch).dropReceiver
      registering := s.registering.erase ch }
  else s

def relay (k : ℕ) (daemon : String) : GatewayService :=
  match s.relays k with
  | some _ => s
  | none =>
    { s.makeChannel with relays := Function.update s.relays k (some ⟨daemon, s.made, none⟩) }

/-- An event on a stream is forwarded, and buffered for daemons that come back. -/
def message (k : ℕ) (event : FileEventMessage) : GatewayService :=
  match s.relays k with
  | none => s
  | some r =>
    let identity := r.identity.getD (event.projectId, event.machineId)
    let f := s.server.forwardEvent s.channels event.projectId event.machineId event s.now
    { s with
      server := f.1.bufferEvent event.projectId event
      channels := f.2.1
      relays := Function.update s.relays k (some { r with identity := some identity }) }

def read (k : ℕ) : GatewayService :=
  match s.relays k with
  | none => s
  | some r =>
    { s with channels := Function.update s.channels r.outbound (s.channels r.outbound).recv }

/-- At the end of a stream the daemon its first event named is unregistered. -/
def close (k : ℕ) : GatewayService :=
  match s.relays k with
  | none => s
  | some r =>
    { s with
      server := match r.identity with
        | some (projectId, machineId) => s.server.unregisterDaemon projectId machineId
        | none => s.server
      channels := Function.update s.channels r.outbound (s.channels r.outbound).dropReceiver
      relays := Function.update s.relays k none }

def cleanup : GatewayService :=
  { s with server := s.server.cleanupStaleConnections staleSecs s.now }

def step : GatewayAction → GatewayService
  | .register projectId machineId =>
    match s.register projectId machineId with
    | .error _ => s
    | .ok s' => s'
  | .registered ch => s.registered ch
  | .relay k daemon => s.relay k daemon
  | .message k event => s.message k event
  | .read k => s.read k
  | .close k => s.close k
  | .cleanup => s.cleanup
  | .wait nanos => { s with now := s.now + nanos }

end GatewayService

end AmbientFs
