import AmbientFs.Awareness
import AmbientFs.Lib.Broadcast
import AmbientFs.TreeState

/-!
# Subscriptions

The subscription manager keeps a broadcast channel for each project and, apart from it, a count
of subscribers. Connections of the socket server and gRPC streams hold receivers; a step of the
server is a request of one of them, its reading of a notification, its end, or the publication
of a notification. The two maps are only changed under their locks, so each is one step.
-/

namespace AmbientFs

open Broadcast

/-- Notification types that can be sent to subscribers. -/
inductive Notification
  | event (event : FileEvent)
  | awarenessChanged (projectId filePath : String) (awareness : FileAwareness)
  | analysisComplete (projectId filePath : String) (lineCount todoCount : UInt32)
  | treePatch (projectId : String) (patch : TreePatch)
  deriving DecidableEq

def Notification.projectId : Notification → String
  | event e => e.projectId
  | awarenessChanged projectId _ _ => projectId
  | analysisComplete projectId _ _ _ => projectId
  | treePatch projectId _ => projectId

/-- Notifications a channel keeps for a receiver that has not read them. -/
def channelCapacity : ℕ := 256

structure Receiver where
  channel : ℕ
  next : ℕ

structure SubscriptionManager where
  /-- The channel of each project, by its number. -/
  projects : String → Option ℕ
  counts : String → Option ℕ
  channels : ℕ → Channel Notification
  /-- How many channels have been made. -/
  made : ℕ

namespace SubscriptionManager

def new : SubscriptionManager := ⟨fun _ => none, fun _ => none, fun _ => .new, 0⟩

/-- The project's channel, made if there is none. -/
def entry (m : SubscriptionManager) (projectId : String) : ℕ × SubscriptionManager :=
  match m.projects projectId with
  | some ch => (ch, m)
  | none => (m.made, { m with
      projects := Function.update m.projects projectId (some m.made)
      channels := Function.update m.channels m.made .new
      made := m.made + 1 })

def subscribe (m : SubscriptionManager) (projectId : String) : SubscriptionManager × Receiver :=
  let r := m.entry projectId
  let count := (r.2.counts projectId).getD 0
  ({ r.2 with counts := Function.update r.2.counts projectId (some (count + 1)) },
    ⟨r.1, (r.2.channels r.1).sent.length⟩)

/-- Takes one from the project's count, and says whether it was the last. -/
def decrement (m : SubscriptionManager) (projectId : String) : SubscriptionManager × Bool :=
  match m.counts projectId with
  | none => (m, false)
  | some count =>
    let count := if 0 < count then count - 1 else count
    if count = 0 then ({ m with counts := Function.update m.counts projectId none }, true)
    else ({ m with counts := Function.update m.counts projectId (some count) }, false)

/-- The channel loses its sender. -/
def removeProject (m : SubscriptionManager) (projectId : String) : SubscriptionManager :=
  match m.projects projectId with
  | none => m
  | some ch => { m with
      projects := Function.update m.projects projectId none
      channels := Function.update m.channels ch (m.channels ch).close }

def unsubscribe (m : SubscriptionManager) (projectId : String) : SubscriptionManager :=
  let r := m.decrement projectId
  if r.2 then r.1.removeProject projectId else r.1

/-- Sends a notification to the subscribers of its project. A send that no receiver is there for
is kept too, which nobody sees. -/
def broadcast (m : SubscriptionManager) (n : Notification) : SubscriptionManager :=
  match m.projects n.projectId with
  | none => m
  | some ch => { m with channels := Function.update m.channels ch ((m.channels ch).send n) }

end SubscriptionManager

/-- The receivers of an open connection, by project. -/
abbrev ConnectionState := String → Option Receiver

/-- The manager with the open connections and gRPC streams. -/
structure SocketServer where
  manager : SubscriptionManager
  conns : ℕ → Option ConnectionState
  streams : ℕ → Option (String × Receiver)

namespace SocketServer

inductive Action
  | connect (c : ℕ)
  | subscribe (c : ℕ) (projectId : String)
  | unsubscribe (c : ℕ) (projectId : String)
  /-- The connection tries to receive for one of its projects. -/
  | poll (c : ℕ) (projectId : String)
  | close (c : ℕ)
  /-- A gRPC client subscribes, or asks for events to sync. -/
  | openStream (k : ℕ) (projectId : String)
  | pollStream (k : ℕ)
  | endStream (k : ℕ)
  | broadcast (n : Notification)

def new : SocketServer := ⟨.new, fun _ => none, fun _ => none⟩

variable (s : SocketServer)

def setConn (c : ℕ) (conn : Option ConnectionState) : SocketServer :=
  { s with conns := Function.update s.conns c conn }

def setStream (k : ℕ) (stream : Option (String × Receiver)) : SocketServer :=
  { s with streams := Function.update s.streams k stream }

def connect (c : ℕ) : SocketServer :=
  if (s.conns c).isNone then s.setConn c (some fun _ => none) else s

/-- A subscription the connection has for the project is replaced. -/
def handleSubscribe (c : ℕ) (projectId : String) : SocketServer :=
  match s.conns c with
  | none => s
  | some conn =>
    let r := s.manager.subscribe projectId
    { s with manager := r.1 }.setConn c (some (Function.update conn projectId (some r.2)))

/-- The manager's count goes down whether or not the connection was subscribed. -/
def handleUnsubscribe (c : ℕ) (projectId : String) : SocketServer :=
  match s.conns c with
  | none => s
  | some conn =>
    { s with manager := s.manager.unsubscribe projectId }.setConn c
      (some (Function.update conn projectId none))

def tryRecv (r : Receiver) : TryRecv Notification × Receiver :=
  let a := (s.manager.channels r.channel).tryRecv channelCapacity r.next
  (a.1, { r with next := a.2 })

/-- A connection's loop at one of its subscriptions, with the notification it writes. -/
def poll (c : ℕ) (projectId : String) : SocketServer × Option Notification :=
  match s.conns c with
  | none => (s, none)
  | some conn =>
    match conn projectId with
    | none => (s, none)
    | some r =>
      let a := s.tryRecv r
      match a.1 with
      | .ok n => (s.setConn c (some (Function.update conn projectId (some a.2))), some n)
      | .empty => (s, none)
      | .lagged _ => (s.setConn c (some (Function.update conn projectId (some a.2))), none)
      | .closed => (s.setConn c (some (Function.update conn projectId none)), none)

/-- The end of a connection drops its receivers. -/
def close (c : ℕ) : SocketServer := s.setConn c none

def openStream (k : ℕ) (projectId : String) : SocketServer :=
  if (s.streams k).isNone then
    let r := s.manager.subscribe projectId
    { s with manager := r.1 }.setStream k (some (projectId, r.2))
  else s

/-- A stream's loop ends when receiving fails. -/
def pollStream (k : ℕ) : SocketServer :=
  match s.streams k with
  | none => s
  | some (projectId, r) =>
    let a := s.tryRecv r
    match a.1 with
    | .ok _ => s.setStream k (some (projectId, a.2))
    | .empty => s
    | .lagged _ => s.setStream k none
    | .closed => s.setStream k none

def endStream (k : ℕ) : SocketServer := s.setStream k none

def step : Action → SocketServer
  | .connect c => s.connect c
  | .subscribe c projectId => s.handleSubscribe c projectId
  | .unsubscribe c projectId => s.handleUnsubscribe c projectId
  | .poll c projectId => (s.poll c projectId).1
  | .close c => s.close c
  | .openStream k projectId => s.openStream k projectId
  | .pollStream k => s.pollStream k
  | .endStream k => s.endStream k
  | .broadcast n => { s with manager := s.manager.broadcast n }

end SocketServer

end AmbientFs
