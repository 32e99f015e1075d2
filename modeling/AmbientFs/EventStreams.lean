import AmbientFs.Lib.Mpsc
import AmbientFs.Message
import AmbientFs.Subscriptions

/-!
# Event streams

A gRPC client that subscribes to a project is answered with a stream. A task of its own takes the
notifications of the project from a receiver, and sends the events among them into the bounded
channel the client reads its stream from. Streams run beside the connections of the socket server
and beside those of `sync_events`.
-/

namespace AmbientFs

/-- What the task of a stream waits to send, and the channel of its client. -/
structure Bridge where
  sending : Option FileEventMessage
  out : Mpsc.Channel FileEventMessage

/-- The client's channel holds as many messages. -/
def Bridge.new : Bridge := ⟨none, .new 32⟩

def Bridge.received (b : Bridge) : List FileEventMessage := b.out.sent.take b.out.taken

/-- The stream an action is about. -/
def SocketServer.Action.stream : SocketServer.Action → Option ℕ
  | .openStream k _ => some k
  | .pollStream k => some k
  | .endStream k => some k
  | _ => none

/-- The server with the bridges of its event streams. The receiver of a stream is the server's, as
long as the task is there. -/
structure StreamServer where
  server : SocketServer
  bridges : ℕ → Option Bridge

namespace StreamServer

inductive Action
  | subscribe (k : ℕ) (projectId : String)
  /-- The task of a stream takes a step. -/
  | forward (k : ℕ)
  | read (k : ℕ)
  /-- The client drops its stream. -/
  | cancel (k : ℕ)
  | other (a : SocketServer.Action)

def new : StreamServer := ⟨.new, fun _ => none⟩

variable (s : StreamServer)

def setBridge (k : ℕ) (b : Bridge) : StreamServer :=
  { s with bridges := Function.update s.bridges k (some b) }

def subscribe (k : ℕ) (projectId : String) : StreamServer :=
  if (s.server.streams k).isNone ∧ (s.bridges k).isNone then
    { s with server := s.server.openStream k projectId }.setBridge k .new
  else s

/-- The task sends what it has, which waits for room and fails once the client is gone, or else
receives. Only events are sent, and the task ends where receiving fails. -/
def forward (k : ℕ) : StreamServer :=
  match s.bridges k, s.server.streams k with
  | some b, some (_, r) =>
    match b.sending with
    | some msg =>
      match b.out.trySend msg with
      | .ok out => s.setBridge k ⟨none, out⟩
      | .error .full => s
      | .error .closed =>
        { s with server := s.server.endStream k }.setBridge k { b with sending := none }
    | none =>
      let polled := { s with server := s.server.pollStream k }
      match (s.server.tryRecv r).1 with
      | .ok (.event event) =>
        polled.setBridge k { b with sending := some (fileEventToMessage event) }
      | _ => polled
  | _, _ => s

def onOut (k : ℕ) (f : Mpsc.Channel FileEventMessage → Mpsc.Channel FileEventMessage) :
    StreamServer :=
  match s.bridges k with
  | none => s
  | some b => s.setBridge k { b with out := f b.out }

/-- What a connection or a stream of `sync_events` does. -/
def other (a : SocketServer.Action) : StreamServer :=
  if (a.stream.bind s.bridges).isSome then s else { s with server := s.server.step a }

def step : Action → StreamServer
  | .subscribe k projectId => s.subscribe k projectId
  | .forward k => s.forward k
  | .read k => s.onOut k .recv
  | .cancel k => s.onOut k .dropReceiver
  | .other a => s.other a

end StreamServer

end AmbientFs
