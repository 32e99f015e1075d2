import AmbientFs.ClientApi
import AmbientFs.Connection

/-!
# A session

The Rust client at one end of a connection, and the loop of the socket server at the other. What a
call writes is a line that the loop reads, and what the loop writes are lines that the reader of the
client takes, both in the order in which they are written. The text of a value has no line end. A
write that fails sends nothing, and the client is not dropped.
-/

namespace AmbientFs

namespace Rpc.Written

/-- The value whose text is written. -/
def value (chrono : Chrono) : Written → JsonValue
  | response r => r.toValue
  | notification n => n.rpcNotification chrono

def line (chrono : Chrono) (serde : SerdeJson) (w : Written) : List Char :=
  serde.toStr (w.value chrono) ++ ['\n']

end Rpc.Written

structure RpcSession where
  client : AmbientFsClient
  connection : Rpc.Connection
  /-- What the calls ask, by their number. -/
  calls : List Client.Call
  /-- How many of the lines of the server the reader has taken. -/
  taken : ℕ

inductive RpcSessionAction
  | call (call : Client.Call)
  | write (n : ℕ) (written : Bool)
  /-- The reader takes the next line. -/
  | receive
  /-- What else the client does. -/
  | client (a : ClientAction)
  /-- The loop of the connection and the rest of the server. -/
  | server (x : Rpc.ConnectionAction)

namespace RpcSession

def new (notificationBuffer : ℕ) (s : ServerState) : RpcSession :=
  ⟨.new notificationBuffer, .new s, [], 0⟩

variable (chrono : Chrono) (serde : SerdeJson) (s : RpcSession)

/-- The request of a call. -/
def request (n : ℕ) : Option JsonValue :=
  s.client.requests[n]?.bind fun q => s.calls[n]?.map fun call => call.request q.id

/-- What a call writes, if it is at that. -/
def writes (n : ℕ) : Option JsonValue :=
  match s.client.requests[n]? with
  | some ⟨_, .registered⟩ => s.request n
  | _ => none

def write (n : ℕ) (written : Bool) : RpcSession where
  client := s.client.write n written
  connection :=
    match written, s.writes n with
    | true, some v => s.connection.step serde.fromStr (.send (Utf8.encode (serde.toStr v)))
    | _, _ => s.connection
  calls := s.calls
  taken := s.taken

def receive : RpcSession :=
  match s.client.reader, s.connection.written[s.taken]? with
  | .reading, some w => { s with
      client := s.client.line serde.fromStr (w.line chrono serde)
      taken := s.taken + 1 }
  | _, _ => s

def step (s : RpcSession) : RpcSessionAction → RpcSession
  | .call call => { s with client := s.client.start true, calls := s.calls ++ [call] }
  | .write n written => s.write serde n written
  | .receive => s.receive chrono serde
  | .client (.start _) | .client (.write ..) | .client (.line _) => s
  | .client a => { s with client := s.client.step serde.fromStr a }
  | .server (.send _) | .server .close => s
  | .server x => { s with connection := s.connection.step serde.fromStr x }

end RpcSession

end AmbientFs
