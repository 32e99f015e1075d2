import AmbientFs.Lib.Json
import AmbientFs.Lib.Lines
import AmbientFs.Lib.Mpsc
import AmbientFs.Lib.Run

/-!
# The client

A request is registered in the map of pending requests before it is written. The reader task takes
the messages of the daemon from the connection one line at a time: one with the id of a pending
request resolves it, one without an id is a notification. When the connection has ended it fails
the requests that are pending.

A call of `send_request` and the reader run as tasks of their own, and what one does between two
places where it waits is one action here. The calls are known by their number; a call that is
cancelled takes no further actions. How a text is read as JSON is a parameter.
-/

namespace AmbientFs

/-- The numbers of `serde_json`. -/
inductive JsonNumber
  | posInt (n : UInt64)
  | negInt (n : ℤ)
  | float (x : ℚ)

abbrev JsonValue := Json.Value JsonNumber

/-- The value as a `u64`. -/
def JsonNumber.asU64 : JsonNumber → Option UInt64
  | posInt n => some n
  | _ => none

inductive ClientError
  | io
  | jsonSerialize
  | daemonError (message : String)
  | invalidResponse
  | notConnected
  | connectionClosed

/-- What a call returns, and what is sent to the channel it waits at. -/
abbrev Answer := Except ClientError JsonValue

/-- A server-pushed notification. -/
structure ClientNotification where
  method : String
  params : JsonValue

section Messages

variable (msg : JsonValue)

def responseId : Option UInt64 := ((msg.get "id").bind Json.Value.asNumber).bind JsonNumber.asU64

/-- What a response resolves a request with. -/
def responseAnswer : Answer :=
  match msg.get "error" with
  | some err =>
    .error (.daemonError (((err.get "message").bind Json.Value.asStr).getD "unknown error"))
  | none =>
    match msg.get "result" with
    | some result => .ok result
    | none => .error .invalidResponse

/-- The notification a message without an id is. -/
def notification : Option ClientNotification :=
  (msg.get "method").map fun method =>
    { method := method.asStr.getD ""
      params := (msg.get "params").getD .null }

end Messages

/-- How far a call of `send_request` has come. -/
inductive RequestStage
  | started
  | registered
  /-- The write has failed. -/
  | unwritten
  | waiting
  | returned (answer : Answer)

structure Request where
  id : UInt64
  stage : RequestStage

/-- Why the reader has left its loop. -/
inductive Exit
  | endOfStream
  | readError
  /-- The receiver of the notifications was gone. -/
  | closed
  deriving DecidableEq

inductive Reader
  | reading
  | exiting (e : Exit)
  | finished (e : Exit)
  deriving DecidableEq

structure AmbientFsClient where
  nextId : UInt64
  /-- The calls of `send_request`, in the order they were made. -/
  requests : List Request
  /-- The calls whose channel has its sender in the map, by their ids. -/
  pending : List (UInt64 × ℕ)
  /-- What has been sent to the channels of the calls. -/
  answers : List (ℕ × Answer)
  notifications : Mpsc.Channel ClientNotification
  /-- Whether the receiver of the notifications has not been taken. -/
  notificationRx : Bool
  reader : Reader
  /-- The messages the reader has read. -/
  received : List JsonValue

inductive ClientAction
  /-- A call takes its id, and goes on if its parameters can be serialized. -/
  | start (serializes : Bool)
  | register (n : ℕ)
  | write (n : ℕ) (written : Bool)
  /-- A call whose write has failed takes its sender out of the map. -/
  | unregister (n : ℕ)
  /-- A call looks at the channel it waits at. -/
  | await (n : ℕ)
  /-- The reader takes a line. -/
  | line (text : List Char)
  | endOfStream
  | readError
  /-- The reader fails what is pending. -/
  | drain
  | recvNotification
  | takeNotificationStream
  | dropNotificationStream

namespace AmbientFsClient

def new (notificationBuffer : ℕ) : AmbientFsClient where
  nextId := 1
  requests := []
  pending := []
  answers := []
  notifications := .new notificationBuffer
  notificationRx := true
  reader := .reading
  received := []

variable (c : AmbientFsClient)

def setStage (n : ℕ) (stage : RequestStage) : AmbientFsClient :=
  { c with requests := c.requests.modify n fun q => { q with stage := stage } }

/-- A sender that is in the map under the id is dropped. -/
def insert (id : UInt64) (n : ℕ) : AmbientFsClient :=
  { c with pending := c.pending.filter (·.1 ≠ id) ++ [(id, n)] }

def remove (id : UInt64) : AmbientFsClient :=
  { c with pending := c.pending.filter (·.1 ≠ id) }

def start (serializes : Bool) : AmbientFsClient :=
  { c with
    nextId := c.nextId + 1
    requests := c.requests ++
      [⟨c.nextId, if serializes then .started else .returned (.error .jsonSerialize)⟩] }

def register (n : ℕ) : AmbientFsClient :=
  match c.requests[n]? with
  | some ⟨id, .started⟩ => (c.insert id n).setStage n .registered
  | _ => c

def write (n : ℕ) (written : Bool) : AmbientFsClient :=
  match c.requests[n]? with
  | some ⟨_, .registered⟩ => c.setStage n (if written then .waiting else .unwritten)
  | _ => c

def unregister (n : ℕ) : AmbientFsClient :=
  match c.requests[n]? with
  | some ⟨id, .unwritten⟩ => (c.remove id).setStage n (.returned (.error .io))
  | _ => c

/-- The sender is in the map, has been used, or was dropped. -/
def await (n : ℕ) : AmbientFsClient :=
  match c.requests[n]? with
  | some ⟨_, .waiting⟩ =>
    match c.answers.lookup n with
    | some answer => c.setStage n (.returned answer)
    | none =>
      if n ∈ c.pending.map Prod.snd then c
      else c.setStage n (.returned (.error .connectionClosed))
  | _ => c

/-- A response to a pending request. -/
def respond (id : UInt64) (answer : Answer) : AmbientFsClient :=
  match c.pending.lookup id with
  | none => c
  | some n => { c.remove id with answers := c.answers ++ [(n, answer)] }

def notify (notification : ClientNotification) : AmbientFsClient :=
  match c.notifications.trySend notification with
  | .ok notifications => { c with notifications := notifications }
  | .error .full => c
  | .error .closed => { c with reader := .exiting .closed }

def receive (msg : JsonValue) : AmbientFsClient :=
  let c := { c with received := c.received ++ [msg] }
  match responseId msg with
  | some id => c.respond id (responseAnswer msg)
  | none =>
    match notification msg with
    | some notification => c.notify notification
    | none => c

/-- What a line is read as, if it is not blank. -/
def message (fromStr : List Char → Option JsonValue) (text : List Char) : Option JsonValue :=
  let trimmed := Lines.trim Lines.whiteSpace text
  if trimmed = [] then none else fromStr trimmed

def line (fromStr : List Char → Option JsonValue) (text : List Char) : AmbientFsClient :=
  match c.reader, message fromStr text with
  | .reading, some msg => c.receive msg
  | _, _ => c

def exit (e : Exit) : AmbientFsClient :=
  match c.reader with
  | .reading => { c with reader := .exiting e }
  | _ => c

def drain : AmbientFsClient :=
  match c.reader with
  | .exiting e => { c with
      pending := []
      answers := c.answers ++ c.pending.map fun p => (p.2, .error .connectionClosed)
      reader := .finished e }
  | _ => c

def recvNotification : AmbientFsClient := { c with notifications := c.notifications.recv }

def takeNotificationStream : AmbientFsClient := { c with notificationRx := false }

/-- Only a receiver that was taken can be dropped. -/
def dropNotificationStream : AmbientFsClient :=
  if c.notificationRx then c else { c with notifications := c.notifications.dropReceiver }

def step (fromStr : List Char → Option JsonValue) (c : AmbientFsClient) :
    ClientAction → AmbientFsClient
  | .start serializes => c.start serializes
  | .register n => c.register n
  | .write n written => c.write n written
  | .unregister n => c.unregister n
  | .await n => c.await n
  | .line text => c.line fromStr text
  | .endOfStream => c.exit .endOfStream
  | .readError => c.exit .readError
  | .drain => c.drain
  | .recvNotification => c.recvNotification
  | .takeNotificationStream => c.takeNotificationStream
  | .dropNotificationStream => c.dropNotificationStream

end AmbientFsClient

end AmbientFs
