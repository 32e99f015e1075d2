import AmbientFs.Message
import AmbientFs.Store

/-!
# Synchronisation

Daemons ask each other for events. The daemon that is asked sends what its store has since the
given time and then goes on with what is published; the one that asks reads the stream to its end
and inserts what it took from it. Each of the two ends takes one step at a time, and a message is
followed by the row it was made from, which is not on the wire.
-/

namespace AmbientFs

/-- Peer configuration for sync. -/
structure PeerConfig where
  /-- Peer address, host and port. -/
  addr : String
  projectId : String
  deriving DecidableEq

/-- A message with the id of the row it was made from. -/
structure Sent where
  row : ℕ
  message : FileEventMessage
  deriving DecidableEq

/-- Whether `sync_events` still sends the history, has returned its stream and sends what is
published, or has ended the stream. -/
inductive Producer
  | sending
  | live
  | ended
  deriving DecidableEq

/-- The stream of `sync_events`: what is to be sent, and what is in the channel. -/
structure SyncStream where
  producer : Producer
  toSend : List Sent
  queue : List Sent

/-- What the peer finds in its store: the rows of a project since a time, in the order of the
query. -/
def EventStore.history (planner : Planner) (s : EventStore) (projectId : String)
    (since : DateTime) : Except StoreError (List Sent) :=
  (s.select planner { projectId := projectId, since := since }).mapM fun r =>
    match r.toEvent with
    | .error e => .error e
    | .ok event => .ok ⟨r.id, fileEventToMessage event⟩

namespace SyncStream

def channelBound : ℕ := 32

def start (history : List Sent) : SyncStream := ⟨.sending, history, []⟩

/-- Sending waits for room in the channel. -/
def send (s : SyncStream) : SyncStream :=
  match s.toSend with
  | [] => s
  | x :: rest =>
    if s.queue.length < channelBound then { s with toSend := rest, queue := s.queue ++ [x] } else s

/-- After the history the handler subscribes to the project and returns the stream. -/
def handOver (s : SyncStream) : SyncStream :=
  if s.producer = .sending ∧ s.toSend = [] then { s with producer := .live } else s

def publish (s : SyncStream) (x : Sent) : SyncStream :=
  if s.producer = .live then { s with toSend := s.toSend ++ [x] } else s

/-- The loop ends when the receiver lags or its channel is closed. -/
def close (s : SyncStream) : SyncStream :=
  if s.producer = .live then { s with producer := .ended, toSend := [] } else s

end SyncStream

inductive Outcome
  | running
  | done
  | failed
  deriving DecidableEq

/-- A run of `sync_peer`. -/
structure SyncRound where
  peer : PeerConfig
  /-- The machine at the peer's address. -/
  server : String
  since : ℤ
  /-- What the peer's store had. -/
  history : List Sent
  stream : SyncStream
  /-- What has been read from the stream. -/
  received : List Sent
  newEvents : List (ℕ × FileEvent)
  outcome : Outcome

/-- A run begins with the peer's answer to the request. -/
def SyncRound.start (peer : PeerConfig) (server : String) (since : ℤ) (history : List Sent) :
    SyncRound where
  peer := peer
  server := server
  since := since
  history := history
  stream := .start history
  received := []
  newEvents := []
  outcome := .running

/-- A daemon's store and the state of its sync manager. -/
structure SyncManager where
  store : EventStore
  peers : List PeerConfig
  lastSync : String → Option ℤ
  round : Option SyncRound
  /-- Rows that are inserted and not yet published. -/
  unpublished : List ℕ

/-- A reading of the clock. `Utc::now` panics before 1970, and a clock that shows a year of five
digits is left out. -/
structure Clock where
  time : DateTime
  afterEpoch : 0 ≤ time.nanos
  fourDigitYear : time.FourDigitYear

namespace SyncManager

def new (peers : List PeerConfig) : SyncManager := ⟨.new, peers, fun _ => none, none, []⟩

variable (planner : Planner) (machineId : String) (m : SyncManager)

/-- The check goes back a second from the event. It finds nothing where that is out of range or
the query fails. -/
def eventExists (event : FileEvent) : Bool :=
  match DateTime.ofNanos (event.timestamp.nanos - nanosPerSec) with
  | none => false
  | some since =>
    match m.store.query planner
      { projectId := event.projectId, filePath := event.filePath, since := since } with
    | .error _ => false
    | .ok results => results.any fun e =>
      e.timestamp = event.timestamp ∧ e.filePath = event.filePath ∧ e.machineId = event.machineId

/-- The time the next request to an address asks from. -/
def sinceTimestamp (addr : String) : ℤ := (m.lastSync addr).getD 0

/-- The loop's work on a message. -/
def take (r : SyncRound) (x : Sent) : SyncRound :=
  if x.message.machineId = machineId then r
  else
    match messageToFileEvent x.message machineId with
    | none => { r with outcome := .failed }
    | some event =>
      if m.eventExists planner event then r
      else { r with newEvents := r.newEvents ++ [(x.row, event)] }

/-- The next message, if the stream has been returned and has one, and the run with it read. -/
def reading : Option (SyncRound × Sent) :=
  match m.round with
  | none => none
  | some r =>
    if r.outcome = .running ∧ r.stream.producer ≠ .sending then
      match r.stream.queue with
      | [] => none
      | x :: queue => some
        ({ r with stream := { r.stream with queue := queue }, received := r.received ++ [x] }, x)
    else none

def receive : SyncManager :=
  match m.reading with
  | none => m
  | some (r, x) => { m with round := some (m.take planner machineId r x) }

/-- A run that has come to the end of its stream. -/
def ending : Option SyncRound :=
  m.round.filter fun r =>
    r.outcome = .running ∧ r.stream.producer = .ended ∧ r.stream.queue = []

/-- At the end of the stream the batch is inserted and the time is taken from the clock. -/
def finish (now : Clock) : SyncManager :=
  match m.ending with
  | none => m
  | some r => { m with
      store := m.store.insertBatch (r.newEvents.map Prod.snd)
      lastSync := Function.update m.lastSync r.peer.addr (some now.time.timestamp)
      round := some { r with outcome := .done }
      unpublished := m.unpublished ++
        (List.range r.newEvents.length).map (m.store.lastId + 1 + ·) }

/-- An error on the stream or in the store ends the run. -/
def fail : SyncManager :=
  match m.round with
  | none => m
  | some r =>
    if r.outcome = .running then { m with round := some { r with outcome := .failed } } else m

/-- A step of the peer's end of the stream. -/
def onStream (f : SyncStream → SyncStream) : SyncManager :=
  match m.round with
  | none => m
  | some r =>
    if r.outcome = .running then { m with round := some { r with stream := f r.stream } } else m

/-- What a machine publishes for a project, on the stream from it. -/
def hear (machine projectId : String) (x : Sent) : SyncManager :=
  m.onStream fun s =>
    if m.round.any fun r => r.server = machine ∧ r.peer.projectId = projectId then s.publish x
    else s

def busy : Bool := m.round.any (·.outcome = .running)

/-- A local event, with the clock's time and the daemon's machine. -/
def record (now : Clock) (e : FileEvent) : SyncManager :=
  { m with
    store := m.store.insert { e with timestamp := now.time, machineId := machineId }
    unpublished := m.unpublished ++ [m.store.lastId + 1] }

end SyncManager

/-- The steps of one run of `sync_peer` with the peer's end of its stream, on which other events
are published in between. -/
inductive SessionAction
  | send
  | handOver
  | publish (x : Sent)
  | closeStream
  | receive
  | finish (now : Clock)
  | fail

def SyncManager.sessionStep (planner : Planner) (machineId : String) (m : SyncManager) :
    SessionAction → SyncManager
  | .send => m.onStream .send
  | .handOver => m.onStream .handOver
  | .publish x => m.onStream (·.publish x)
  | .closeStream => m.onStream .close
  | .receive => m.receive planner machineId
  | .finish now => m.finish now
  | .fail => m.fail

/-- The daemons, by machine. -/
abbrev Network := String → SyncManager

inductive SyncAction
  | record (machine : String) (now : Clock) (e : FileEvent)
  | publish (machine : String) (id : ℕ)
  | startSync (machine : String) (peer : PeerConfig)
  | send (machine : String)
  | handOver (machine : String)
  | closeStream (machine : String)
  | receive (machine : String)
  | finish (machine : String) (now : Clock)
  | fail (machine : String)

namespace Network

variable (planner : Planner) (host : String → Option String) (n : Network)

/-- The event of a row that is inserted and not yet published. -/
def unpublishedEvent (machine : String) (id : ℕ) : Option FileEvent :=
  if id ∈ (n machine).unpublished then
    match (n machine).store.rows.find? (·.id = id) with
    | none => none
    | some row => row.toEvent.toOption
  else none

/-- A published event goes to the live streams of its project. -/
def publish (machine : String) (id : ℕ) : Network :=
  match n.unpublishedEvent machine id with
  | none => n
  | some event => fun a =>
    (if a = machine then { n a with unpublished := (n a).unpublished.erase id } else n a).hear
      machine event.projectId ⟨id, fileEventToMessage event⟩

/-- Connects to a peer and asks it for events, unless a run is going on. -/
def request (machine : String) (peer : PeerConfig) : Option SyncRound :=
  let m := n machine
  let since := m.sinceTimestamp peer.addr
  if m.busy ∨ peer ∉ m.peers then none
  else
    match host peer.addr, DateTime.timestampOpt since with
    | some server, some t =>
      match (n server).store.history planner peer.projectId t with
      | .error _ => none
      | .ok history => some (.start peer server since history)
    | _, _ => none

def startSync (machine : String) (peer : PeerConfig) : Network :=
  match n.request planner host machine peer with
  | none => n
  | some r => Function.update n machine { n machine with round := some r }

def step : SyncAction → Network
  | .record a now e => Function.update n a ((n a).record a now e)
  | .publish a id => n.publish a id
  | .startSync a peer => n.startSync planner host a peer
  | .send a => Function.update n a ((n a).onStream .send)
  | .handOver a => Function.update n a ((n a).onStream .handOver)
  | .closeStream a => Function.update n a ((n a).onStream .close)
  | .receive a => Function.update n a ((n a).receive planner a)
  | .finish a now => Function.update n a ((n a).finish now)
  | .fail a => Function.update n a (n a).fail

end Network

end AmbientFs
