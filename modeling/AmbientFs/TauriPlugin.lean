import AmbientFs.Codec

/-!
# The Tauri plugin

The plugin has one client behind a lock and a task, its connection loop, that connects, subscribes
again to the projects it keeps and then waits for notifications, with the client locked while it
waits. A command of the frontend locks the client for its call, and those that subscribe or
unsubscribe lock the list of projects first. Commands are numbered in the order they are invoked.
Whoever waits for a lock may be the next to get it.
-/

namespace AmbientFs

namespace Tauri

/-- What an event of the frontend carries. -/
inductive Payload
  | connected (connected : Bool)
  | event (params : FileEvent)
  | awarenessChanged (params : Client.AwarenessChangedParams)
  | analysisComplete (params : Client.AnalysisCompleteParams)
  | treePatch (params : Client.TreePatchParams)

structure Emission where
  name : String
  payload : Payload

def emitConnected (connected : Bool) : Emission := ⟨"ambient-fs://connected", .connected connected⟩

/-- What is emitted for a notification. -/
def handleNotification : Client.Notification → Emission
  | .event params => ⟨"ambient-fs://event", .event params⟩
  | .awarenessChanged params => ⟨"ambient-fs://awareness-changed", .awarenessChanged params⟩
  | .analysisComplete params => ⟨"ambient-fs://analysis-complete", .analysisComplete params⟩
  | .treePatch params => ⟨"ambient-fs://tree-patch", .treePatch params⟩

inductive Command
  /-- A command that passes a call of the method on to the client. -/
  | call (method : String)
  | subscribe (projectId : String)
  | unsubscribe (projectId : String)
  | queryTree
  | getStatus

inductive Reply
  /-- What the client's request has returned. -/
  | answer (a : Answer)
  | done
  | error (text : String)
  | status (connected : Bool)

/-- What a command does next. -/
inductive CommandPoint
  /-- It locks the list of projects, to change it. -/
  | tracking
  /-- It locks the client, and calls it. -/
  | calling
  /-- It waits, with the client locked, for the client's request with the number. -/
  | asking (k : ℕ)
  | returned (reply : Reply)

structure Invocation where
  command : Command
  point : CommandPoint

/-- What the connection loop does next. -/
inductive TaskPoint
  | connecting
  /-- It has connected, and locks the client to put the new one there. -/
  | storing (c : AmbientFsClient)
  | copying
  /-- It locks the client, to subscribe to the projects. -/
  | locking (projects : List String)
  | resubscribing (projects : List String)
  | resubscribed (k : ℕ) (projects : List String)
  /-- It locks the client, to wait for a notification. -/
  | looping
  | receiving
  | handling (n : Client.Notification)
  /-- It has found the connection ended, and locks the client to take it away. It has locked it
  already. -/
  | relocking

inductive Holder
  | task
  | command (n : ℕ)
  deriving DecidableEq

structure PluginState where
  client : Option AmbientFsClient
  clientLock : Option Holder
  connected : Bool
  subscribedProjects : List String
  /-- The command that has locked the list of projects. -/
  projectsLock : Option ℕ
  task : TaskPoint
  commands : List Invocation
  emitted : List Emission
  /-- How often the loop has connected. -/
  connects : ℕ
  /-- The projects that have been asked for on the connection. -/
  asked : List String

inductive Action
  /-- The loop tries to connect. -/
  | connect (ok : Bool)
  | task
  | invoke (command : Command)
  | command (n : ℕ)
  /-- The client's request goes on, or its reader does. -/
  | client (a : ClientAction)

end Tauri

/-- Whether it is the reader or a request that takes the action. -/
def ClientAction.inside : ClientAction → Bool
  | register _ | write .. | unregister _ | await _ | line _ | endOfStream | readError | drain =>
    true
  | start _ | recvNotification | takeNotificationStream | dropNotificationStream => false

namespace AmbientFsClient

variable (c : AmbientFsClient)

def isConnected : Bool :=
  match c.reader with
  | .finished _ => false
  | _ => true

/-- What a call of `send_request` has returned. -/
def returned (k : ℕ) : Option Answer :=
  match c.requests[k]? with
  | some ⟨_, .returned answer⟩ => some answer
  | _ => none

def inside (fromStr : List Char → Option JsonValue) (a : ClientAction) : AmbientFsClient :=
  if a.inside then c.step fromStr a else c

end AmbientFsClient

namespace Tauri

namespace PluginState

def new : PluginState where
  client := none
  clientLock := none
  connected := false
  subscribedProjects := []
  projectsLock := none
  task := .connecting
  commands := []
  emitted := []
  connects := 0
  asked := []

variable (s : PluginState)

/-- The notification loop has ended. -/
def disconnected : PluginState :=
  { s with
    connected := false
    emitted := s.emitted ++ [emitConnected false]
    task := .connecting }

def connect (ok : Bool) : PluginState :=
  match s.task with
  | .connecting =>
    if ok then { s with task := .storing (.new 256), connects := s.connects + 1 }
    else { s with connected := false }
  | _ => s

/-- The loop waits with the client locked. -/
def receive (chrono : Chrono) (c : AmbientFsClient) : PluginState :=
  match c.notifications.queue with
  | [] => if c.isConnected then s else { s with task := .relocking }
  | raw :: _ =>
    let s := { s with client := some c.recvNotification }
    match Client.Notification.ofRaw chrono raw with
    | some n => { s with clientLock := none, task := .handling n }
    | none =>
      if c.isConnected then { s with clientLock := none, task := .looping }
      else { s with task := .relocking }

def resubscribe (projects : List String) : PluginState :=
  match projects, s.client with
  | p :: rest, some c =>
    { s with
      client := some (c.start true)
      asked := s.asked ++ [p]
      task := .resubscribed c.requests.length rest }
  | _, _ => { s with clientLock := none, task := .looping }

/-- The next step of `connection_loop`, if it does not have to wait. -/
def taskStep (chrono : Chrono) : PluginState :=
  match s.task with
  | .connecting => s
  | .storing c =>
    if s.clientLock.isSome then s
    else
      { s with
        client := some c
        asked := []
        connected := true
        emitted := s.emitted ++ [emitConnected true]
        task := .copying }
  | .copying =>
    if s.projectsLock.isSome then s
    else
      { s with
        task := if s.subscribedProjects = [] then .looping else .locking s.subscribedProjects }
  | .locking projects =>
    if s.clientLock.isSome then s
    else { s with clientLock := some .task, task := .resubscribing projects }
  | .resubscribing projects => s.resubscribe projects
  | .resubscribed k projects =>
    if (s.client.bind (·.returned k)).isSome then { s with task := .resubscribing projects } else s
  | .looping =>
    if s.clientLock.isSome then s
    else if s.client.isNone then s.disconnected
    else { s with clientLock := some .task, task := .receiving }
  | .receiving =>
    match s.client with
    | some c => s.receive chrono c
    | none => s
  | .handling n => { s with emitted := s.emitted ++ [handleNotification n], task := .looping }
  | .relocking =>
    if s.clientLock.isSome then s else { s with client := none }.disconnected

def setPoint (n : ℕ) (point : CommandPoint) : PluginState :=
  { s with commands := s.commands.modify n fun i => { i with point := point } }

/-- The command's locks are released as it returns. -/
def finish (n : ℕ) (reply : Reply) : PluginState :=
  { s with
    clientLock := if s.clientLock = some (Holder.command n) then none else s.clientLock
    projectsLock := if s.projectsLock = some n then none else s.projectsLock }.setPoint n
      (.returned reply)

def invoke (command : Command) : PluginState :=
  let point : CommandPoint :=
    match command with
    | .call _ => .calling
    | .subscribe _ | .unsubscribe _ => .tracking
    | .queryTree => .returned (.error "query_tree not yet implemented in daemon")
    | .getStatus => .returned (.status s.connected)
  { s with commands := s.commands ++ [⟨command, point⟩] }

/-- `subscribe` releases the list once it has changed it, and `unsubscribe` keeps it locked. -/
def track (n : ℕ) : Command → PluginState
  | .subscribe projectId =>
    { s with subscribedProjects := s.subscribedProjects ++ [projectId] }.setPoint n .calling
  | .unsubscribe projectId =>
    { s with
      subscribedProjects := s.subscribedProjects.filter (· ≠ projectId)
      projectsLock := some n }.setPoint n .calling
  | _ => s

/-- What a command returns when there is no client. -/
def unconnected : Command → Reply
  | .call _ => .error "not connected to daemon"
  | _ => .done

def call (n : ℕ) (command : Command) : PluginState :=
  match s.client with
  | none => s.finish n (unconnected command)
  | some c =>
    { s with
      client := some (c.start true)
      clientLock := some (Holder.command n)
      asked :=
        match command with
        | .subscribe projectId => s.asked ++ [projectId]
        | _ => s.asked }.setPoint n (.asking c.requests.length)

/-- The next step of a command, if it does not have to wait. -/
def commandStep (n : ℕ) : PluginState :=
  match s.commands[n]? with
  | some ⟨command, .tracking⟩ => if s.projectsLock.isSome then s else s.track n command
  | some ⟨command, .calling⟩ => if s.clientLock.isSome then s else s.call n command
  | some ⟨_, .asking k⟩ =>
    match s.client.bind (·.returned k) with
    | some answer => s.finish n (.answer answer)
    | none => s
  | _ => s

/-- The client that is there goes on, or the one that is to be put there. -/
def clientStep (fromStr : List Char → Option JsonValue) (a : ClientAction) : PluginState :=
  { s with
    client := s.client.map (·.inside fromStr a)
    task :=
      match s.task with
      | .storing c => .storing (c.inside fromStr a)
      | task => task }

def step (chrono : Chrono) (fromStr : List Char → Option JsonValue) (s : PluginState) :
    Action → PluginState
  | .connect ok => s.connect ok
  | .task => s.taskStep chrono
  | .invoke command => s.invoke command
  | .command n => s.commandStep n
  | .client a => s.clientStep fromStr a

end PluginState

end Tauri

end AmbientFs
