import AmbientFs.Registry
import AmbientFs.Store
import AmbientFs.Subscriptions

/-!
# The event loop

The daemon takes the events of its watcher one at a time: it looks up the project, stores the event,
sends it to the subscribers, applies it to the project's tree and schedules an analysis. A client
can attribute a file to a source, which is an event too. Other tasks subscribe, unsubscribe and
change the registry in between. What the store, the clock and the agent tracker answer is passed in.
-/

namespace AmbientFs

/-- Whether the store can be opened and an event inserted. -/
structure Writes where
  opens : Bool
  inserts : Bool

/-- What the loop finds when it handles an event. -/
structure Handling where
  running : Bool
  /-- The ids of the projects in the order in which the map is iterated. -/
  order : List String
  activeAgent : String → Option String
  writes : Writes

/-- The parameters of a request to attribute a file. -/
structure AttributeParams where
  filePath : Option String
  projectId : Option String
  source : Option String
  sourceId : Option String

/-- The project the loop assigns an event of a path to. -/
def Registry.assign (r : Registry) (order : List String) (filePath : String) : Option String :=
  order.find? fun id => (r.projects id).any fun root =>
    root.toStringLossy.toList.isPrefixOf filePath.toList

structure EventServer where
  registry : Registry
  subscriptions : SubscriptionManager
  store : EventStore
  /-- The analyses that have been scheduled. -/
  analyses : List (FileEvent × PathBuf)

namespace EventServer

section

variable (s : EventServer)

/-- The watcher uses a default project id, and sees no agents. -/
def prepare (h : Handling) (event : FileEvent) : FileEvent :=
  let event :=
    match s.registry.assign h.order event.filePath with
    | some projectId => { event with projectId := projectId }
    | none => event
  match h.activeAgent event.filePath with
  | some _ => event.withSource .aiAgent
  | none => event

/-- A failure is logged only. -/
def persist (w : Writes) (event : FileEvent) : EventServer :=
  if w.opens then
    if w.inserts then { s with store := s.store.insert event } else s
  else s

def publish (n : Notification) : EventServer :=
  { s with subscriptions := s.subscriptions.broadcast n }

def scheduleAnalysis (event : FileEvent) : EventServer :=
  if event.eventType = .created ∨ event.eventType = .modified then
    match s.registry.projects event.projectId with
    | some root => { s with analyses := s.analyses ++ [(event, root)] }
    | none => s
  else s

/-- `machineId` is that of the server, `now` what the clock says. -/
def handleAttribute (params : Option AttributeParams) (machineId : String) (now : DateTime)
    (w : Writes) : EventServer × Except ProtocolError Unit :=
  match params with
  | none => (s, .error (.invalidParams "params must be an object"))
  | some params =>
    match params.filePath with
    | none => (s, .error (.invalidParams "file_path is required"))
    | some filePath =>
      match params.projectId with
      | none => (s, .error (.invalidParams "project_id is required"))
      | some projectId =>
        match params.source with
        | none => (s, .error (.invalidParams "source is required"))
        | some sourceStr =>
          match Source.fromStr sourceStr with
          | .error _ => (s, .error (.invalidParams ("invalid source: " ++ sourceStr)))
          | .ok source =>
            let event :=
              (FileEvent.new now .modified filePath projectId machineId).withSource source
            let event :=
              match params.sourceId with
              | some sourceId => event.withSourceId sourceId
              | none => event
            if w.opens then
              if w.inserts then
                ({ s with store := s.store.insert event }.publish (.event event), .ok ())
              else (s, .error .internalError)
            else (s, .error .internalError)

end

section Trees

variable [Lowercase] (s : EventServer)

/-- Applies an event to the tree of its project, if there is one, and sends the patch. -/
def updateTree (event : FileEvent) : EventServer :=
  match s.registry.trees event.projectId with
  | none => s
  | some tree =>
    let r := tree.applyEvent event
    let s := { s with registry := s.registry.addTree event.projectId r.1 }
    match r.2 with
    | none => s
    | some patch => s.publish (.treePatch event.projectId patch)

/-- The body of the loop. -/
def handleEvent (h : Handling) (event : FileEvent) : EventServer :=
  if h.running then
    let event := s.prepare h event
    (((s.persist h.writes event).publish (.event event)).updateTree event).scheduleAnalysis event
  else s

end Trees

end EventServer

inductive EventAction
  | event (h : Handling) (event : FileEvent)
  | attribution (params : Option AttributeParams) (machineId : String) (now : DateTime) (w : Writes)
  | subscribe (projectId : String)
  | unsubscribe (projectId : String)
  /-- A request changes the registry. -/
  | register (r : Registry)

def EventServer.step [Lowercase] (s : EventServer) : EventAction → EventServer
  | .event h event => s.handleEvent h event
  | .attribution params machineId now w => (s.handleAttribute params machineId now w).1
  | .subscribe projectId => { s with subscriptions := (s.subscriptions.subscribe projectId).1 }
  | .unsubscribe projectId => { s with subscriptions := s.subscriptions.unsubscribe projectId }
  | .register r => { s with registry := r }

end AmbientFs
