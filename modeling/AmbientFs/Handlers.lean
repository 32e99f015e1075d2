import AmbientFs.Agents
import AmbientFs.Rpc

/-!
# Request handlers

What the socket server answers to each request, from what it has in memory and what it finds
outside: the clock, the file system, the database and the order of the map of agents. A request is
handled in one step. A handler that panics does not answer.
-/

namespace AmbientFs

open Json.Value (asStr asBool asNumber asOption ofOption)

/-- What the server has in memory, apart from its caches of files on the disk. -/
structure ServerState extends EventServer where
  agentTracker : AgentTracker
  /-- The writes to the projects table that have not been carried out. -/
  pending : List ProjectWrite
  machineId : String

/-- What a request finds outside of the server's memory. -/
structure Outside where
  now : DateTime
  /-- The clock when an agent is looked at. -/
  clock : String → DateTime
  /-- The order in which the agents are visited. -/
  visit : List AgentEntry → List AgentEntry
  perm : ∀ agents, (visit agents).Perm agents
  look : Look
  planner : Sqlite.Planner Sql.ColumnName
  db : Sql.Db
  /-- What `build_awareness` comes to for a project and a file. -/
  awareness : String → String → Except AwarenessError (Option FileAwareness)
  writes : Writes
  /-- What `serde_json` says of parameters that are no activity. -/
  activityError : String
  chrono : Chrono

def JsonNumber.toRat : JsonNumber → ℚ
  | posInt n => n.toNat
  | negInt n => n
  | float x => x

/-! ## Values of the server -/

mutual

def TreeNode.toValue : TreeNode → JsonValue
  | ⟨name, path, isDir, children⟩ => .object [
      ("children", .array (TreeNode.toValues children)),
      ("is_dir", .bool isDir),
      ("name", .string name),
      ("path", .string path)]

def TreeNode.toValues : List TreeNode → List JsonValue
  | [] => []
  | n :: ns => n.toValue :: TreeNode.toValues ns

end

def AgentActivity.fromValue (v : JsonValue) : Option AgentActivity := do
  let fields ← v.fields ["ts", "agent", "action", "file", "project", "tool", "session", "intent",
    "lines", "confidence", "done"]
  let ts ← ((fields "ts").bind asNumber).bind JsonNumber.asI64
  let agent ← (fields "agent").bind asStr
  let action ← (fields "action").bind asStr
  let file ← (fields "file").bind asStr
  let project ← asOption asStr (fields "project")
  let tool ← asOption asStr (fields "tool")
  let session ← asOption asStr (fields "session")
  let intent ← asOption asStr (fields "intent")
  let lines ← asOption (fun v =>
    match v with
    | .array items => items.mapM JsonValue.asU32
    | _ => none) (fields "lines")
  let confidence ← asOption (fun v => v.asNumber.map JsonNumber.toRat) (fields "confidence")
  let done ← asOption asBool (fields "done")
  return { ts, agent, action, file, project, tool, session, intent, lines, confidence, done }

def AgentState.toValue (a : AgentState) : JsonValue := .object [
  ("agent_id", .string a.agentId),
  ("files", .array (a.files.map .string)),
  ("intent", ofOption .string a.intent),
  ("last_seen", JsonValue.ofI64 a.lastSeen.timestamp),
  ("session", ofOption .string a.session),
  ("tool", ofOption .string a.tool)]

/-- A parameter that must be a string. -/
def stringParam (members : List (String × JsonValue)) (name : String) : Option String :=
  (members.lookup name).bind asStr

namespace Rpc

/-- The receivers of a connection, by project. -/
abbrev Subscriptions := AList fun _ : String => Receiver

namespace Response

def ofExcept (id : Id) : Except ProtocolError JsonValue → Response
  | .ok result => ofResult id result
  | .error error => ofError id error

@[simp] theorem ofExcept_id (id : Id) (r : Except ProtocolError JsonValue) :
    (ofExcept id r).id = id := by
  cases r <;> rfl

end Response

section Handlers

variable (o : Outside) (s : ServerState) (req : Request)

/-- The project of a request that needs one. -/
def requiredProject : Except ProtocolError String :=
  match req.params with
  | some (.object members) =>
    match stringParam members "project_id" with
    | some projectId => .ok projectId
    | none => .error (.invalidParams "project_id is required and must be a string")
  | _ => .error (.invalidParams "params object with project_id is required")

/-- A receiver that the connection has for the project is replaced. -/
def handleSubscribe (subs : Subscriptions) : ServerState × Subscriptions × Response :=
  match requiredProject req with
  | .error e => (s, subs, .ofError req.id e)
  | .ok projectId =>
    let r := s.subscriptions.subscribe projectId
    ({ s with subscriptions := r.1 }, subs.insert projectId r.2, .ofResult req.id
      (.object [("project_id", .string projectId), ("subscribed", .bool true)]))

/-- The project's count is taken down whether or not the connection has subscribed. -/
def handleUnsubscribe (subs : Subscriptions) : ServerState × Subscriptions × Response :=
  match requiredProject req with
  | .error e => (s, subs, .ofError req.id e)
  | .ok projectId =>
    ({ s with subscriptions := s.subscriptions.unsubscribe projectId }, subs.erase projectId,
      .ofResult req.id (.bool true))

def handleWatchProject : ServerState × Response :=
  let path := req.extractObjectParams.bind fun members => stringParam members "path"
  match s.registry.validateWatch path o.look with
  | .error e => (s, .ofError req.id e)
  | .ok (projectId, canonical, watcher) =>
    ({ s with
      registry := (s.registry.addProject projectId canonical).addWatcher projectId watcher
      pending := s.pending ++ [.add projectId canonical] }, .ofResult req.id
      (.object [("project_id", .string projectId), ("watching", .bool true)]))

def handleUnwatchProject : ServerState × Response :=
  match req.extractObjectParams.bind fun members => stringParam members "project_id" with
  | none => (s, .ofError req.id
      (.invalidParams "project_id is required and must be a string"))
  | some projectId =>
    match s.registry.projects projectId with
    | none => (s, .ofError req.id (.projectNotFound projectId))
    | some _ =>
      ({ s with
        registry := (s.registry.removeWatcher projectId).removeProject projectId
        pending := s.pending ++ [.remove projectId] }, .ofResult req.id (.bool true))

/-- The directory of agents a request names. -/
def agentsPath : Except ProtocolError PathBuf :=
  match req.extractObjectParams.bind fun members => stringParam members "path" with
  | none => .error (.invalidParams "path is required and must be a string")
  | some path => .ok (.ofString path)

/-- A directory of agents is kept among the projects, under a key of its own kind. -/
def watchKey (path : PathBuf) : String := "agents:" ++ path.display

def handleWatchAgents : ServerState × Response :=
  match agentsPath req with
  | .error e => (s, .ofError req.id e)
  | .ok path =>
    if o.look.pathExists = false then
      (s, .ofError req.id (.invalidPath ("path does not exist: " ++ path.display)))
    else if o.look.isDir = false then
      (s, .ofError req.id (.invalidPath ("path is not a directory: " ++ path.display)))
    else
      ({ s with registry := s.registry.addProject (watchKey path) path }, .ofResult req.id
        (.object [("path", .string path.display), ("watching", .bool true)]))

def handleUnwatchAgents : ServerState × Response :=
  match agentsPath req with
  | .error e => (s, .ofError req.id e)
  | .ok path =>
    ({ s with registry := s.registry.removeProject (watchKey path) },
      .ofResult req.id (.bool true))

/-- The agents that are not stale; with a file, those of them that have it. -/
def handleQueryAgents : Response :=
  let queryFile := req.extractObjectParams.bind fun members => stringParam members "file"
  let agents := s.agentTracker.getAllAgents o.clock (o.visit s.agentTracker.agents.entries)
  let agents :=
    match queryFile with
    | some file => agents.filter fun a : AgentState => file ∈ a.files
    | none => agents
  .ofResult req.id (.array (agents.map AgentState.toValue))

/-- The task of the connection panics if the instant that the request names is out of range. -/
def handleQueryEvents : Option Response :=
  match AmbientFs.handleQueryEvents o.planner o.db o.now req.params with
  | .events events => some (.ofResult req.id (.array (events.map (·.toValue o.chrono))))
  | .error e => some (.ofError req.id e)
  | .panicked => none

/-- An error of the store or the cache is answered with null. -/
def handleQueryAwareness : Response :=
  .ofExcept req.id <|
    match req.extractObjectParams with
    | none => .error (.invalidParams "params must be an object")
    | some members =>
      match stringParam members "project_id" with
      | none => .error (.invalidParams "project_id is required")
      | some projectId =>
        match stringParam members "path" with
        | none => .error (.invalidParams "path is required")
        | some filePath =>
          match o.awareness projectId filePath with
          | .ok (some awareness) => .ok (awareness.toValue o.chrono)
          | .ok none => .ok .null
          | .error _ => .ok .null

def handleQueryTree : Response :=
  .ofExcept req.id <|
    match requiredProject req with
    | .error e => .error e
    | .ok projectId => (s.registry.queryTree (some projectId)).map TreeNode.toValue

def handleAttribute : ServerState × Response :=
  let params := req.extractObjectParams.map fun members =>
    { filePath := stringParam members "file_path"
      projectId := stringParam members "project_id"
      source := stringParam members "source"
      sourceId := stringParam members "source_id" }
  let r := s.toEventServer.handleAttribute params s.machineId o.now o.writes
  ({ s with toEventServer := r.1 },
    .ofExcept req.id (r.2.map fun _ => .object [("attributed", .bool true)]))

def handleReportAgentActivity : ServerState × Response :=
  match req.extractObjectParams with
  | none => (s, .ofError req.id (.invalidParams "params must be an object"))
  | some members =>
    match AgentActivity.fromValue (.object members) with
    | none => (s, .ofError req.id
        (.invalidParams ("invalid activity params: " ++ o.activityError)))
    | some activity =>
      ({ s with agentTracker := s.agentTracker.updateFromActivity activity o.now },
        .ofResult req.id (.object [("recorded", .bool true)]))

end Handlers

/-- The server and the connection after a request, and the response unless the task panics. -/
def handleRequest (o : Outside) (s : ServerState) (subs : Subscriptions) (req : Request) :
    ServerState × Subscriptions × Option Response :=
  let alone (r : ServerState × Response) := (r.1, subs, some r.2)
  let shared (r : ServerState × Subscriptions × Response) := (r.1, r.2.1, some r.2.2)
  match Method.fromStr req.method with
  | none => (s, subs, some (.ofError req.id (.methodNotFound req.method)))
  | some .subscribe => shared (handleSubscribe s req subs)
  | some .unsubscribe => shared (handleUnsubscribe s req subs)
  | some .queryEvents => (s, subs, handleQueryEvents o req)
  | some .queryAwareness => (s, subs, some (handleQueryAwareness o req))
  | some .watchProject => alone (handleWatchProject o s req)
  | some .unwatchProject => alone (handleUnwatchProject s req)
  | some .watchAgents => alone (handleWatchAgents o s req)
  | some .unwatchAgents => alone (handleUnwatchAgents s req)
  | some .queryAgents => (s, subs, some (handleQueryAgents o s req))
  | some .queryTree => (s, subs, some (handleQueryTree s req))
  | some .attribute => alone (handleAttribute o s req)
  | some .reportAgentActivity => alone (handleReportAgentActivity o s req)

end Rpc

end AmbientFs
