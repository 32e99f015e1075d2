import AmbientFs.Handlers

/-!
# The methods of the client

What each request method of the client sends, and what it makes of the answer. A call sends its
method's name and an object of parameters under the id it has taken.
-/

namespace AmbientFs

namespace Client

/-- Event filter for queries. -/
structure EventFilter where
  projectId : Option String := none
  /-- Unix timestamp. -/
  since : Option ℤ := none
  source : Option String := none
  limit : Option UInt64 := none

/-- A call of a request method. -/
inductive Call
  | watch (path : String)
  | events (filter : EventFilter)
  | subscribe (projectId : String)
  | watchProject (path : String)
  | unwatchProject (projectId : String)
  | unsubscribe (projectId : String)
  | queryEvents (filter : EventFilter)
  | queryAwareness (projectId path : String)
  | «attribute» (projectId filePath source : String) (sourceId : Option String)
  | queryAgents

/-- What a call returns. -/
inductive Reply
  | unit
  | projectId (projectId : String)
  | events (events : List FileEvent)
  | awareness (awareness : FileAwareness)
  | agents (agents : List JsonValue)

/-- All fields are written. -/
def EventFilter.members (filter : EventFilter) : List (String × JsonValue) := [
  ("project_id", .ofOption .string filter.projectId),
  ("since", .ofOption JsonValue.ofI64 filter.since),
  ("source", .ofOption .string filter.source),
  ("limit", .ofOption (fun limit => .number (.posInt limit)) filter.limit)]

namespace Call

def method : Call → String
  | watch _ => "watch"
  | events _ => "events"
  | subscribe _ => "subscribe"
  | watchProject _ => "watch_project"
  | unwatchProject _ => "unwatch_project"
  | unsubscribe _ => "unsubscribe"
  | queryEvents _ => "query_events"
  | queryAwareness .. => "query_awareness"
  | .attribute .. => "attribute"
  | queryAgents => "query_agents"

/-- The members of the parameters. -/
def params : Call → List (String × JsonValue)
  | watch path | watchProject path => [("path", .string path)]
  | events filter | queryEvents filter => filter.members
  | subscribe projectId | unwatchProject projectId | unsubscribe projectId =>
    [("project_id", .string projectId)]
  | queryAwareness projectId path => [("path", .string path), ("project_id", .string projectId)]
  | .attribute projectId filePath source sourceId =>
    [("file_path", .string filePath), ("project_id", .string projectId),
      ("source", .string source)] ++
    (sourceId.map fun sid => ("source_id", Json.Value.string sid)).toList
  | queryAgents => []

def request (call : Call) (id : UInt64) : JsonValue := .object [
  ("jsonrpc", .string "2.0"),
  ("method", .string call.method),
  ("params", .object call.params),
  ("id", .number (.posInt id))]

/-- What is made of a result. -/
def reply (chrono : Chrono) (result : JsonValue) : Call → Option Reply
  | watch _ | subscribe _ | unwatchProject _ | unsubscribe _ | .attribute .. => some .unit
  | watchProject _ => result.asStr.map .projectId
  | events _ | queryEvents _ =>
    (result.asArray.bind (List.mapM (FileEvent.fromValue chrono))).map .events
  | queryAwareness .. => (FileAwareness.fromValue chrono result).map .awareness
  | queryAgents => result.asArray.map .agents

/-- What the call returns, with the answer its request was resolved with. -/
def finish (chrono : Chrono) (call : Call) (answer : Answer) : Except ClientError Reply := do
  let result ← answer
  match call.reply chrono result with
  | some reply => .ok reply
  | none => .error .invalidResponse

end Call

end Client

end AmbientFs
