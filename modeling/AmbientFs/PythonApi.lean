import AmbientFs.Handlers
import AmbientFs.Lib.Utf8
import AmbientFs.PythonClient

/-!
# The methods of the Python client

What each method sends, and what it makes of the result of its call. The fields of the data are
not checked, only looked up: of the enumerations, the value must be one of theirs. A number is sent
as the server reads its digits. The reader of the stream does not give out a line that is longer
than its limit.
-/

namespace AmbientFs

/-- What `serde_json` reads the digits of an integer as. -/
def JsonNumber.ofInt (n : ℤ) : JsonNumber :=
  if 0 ≤ n then if n < 2 ^ 64 then .posInt (.ofNat n.toNat) else .float n
  else if -2 ^ 63 ≤ n then .negInt n
  else .float n

namespace Python

inductive Error
  | keyError (key : String)
  | typeError
  | valueError
  | attributeError
  | call (e : CallError JsonNumber)

structure FileEvent where
  timestamp : JsonValue
  eventType : EventType
  filePath : JsonValue
  projectId : JsonValue
  source : Source
  sourceId : JsonValue
  machineId : JsonValue
  contentHash : JsonValue
  oldPath : JsonValue

structure FileAwareness where
  filePath : JsonValue
  projectId : JsonValue
  lastModified : JsonValue
  modifiedBy : Source
  modifiedByLabel : JsonValue
  activeAgent : JsonValue
  chatReferences : JsonValue
  todoCount : JsonValue
  lintHints : JsonValue
  lineCount : JsonValue
  changeFrequency : ChangeFrequency

inductive TreeNode
  | mk (name path isDir : JsonValue) (children : List TreeNode)

structure EventFilter where
  projectId : Option String := none
  since : Option ℤ := none
  source : Option String := none
  limit : Option ℤ := none

/-! ## Looking things up -/

/-- `data[key]`. -/
def subscript (key : String) : JsonValue → Except Error JsonValue
  | .object members => (members.lookup key).elim (.error (.keyError key)) .ok
  | _ => .error .typeError

/-- `data.get(key, default)`. -/
def getOr (key : String) (default : JsonValue) : JsonValue → Except Error JsonValue
  | .object members => .ok ((members.lookup key).getD default)
  | _ => .error .attributeError

/-- What a loop over a value goes through. -/
def items : JsonValue → Except Error (List JsonValue)
  | .array items => .ok items
  | .object members => .ok (members.map fun m => .string m.1)
  | .string s => .ok (s.toList.map fun c => .string (.ofList [c]))
  | _ => .error .typeError

/-- A member of an enumeration, by its value. -/
def member {α : Type} (values : List (String × α)) (v : JsonValue) : Except Error α :=
  (v.asStr.bind fun s => values.lookup s).elim (.error .valueError) .ok

def eventTypes : List (String × EventType) :=
  [("created", .created), ("modified", .modified), ("deleted", .deleted), ("renamed", .renamed)]

def sources : List (String × Source) :=
  [("user", .user), ("ai_agent", .aiAgent), ("git", .git), ("build", .build), ("voice", .voice)]

def changeFrequencies : List (String × ChangeFrequency) :=
  [("hot", .hot), ("warm", .warm), ("cold", .cold)]

/-! ## Decoding -/

def decodeFileEvent (data : JsonValue) : Except Error FileEvent := do
  let timestamp ← subscript "timestamp" data
  let eventType ← (subscript "event_type" data).bind (member eventTypes)
  let filePath ← subscript "file_path" data
  let projectId ← subscript "project_id" data
  let source ← (subscript "source" data).bind (member sources)
  let sourceId ← getOr "source_id" .null data
  let machineId ← getOr "machine_id" (.string "") data
  let contentHash ← getOr "content_hash" .null data
  let oldPath ← getOr "old_path" .null data
  return ⟨timestamp, eventType, filePath, projectId, source, sourceId, machineId, contentHash,
    oldPath⟩

def decodeFileAwareness (data : JsonValue) : Except Error FileAwareness := do
  let zero : JsonValue := .number (.ofInt 0)
  let filePath ← subscript "file_path" data
  let projectId ← subscript "project_id" data
  let lastModified ← subscript "last_modified" data
  let modifiedBy ← (subscript "modified_by" data).bind (member sources)
  let modifiedByLabel ← getOr "modified_by_label" .null data
  let activeAgent ← getOr "active_agent" .null data
  let chatReferences ← getOr "chat_references" zero data
  let todoCount ← getOr "todo_count" zero data
  let lintHints ← getOr "lint_hints" zero data
  let lineCount ← getOr "line_count" zero data
  let changeFrequency ← (getOr "change_frequency" (.string "cold") data).bind
    (member changeFrequencies)
  return ⟨filePath, projectId, lastModified, modifiedBy, modifiedByLabel, activeAgent,
    chatReferences, todoCount, lintHints, lineCount, changeFrequency⟩

mutual

def decodeTreeNode : JsonValue → Except Error TreeNode
  | .object members => do
    let children ← decodeChildren members
    let name ← subscript "name" (.object members)
    let path ← subscript "path" (.object members)
    let isDir ← subscript "is_dir" (.object members)
    return .mk name path isDir children
  | _ => .error .attributeError

/-- The nodes under `children`, none if it is not there. -/
def decodeChildren : List (String × JsonValue) → Except Error (List TreeNode)
  | [] => .ok []
  | (key, data) :: rest =>
    if key = "children" then
      match data with
      | .array items => decodeTreeNodes items
      | data => (items data).bind fun texts =>
          if texts.isEmpty then .ok [] else .error .attributeError
    else decodeChildren rest

def decodeTreeNodes : List JsonValue → Except Error (List TreeNode)
  | [] => .ok []
  | data :: rest => do
    let n ← decodeTreeNode data
    let ns ← decodeTreeNodes rest
    return n :: ns

end

/-- The project's id, and the path that is watched. -/
def decodeWatchResult : JsonValue → Except Error (JsonValue × JsonValue)
  | .string projectId => .ok (.string projectId, .string "")
  | data => do
    let projectId ← subscript "project_id" data
    let watchedPath ← subscript "watched_path" data
    return (projectId, watchedPath)

/-! ## Calls -/

inductive Call
  | watchProject (path : String)
  | unwatchProject (projectId : String)
  | queryEvents (filter : Option EventFilter)
  | queryAwareness (projectId path : String)
  | queryTree (projectId : String)
  | «attribute» (projectId filePath source : String) (sourceId : Option String)
  | queryAgents

inductive Returned
  | none
  | watch (projectId watchedPath : JsonValue)
  | events (events : List FileEvent)
  | awareness (awareness : FileAwareness)
  | tree (root : TreeNode)
  | agents (agents : List JsonValue)

/-- An empty text is not sent. -/
def textMember (key : String) (text : Option String) : List (String × JsonValue) :=
  match text with
  | some s => if s = "" then [] else [(key, .string s)]
  | none => []

def EventFilter.members (filter : EventFilter) : List (String × JsonValue) :=
  textMember "project_id" filter.projectId ++
  (filter.since.map fun n => ("since", Json.Value.number (JsonNumber.ofInt n))).toList ++
  textMember "source" filter.source ++
  (filter.limit.map fun n => ("limit", Json.Value.number (JsonNumber.ofInt n))).toList

namespace Call

def method : Call → String
  | watchProject _ => "watch_project"
  | unwatchProject _ => "unwatch_project"
  | queryEvents _ => "query_events"
  | queryAwareness .. => "query_awareness"
  | queryTree _ => "query_tree"
  | .attribute .. => "attribute"
  | queryAgents => "query_agents"

def params : Call → List (String × JsonValue)
  | watchProject path => [("path", .string path)]
  | unwatchProject projectId | queryTree projectId => [("project_id", .string projectId)]
  | queryEvents filter => (filter.map EventFilter.members).getD []
  | queryAwareness projectId path => [("project_id", .string projectId), ("path", .string path)]
  | .attribute projectId filePath source sourceId =>
    [("project_id", .string projectId), ("file_path", .string filePath),
      ("source", .string source)] ++ textMember "source_id" sourceId
  | queryAgents => []

def request (call : Call) (id : ℕ) : JsonValue := .object [
  ("jsonrpc", .string "2.0"),
  ("method", .string call.method),
  ("params", .object call.params),
  ("id", .number (.ofInt id))]

def decode (result : JsonValue) : Call → Except Error Returned
  | watchProject _ => (decodeWatchResult result).map fun r => .watch r.1 r.2
  | unwatchProject _ | .attribute .. => .ok .none
  | queryEvents _ => ((items result).bind (List.mapM decodeFileEvent)).map .events
  | queryAwareness .. => (decodeFileAwareness result).map .awareness
  | queryTree _ => (decodeTreeNode result).map .tree
  | queryAgents =>
    match result with
    | .array agents => .ok (.agents agents)
    | _ => .error (.call (.invalidResponse "expected list from query_agents"))

/-- The longest line that `readline` returns, in bytes without the line end. -/
def lineLimit : ℕ := 2 ^ 16

/-- What the call returns or raises for a line that is read as the value. -/
def finish (call : Call) (line : List Char) (response : JsonValue) : Except Error Returned :=
  if lineLimit < (Utf8.encode line).length then .error (.call .line)
  else
    match parseResponse (fun _ => some response) line with
    | .ok result => call.decode result
    | .error e => .error (.call e)

end Call

end Python

end AmbientFs
