import AmbientFs.Client
import AmbientFs.Lib.Serde
import AmbientFs.Subscriptions

/-!
# Values on the wire

File events, awareness and tree patches as the derived codecs write and read them, the line the
server makes of a notification, and the client's notification that its reader task and
`recv_notification` make of a line. How values are written as text and read again, and how instants
are, is a parameter. The members of an object stand in the order of their keys, in which the map of
`serde_json` has them.
-/

namespace AmbientFs

open Json.Value (asStr asOption)

/-- How instants are written and read. -/
structure Chrono where
  text : DateTime → String
  parse : String → Option DateTime

/-- How values are written as text and read. -/
structure SerdeJson where
  toStr : JsonValue → List Char
  fromStr : List Char → Option JsonValue

def JsonValue.ofU32 (n : UInt32) : JsonValue := .number (.posInt n.toUInt64)

def JsonValue.ofI64 (n : ℤ) : JsonValue :=
  .number (if 0 ≤ n then .posInt (.ofNat n.toNat) else .negInt n)

def JsonValue.asU32 (v : JsonValue) : Option UInt32 :=
  ((v.asNumber).bind JsonNumber.asU64).bind fun n =>
    if n.toNat < 2 ^ 32 then some n.toUInt32 else none

def EventType.fromValue (v : JsonValue) : Option EventType :=
  v.variant.bind fun name => (EventType.fromStr name).toOption

def Source.fromValue (v : JsonValue) : Option Source :=
  v.variant.bind fun name => (Source.fromStr name).toOption

namespace ChangeFrequency

def asStr : ChangeFrequency → String
  | hot => "hot"
  | warm => "warm"
  | cold => "cold"

def fromValue (v : JsonValue) : Option ChangeFrequency :=
  match v.variant with
  | some "hot" => some hot
  | some "warm" => some warm
  | some "cold" => some cold
  | _ => none

end ChangeFrequency

section Structs

variable (chrono : Chrono)

def DateTime.fromValue (v : JsonValue) : Option DateTime := v.asStr.bind chrono.parse

def FileEvent.toValue (e : FileEvent) : JsonValue := .object [
  ("content_hash", .ofOption .string e.contentHash),
  ("event_type", .string e.eventType.asStr),
  ("file_path", .string e.filePath),
  ("machine_id", .string e.machineId),
  ("old_path", .ofOption .string e.oldPath),
  ("project_id", .string e.projectId),
  ("source", .string e.source.asStr),
  ("source_id", .ofOption .string e.sourceId),
  ("timestamp", .string (chrono.text e.timestamp))]

def FileEvent.fromValue (v : JsonValue) : Option FileEvent := do
  let fields ← v.fields ["timestamp", "event_type", "file_path", "project_id", "source",
    "source_id", "machine_id", "content_hash", "old_path"]
  let timestamp ← (fields "timestamp").bind (DateTime.fromValue chrono)
  let eventType ← (fields "event_type").bind EventType.fromValue
  let filePath ← (fields "file_path").bind asStr
  let projectId ← (fields "project_id").bind asStr
  let source ← (fields "source").bind Source.fromValue
  let sourceId ← asOption asStr (fields "source_id")
  let machineId ← (fields "machine_id").bind asStr
  let contentHash ← asOption asStr (fields "content_hash")
  let oldPath ← asOption asStr (fields "old_path")
  return ⟨timestamp, eventType, filePath, projectId, source, sourceId, machineId, contentHash,
    oldPath⟩

def FileAwareness.toValue (a : FileAwareness) : JsonValue := .object [
  ("active_agent", .ofOption .string a.activeAgent),
  ("change_frequency", .string a.changeFrequency.asStr),
  ("chat_references", JsonValue.ofU32 a.chatReferences),
  ("file_path", .string a.filePath),
  ("last_modified", .string (chrono.text a.lastModified)),
  ("line_count", JsonValue.ofU32 a.lineCount),
  ("lint_hints", JsonValue.ofU32 a.lintHints),
  ("modified_by", .string a.modifiedBy.asStr),
  ("modified_by_label", .ofOption .string a.modifiedByLabel),
  ("project_id", .string a.projectId),
  ("todo_count", JsonValue.ofU32 a.todoCount)]

def FileAwareness.fromValue (v : JsonValue) : Option FileAwareness := do
  let fields ← v.fields ["file_path", "project_id", "last_modified", "modified_by",
    "modified_by_label", "active_agent", "chat_references", "todo_count", "lint_hints",
    "line_count", "change_frequency"]
  let filePath ← (fields "file_path").bind asStr
  let projectId ← (fields "project_id").bind asStr
  let lastModified ← (fields "last_modified").bind (DateTime.fromValue chrono)
  let modifiedBy ← (fields "modified_by").bind Source.fromValue
  let modifiedByLabel ← asOption asStr (fields "modified_by_label")
  let activeAgent ← asOption asStr (fields "active_agent")
  let chatReferences ← (fields "chat_references").bind JsonValue.asU32
  let todoCount ← (fields "todo_count").bind JsonValue.asU32
  let lintHints ← (fields "lint_hints").bind JsonValue.asU32
  let lineCount ← (fields "line_count").bind JsonValue.asU32
  let changeFrequency ← (fields "change_frequency").bind ChangeFrequency.fromValue
  return ⟨filePath, projectId, lastModified, modifiedBy, modifiedByLabel, activeAgent,
    chatReferences, todoCount, lintHints, lineCount, changeFrequency⟩

def TreePatch.toValue : TreePatch → JsonValue
  | add path isDir => .object [
      ("is_dir", .bool isDir), ("op", .string "add"), ("path", .string path)]
  | remove path => .object [("op", .string "remove"), ("path", .string path)]
  | rename oldPath newPath isDir => .object [("is_dir", .bool isDir),
      ("new_path", .string newPath), ("old_path", .string oldPath), ("op", .string "rename")]

end Structs

namespace Notification

def method : Notification → String
  | event _ => "event"
  | awarenessChanged .. => "awareness_changed"
  | analysisComplete .. => "analysis_complete"
  | treePatch .. => "tree_patch"

def params (chrono : Chrono) : Notification → JsonValue
  | event e => e.toValue chrono
  | awarenessChanged projectId filePath awareness => .object [
      ("awareness", awareness.toValue chrono),
      ("file_path", .string filePath),
      ("project_id", .string projectId)]
  | analysisComplete projectId filePath lineCount todoCount => .object [
      ("file_path", .string filePath),
      ("line_count", JsonValue.ofU32 lineCount),
      ("project_id", .string projectId),
      ("todo_count", JsonValue.ofU32 todoCount)]
  | treePatch projectId patch => .object [
      ("patch", patch.toValue),
      ("project_id", .string projectId)]

/-- What `handle_connection` writes for a notification. -/
def rpcNotification (chrono : Chrono) (n : Notification) : JsonValue := .object [
  ("jsonrpc", .string "2.0"),
  ("method", .string n.method),
  ("params", n.params chrono)]

def line (chrono : Chrono) (serde : SerdeJson) (n : Notification) : List Char :=
  serde.toStr (n.rpcNotification chrono) ++ ['\n']

end Notification

namespace Client

structure AwarenessChangedParams where
  projectId : String
  filePath : String
  awareness : FileAwareness

structure AnalysisCompleteParams where
  projectId : String
  filePath : String
  lineCount : UInt32
  todoCount : UInt32

structure TreePatchParams where
  projectId : String
  patch : JsonValue

/-- The notifications of the client. -/
inductive Notification
  | event (params : FileEvent)
  | awarenessChanged (params : AwarenessChangedParams)
  | analysisComplete (params : AnalysisCompleteParams)
  | treePatch (params : TreePatchParams)

def AwarenessChangedParams.fromValue (chrono : Chrono) (v : JsonValue) :
    Option AwarenessChangedParams := do
  let fields ← v.fields ["project_id", "file_path", "awareness"]
  let projectId ← (fields "project_id").bind asStr
  let filePath ← (fields "file_path").bind asStr
  let awareness ← (fields "awareness").bind (FileAwareness.fromValue chrono)
  return ⟨projectId, filePath, awareness⟩

def AnalysisCompleteParams.fromValue (v : JsonValue) : Option AnalysisCompleteParams := do
  let fields ← v.fields ["project_id", "file_path", "line_count", "todo_count"]
  let projectId ← (fields "project_id").bind asStr
  let filePath ← (fields "file_path").bind asStr
  let lineCount ← (fields "line_count").bind JsonValue.asU32
  let todoCount ← (fields "todo_count").bind JsonValue.asU32
  return ⟨projectId, filePath, lineCount, todoCount⟩

/-- The patch is flattened: it has all members but the project's id. -/
def TreePatchParams.fromValue : JsonValue → Option TreePatchParams
  | .object members => do
    let projectId ← (members.lookup "project_id").bind asStr
    return ⟨projectId, .object (members.filter (·.1 ≠ "project_id"))⟩
  | _ => none

def Notification.fromValue (chrono : Chrono) (v : JsonValue) : Option Notification := do
  let (method, rest) ← v.tagged "method"
  let params ← (rest.fields ["params"]).bind (· "params")
  match method with
  | "event" => (FileEvent.fromValue chrono params).map event
  | "awareness_changed" => (AwarenessChangedParams.fromValue chrono params).map awarenessChanged
  | "analysis_complete" => (AnalysisCompleteParams.fromValue params).map analysisComplete
  | "tree_patch" => (TreePatchParams.fromValue params).map treePatch
  | _ => none

/-- What `recv_notification` makes of a notification it has received. -/
def Notification.ofRaw (chrono : Chrono) (raw : ClientNotification) : Option Notification :=
  fromValue chrono (.object [("method", .string raw.method), ("params", raw.params)])

/-- What the reader task and `recv_notification` make of a line, if it is a notification. -/
def Notification.ofLine (chrono : Chrono) (serde : SerdeJson) (text : List Char) :
    Option Notification := do
  let msg ← AmbientFsClient.message serde.fromStr text
  match responseId msg with
  | some _ => none
  | none => (notification msg).bind (ofRaw chrono)

end Client

end AmbientFs
