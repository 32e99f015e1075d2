import AmbientFs.Codec
import AmbientFs.Query
import AmbientFs.Registry

/-!
# JSON-RPC

The requests and responses of the socket server. A request is read from the syntax of a text, in
which an object can have a key more than once: of the fields of a request that is an error, and in
the parameters the last counts.
-/

namespace AmbientFs

open Json.Value (asStr asOption)

namespace ProtocolError

def parseError : ProtocolError := ⟨-32700, "Parse error"⟩

def methodNotFound (method : String) : ProtocolError := ⟨-32601, "Method not found: " ++ method⟩

def toValue (e : ProtocolError) : JsonValue := .object [
  ("code", JsonValue.ofI64 e.code),
  ("message", .string e.message)]

end ProtocolError

/-- The members of an object, of those with the same key the last. -/
def lastMembers {α : Type} : List (String × α) → List (String × α)
  | [] => []
  | (key, a) :: rest =>
    if key ∈ rest.map Prod.fst then lastMembers rest else (key, a) :: lastMembers rest

/-- The last of the members are all of them where no key is there twice. -/
theorem lastMembers_of_nodup {α : Type} {members : List (String × α)}
    (h : (members.map Prod.fst).Nodup) : lastMembers members = members := by
  induction members with
  | nil => rfl
  | cons m rest ih =>
    rw [List.map_cons, List.nodup_cons] at h
    rw [lastMembers, if_neg h.1, ih h.2]

def Params.fromValue : JsonValue → Option Params
  | .array items => some (.array items)
  | .object members => some (.object (lastMembers members))
  | _ => none

namespace Rpc

/-- Request identifier. Numbers are `i64`. -/
inductive Id
  | null
  | number (n : ℤ)
  | string (s : String)
  deriving DecidableEq

def Id.fromValue : JsonValue → Option Id
  | .null => some .null
  | .number n => n.asI64.map number
  | .string s => some (.string s)
  | _ => none

def Id.toValue : Id → JsonValue
  | null => .null
  | number n => JsonValue.ofI64 n
  | string s => .string s

structure Request where
  jsonrpc : String
  method : String
  params : Option Params
  id : Id

namespace Request

def fieldNames : List String := ["jsonrpc", "method", "params", "id"]

/-- Parameters may be missing or null. A missing id is null. -/
def fromFields (jsonrpc method params id : Option JsonValue) : Option Request := do
  let jsonrpc ← jsonrpc.bind asStr
  let method ← method.bind asStr
  let params ← asOption Params.fromValue params
  let id ← (id.map Id.fromValue).getD (some .null)
  return ⟨jsonrpc, method, params, id⟩

def fromValue : JsonValue → Option Request
  | .object members =>
    if ∃ name ∈ fieldNames, 1 < (members.map Prod.fst).count name then none
    else fromFields (members.lookup "jsonrpc") (members.lookup "method") (members.lookup "params")
      (members.lookup "id")
  | .array [jsonrpc, method, params] => fromFields (some jsonrpc) (some method) (some params) none
  | .array [jsonrpc, method, params, id] =>
    fromFields (some jsonrpc) (some method) (some params) (some id)
  | _ => none

/-- Returns true if this is a notification (no id). -/
def isNotification (req : Request) : Bool := req.id = .null

/-- The parameters, if they are an object. -/
def extractObjectParams (req : Request) : Option (List (String × JsonValue)) :=
  match req.params with
  | some (.object members) => some members
  | _ => none

end Request

/-- A response has a result or an error. -/
structure Response where
  result : Option JsonValue
  error : Option ProtocolError
  id : Id

namespace Response

def ofResult (id : Id) (result : JsonValue) : Response := ⟨some result, none, id⟩

def ofError (id : Id) (error : ProtocolError) : Response := ⟨none, some error, id⟩

/-- What is absent is not written. -/
def toValue (r : Response) : JsonValue := .object (
  [("jsonrpc", .string "2.0")] ++
  (r.result.map fun result => ("result", result)).toList ++
  (r.error.map fun error => ("error", error.toValue)).toList ++
  [("id", r.id.toValue)])

end Response

inductive Method
  | subscribe
  | unsubscribe
  | queryEvents
  | queryAwareness
  | watchProject
  | unwatchProject
  | watchAgents
  | unwatchAgents
  | queryAgents
  | queryTree
  | «attribute»
  | reportAgentActivity
  deriving DecidableEq

namespace Method

def asStr : Method → String
  | .subscribe => "subscribe"
  | .unsubscribe => "unsubscribe"
  | .queryEvents => "query_events"
  | .queryAwareness => "query_awareness"
  | .watchProject => "watch_project"
  | .unwatchProject => "unwatch_project"
  | .watchAgents => "watch_agents"
  | .unwatchAgents => "unwatch_agents"
  | .queryAgents => "query_agents"
  | .queryTree => "query_tree"
  | .attribute => "attribute"
  | .reportAgentActivity => "report_agent_activity"

def fromStr (s : String) : Option Method :=
  match s with
  | "subscribe" => some .subscribe
  | "unsubscribe" => some .unsubscribe
  | "query_events" => some .queryEvents
  | "query_awareness" => some .queryAwareness
  | "watch_project" => some .watchProject
  | "unwatch_project" => some .unwatchProject
  | "watch_agents" => some .watchAgents
  | "unwatch_agents" => some .unwatchAgents
  | "query_agents" => some .queryAgents
  | "query_tree" => some .queryTree
  | "attribute" => some .attribute
  | "report_agent_activity" => some .reportAgentActivity
  | _ => none

theorem fromStr_asStr (m : Method) : fromStr m.asStr = some m := by
  cases m <;> rfl

end Method

end Rpc

end AmbientFs
