import AmbientFs.Client
import AmbientFs.Database
import AmbientFs.Message

/-!
# Querying events

The requests of the socket server and of the gRPC server that ask for stored events. Both make a
filter of what they are given, and query the store at the server's path.
-/

namespace AmbientFs

/-- The parameters of a JSON-RPC request. -/
inductive Params
  | array (items : List JsonValue)
  | object (members : List (String × JsonValue))

/-- The value as an `i64`. -/
def JsonNumber.asI64 : JsonNumber → Option ℤ
  | posInt n => if n.toNat < 2 ^ 63 then some n.toNat else none
  | negInt n => some n
  | float _ => none

inductive FilterError
  | invalidSource (source : String)
  /-- The instant is out of range, which is a panic. -/
  | overflow
  deriving DecidableEq

/-- `Utc::now() - Duration::seconds(seconds)`. -/
def secondsAgo (now : DateTime) (seconds : ℤ) : Option DateTime :=
  if seconds.natAbs ≤ 9223372036854775 then
    DateTime.ofNanos (now.nanos - seconds * nanosPerSec)
  else none

/-- The filter that a request builds. -/
def EventFilter.ofRequest (now : DateTime) (projectId : Option String) (since : Option ℤ)
    (source : Option String) (limit : Option ℕ) : Except FilterError EventFilter := do
  let since ← match since with
    | none => .ok none
    | some seconds =>
      match secondsAgo now seconds with
      | none => .error .overflow
      | some since => .ok (some since)
  let source ← match source with
    | none => .ok none
    | some sourceStr =>
      match Source.fromStr sourceStr with
      | .error _ => .error (.invalidSource sourceStr)
      | .ok source => .ok (some source)
  .ok { projectId := projectId, source := source, since := since, limit := limit }

/-! ## The store -/

section Store

variable (planner : Sqlite.Planner Sql.ColumnName) (db : Sql.Db) (now : DateTime)

/-- The store is opened for each request. -/
def openAndQuery (filter : EventFilter) : Except Sql.DbError (List FileEvent) := do
  let db ← Sql.EventStore.new db
  Sql.EventStore.query planner db filter

/-! ## JSON-RPC -/

inductive QueryReply
  | events (events : List FileEvent)
  | error (e : ProtocolError)
  | panicked
  deriving DecidableEq

/-- The parameters, which are optional. -/
def paramsMap : Option Params → Option (List (String × JsonValue))
  | some (.array _) => none
  | some (.object members) => some members
  | none => some []

/-- A parameter of another type counts as missing. -/
def queryFilter (members : List (String × JsonValue)) : Except FilterError EventFilter :=
  EventFilter.ofRequest now ((members.lookup "project_id").bind Json.Value.asStr)
    (((members.lookup "since").bind Json.Value.asNumber).bind JsonNumber.asI64)
    ((members.lookup "source").bind Json.Value.asStr)
    ((((members.lookup "limit").bind Json.Value.asNumber).bind JsonNumber.asU64).map UInt64.toNat)

/-- A failure of the store is logged, and answered with no events. -/
def handleQueryEvents (params : Option Params) : QueryReply :=
  match paramsMap params with
  | none => .error (.invalidParams "params must be an object")
  | some members =>
    match queryFilter now members with
    | .error .overflow => .panicked
    | .error (.invalidSource sourceStr) => .error (.invalidParams ("invalid source: " ++ sourceStr))
    | .ok filter =>
      match openAndQuery planner db filter with
      | .ok events => .events events
      | .error _ => .events []

/-! ## gRPC -/

structure QueryEventsRequest where
  projectId : Option String
  since : Option ℤ
  source : Option String
  /-- An `int32`. -/
  limit : Option ℤ

inductive Code
  | invalidArgument
  | notFound
  | internal
  deriving DecidableEq

inductive QueryStatus
  | error (code : Code) (message : String)
  | panicked
  deriving DecidableEq

/-- The limit is cast to a `usize`. -/
def QueryEventsRequest.filter (req : QueryEventsRequest) : Except FilterError EventFilter :=
  EventFilter.ofRequest now req.projectId req.since req.source
    (req.limit.map fun limit => (limit % 2 ^ 64).toNat)

def queryEvents (req : QueryEventsRequest) : Except QueryStatus (List FileEventMessage) :=
  match req.filter now with
  | .error .overflow => .error .panicked
  | .error (.invalidSource sourceStr) =>
    .error (.error .invalidArgument ("invalid source: " ++ sourceStr))
  | .ok filter =>
    match openAndQuery planner db filter with
    | .ok events => .ok (events.map fileEventToMessage)
    | .error _ => .error (.error .internal "query failed")

end Store

end AmbientFs
