import AmbientFs.Database
import AmbientFs.Lib.SqlText

/-!
# The statements on events

Events are inserted, found and pruned by statements that are given as texts. The text of a query is
put together from the fields of its filter that are given, each with the next number for its
parameter, and what is bound is collected alongside.
-/

namespace AmbientFs

namespace Sql

/-- The columns of `file_events`. -/
def columnNamed : String → Option ColumnName
  | "id" => some .id
  | "timestamp" => some .timestamp
  | "event_type" => some .eventType
  | "file_path" => some .filePath
  | "project_id" => some .projectId
  | "source" => some .source
  | "source_id" => some .sourceId
  | "machine_id" => some .machineId
  | "content_hash" => some .contentHash
  | "old_path" => some .oldPath
  | _ => none

def tableNamed : String → Option TableName
  | "file_events" => some .fileEvents
  | _ => none

def names : Sqlite.Names TableName ColumnName := ⟨tableNamed, columnNamed⟩

inductive StatementError
  | text (e : Sqlite.TextError)
  | db (e : DbError)
  deriving DecidableEq

/-- The rows that a statement finds. -/
def runStatement (planner : Sqlite.Planner ColumnName) (db : Db) (text : String)
    (params : List Sqlite.Param) : Except StatementError (List SqlRow) := do
  let (table, select) ← (Sqlite.prepare names text params).mapError .text
  (sql (db.read table (·.select planner select))).mapError .db

namespace EventStore

def insertText : String :=
  "INSERT INTO file_events (timestamp, event_type, file_path, project_id, source, source_id, " ++
    "machine_id, content_hash, old_path)" ++
    "\n             VALUES (?1, ?2, ?3, ?4, ?5, ?6, ?7, ?8, ?9)"

def insertBound (event : FileEvent) : List Sqlite.Param := [
  .text event.timestamp.toRfc3339,
  .text event.eventType.asStr.toList,
  .text event.filePath.toList,
  .text event.projectId.toList,
  .text event.source.asStr.toList,
  optionText event.sourceId,
  .text event.machineId.toList,
  optionText event.contentHash,
  optionText event.oldPath]

/-- The conditions of a query so far, what is bound for them, and the next number. -/
structure QueryParts where
  conditions : List String
  bindParams : List Sqlite.Param
  paramIdx : ℕ

def QueryParts.push (parts : QueryParts) (condition : String) (param : Sqlite.Param) :
    QueryParts where
  conditions := parts.conditions ++ [condition ++ toString parts.paramIdx]
  bindParams := parts.bindParams ++ [param]
  paramIdx := parts.paramIdx + 1

def QueryParts.empty : QueryParts := ⟨[], [], 1⟩

def queryParts (filter : EventFilter) : QueryParts :=
  let parts := QueryParts.empty
  let parts := match filter.projectId with
    | none => parts
    | some pid => parts.push "project_id = ?" (.text pid.toList)
  let parts := match filter.filePath with
    | none => parts
    | some fp => parts.push "file_path = ?" (.text fp.toList)
  let parts := match filter.source with
    | none => parts
    | some src => parts.push "source = ?" (.text src.asStr.toList)
  match filter.since with
  | none => parts
  -- the number stays, as no condition comes after
  | some since => { parts.push "timestamp >= ?" (.text since.toRfc3339) with
      paramIdx := parts.paramIdx }

def queryText (filter : EventFilter) : String :=
  let query := "SELECT timestamp, event_type, file_path, project_id, source, source_id, " ++
    "machine_id, content_hash, old_path" ++ " FROM file_events WHERE 1=1"
  let conditions := (queryParts filter).conditions
  let query := if conditions = [] then query
    else query ++ " AND " ++ " AND ".intercalate conditions
  let query := query ++ " ORDER BY timestamp DESC"
  match filter.limit with
  | none => query
  | some limit => query ++ " LIMIT " ++ toString limit

def latestText : String :=
  "SELECT timestamp, event_type, file_path, project_id, source, source_id, " ++
    "machine_id, content_hash, old_path" ++
    "\n             FROM file_events" ++
    "\n             WHERE project_id = ?1 AND file_path = ?2" ++
    "\n             ORDER BY timestamp DESC" ++
    "\n             LIMIT 1"

variable (planner : Sqlite.Planner ColumnName) (db : Db)

def insertStatement (event : FileEvent) : Except StatementError (ℕ × Db) := do
  let (table, values) ← (Sqlite.prepareRow names insertText (insertBound event)).mapError .text
  let db ← (sql (db.write table (·.insert values .abort))).mapError .db
  let id ← (sql (db.read .fileEvents fun t => .ok t.lastRowid)).mapError .db
  .ok (id, db)

/-- In one transaction. -/
def insertBatchStatements : Db → List FileEvent → Except StatementError (List ℕ × Db)
  | db, [] => .ok ([], db)
  | db, event :: events => do
    let (id, db) ← insertStatement db event
    let (ids, db) ← insertBatchStatements db events
    .ok (id :: ids, db)

/-- The query by its text. -/
def queryStatement (filter : EventFilter) : Except StatementError (List FileEvent) := do
  let rows ← runStatement planner db (queryText filter) (queryParts filter).bindParams
  (rows.mapM toEvent).mapError .db

def latestStatement (projectId filePath : String) :
    Except StatementError (Option FileEvent) := do
  let rows ← runStatement planner db latestText [.text projectId.toList, .text filePath.toList]
  match rows with
  | [] => .ok none
  | row :: _ => ((toEvent row).mapError .db).map some

end EventStore

namespace EventPruner

def pruneEventsText : String := "DELETE FROM file_events WHERE timestamp < ?1"

/-- The number of rows deleted, and what is left. -/
def pruneEventsStatement (db : Db) (cutoff : DateTime) : Except StatementError (ℕ × Db) := do
  let (table, conditions) ←
    (Sqlite.prepareDelete names pruneEventsText [.text cutoff.toRfc3339]).mapError .text
  let before ← (sql (db.read table fun t => .ok t.rows.length)).mapError .db
  let db ← (sql (db.write table (·.delete conditions))).mapError .db
  let after ← (sql (db.read table fun t => .ok t.rows.length)).mapError .db
  .ok (before - after, db)

end EventPruner

/-- A call that inserts events. -/
inductive Insertion
  | insert (event : FileEvent)
  | insertBatch (events : List FileEvent)

def Insertion.events : Insertion → List FileEvent
  | insert event => [event]
  | insertBatch events => events

def Insertion.exec (db : Db) : Insertion → Except StatementError Db
  | insert event => (EventStore.insertStatement db event).map Prod.snd
  | insertBatch events => (EventStore.insertBatchStatements db events).map Prod.snd

def insertCalls : Db → List Insertion → Except StatementError Db
  | db, [] => .ok db
  | db, call :: calls => do
    let db ← call.exec db
    insertCalls db calls

/-- A new file after some calls. -/
def filled (calls : List Insertion) : Except StatementError Db := do
  let db ← (EventStore.new .empty).mapError .db
  insertCalls db calls

end Sql

end AmbientFs
