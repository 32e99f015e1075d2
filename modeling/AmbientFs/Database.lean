import AmbientFs.Cache
import AmbientFs.Registry
import AmbientFs.Store
import AmbientFs.Lib.Sqlite

/-!
# The database file

The statements that the event store, the migrations and the analysis cache run on the file they
share. Each of the three makes the tables it needs if they are not there.
-/

namespace AmbientFs

namespace Sql

inductive TableName
  | migrations
  | fileEvents
  | fileAnalysis
  | projects
  deriving DecidableEq

/-- The columns of all tables. -/
inductive ColumnName
  | version
  | appliedAt
  | id
  | timestamp
  | eventType
  | filePath
  | projectId
  | source
  | sourceId
  | machineId
  | contentHash
  | oldPath
  | analyzedAt
  | exports
  | imports
  | todoCount
  | lintHints
  | lineCount
  | path
  | createdAt
  | name
  | addedAt
  | active
  deriving DecidableEq

inductive IndexName
  | projectId
  | filePath
  | timestamp
  | projectFile
  | eventsProjectPath
  | eventsProjectTime
  | eventsSource
  | eventsMachine
  | analysisHash
  deriving DecidableEq

abbrev Db := Sqlite.Database TableName ColumnName IndexName

abbrev SqlRow := Sqlite.Row ColumnName

inductive DbError
  | sqlite (e : Sqlite.Error)
  | invalidColumnType
  | store (e : StoreError)
  /-- A project's path that is not UTF-8. -/
  | invalidPath
  /-- A panic. -/
  | undefinedMigration (version : ℤ)
  deriving DecidableEq

def sql {α : Type} : Except Sqlite.Error α → Except DbError α := Except.mapError .sqlite

/-! ## Columns -/

def text : Sqlite.Column := { affinity := .text }

def textNotNull : Sqlite.Column := { affinity := .text, notNull := true }

def textIn (texts : List String) : Sqlite.Column :=
  { affinity := .text, notNull := true, check := some (texts.map String.toList) }

def integer : Sqlite.Column := { affinity := .integer }

def integerNotNull : Sqlite.Column := { affinity := .integer, notNull := true }

def count : Sqlite.Column := { affinity := .integer, default := .integer 0 }

def createIndexes (name : TableName) : Db → List (IndexName × List ColumnName) → Except DbError Db
  | db, [] => .ok db
  | db, (index, columns) :: indexes => do
    let db ← sql (db.createIndex index name columns)
    createIndexes name db indexes

/-! ## What the event store makes -/

namespace EventStore

def fileEvents : Sqlite.Definition ColumnName where
  columns := [
    (.id, integer),
    (.timestamp, textNotNull),
    (.eventType, textIn ["created", "modified", "deleted", "renamed"]),
    (.filePath, textNotNull),
    (.projectId, textNotNull),
    (.source, textIn ["user", "ai_agent", "git", "build", "voice"]),
    (.sourceId, text),
    (.machineId, textNotNull),
    (.contentHash, text),
    (.oldPath, text)]
  rowid := some .id

def projects : Sqlite.Definition ColumnName where
  columns := [(.projectId, text), (.path, textNotNull), (.createdAt, textNotNull)]
  unique := [[.projectId]]

def new (db : Db) : Except DbError Db := do
  let db := db.createTable .fileEvents fileEvents
  let db ← createIndexes .fileEvents db [
    (.projectId, [.projectId]),
    (.filePath, [.filePath]),
    (.timestamp, [.timestamp]),
    (.projectFile, [.projectId, .filePath])]
  .ok (db.createTable .projects projects)

end EventStore

/-! ## What the cache makes -/

namespace FileAnalysisCache

def fileAnalysis : Sqlite.Definition ColumnName where
  columns := [
    (.filePath, textNotNull),
    (.projectId, textNotNull),
    (.contentHash, textNotNull),
    (.analyzedAt, integerNotNull),
    (.exports, text),
    (.imports, text),
    (.todoCount, count),
    (.lintHints, text),
    (.lineCount, count)]
  unique := [[.projectId, .filePath]]

def initSchema (db : Db) : Except DbError Db :=
  createIndexes .fileAnalysis (db.createTable .fileAnalysis fileAnalysis)
    [(.analysisHash, [.projectId, .contentHash])]

end FileAnalysisCache

/-! ## What the migrations make -/

namespace Migrations

def migrations : Sqlite.Definition ColumnName where
  columns := [(.version, integer), (.appliedAt, integerNotNull)]
  unique := [[.version]]

def fileEvents : Sqlite.Definition ColumnName where
  columns := [
    (.id, integer),
    (.timestamp, integerNotNull),
    (.eventType, textNotNull),
    (.filePath, textNotNull),
    (.projectId, textNotNull),
    (.source, { affinity := .text, notNull := true, default := .text "user".toList }),
    (.sourceId, text),
    (.machineId, textNotNull),
    (.contentHash, text),
    (.oldPath, text)]
  rowid := some .id

def fileAnalysis : Sqlite.Definition ColumnName where
  columns := [
    (.filePath, textNotNull),
    (.projectId, textNotNull),
    (.contentHash, textNotNull),
    (.analyzedAt, integerNotNull),
    (.exports, text),
    (.imports, text),
    (.todoCount, count),
    (.lintHints, text),
    (.lineCount, count)]
  unique := [[.projectId, .filePath]]

def projects : Sqlite.Definition ColumnName where
  columns := [
    (.id, text),
    (.path, textNotNull),
    (.name, textNotNull),
    (.addedAt, integerNotNull),
    (.active, { affinity := .integer, notNull := true, default := .integer 1 })]
  unique := [[.id], [.path]]

def currentVersion : ℤ := 1

def ensureMigrationsTable (db : Db) : Db := db.createTable .migrations migrations

/-- `SELECT COALESCE(MAX(version), 0)`. -/
def getCurrentVersion (db : Db) : Except DbError ℤ :=
  sql (db.read .migrations fun t =>
    if ¬ t.definition.Has .version then .error .noColumn
    else
      let versions := t.rows.filterMap fun r =>
        match r .version with
        | .integer n => some n
        | _ => none
      .ok (versions.max?.getD 0))

def createTablesV1 (db : Db) : Except DbError Db := do
  let db := db.createTable .fileEvents fileEvents
  let db ← createIndexes .fileEvents db [
    (.eventsProjectPath, [.projectId, .filePath]),
    (.eventsProjectTime, [.projectId, .timestamp]),
    (.eventsSource, [.projectId, .source]),
    (.eventsMachine, [.machineId, .timestamp])]
  let db := db.createTable .fileAnalysis fileAnalysis
  let db ← createIndexes .fileAnalysis db [(.analysisHash, [.projectId, .contentHash])]
  .ok (db.createTable .projects projects)

def runMigration (db : Db) (version : ℤ) : Except DbError Db :=
  if version = 1 then createTablesV1 db else .error (.undefinedMigration version)

def recordMigration (db : Db) (now : DateTime) (version : ℤ) : Except DbError Db :=
  sql (db.write .migrations fun t =>
    t.insert [(.version, .integer version), (.appliedAt, .integer now.timestamp)] .abort)

/-- So many migrations, from the one after a version. -/
def migrate (now : DateTime) : ℕ → ℤ → Db → Except DbError Db
  | 0, _, db => .ok db
  | pending + 1, version, db => do
    let db ← runMigration db (version + 1)
    let db ← recordMigration db now (version + 1)
    migrate now pending (version + 1) db

def ensureSchema (now : DateTime) (db : Db) : Except DbError Db := do
  let db := ensureMigrationsTable db
  let current ← getCurrentVersion db
  migrate now (currentVersion - current).toNat current db

end Migrations

/-- What makes the tables of a file that it opens. -/
inductive Opener
  | eventStore
  | migrations
  | cache
  deriving DecidableEq

def Opener.run (now : DateTime) : Opener → Db → Except DbError Db
  | eventStore, db => EventStore.new db
  | migrations, db => Migrations.ensureSchema now db
  | cache, db => FileAnalysisCache.initSchema db

/-! ## Reading a row -/

def getText (r : SqlRow) (c : ColumnName) : Except DbError String :=
  match r c with
  | .text s => .ok (String.ofList s)
  | _ => .error .invalidColumnType

def getTextOption (r : SqlRow) (c : ColumnName) : Except DbError (Option String) :=
  match r c with
  | .null => .ok none
  | .text s => .ok (some (String.ofList s))
  | _ => .error .invalidColumnType

def getU32 (r : SqlRow) (c : ColumnName) : Except DbError UInt32 :=
  match r c with
  | .integer n =>
    if 0 ≤ n ∧ n < 2 ^ 32 then .ok (UInt32.ofNat n.toNat) else .error .invalidColumnType
  | _ => .error .invalidColumnType

/-- What is bound for a text that may be missing. -/
def optionText : Option String → Sqlite.Param
  | none => .null
  | some s => .text s.toList

/-! ## Events and projects -/

namespace EventStore

variable (planner : Sqlite.Planner ColumnName) (db : Db)

/-- The columns of an event, with what is bound for them. -/
def eventParams (event : FileEvent) : List (ColumnName × Sqlite.Param) := [
  (.timestamp, .text event.timestamp.toRfc3339),
  (.eventType, .text event.eventType.asStr.toList),
  (.filePath, .text event.filePath.toList),
  (.projectId, .text event.projectId.toList),
  (.source, .text event.source.asStr.toList),
  (.sourceId, optionText event.sourceId),
  (.machineId, .text event.machineId.toList),
  (.contentHash, optionText event.contentHash),
  (.oldPath, optionText event.oldPath)]

def insert (event : FileEvent) : Except DbError (ℕ × Db) := do
  let db ← sql (db.write .fileEvents (·.insert (eventParams event) .abort))
  let id ← sql (db.read .fileEvents fun t => .ok t.lastRowid)
  .ok (id, db)

/-- In one transaction. -/
def insertBatch : Db → List FileEvent → Except DbError (List ℕ × Db)
  | db, [] => .ok ([], db)
  | db, event :: events => do
    let (id, db) ← insert db event
    let (ids, db) ← insertBatch db events
    .ok (id :: ids, db)

def eventColumns : List ColumnName :=
  [.timestamp, .eventType, .filePath, .projectId, .source, .sourceId, .machineId, .contentHash,
    .oldPath]

def conditions (filter : EventFilter) : List (Sqlite.Condition ColumnName) :=
  (filter.projectId.map fun pid => ⟨.projectId, .eq, .text pid.toList⟩).toList ++
  ((filter.filePath.map fun fp => ⟨.filePath, .eq, .text fp.toList⟩).toList ++
  ((filter.source.map fun src => ⟨.source, .eq, .text src.asStr.toList⟩).toList ++
  (filter.since.map fun since => ⟨.timestamp, .ge, .text since.toRfc3339⟩).toList))

def selectEvents (filter : EventFilter) : Sqlite.Select ColumnName where
  columns := eventColumns
  conditions := conditions filter
  order := some ⟨.timestamp, true⟩
  limit := filter.limit

def toEvent (row : SqlRow) : Except DbError FileEvent := do
  let timestampStr ← getText row .timestamp
  let eventTypeStr ← getText row .eventType
  let filePath ← getText row .filePath
  let projectId ← getText row .projectId
  let sourceStr ← getText row .source
  let timestamp ← match DateTime.parseFromRfc3339 timestampStr.toList with
    | none => .error (.store .timestampParse)
    | some timestamp => .ok timestamp
  let eventType ← (EventType.fromStr eventTypeStr).mapError (.store <| .parse ·)
  let source ← (Source.fromStr sourceStr).mapError (.store <| .parse ·)
  let sourceId ← getTextOption row .sourceId
  let machineId ← getText row .machineId
  let contentHash ← getTextOption row .contentHash
  let oldPath ← getTextOption row .oldPath
  .ok {
    timestamp := timestamp
    eventType := eventType
    filePath := filePath
    projectId := projectId
    source := source
    sourceId := sourceId
    machineId := machineId
    contentHash := contentHash
    oldPath := oldPath }

def query (filter : EventFilter) : Except DbError (List FileEvent) := do
  let rows ← sql (db.read .fileEvents (·.select planner (selectEvents filter)))
  rows.mapM toEvent

def selectLatest (projectId filePath : String) : Sqlite.Select ColumnName where
  columns := eventColumns
  conditions := [
    ⟨.projectId, .eq, .text projectId.toList⟩, ⟨.filePath, .eq, .text filePath.toList⟩]
  order := some ⟨.timestamp, true⟩
  limit := some 1

def getLatest (projectId filePath : String) : Except DbError (Option FileEvent) := do
  let rows ← sql (db.read .fileEvents (·.select planner (selectLatest projectId filePath)))
  match rows with
  | [] => .ok none
  | row :: _ => (toEvent row).map some

def projectParams (now : DateTime) (projectId path : String) : List (ColumnName × Sqlite.Param) := [
  (.projectId, .text projectId.toList),
  (.path, .text path.toList),
  (.createdAt, .text now.toRfc3339)]

/-- `INSERT OR IGNORE`. -/
def addProject (now : DateTime) (projectId : String) (path : PathBuf) : Except DbError Db :=
  match path.toStr with
  | none => .error .invalidPath
  | some path => sql (db.write .projects (·.insert (projectParams now projectId path) .ignore))

def removeProject (projectId : String) : Except DbError Db :=
  sql (db.write .projects (·.delete [⟨.projectId, .eq, .text projectId.toList⟩]))

def getProjectPath (projectId : String) : Except DbError (Option PathBuf) := do
  let rows ← sql (db.read .projects (·.select planner {
    columns := [.path]
    conditions := [⟨.projectId, .eq, .text projectId.toList⟩] }))
  match rows with
  | [] => .ok none
  | row :: _ => (getText row .path).map fun path => some (.ofString path)

def selectProjects : Sqlite.Select ColumnName where
  columns := [.projectId, .path]
  order := some ⟨.createdAt, false⟩

def toProject (row : SqlRow) : Except DbError (String × PathBuf) := do
  let projectId ← getText row .projectId
  let path ← getText row .path
  .ok (projectId, .ofString path)

def listProjects : Except DbError (List (String × PathBuf)) := do
  let rows ← sql (db.read .projects (·.select planner selectProjects))
  rows.mapM toProject

end EventStore

/-! ## Cached analyses -/

/-- How serde_json writes the values of a type, and reads them back. -/
structure Codec (α : Type) where
  toString : α → List Char
  fromStr : List Char → Option α
  fromStr_toString : ∀ a, fromStr (toString a) = some a

structure SerdeJson where
  exports : Codec (List String)
  imports : Codec (List ImportRef)
  lintHints : Codec (List LintHint)

namespace FileAnalysisCache

variable (json : SerdeJson) (planner : Sqlite.Planner ColumnName) (db : Db)

def analysisColumns : List ColumnName :=
  [.filePath, .projectId, .contentHash, .exports, .imports, .todoCount, .lintHints, .lineCount]

/-- A text that is not read back counts as an empty list. -/
def toAnalysis (row : SqlRow) : Except DbError FileAnalysis := do
  let exportsJson ← getText row .exports
  let importsJson ← getText row .imports
  let lintHintsJson ← getText row .lintHints
  let filePath ← getText row .filePath
  let projectId ← getText row .projectId
  let contentHash ← getText row .contentHash
  let todoCount ← getU32 row .todoCount
  let lineCount ← getU32 row .lineCount
  .ok {
    filePath := filePath
    projectId := projectId
    contentHash := contentHash
    exports := (json.exports.fromStr exportsJson.toList).getD []
    imports := (json.imports.fromStr importsJson.toList).getD []
    todoCount := todoCount
    lintHints := (json.lintHints.fromStr lintHintsJson.toList).getD []
    lineCount := lineCount }

def keyConditions (projectId filePath : String) : List (Sqlite.Condition ColumnName) :=
  [⟨.projectId, .eq, .text projectId.toList⟩, ⟨.filePath, .eq, .text filePath.toList⟩]

def freshConditions (projectId filePath hash : String) : List (Sqlite.Condition ColumnName) :=
  keyConditions projectId filePath ++ [⟨.contentHash, .eq, .text hash.toList⟩]

/-- The first row that a SELECT finds. -/
def first (q : Sqlite.Select ColumnName) : Except DbError (Option FileAnalysis) := do
  let rows ← sql (db.read .fileAnalysis (·.select planner q))
  match rows with
  | [] => .ok none
  | row :: _ => (toAnalysis json row).map some

def get (projectId filePath : String) : Except DbError (Option FileAnalysis) :=
  first json planner db
    { columns := analysisColumns, conditions := keyConditions projectId filePath }

def getIfFresh (projectId filePath currentHash : String) : Except DbError (Option FileAnalysis) :=
  first json planner db {
    columns := analysisColumns
    conditions := freshConditions projectId filePath currentHash }

/-- `SELECT 1`. -/
def isFresh (projectId filePath hash : String) : Except DbError Bool := do
  let rows ← sql (db.read .fileAnalysis (·.select planner {
    columns := []
    conditions := freshConditions projectId filePath hash
    limit := some 1 }))
  .ok (rows ≠ [])

def analysisParams (now : DateTime) (analysis : FileAnalysis) :
    List (ColumnName × Sqlite.Param) := [
  (.filePath, .text analysis.filePath.toList),
  (.projectId, .text analysis.projectId.toList),
  (.contentHash, .text analysis.contentHash.toList),
  (.analyzedAt, .integer now.timestamp),
  (.exports, .text (json.exports.toString analysis.exports)),
  (.imports, .text (json.imports.toString analysis.imports)),
  (.todoCount, .integer analysis.todoCount.toNat),
  (.lintHints, .text (json.lintHints.toString analysis.lintHints)),
  (.lineCount, .integer analysis.lineCount.toNat)]

/-- An upsert by project and path. -/
def put (now : DateTime) (analysis : FileAnalysis) : Except DbError Db :=
  sql (db.write .fileAnalysis (·.insert (analysisParams json now analysis)
    (.update [.projectId, .filePath] [.contentHash, .analyzedAt, .exports, .imports, .todoCount,
      .lintHints, .lineCount])))

def invalidate (projectId filePath : String) : Except DbError Db :=
  sql (db.write .fileAnalysis (·.delete (keyConditions projectId filePath)))

def selectByHash (projectId contentHash : String) : Sqlite.Select ColumnName where
  columns := analysisColumns
  conditions := [
    ⟨.projectId, .eq, .text projectId.toList⟩, ⟨.contentHash, .eq, .text contentHash.toList⟩]
  limit := some 1

def getByHash (projectId contentHash : String) : Except DbError (Option FileAnalysis) :=
  first json planner db (selectByHash projectId contentHash)

end FileAnalysisCache

/-! ## Pruning -/

namespace EventPruner

variable (db : Db) (cutoff : DateTime)

/-- The number of rows deleted, and what is left. -/
def deleteBefore (table : TableName) (column : ColumnName) : Except DbError (ℕ × Db) := do
  let before ← sql (db.read table fun t => .ok t.rows.length)
  let db ← sql (db.write table (·.delete [⟨column, .lt, .text cutoff.toRfc3339⟩]))
  let after ← sql (db.read table fun t => .ok t.rows.length)
  .ok (before - after, db)

def pruneEventsBefore : Except DbError (ℕ × Db) := deleteBefore db cutoff .fileEvents .timestamp

def pruneAnalysisBefore : Except DbError (ℕ × Db) :=
  deleteBefore db cutoff .fileAnalysis .analyzedAt

end EventPruner

/-! ## Operations -/

inductive Op
  | open (opener : Opener)
  | insert (event : FileEvent)
  | insertBatch (events : List FileEvent)
  | query (filter : EventFilter)
  | getLatest (projectId filePath : String)
  | addProject (projectId : String) (path : PathBuf)
  | removeProject (projectId : String)
  | getProjectPath (projectId : String)
  | listProjects
  | get (projectId filePath : String)
  | getIfFresh (projectId filePath currentHash : String)
  | isFresh (projectId filePath hash : String)
  | put (analysis : FileAnalysis)
  | invalidate (projectId filePath : String)
  | getByHash (projectId contentHash : String)
  | pruneEventsBefore (cutoff : DateTime)
  | pruneAnalysisBefore (cutoff : DateTime)

inductive Reply
  | done
  | id (id : ℕ)
  | ids (ids : List ℕ)
  | events (events : List FileEvent)
  | event (event : Option FileEvent)
  | path (path : Option PathBuf)
  | projects (projects : List (String × PathBuf))
  | analysis (analysis : Option FileAnalysis)
  | fresh (fresh : Bool)
  | count (count : ℕ)
  deriving DecidableEq

namespace Op

variable (json : SerdeJson) (planner : Sqlite.Planner ColumnName) (now : DateTime) (db : Db)

def exec : Op → Except DbError (Reply × Db)
  | .open opener => (opener.run now db).map (.done, ·)
  | insert event => (EventStore.insert db event).map fun (id, db) => (.id id, db)
  | insertBatch events => (EventStore.insertBatch db events).map fun (ids, db) => (.ids ids, db)
  | query filter => (EventStore.query planner db filter).map (.events ·, db)
  | getLatest projectId filePath =>
    (EventStore.getLatest planner db projectId filePath).map (.event ·, db)
  | addProject projectId path => (EventStore.addProject db now projectId path).map (.done, ·)
  | removeProject projectId => (EventStore.removeProject db projectId).map (.done, ·)
  | getProjectPath projectId => (EventStore.getProjectPath planner db projectId).map (.path ·, db)
  | listProjects => (EventStore.listProjects planner db).map (.projects ·, db)
  | get projectId filePath =>
    (FileAnalysisCache.get json planner db projectId filePath).map (.analysis ·, db)
  | getIfFresh projectId filePath currentHash =>
    (FileAnalysisCache.getIfFresh json planner db projectId filePath currentHash).map
      (.analysis ·, db)
  | isFresh projectId filePath hash =>
    (FileAnalysisCache.isFresh planner db projectId filePath hash).map (.fresh ·, db)
  | put analysis => (FileAnalysisCache.put json db now analysis).map (.done, ·)
  | invalidate projectId filePath =>
    (FileAnalysisCache.invalidate db projectId filePath).map (.done, ·)
  | getByHash projectId contentHash =>
    (FileAnalysisCache.getByHash json planner db projectId contentHash).map (.analysis ·, db)
  | pruneEventsBefore cutoff =>
    (EventPruner.pruneEventsBefore db cutoff).map fun (count, db) => (.count count, db)
  | pruneAnalysisBefore cutoff =>
    (EventPruner.pruneAnalysisBefore db cutoff).map fun (count, db) => (.count count, db)

end Op

/-- What a sequence of operations returns, each with the clock's reading. -/
def run (json : SerdeJson) (planner : Sqlite.Planner ColumnName) :
    Db → List (DateTime × Op) → List (Except DbError Reply)
  | _, [] => []
  | db, (now, op) :: ops =>
    match op.exec json planner now db with
    | .ok (reply, db) => .ok reply :: run json planner db ops
    | .error e => .error e :: run json planner db ops

/-- A file after some openers have run on it. -/
def openAll : Db → List (DateTime × Opener) → Except DbError Db
  | db, [] => .ok db
  | db, (now, opener) :: openers => do
    let db ← opener.run now db
    openAll db openers

end Sql

end AmbientFs
