import AmbientFs.BuildAwareness
import AmbientFs.Database

/-!
# Awareness from the databases

How the awareness of a file is built from the two database files: the one at the store path, of
which the latest event is read, and the one beside it that the analysis is read from. Each is opened
for the request.
-/

namespace AmbientFs

/-- The latest event of a file and its analysis, with what the agents say of the file. -/
def FileAwareness.combine (event : FileEvent) (analysis : Option FileAnalysis)
    (activeAgent : Option String) (chatReferences : UInt32) (now : DateTime) : FileAwareness where
  filePath := event.filePath
  projectId := event.projectId
  lastModified := event.timestamp
  modifiedBy := event.source
  modifiedByLabel := event.sourceId
  activeAgent := activeAgent
  chatReferences := chatReferences
  todoCount := (analysis.map (·.todoCount)).getD 0
  lintHints := (analysis.map fun a => UInt32.ofNat a.lintHints.length).getD 0
  lineCount := (analysis.map (·.lineCount)).getD 0
  changeFrequency := .fromAge event.timestamp now

namespace Sql

variable (json : SerdeJson) (planner : Sqlite.Planner ColumnName) (events analyses : Db)
  (projectId filePath : String)

def openAndGetLatest : Except DbError (Option FileEvent) := do
  let db ← EventStore.new events
  EventStore.getLatest planner db projectId filePath

def openAndGet : Except DbError (Option FileAnalysis) := do
  let db ← FileAnalysisCache.initSchema analyses
  FileAnalysisCache.get json planner db projectId filePath

/-- Build FileAwareness by aggregating data from multiple sources. -/
def buildAwareness (activeAgent : Option String) (chatReferences : UInt32) (now : DateTime) :
    Except AwarenessError (Option FileAwareness) :=
  match openAndGetLatest planner events projectId filePath with
  | .error _ => .error .store
  | .ok none => .ok none
  | .ok (some event) =>
    match openAndGet json planner analyses projectId filePath with
    | .error _ => .error .cache
    | .ok analysis => .ok (some (.combine event analysis activeAgent chatReferences now))

end Sql

end AmbientFs
