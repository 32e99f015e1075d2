import AmbientFs.Awareness
import AmbientFs.Pipeline
import AmbientFs.Store

/-!
# Building the awareness of a file

The pipeline puts analyses in the database file at the store path. The awareness of a file takes its
latest event from the file at the store path and its analysis from one that it names itself.
-/

namespace AmbientFs

/-- A database file, as the event store and the cache that open it see it. -/
structure DatabaseFile where
  events : EventStore
  cache : FileAnalysisCache

/-- The database files, and which of them a path opens, if one can be opened there. -/
structure Disk (ι : Type) where
  opens : PathBuf → Option ι
  file : ι → DatabaseFile

inductive AwarenessError
  | store
  | cache
  deriving DecidableEq

def analysisDb : PathBuf := .ofString "analysis.db"

namespace Disk

variable {ι : Type} [DecidableEq ι] (d : Disk ι)

def insertEvent (path : PathBuf) (e : FileEvent) : Disk ι :=
  match d.opens path with
  | none => d
  | some i => { d with
      file := Function.update d.file i { d.file i with events := (d.file i).events.insert e } }

/-- Without a file the result is put in a cache in memory, which is dropped. -/
def putAnalysis (path : PathBuf) (analysis : FileAnalysis) (now : ℤ) : Disk ι :=
  match d.opens path with
  | none => d
  | some i => { d with
      file := Function.update d.file i
        { d.file i with cache := (d.file i).cache.put analysis now } }

def isFresh (path : PathBuf) (projectId filePath hash : String) : Bool :=
  match d.opens path with
  | none => false
  | some i => (d.file i).cache.isFresh projectId filePath hash

/-- The disk as it is when the cache is asked, the size and the bytes the file has when they are
read, and the disk when the result is put. -/
structure Reads (ι : Type) where
  checked : Disk ι
  size : Option ℕ
  bytes : Option (List UInt8)
  disk : Disk ι
  /-- Whether the cache can be written. -/
  stored : Bool
  now : ℤ

/-- `analyze_file`, with what it finds on its way. -/
def analyzeFile [Letters] (config : PipelineConfig) (storePath : PathBuf) (e : FileEvent)
    (r : Reads ι) : Disk ι × Option FileAnalysis :=
  match e.analyzedHash with
  | none => (r.disk, none)
  | some hash =>
    if r.checked.isFresh storePath e.projectId e.filePath hash then (r.disk, none)
    else
      match r.size with
      | none => (r.disk, none)
      | some size =>
        if config.maxFileSize < size then (r.disk, none)
        else
          match r.bytes.bind Utf8.decode? with
          | none => (r.disk, none)
          | some content =>
            let analysis := e.analysis hash content
            (if r.stored then r.disk.putAnalysis storePath analysis r.now else r.disk,
              some analysis)

/-- The latest event of a file in the store at the path. -/
def getLatest (planner : Planner) (storePath : PathBuf) (projectId filePath : String) :
    Except AwarenessError (Option FileEvent) :=
  match d.opens storePath with
  | none => .error .store
  | some i =>
    match (d.file i).events.getLatest planner projectId filePath with
    | .error _ => .error .store
    | .ok event => .ok event

/-- The active agent of the file and its count of references come from the agents. -/
def buildAwareness (planner : Planner) (storePath : PathBuf) (projectId filePath : String)
    (activeAgent : Option String) (chatReferences : UInt32) (now : DateTime) :
    Except AwarenessError (Option FileAwareness) :=
  match d.getLatest planner storePath projectId filePath with
  | .error e => .error e
  | .ok none => .ok none
  | .ok (some event) =>
    match d.opens (storePath.withFileName analysisDb) with
    | none => .error .cache
    | some i =>
      let analysis := (d.file i).cache.get projectId filePath
      .ok (some {
        filePath := event.filePath
        projectId := event.projectId
        lastModified := event.timestamp
        modifiedBy := event.source
        modifiedByLabel := event.sourceId
        activeAgent := activeAgent
        chatReferences := chatReferences
        todoCount := (analysis.map (·.todoCount)).getD 0
        lintHints := (analysis.map fun a => UInt32.ofNat a.lintHints.length).getD 0
        lineCount := (analysis.map (·.lineCount)).getD 0
        changeFrequency := .fromAge event.timestamp now })

end Disk

/-- What happens on the disk after an analysis. -/
inductive DiskAction
  | insert (path : PathBuf) (e : FileEvent)
  | put (path : PathBuf) (analysis : FileAnalysis) (now : ℤ)

def Disk.step {ι : Type} [DecidableEq ι] (d : Disk ι) : DiskAction → Disk ι
  | .insert path e => d.insertEvent path e
  | .put path analysis now => d.putAnalysis path analysis now

end AmbientFs
