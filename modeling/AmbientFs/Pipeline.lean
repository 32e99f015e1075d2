import AmbientFs.Analyzer
import AmbientFs.Event
import AmbientFs.Lib.Run
import AmbientFs.OsPath

/-!
# The analysis pipeline

A watcher event with a content hash is analysed in a task of its own: the cache is asked for an
entry with the hash, a permit is waited for, the size of the file is checked, the file is read and
counted, and the result is put in the cache. What one task does between two places where it waits
is one action here; files change in between.
-/

namespace AmbientFs

structure PipelineConfig where
  maxConcurrent : ℕ := 2
  maxFileSize : ℕ := 1024 * 1024

/-- The hash of an event that is analysed. -/
def FileEvent.analyzedHash (e : FileEvent) : Option String :=
  match e.eventType with
  | .created | .modified => e.contentHash
  | .deleted | .renamed => none

/-- The analysis of what was read for an event, under the relative path. -/
def FileEvent.analysis [Letters] (e : FileEvent) (contentHash : String) (content : List Char) :
    FileAnalysis where
  filePath := e.filePath
  projectId := e.projectId
  contentHash := contentHash
  exports := []
  imports := []
  todoCount := countTodos content
  lintHints := []
  lineCount := countLines content

def FileEvent.key (e : FileEvent) : String × String := (e.projectId, e.filePath)

/-- Where the file of an event is. -/
def FileEvent.file (e : FileEvent) (projectRoot : PathBuf) : PathBuf :=
  projectRoot.join (.ofString e.filePath)

/-- The files of the machine, with their bytes. -/
abbrev Files := PathBuf → Option (List UInt8)

/-- `ContentDedup`, with its hash function. -/
structure ContentDedup where
  maxSizeBytes : ℕ
  hash : List UInt8 → String

def ContentDedup.hashFile (dedup : ContentDedup) (files : Files) (path : PathBuf) :
    Option String :=
  match files path with
  | none => none
  | some bytes => if dedup.maxSizeBytes < bytes.length then none else some (dedup.hash bytes)

/-- The event with the hash of what the file is when it is handled. -/
def FileEvent.hashed (e : FileEvent) (dedup : ContentDedup) (files : Files)
    (projectRoot : PathBuf) : FileEvent :=
  { e with
    contentHash := match e.eventType with
      | .created | .modified => dedup.hashFile files (e.file projectRoot)
      | .deleted | .renamed => none }

/-- How far the analysis of an event has come. -/
inductive AnalysisStage
  | scheduled
  /-- There was no entry with the hash. -/
  | stale
  | permitted
  | sized
  | read (content : List Char)
  | finished (result : Option FileAnalysis)
  deriving DecidableEq

structure AnalysisTask where
  event : FileEvent
  /-- The content hash of the event. -/
  hash : String
  projectRoot : PathBuf
  stage : AnalysisStage

namespace AnalysisTask

variable (t : AnalysisTask)

def key : String × String := t.event.key

def file : PathBuf := t.event.file t.projectRoot

def Finished : Prop := ∃ result, t.stage = .finished result

instance : Decidable t.Finished :=
  match h : t.stage with
  | .finished result => isTrue ⟨result, h⟩
  | .scheduled | .stale | .permitted | .sized | .read _ =>
    isFalse (by rintro ⟨_, h'⟩; rw [h] at h'; cases h')

/-- Whether the task holds a permit. -/
def holdsPermit : Bool :=
  match t.stage with
  | .permitted | .sized | .read _ => true
  | _ => false

end AnalysisTask

structure AnalysisPipeline where
  files : Files
  cache : FileAnalysisCache
  /-- The tasks, in the order of their events. -/
  tasks : List AnalysisTask

inductive PipelineAction
  /-- Files are written, removed or renamed. -/
  | change (files : Files)
  /-- The watcher handles an event and its analysis is scheduled. -/
  | event (e : FileEvent) (projectRoot : PathBuf)
  /-- A task asks the cache, if it can be opened. -/
  | check (n : ℕ) (opens : Bool)
  | acquire (n : ℕ)
  | checkSize (n : ℕ)
  | read (n : ℕ)
  /-- A task puts its result in the cache, if it can be written. -/
  | put (n : ℕ) (stored : Bool) (now : ℤ)

namespace AnalysisPipeline

def new (files : Files) : AnalysisPipeline := ⟨files, .empty, []⟩

section Steps

variable (p : AnalysisPipeline)

def setStage (n : ℕ) (stage : AnalysisStage) : AnalysisPipeline :=
  { p with tasks := p.tasks.modify n fun t => { t with stage := stage } }

/-- The watcher's event, whose analysis is scheduled if it has something to analyse. -/
def handleEvent (dedup : ContentDedup) (e : FileEvent) (projectRoot : PathBuf) :
    AnalysisPipeline :=
  let e := e.hashed dedup p.files projectRoot
  match e.analyzedHash with
  | none => p
  | some hash => { p with tasks := p.tasks ++ [⟨e, hash, projectRoot, .scheduled⟩] }

def check (n : ℕ) (opens : Bool) : AnalysisPipeline :=
  match p.tasks[n]? with
  | some ⟨e, hash, _, .scheduled⟩ =>
    if opens && p.cache.isFresh e.projectId e.filePath hash then p.setStage n (.finished none)
    else p.setStage n .stale
  | _ => p

def acquire (config : PipelineConfig) (n : ℕ) : AnalysisPipeline :=
  match p.tasks[n]? with
  | some ⟨_, _, _, .stale⟩ =>
    if p.tasks.countP (·.holdsPermit) < config.maxConcurrent then p.setStage n .permitted else p
  | _ => p

def checkSize (config : PipelineConfig) (n : ℕ) : AnalysisPipeline :=
  match p.tasks[n]? with
  | some ⟨e, _, projectRoot, .permitted⟩ =>
    match p.files (e.file projectRoot) with
    | none => p.setStage n (.finished none)
    | some bytes =>
      if config.maxFileSize < bytes.length then p.setStage n (.finished none)
      else p.setStage n .sized
  | _ => p

def read (n : ℕ) : AnalysisPipeline :=
  match p.tasks[n]? with
  | some ⟨e, _, projectRoot, .sized⟩ =>
    match (p.files (e.file projectRoot)).bind Utf8.decode? with
    | none => p.setStage n (.finished none)
    | some content => p.setStage n (.read content)
  | _ => p

def put [Letters] (n : ℕ) (stored : Bool) (now : ℤ) : AnalysisPipeline :=
  match p.tasks[n]? with
  | some ⟨e, hash, _, .read content⟩ =>
    let analysis := e.analysis hash content
    let p := p.setStage n (.finished (some analysis))
    if stored then { p with cache := p.cache.put analysis now } else p
  | _ => p

end Steps

def step [Letters] (config : PipelineConfig) (dedup : ContentDedup) (p : AnalysisPipeline) :
    PipelineAction → AnalysisPipeline
  | .change files => { p with files := files }
  | .event e projectRoot => p.handleEvent dedup e projectRoot
  | .check n opens => p.check n opens
  | .acquire n => p.acquire config n
  | .checkSize n => p.checkSize config n
  | .read n => p.read n
  | .put n stored now => p.put n stored now

end AnalysisPipeline

end AmbientFs
