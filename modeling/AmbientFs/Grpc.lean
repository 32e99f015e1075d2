import AmbientFs.Handlers

/-!
# Awareness over gRPC

The gRPC server builds the awareness of a file as the socket server does, and then asks the tracker
again who is active on the file. What is built comes from the files on the disk and from the agents.
-/

namespace AmbientFs

section Outside

variable {ι : Type} (o : Outside) (s : ServerState)

/-- The active agent of a file, with the clock as it is then. -/
def ServerState.getActiveAgent (clock : String → DateTime) (filePath : String) : Option String :=
  s.agentTracker.getActiveAgent clock filePath (o.visit s.agentTracker.agents.entries)

/-- What is outside, where awareness is built from a disk. -/
def Outside.onDisk (d : Disk ι) (planner : Planner) (storePath : PathBuf) : Outside :=
  { o with
    awareness := fun projectId filePath => d.buildAwareness planner storePath projectId filePath
      (s.getActiveAgent o o.clock filePath) (s.agentTracker.getReferenceCount filePath) o.now }

end Outside

structure QueryAwarenessRequest where
  projectId : String
  path : String

structure AwarenessResponse where
  filePath : String
  projectId : String
  lastModified : Option String
  modifiedBy : Option String
  changeFrequency : String
  todoCount : Int32
  lintHints : Int32
  lineCount : Int32
  activeAgent : Option String

/-- The counts are cast, and `clock` is the clock when the tracker is asked again. The text of an
instant is the same for `Debug` as for `Serialize`. -/
def queryAwareness (o : Outside) (s : ServerState) (clock : String → DateTime)
    (req : QueryAwarenessRequest) : Except QueryStatus AwarenessResponse :=
  match o.awareness req.projectId req.path with
  | .ok none => .error (.error .notFound "no awareness data found")
  | .error _ => .error (.error .internal "failed to build awareness")
  | .ok (some awareness) => .ok {
      filePath := req.path
      projectId := req.projectId
      lastModified := some (o.chrono.text awareness.lastModified)
      modifiedBy := some awareness.modifiedBy.asStr
      changeFrequency := awareness.changeFrequency.asStr
      todoCount := awareness.todoCount.toInt32
      lintHints := 0
      lineCount := awareness.lineCount.toInt32
      activeAgent := s.getActiveAgent o clock req.path }

end AmbientFs
