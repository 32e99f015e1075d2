import AmbientFs.Event

/-!
# Events on the wire

The message that carries a file event between daemons. It has the event's time in whole seconds.
-/

namespace AmbientFs

structure FileEventMessage where
  timestamp : ℤ
  eventType : String
  filePath : String
  projectId : String
  source : String
  sourceId : Option String
  machineId : String
  contentHash : Option String
  oldPath : Option String
  deriving DecidableEq

def fileEventToMessage (event : FileEvent) : FileEventMessage where
  timestamp := event.timestamp.timestamp
  eventType := event.eventType.asStr
  filePath := event.filePath
  projectId := event.projectId
  source := event.source.asStr
  sourceId := event.sourceId
  machineId := event.machineId
  contentHash := event.contentHash
  oldPath := event.oldPath

/-- The event a message stands for, as one of the given machine. -/
def messageToFileEvent (msg : FileEventMessage) (machineId : String) : Option FileEvent :=
  match EventType.fromStr msg.eventType, Source.fromStr msg.source,
    DateTime.timestampOpt msg.timestamp with
  | .ok eventType, .ok source, some timestamp =>
    let event := (FileEvent.new timestamp eventType msg.filePath msg.projectId machineId).withSource
      source
    let event := match msg.sourceId with
      | some sourceId => event.withSourceId sourceId
      | none => event
    let event := match msg.contentHash with
      | some hash => event.withContentHash hash
      | none => event
    some (match msg.oldPath with
      | some oldPath => event.withOldPath oldPath
      | none => event)
  | _, _, _ => none

/-- What is left of an event after its way over the wire: the second it happened in, and the
machine it is read on in place of the one it happened on. -/
theorem messageToFileEvent_fileEventToMessage (e : FileEvent) (machineId : String) :
    messageToFileEvent (fileEventToMessage e) machineId =
      some { e with timestamp := e.timestamp.trunc, machineId := machineId } := by
  unfold messageToFileEvent fileEventToMessage
  simp only [EventType.fromStr_asStr, Source.fromStr_asStr, DateTime.timestampOpt_timestamp]
  rcases e with ⟨_, _, _, _, _, _ | sid, _, _ | hash, _ | old⟩ <;> rfl

end AmbientFs
