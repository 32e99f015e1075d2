import AmbientFs.Event

/-!
# File awareness

The aggregated state of one file that is sent when it changes.
-/

namespace AmbientFs

/-- How frequently a file has been changing. -/
inductive ChangeFrequency
  | hot
  | warm
  | cold
  deriving DecidableEq

namespace ChangeFrequency

/-- Determine frequency from time since last modification. -/
def fromAge (lastModified now : DateTime) : ChangeFrequency :=
  let age := now.nanos - lastModified.nanos
  if age < 600 * nanosPerSec then hot
  else if age < 3600 * nanosPerSec then warm
  else cold

end ChangeFrequency

structure FileAwareness where
  filePath : String
  projectId : String
  lastModified : DateTime
  modifiedBy : Source
  modifiedByLabel : Option String
  activeAgent : Option String
  chatReferences : UInt32
  todoCount : UInt32
  lintHints : UInt32
  lineCount : UInt32
  changeFrequency : ChangeFrequency
  deriving DecidableEq

end AmbientFs
