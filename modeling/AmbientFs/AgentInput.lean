import AmbientFs.Handlers

/-!
# Lines of agent activity

An activity comes in as the parameters of a request or as a line of a session file. A line is read
from its text, in which an object can have a key more than once: of the fields of an activity that
is an error.
-/

namespace AmbientFs

namespace AgentActivity

def fieldNames : List String := ["ts", "agent", "action", "file", "project", "tool", "session",
  "intent", "lines", "confidence", "done"]

def fromText : JsonValue → Option AgentActivity
  | .object members =>
    if ∃ name ∈ fieldNames, 1 < (members.map Prod.fst).count name then none
    else fromValue (.object members)
  | v => fromValue v

/-- The equality of the program, which skips the confidence. -/
def Same (a b : AgentActivity) : Prop :=
  { a with confidence := none } = { b with confidence := none }

end AgentActivity

/-- Parse a line. None if it is not an activity, or one of the names in it is empty. -/
def AgentTracker.processLine (serde : SerdeJson) (line : List Char) : Option AgentActivity :=
  let trimmed := Lines.trim Lines.whiteSpace line
  if trimmed = [] then none
  else
    match (serde.fromStr trimmed).bind AgentActivity.fromText with
    | none => none
    | some activity =>
      if activity.agent = "" ∨ activity.action = "" ∨ activity.file = "" then none
      else some activity

end AmbientFs
