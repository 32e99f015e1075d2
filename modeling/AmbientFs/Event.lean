import Mathlib

/-!
# File events

`FileEvent` and the enumerations it carries, with their wire spellings. An instant is a count of
nanoseconds since the epoch inside the range `DateTime<Utc>` holds, so an instant that exists can
always be truncated to a second and printed.
-/

namespace AmbientFs

/-- Type of filesystem event. -/
inductive EventType
  | created
  | modified
  | deleted
  | renamed
  deriving DecidableEq, Repr

/-- Source of a filesystem change. -/
inductive Source
  | user
  | aiAgent
  | git
  | build
  | voice
  deriving DecidableEq, Repr

/-- Errors from parsing event and source strings. -/
inductive ParseError
  | invalidEventType (s : String)
  | invalidSource (s : String)
  deriving DecidableEq, Repr

namespace EventType

def asStr : EventType → String
  | created => "created"
  | modified => "modified"
  | deleted => "deleted"
  | renamed => "renamed"

def fromStr (s : String) : Except ParseError EventType :=
  if s = "created" then .ok created
  else if s = "modified" then .ok modified
  else if s = "deleted" then .ok deleted
  else if s = "renamed" then .ok renamed
  else .error (.invalidEventType s)

theorem fromStr_asStr (t : EventType) : fromStr t.asStr = .ok t := by
  cases t <;> decide

end EventType

namespace Source

def asStr : Source → String
  | user => "user"
  | aiAgent => "ai_agent"
  | git => "git"
  | build => "build"
  | voice => "voice"

def fromStr (s : String) : Except ParseError Source :=
  if s = "user" then .ok user
  else if s = "ai_agent" then .ok aiAgent
  else if s = "git" then .ok git
  else if s = "build" then .ok build
  else if s = "voice" then .ok voice
  else .error (.invalidSource s)

theorem fromStr_asStr (s : Source) : fromStr s.asStr = .ok s := by
  cases s <;> decide

end Source

/-- Nanoseconds in a second. -/
def nanosPerSec : ℤ := 1000000000

/-- The first and the last second `DateTime<Utc>` holds, in the years -262143 and 262142. -/
def minSecs : ℤ := -8334601228800

@[inherit_doc minSecs]
def maxSecs : ℤ := 8210266876799

/-- An instant, in nanoseconds since the epoch. Leap seconds are not represented. -/
structure DateTime where
  nanos : ℤ
  inRange : minSecs * nanosPerSec ≤ nanos ∧ nanos < (maxSecs + 1) * nanosPerSec
  deriving DecidableEq

namespace DateTime

@[ext]
theorem ext {a b : DateTime} (h : a.nanos = b.nanos) : a = b := by
  cases a; cases b; cases h; rfl

/-- The start of 1970. -/
def epoch : DateTime := ⟨0, by decide⟩

/-- `DateTime::timestamp`: whole seconds, rounded towards the past. -/
def timestamp (t : DateTime) : ℤ := t.nanos / nanosPerSec

/-- `Utc.timestamp_opt(secs, 0).single()`. -/
def timestampOpt (secs : ℤ) : Option DateTime :=
  if h : minSecs ≤ secs ∧ secs ≤ maxSecs then
    some ⟨secs * nanosPerSec, by simp only [nanosPerSec] at *; omega⟩
  else none

theorem timestamp_mem (t : DateTime) : minSecs ≤ t.timestamp ∧ t.timestamp ≤ maxSecs := by
  have h := t.inRange
  simp only [timestamp, nanosPerSec] at *
  omega

/-- The second an instant falls in. -/
def trunc (t : DateTime) : DateTime :=
  ⟨t.timestamp * nanosPerSec, by
    have := t.timestamp_mem
    simp only [nanosPerSec]
    omega⟩

@[simp]
theorem timestampOpt_timestamp (t : DateTime) : timestampOpt t.timestamp = some t.trunc := by
  simp [timestampOpt, trunc, t.timestamp_mem]

end DateTime

/-- A filesystem event with full attribution. -/
structure FileEvent where
  /-- When the event occurred. -/
  timestamp : DateTime
  eventType : EventType
  /-- File path relative to project root. -/
  filePath : String
  projectId : String
  source : Source
  /-- Optional identifier for the source, such as a chat id or a commit hash. -/
  sourceId : Option String
  /-- Machine that generated this event. -/
  machineId : String
  /-- Hash of the file's content, `none` for deletes. -/
  contentHash : Option String
  /-- Previous path, for renames only. -/
  oldPath : Option String
  deriving DecidableEq

namespace FileEvent

/-- `FileEvent::new`, with the clock's reading passed in. -/
def new (now : DateTime) (eventType : EventType) (filePath projectId machineId : String) :
    FileEvent where
  timestamp := now
  eventType := eventType
  filePath := filePath
  projectId := projectId
  source := .user
  sourceId := none
  machineId := machineId
  contentHash := none
  oldPath := none

def withSource (e : FileEvent) (source : Source) : FileEvent := { e with source := source }

def withSourceId (e : FileEvent) (sourceId : String) : FileEvent :=
  { e with sourceId := some sourceId }

def withContentHash (e : FileEvent) (hash : String) : FileEvent :=
  { e with contentHash := some hash }

def withOldPath (e : FileEvent) (oldPath : String) : FileEvent :=
  { e with oldPath := some oldPath }

end FileEvent

end AmbientFs
