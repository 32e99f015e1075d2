import AmbientFs.Cutoff

/-!
# The events command and the awareness command

`ambient-fsd events` lists stored events. What it is given for `--since` and `--source` is parsed
first, and a text that is not parsed is as if it were not given. `ambient-fsd awareness` reports one
event of a project.
-/

namespace AmbientFs

variable (planner : Sqlite.Planner Sql.ColumnName) (db : Sql.Db) (now : DateTime)

/-- The query runs in a task, where a panic is an error of the task. -/
inductive QueryFailure
  | store (e : Sql.DbError)
  | join
  deriving DecidableEq

/-- `since` is a duration in seconds. -/
def DaemonServer.queryEvents (projectId : Option String) (since : Option ℤ)
    (source : Option Source) (limit : Option ℕ) : Except QueryFailure (List FileEvent) :=
  match since with
  | none => (openAndQuery planner db
      { projectId := projectId, source := source, limit := limit }).mapError .store
  | some seconds =>
    match secondsAgo now seconds with
    | none => .error .join
    | some since => (openAndQuery planner db
        { projectId := projectId, source := source, since := some since, limit := limit }).mapError
          .store

namespace Cli

structure EventsArgs where
  since : Option (List Char)
  source : Option String
  project : Option String
  limit : Option ℕ

/-- How the command ends. -/
inductive Outcome
  /-- Each event is printed on a line, or that there are none. -/
  | printed (events : List FileEvent)
  | failed
  | panicked
  deriving DecidableEq

/-- There is no value where the parser panics. -/
def sinceDuration : Option (List Char) → Option (Option ℤ)
  | none => some none
  | some s => parseDuration s

def sourceEnum (source : Option String) : Option Source :=
  source.bind fun s => (Source.fromStr s).toOption

/-- `starts` is whether the configuration is read and the server is made. -/
def cmdEvents (starts : Bool) (args : EventsArgs) : Outcome :=
  if starts = false then .failed
  else
    match sinceDuration args.since with
    | none => .panicked
    | some since =>
      match DaemonServer.queryEvents planner db now args.project since (sourceEnum args.source)
          args.limit with
      | .error _ => .failed
      | .ok events => .printed events

/-- How the awareness command ends. -/
inductive AwarenessOutcome
  /-- The event's time and source are printed, or that there are none. -/
  | reported (event : Option FileEvent)
  | failed
  deriving DecidableEq

/-- The path is printed only. -/
def cmdAwareness (starts : Bool) (project : String) (_path : PathBuf) : AwarenessOutcome :=
  if starts = false then .failed
  else
    match DaemonServer.queryEvents planner db now (some project) none none (some 1) with
    | .error _ => .failed
    | .ok events => .reported events.head?

end Cli

end AmbientFs
