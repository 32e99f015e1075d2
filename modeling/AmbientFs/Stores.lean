import AmbientFs.Database

/-!
# The stores of a file

What the operations on a database file are for: events are logged, projects are registered, and
analyses are cached by file. In what order the rows that match are visited is not specified.
-/

namespace AmbientFs

namespace EventStore

/-- Without the rows before the cutoff. -/
def pruneEventsBefore (s : EventStore) (cutoff : DateTime) : EventStore where
  rows := s.rows.filter fun r => ¬ r.timestamp < cutoff.toRfc3339
  lastId := s.lastId
  written := fun r hr => s.written r (List.mem_of_mem_filter hr)
  id_le := fun r hr => s.id_le r (List.mem_of_mem_filter hr)
  nodup := s.nodup.sublist (List.filter_sublist.map _)

end EventStore

namespace ProjectsTable

/-- The projects in the order they were added, ties in the order they are visited. -/
def listVisited (t : ProjectsTable) (visit : List ProjectRow → List ProjectRow) :
    List (String × PathBuf) :=
  ((visit t.rows).insertionSort fun a b => a.createdAt ≤ b.createdAt).map fun r =>
    (r.projectId, .ofString r.path)

end ProjectsTable

/-- The orders in which rows are visited. -/
structure Visits where
  events : Planner
  projects : List ProjectRow → List ProjectRow
  byHash : String → String → List CacheRow → List CacheRow

structure Stores where
  events : EventStore
  projects : ProjectsTable
  cache : FileAnalysisCache

namespace Stores

open Sql (Op Reply DbError)

def new : Stores := ⟨.new, .empty, .empty⟩

def exec (visits : Visits) (now : DateTime) (s : Stores) : Op → Except DbError (Reply × Stores)
  | .open _ => .ok (.done, s)
  | .insert event => .ok (.id (s.events.lastId + 1), { s with events := s.events.insert event })
  | .insertBatch events => .ok (.ids (List.range' (s.events.lastId + 1) events.length),
      { s with events := s.events.insertBatch events })
  | .query filter =>
    if ∃ n ∈ filter.limit, 2 ^ 63 ≤ n then .error (.sqlite .mismatch)
    else
      match s.events.query visits.events filter with
      | .error e => .error (.store e)
      | .ok events => .ok (.events events, s)
  | .getLatest projectId filePath =>
    match s.events.getLatest visits.events projectId filePath with
    | .error e => .error (.store e)
    | .ok event => .ok (.event event, s)
  | .addProject projectId path =>
    match s.projects.addProject projectId path now with
    | none => .error .invalidPath
    | some projects => .ok (.done, { s with projects := projects })
  | .removeProject projectId =>
    .ok (.done, { s with projects := s.projects.removeProject projectId })
  | .getProjectPath projectId => .ok (.path (s.projects.getProjectPath projectId), s)
  | .listProjects => .ok (.projects (s.projects.listVisited visits.projects), s)
  | .get projectId filePath => .ok (.analysis (s.cache.get projectId filePath), s)
  | .getIfFresh projectId filePath currentHash =>
    .ok (.analysis (s.cache.getIfFresh projectId filePath currentHash), s)
  | .isFresh projectId filePath hash => .ok (.fresh (s.cache.isFresh projectId filePath hash), s)
  | .put analysis => .ok (.done, { s with cache := s.cache.put analysis now.timestamp })
  | .invalidate projectId filePath =>
    .ok (.done, { s with cache := s.cache.invalidate projectId filePath })
  | .getByHash projectId contentHash =>
    .ok (.analysis (s.cache.getByHash (visits.byHash projectId contentHash) projectId contentHash),
      s)
  | .pruneEventsBefore cutoff =>
    .ok (.count (s.events.rows.length - (s.events.pruneEventsBefore cutoff).rows.length),
      { s with events := s.events.pruneEventsBefore cutoff })
  -- an analysis is kept by a number, and every number is less than the text of the cutoff
  | .pruneAnalysisBefore _ => .ok (.count s.cache.rows.length, { s with cache := .empty })

def run (visits : Visits) : Stores → List (DateTime × Op) → List (Except DbError Reply)
  | _, [] => []
  | s, (now, op) :: ops =>
    match s.exec visits now op with
    | .ok (reply, s) => .ok reply :: run visits s ops
    | .error e => .error e :: run visits s ops

end Stores

end AmbientFs
