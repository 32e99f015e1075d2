import AmbientFs.Rfc3339

/-!
# The event store

The table of events as the store writes and reads it: an event is inserted as a row of texts and
read back by parsing them. The order in which the database visits the rows of a query is not
specified, so it is a parameter.
-/

namespace AmbientFs

inductive StoreError
  | parse (e : ParseError)
  | timestampParse
  deriving DecidableEq

/-- A row of `file_events`. -/
structure Row where
  id : ℕ
  timestamp : List Char
  eventType : String
  filePath : String
  projectId : String
  source : String
  sourceId : Option String
  machineId : String
  contentHash : Option String
  oldPath : Option String

/-- The values that are bound for an insertion. -/
def FileEvent.toRow (e : FileEvent) (id : ℕ) : Row where
  id := id
  timestamp := e.timestamp.toRfc3339
  eventType := e.eventType.asStr
  filePath := e.filePath
  projectId := e.projectId
  source := e.source.asStr
  sourceId := e.sourceId
  machineId := e.machineId
  contentHash := e.contentHash
  oldPath := e.oldPath

def Row.toEvent (r : Row) : Except StoreError FileEvent :=
  match DateTime.parseFromRfc3339 r.timestamp with
  | none => .error .timestampParse
  | some timestamp =>
    match EventType.fromStr r.eventType with
    | .error e => .error (.parse e)
    | .ok eventType =>
      match Source.fromStr r.source with
      | .error e => .error (.parse e)
      | .ok source => .ok {
          timestamp := timestamp
          eventType := eventType
          filePath := r.filePath
          projectId := r.projectId
          source := source
          sourceId := r.sourceId
          machineId := r.machineId
          contentHash := r.contentHash
          oldPath := r.oldPath }

structure EventFilter where
  projectId : Option String := none
  filePath : Option String := none
  source : Option Source := none
  since : Option DateTime := none
  limit : Option ℕ := none

/-- The conditions of the query. -/
def EventFilter.matches (f : EventFilter) (r : Row) : Bool :=
  f.projectId.all (r.projectId = ·) && f.filePath.all (r.filePath = ·) &&
    f.source.all (r.source = ·.asStr) && f.since.all (·.toRfc3339 ≤ r.timestamp)

/-- The order in which the rows that match a query are visited. -/
structure Planner where
  visit : EventFilter → List Row → List Row
  perm : ∀ f rows, (visit f rows).Perm rows

def Planner.byId : Planner := ⟨fun _ rows => rows, fun _ _ => .refl _⟩

/-- Rows are written by insertions only, and their ids are not used again. -/
structure EventStore where
  rows : List Row
  lastId : ℕ
  written : ∀ r ∈ rows, ∃ e : FileEvent, r = e.toRow r.id
  id_le : ∀ r ∈ rows, r.id ≤ lastId
  nodup : (rows.map Row.id).Nodup

namespace EventStore

def new : EventStore where
  rows := []
  lastId := 0
  written := by simp
  id_le := by simp
  nodup := by simp

def insert (s : EventStore) (e : FileEvent) : EventStore where
  rows := s.rows ++ [e.toRow (s.lastId + 1)]
  lastId := s.lastId + 1
  written := by
    intro r hr
    rcases List.mem_append.1 hr with hr | hr
    · exact s.written r hr
    · rw [List.mem_singleton.1 hr]
      exact ⟨e, rfl⟩
  id_le := by
    intro r hr
    rcases List.mem_append.1 hr with hr | hr
    · exact (s.id_le r hr).trans (Nat.le_succ _)
    · rw [List.mem_singleton.1 hr]
      exact le_rfl
  nodup := by
    rw [List.map_append, List.map_singleton, List.nodup_append]
    refine ⟨s.nodup, List.nodup_singleton _, fun i hi j hj => ?_⟩
    obtain ⟨r, hr, rfl⟩ := List.mem_map.1 hi
    have := s.id_le r hr
    rw [List.mem_singleton.1 hj]
    show r.id ≠ s.lastId + 1
    omega

/-- In one transaction. -/
def insertBatch (s : EventStore) (es : List FileEvent) : EventStore := es.foldl insert s

/-- The rows the query returns. -/
def select (planner : Planner) (s : EventStore) (f : EventFilter) : List Row :=
  let rows := planner.visit f (s.rows.filter f.matches)
  let sorted := rows.insertionSort fun a b => b.timestamp ≤ a.timestamp
  match f.limit with
  | none => sorted
  | some limit => sorted.take limit

def query (planner : Planner) (s : EventStore) (f : EventFilter) :
    Except StoreError (List FileEvent) :=
  (s.select planner f).mapM Row.toEvent

/-- The latest event of a file. -/
def getLatest (planner : Planner) (s : EventStore) (projectId filePath : String) :
    Except StoreError (Option FileEvent) :=
  match s.select planner
    { projectId := some projectId, filePath := some filePath, limit := some 1 } with
  | [] => .ok none
  | r :: _ => r.toEvent.map some

end EventStore

end AmbientFs
