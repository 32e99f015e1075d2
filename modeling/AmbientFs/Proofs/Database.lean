import AmbientFs.Stores
import AmbientFs.Proofs.DatabaseOpening

/-!
# The file holds the stores

A file whose tables are those of the event store and of the cache answers every operation as the
stores do, and holds them afterwards.
-/

namespace AmbientFs

open Sqlite (Value Encoding)

namespace Sql

/-! ## What a file holds -/

def eventTable (s : EventStore) : Sqlite.Table ColumnName :=
  events.table EventStore.fileEvents s.rows s.lastId

def projectTable (t : ProjectsTable) (lastRowid : ℕ) : Sqlite.Table ColumnName :=
  projects.table EventStore.projects t.rows lastRowid

def cacheTable (json : SerdeJson) (c : FileAnalysisCache) (lastRowid : ℕ) :
    Sqlite.Table ColumnName :=
  (analyses json).table FileAnalysisCache.fileAnalysis c.rows lastRowid

structure Holds (json : SerdeJson) (db : Db) (s : Stores) : Prop where
  openable : Openable db
  events : db.tables .fileEvents = some (eventTable s.events)
  projects : ∃ n, db.tables .projects = some (projectTable s.projects n)
  cache : ∃ n, db.tables .fileAnalysis = some (cacheTable json s.cache n)

def eventPlanner (planner : Sqlite.Planner ColumnName) : Planner where
  visit f := events.visit planner (EventStore.selectEvents f)
  perm f := events.visit_perm planner (EventStore.selectEvents f)

/-- The orders in which the rows of a file are visited. -/
def visits (json : SerdeJson) (planner : Sqlite.Planner ColumnName) : Visits where
  events := eventPlanner planner
  projects := Sql.projects.visit planner EventStore.selectProjects
  byHash projectId contentHash :=
    (analyses json).visit planner (FileAnalysisCache.selectByHash projectId contentHash)

variable {json : SerdeJson} {planner : Sqlite.Planner ColumnName} {db : Db} {s : Stores}

@[simp] theorem visits_events : (visits json planner).events = eventPlanner planner := rfl

theorem Openable.set (h : Openable db) {name : TableName} {t t' : Sqlite.Table ColumnName}
    (hname : name ≠ .migrations) (ht : db.tables name = some t)
    (hd : t'.definition = t.definition) : Openable (db.set name t') := by
  have hsome : ∀ other x, (db.set name t').tables other = some x →
      ∃ y, db.tables other = some y ∧ x.definition = y.definition := by
    intro other x hx
    by_cases heq : other = name
    · subst heq
      rw [Sqlite.Database.tables_set_self, Option.some.injEq] at hx
      exact ⟨t, ht, hx ▸ hd⟩
    · rw [Sqlite.Database.tables_set_of_ne heq] at hx
      exact ⟨x, hx, rfl⟩
  have hsame : (db.set name t').tables .migrations = db.tables .migrations :=
    Sqlite.Database.tables_set_of_ne hname.symm
  refine ⟨⟨fun x hx => ?_, fun x hx => ?_⟩, ?_⟩
  · obtain ⟨y, hy, hxy⟩ := hsome _ x hx
    rw [hxy]
    exact h.fileEvents y hy
  · obtain ⟨y, hy, hxy⟩ := hsome _ x hx
    rw [hxy]
    exact h.fileAnalysis y hy
  · rw [hsame, getCurrentVersion_congr hsame]
    refine h.migrations.imp_right fun ⟨hversion, hall⟩ => ⟨hversion, fun other => ?_⟩
    by_cases heq : other = name
    · simp [heq]
    · rw [Sqlite.Database.tables_set_of_ne heq]
      exact hall other

theorem Holds.setEvents (h : Holds json db s) (events : EventStore) :
    Holds json (db.set .fileEvents (eventTable events)) { s with events := events } where
  openable := h.openable.set (by simp) h.events rfl
  events := by simp
  projects := by simpa [Sqlite.Database.tables_set_of_ne] using h.projects
  cache := by simpa [Sqlite.Database.tables_set_of_ne] using h.cache

theorem Holds.setProjects (h : Holds json db s) (projects : ProjectsTable) (n : ℕ) :
    Holds json (db.set .projects (projectTable projects n)) { s with projects := projects } where
  openable := by
    obtain ⟨m, hm⟩ := h.projects
    exact h.openable.set (by simp) hm rfl
  events := by simpa [Sqlite.Database.tables_set_of_ne] using h.events
  projects := ⟨n, by simp⟩
  cache := by simpa [Sqlite.Database.tables_set_of_ne] using h.cache

theorem Holds.setCache (h : Holds json db s) (cache : FileAnalysisCache) (n : ℕ) :
    Holds json (db.set .fileAnalysis (cacheTable json cache n)) { s with cache := cache } where
  openable := by
    obtain ⟨m, hm⟩ := h.cache
    exact h.openable.set (by simp) hm rfl
  events := by simpa [Sqlite.Database.tables_set_of_ne] using h.events
  projects := by simpa [Sqlite.Database.tables_set_of_ne] using h.projects
  cache := ⟨n, by simp⟩

/-! ## Events -/

section Conditions

variable {d : Sqlite.Definition ColumnName} {v : SqlRow} {c : ColumnName} {column : Sqlite.Column}
  {text : List Char}

/-- A column of texts that is compared with a text. -/
theorem holds_eq (hc : d.columns.lookup c = some column) (ha : column.affinity = .text)
    (hv : v c = .text text) (text' : List Char) :
    Sqlite.Condition.holds d v ⟨c, .eq, .text text'⟩ = decide (text = text') := by
  simp [Sqlite.Condition.holds, hc, ha, Sqlite.Comparison.holds, Sqlite.Affinity.convert, hv]

theorem holds_ge (hc : d.columns.lookup c = some column) (ha : column.affinity = .text)
    (hv : v c = .text text) (text' : List Char) :
    Sqlite.Condition.holds d v ⟨c, .ge, .text text'⟩ = decide (text' ≤ text) := by
  simp only [Sqlite.Condition.holds, hc, ha, Sqlite.Comparison.holds, Sqlite.Affinity.convert, hv,
    eq_text, Value.lt, le_iff_lt_or_eq, eq_comm (a := text)]
  simp

theorem holds_lt (hc : d.columns.lookup c = some column) (ha : column.affinity = .text)
    (hv : v c = .text text) (text' : List Char) :
    Sqlite.Condition.holds d v ⟨c, .lt, .text text'⟩ = decide (text < text') := by
  simp [Sqlite.Condition.holds, hc, ha, Sqlite.Comparison.holds, Sqlite.Affinity.convert, hv,
    Value.lt]

end Conditions

theorem all_toList_map {α β : Type} (o : Option α) (g : α → β) (p : β → Bool) :
    (o.map g).toList.all p = o.all fun a => p (g a) := by
  cases o <;> simp

theorem matches_events (f : EventFilter) (r : Row) :
    (EventStore.selectEvents f).Matches EventStore.fileEvents (events.encode r) = f.matches r := by
  have hproject := holds_eq (d := EventStore.fileEvents) (v := events.encode r) (c := .projectId)
    rfl rfl rfl
  have hpath := holds_eq (d := EventStore.fileEvents) (v := events.encode r) (c := .filePath)
    rfl rfl rfl
  have hsource := holds_eq (d := EventStore.fileEvents) (v := events.encode r) (c := .source)
    rfl rfl rfl
  have hsince := holds_ge (d := EventStore.fileEvents) (v := events.encode r) (c := .timestamp)
    rfl rfl rfl
  simp only [Sqlite.Select.Matches, EventStore.selectEvents, EventStore.conditions,
    List.all_append, all_toList_map, hproject, hpath, hsource, hsince, String.toList_inj,
    EventFilter.matches, Bool.and_assoc]

theorem le_text {s s' : List Char} : (Value.text s).le (.text s') = true ↔ s ≤ s' := by
  simp [Value.le, Value.lt, le_iff_lt_or_eq]

theorem mapM_toEvent (rows : List Row) :
    (rows.map events.encode).mapM EventStore.toEvent = (rows.mapM Row.toEvent).mapError .store := by
  induction rows with
  | nil => rfl
  | cons r rows ih =>
    rw [List.map_cons, List.mapM_cons, List.mapM_cons, ih, toEvent_encode]
    rcases r.toEvent with e | event
    · rfl
    · rcases rows.mapM Row.toEvent with e | events <;> rfl

theorem has_eventColumns : ∀ c ∈ EventStore.eventColumns, EventStore.fileEvents.Has c := by decide

theorem names_events (f : EventFilter) :
    (EventStore.selectEvents f).Names EventStore.fileEvents := by
  refine ⟨has_eventColumns, fun c hc => has_eventColumns _ ?_, fun o ho => has_eventColumns _ ?_⟩
  · simp only [EventStore.selectEvents, EventStore.conditions, List.mem_append,
      Option.mem_toList, Option.map_eq_some_iff] at hc
    rcases hc with ⟨_, -, rfl⟩ | ⟨_, -, rfl⟩ | ⟨_, -, rfl⟩ | ⟨_, -, rfl⟩ <;>
      simp [EventStore.eventColumns]
  · simp only [EventStore.selectEvents, Option.mem_def, Option.some.injEq] at ho
    simp [← ho, EventStore.eventColumns]

variable (planner) in
/-- A SELECT of events finds what the store finds. -/
theorem select_events (s : EventStore) {f : EventFilter} (hlimit : ∀ n ∈ f.limit, n < 2 ^ 63) :
    (eventTable s).select planner (EventStore.selectEvents f) =
      .ok ((s.select (eventPlanner planner) f).map events.encode) := by
  have hle : ∀ a b : Row, (⟨.timestamp, true⟩ : Sqlite.Order ColumnName).le (events.encode a)
      (events.encode b) = true ↔ b.timestamp ≤ a.timestamp := fun a b => le_text
  exact Encoding.select_sorted (names_events f) hlimit rfl (fun r _ => matches_events f r) hle

/-! ## Operations -/

/-- The same answer, and a file that holds the stores after it; or the same error. -/
def Agrees (json : SerdeJson) :
    Except DbError (Reply × Db) → Except DbError (Reply × Stores) → Prop
  | .ok (reply, db), .ok (reply', s) => reply = reply' ∧ Holds json db s
  | .error e, .error e' => e = e'
  | _, _ => False

/-- The row of an event, with the next id. -/
theorem insert_spec {es : EventStore} (h : db.tables .fileEvents = some (eventTable es))
    (event : FileEvent) : EventStore.insert db event =
      .ok (es.lastId + 1, db.set .fileEvents (eventTable (es.insert event))) := by
  have hinsert : (eventTable es).insert (EventStore.eventParams event) .abort =
      .ok (eventTable (es.insert event)) :=
    Encoding.insert_eq (fun v hv => has_eventColumns v.1 (List.mem_map_of_mem (f := Prod.fst) hv))
      (row_eventParams event _) (allows_event event _) rfl
  rw [EventStore.insert, Sqlite.Database.write_of_some h hinsert]
  simp only [sql, Except.mapError, ok_bind]
  rw [Sqlite.Database.read_of_some Sqlite.Database.tables_set_self]
  rfl

theorem insertBatch_spec (events : List FileEvent) (h : Holds json db s) :
    ∃ db', EventStore.insertBatch db events =
        .ok (List.range' (s.events.lastId + 1) events.length, db') ∧
      Holds json db' { s with events := s.events.insertBatch events } := by
  induction events generalizing db s with
  | nil => exact ⟨db, rfl, h⟩
  | cons event events ih =>
    obtain ⟨db', hok, hholds⟩ := ih (h.setEvents (s.events.insert event))
    refine ⟨db', ?_, hholds⟩
    rw [EventStore.insertBatch, insert_spec h.events]
    simp only [ok_bind, hok]
    rfl

theorem query_of_limit {es : EventStore} (h : db.tables .fileEvents = some (eventTable es))
    {f : EventFilter} (hlimit : ∀ n ∈ f.limit, n < 2 ^ 63) : EventStore.query planner db f =
      (es.query (eventPlanner planner) f).mapError .store := by
  simp only [EventStore.query, Sqlite.Database.read_of_some h, select_events planner es hlimit, sql,
    Except.mapError, ok_bind, mapM_toEvent]
  rfl

theorem query_of_not_limit {es : EventStore} (h : db.tables .fileEvents = some (eventTable es))
    {f : EventFilter} (hlimit : ∃ n ∈ f.limit, 2 ^ 63 ≤ n) :
    EventStore.query planner db f = .error (.sqlite .mismatch) := by
  rw [EventStore.query, Sqlite.Database.read_of_some h, eventTable,
    Encoding.select_of_limit (names_events f) hlimit]
  rfl

theorem query_agrees (h : Holds json db s) (now : DateTime) (f : EventFilter) :
    Agrees json ((Op.query f).exec json planner now db)
      (s.exec (visits json planner) now (.query f)) := by
  simp only [Op.exec, Stores.exec]
  split_ifs with hlimit
  · rw [query_of_not_limit h.events hlimit]
    rfl
  · rw [query_of_limit h.events fun n hn => by
      by_contra hle
      exact hlimit ⟨n, hn, not_lt.1 hle⟩]
    rw [visits_events]
    rcases s.events.query (eventPlanner planner) f with e | events
    · rfl
    · exact ⟨rfl, h⟩

theorem getLatest_of_table {es : EventStore} (h : db.tables .fileEvents = some (eventTable es))
    (projectId filePath : String) : EventStore.getLatest planner db projectId filePath =
      (es.getLatest (eventPlanner planner) projectId filePath).mapError .store := by
  have hselect := select_events planner es
    (f := { projectId := some projectId, filePath := some filePath, limit := some 1 }) (by simp)
  have hsame : EventStore.selectLatest projectId filePath = EventStore.selectEvents
    { projectId := some projectId, filePath := some filePath, limit := some 1 } := rfl
  simp only [EventStore.getLatest, Sqlite.Database.read_of_some h, hsame, hselect,
    AmbientFs.EventStore.getLatest, sql, Except.mapError, ok_bind]
  rcases es.select (eventPlanner planner) _ with _ | ⟨r, rows⟩
  · rfl
  · simp only [List.map_cons, toEvent_encode]
    rcases r.toEvent with e | event <;> rfl

theorem getLatest_agrees (h : Holds json db s) (now : DateTime) (projectId filePath : String) :
    Agrees json ((Op.getLatest projectId filePath).exec json planner now db)
      (s.exec (visits json planner) now (.getLatest projectId filePath)) := by
  simp only [Op.exec, Stores.exec, getLatest_of_table h.events, visits_events]
  rcases s.events.getLatest (eventPlanner planner) projectId filePath with e | event
  · rfl
  · exact ⟨rfl, h⟩

theorem delete_events (s : EventStore) (cutoff : DateTime) :
    (eventTable s).delete [⟨.timestamp, .lt, .text cutoff.toRfc3339⟩] =
      .ok (eventTable (s.pruneEventsBefore cutoff)) := by
  have hlt := fun r : Row => holds_lt (d := EventStore.fileEvents) (v := events.encode r)
    (c := .timestamp) rfl rfl rfl cutoff.toRfc3339
  have hrows : (s.pruneEventsBefore cutoff).rows =
      s.rows.filter fun r => !decide (r.timestamp < cutoff.toRfc3339) := by
    simp only [AmbientFs.EventStore.pruneEventsBefore, decide_not]
  rw [eventTable, eventTable, hrows, Encoding.delete_eq
    (p := fun r : Row => decide (r.timestamp < cutoff.toRfc3339))]
  · rfl
  · simp [Sqlite.Definition.Has, EventStore.fileEvents]
  · intro r _
    simp only [List.all_cons, List.all_nil, Bool.and_true, hlt]

theorem pruneEventsBefore_of_table {es : EventStore}
    (h : db.tables .fileEvents = some (eventTable es)) (cutoff : DateTime) :
    EventPruner.pruneEventsBefore db cutoff =
      .ok (es.rows.length - (es.pruneEventsBefore cutoff).rows.length,
        db.set .fileEvents (eventTable (es.pruneEventsBefore cutoff))) := by
  simp only [EventPruner.pruneEventsBefore, EventPruner.deleteBefore,
    Sqlite.Database.read_of_some h,
    Sqlite.Database.write_of_some (f := (·.delete _)) h (delete_events es cutoff),
    Sqlite.Database.read_of_some Sqlite.Database.tables_set_self, sql, Except.mapError, ok_bind]
  simp [eventTable, Encoding.table]

theorem pruneEventsBefore_agrees (h : Holds json db s) (now cutoff : DateTime) :
    Agrees json ((Op.pruneEventsBefore cutoff).exec json planner now db)
      (s.exec (visits json planner) now (.pruneEventsBefore cutoff)) := by
  simp only [Op.exec, pruneEventsBefore_of_table h.events]
  exact ⟨rfl, h.setEvents _⟩

/-! ## Projects -/

theorem same_project (a b : ProjectRow) :
    Sqlite.sameKey [.projectId] (projects.encode b) (projects.encode a) =
      decide (b.projectId = a.projectId) := by
  simp [Sqlite.sameKey, projects, projectRow, String.toList_inj]

theorem matches_project (projectId : String) (r : ProjectRow) :
    [(⟨.projectId, .eq, .text projectId.toList⟩ : Sqlite.Condition ColumnName)].all
      (·.holds EventStore.projects (projects.encode r)) = decide (r.projectId = projectId) := by
  have heq := holds_eq (d := EventStore.projects) (v := projects.encode r) (c := .projectId)
    rfl rfl rfl projectId.toList
  simp [heq, String.toList_inj]

theorem addProject_agrees (h : Holds json db s) (now : DateTime) (projectId : String)
    (path : PathBuf) : Agrees json ((Op.addProject projectId path).exec json planner now db)
      (s.exec (visits json planner) now (.addProject projectId path)) := by
  obtain ⟨n, hn⟩ := h.projects
  simp only [Op.exec, EventStore.addProject, Stores.exec, ProjectsTable.addProject]
  rcases path.toStr with _ | text
  · rfl
  · have hinsert : (projectTable s.projects n).insert
        (EventStore.projectParams now projectId text) .ignore = _ :=
      Encoding.insert_ignore_eq
        (by simp [EventStore.projectParams, Sqlite.Definition.Has, EventStore.projects])
        (row_projectParams now projectId text _) (allows_project _) rfl
        fun b _ => same_project _ b
    have hany : (s.projects.rows.any fun b => decide (b.projectId = projectId)) = true ↔
        projectId ∈ s.projects.rows.map (·.projectId) := by
      simp
    simp only [Sqlite.Database.write_of_some (f := (·.insert _ _)) hn hinsert, hany]
    split_ifs with hmem
    · exact ⟨rfl, h.setProjects s.projects n⟩
    · exact ⟨rfl, h.setProjects ⟨_, _⟩ (n + 1)⟩

theorem removeProject_agrees (h : Holds json db s) (now : DateTime) (projectId : String) :
    Agrees json ((Op.removeProject projectId).exec json planner now db)
      (s.exec (visits json planner) now (.removeProject projectId)) := by
  obtain ⟨n, hn⟩ := h.projects
  have hdelete : (projectTable s.projects n).delete
      [⟨.projectId, .eq, .text projectId.toList⟩] =
      .ok (projectTable (s.projects.removeProject projectId) n) := by
    rw [projectTable, Encoding.delete_eq (p := fun r => decide (r.projectId = projectId))
      (by simp [Sqlite.Definition.Has, EventStore.projects])
      fun r _ => matches_project projectId r]
    simp [projectTable, ProjectsTable.removeProject]
  simp only [Op.exec, EventStore.removeProject,
    Sqlite.Database.write_of_some (f := (·.delete _)) hn hdelete]
  exact ⟨rfl, h.setProjects _ n⟩

theorem getProjectPath_agrees (h : Holds json db s) (now : DateTime) (projectId : String) :
    Agrees json ((Op.getProjectPath projectId).exec json planner now db)
      (s.exec (visits json planner) now (.getProjectPath projectId)) := by
  obtain ⟨n, hn⟩ := h.projects
  have hselect : (projectTable s.projects n).select planner
      { columns := [.path], conditions := [⟨.projectId, .eq, .text projectId.toList⟩] } = _ :=
    Encoding.select_key s.projects.nodup (by simp [Sqlite.Select.Names, Sqlite.Definition.Has,
      EventStore.projects]) rfl rfl fun r _ => matches_project projectId r
  simp only [Op.exec, EventStore.getProjectPath, Sqlite.Database.read_of_some hn, hselect, sql,
    Except.mapError, ok_bind, Stores.exec, ProjectsTable.getProjectPath]
  rcases s.projects.rows.find? _ with _ | r
  · exact ⟨rfl, h⟩
  · refine ⟨?_, h⟩
    simp

theorem mapM_toProject (rows : List ProjectRow) :
    (rows.map projects.encode).mapM EventStore.toProject =
      .ok (rows.map fun r => (r.projectId, .ofString r.path)) := by
  induction rows with
  | nil => rfl
  | cons r rows ih =>
    have hrow : EventStore.toProject (projects.encode r) = .ok (r.projectId, .ofString r.path) := by
      simp [EventStore.toProject, getText, projects, projectRow]
    rw [List.map_cons, List.mapM_cons, ih, hrow]
    rfl

theorem listProjects_agrees (h : Holds json db s) (now : DateTime) :
    Agrees json (Op.listProjects.exec json planner now db)
      (s.exec (visits json planner) now .listProjects) := by
  obtain ⟨n, hn⟩ := h.projects
  have hle : ∀ a b : ProjectRow, (⟨.createdAt, false⟩ : Sqlite.Order ColumnName).le
      (projects.encode a) (projects.encode b) = true ↔ a.createdAt ≤ b.createdAt :=
    fun a b => le_text
  have hselect : (projectTable s.projects n).select planner EventStore.selectProjects = _ :=
    Encoding.select_sorted (p := fun _ => true) (by decide) (by simp [EventStore.selectProjects])
      rfl (fun r _ => rfl) hle
  simp only [Op.exec, EventStore.listProjects, Sqlite.Database.read_of_some hn, hselect, sql,
    Except.mapError, ok_bind, mapM_toProject, List.filter_true]
  exact ⟨rfl, h⟩

/-! ## Cached analyses -/

theorem matches_key (projectId filePath : String) (r : CacheRow) :
    (FileAnalysisCache.keyConditions projectId filePath).all
      (·.holds FileAnalysisCache.fileAnalysis ((analyses json).encode r)) =
        decide (r.key = (projectId, filePath)) := by
  have hproject := holds_eq (d := FileAnalysisCache.fileAnalysis) (v := (analyses json).encode r)
    (c := .projectId) rfl rfl rfl projectId.toList
  have hpath := holds_eq (d := FileAnalysisCache.fileAnalysis) (v := (analyses json).encode r)
    (c := .filePath) rfl rfl rfl filePath.toList
  simp [FileAnalysisCache.keyConditions, hproject, hpath, String.toList_inj, CacheRow.key]

theorem matches_hash (hash : String) (r : CacheRow) :
    Sqlite.Condition.holds FileAnalysisCache.fileAnalysis ((analyses json).encode r)
      ⟨.contentHash, .eq, .text hash.toList⟩ = decide (r.analysis.contentHash = hash) := by
  have heq := holds_eq (d := FileAnalysisCache.fileAnalysis) (v := (analyses json).encode r)
    (c := .contentHash) rfl rfl rfl hash.toList
  rw [heq, decide_eq_decide]
  exact String.toList_inj

variable (json) in
theorem matches_fresh (projectId filePath hash : String) (r : CacheRow) :
    (FileAnalysisCache.freshConditions projectId filePath hash).all
      (·.holds FileAnalysisCache.fileAnalysis ((analyses json).encode r)) =
        (decide (r.analysis.contentHash = hash) && decide (r.key = (projectId, filePath))) := by
  rw [FileAnalysisCache.freshConditions, List.all_append, matches_key, Bool.and_comm]
  simp [matches_hash]

variable (planner) in
/-- The first of some rows is read. -/
theorem first_of_table {c : FileAnalysisCache} {n : ℕ}
    (hn : db.tables .fileAnalysis = some (cacheTable json c n)) {q : Sqlite.Select ColumnName}
    {rows : List CacheRow}
    (hselect : (cacheTable json c n).select planner q = .ok (rows.map (analyses json).encode)) :
    FileAnalysisCache.first json planner db q = .ok (rows.head?.map (·.analysis)) := by
  simp only [FileAnalysisCache.first, Sqlite.Database.read_of_some hn, hselect, sql,
    Except.mapError, ok_bind]
  rcases rows with _ | ⟨r, rows⟩
  · rfl
  · simp only [List.map_cons, toAnalysis_encode]
    rfl

theorem names_analyses {q : Sqlite.Select ColumnName}
    (hcolumns : q.columns = [] ∨ q.columns = FileAnalysisCache.analysisColumns)
    (hconditions : ∀ c ∈ q.conditions, c.column ∈ FileAnalysisCache.analysisColumns)
    (horder : q.order = none) : q.Names FileAnalysisCache.fileAnalysis := by
  have hhas : ∀ c ∈ FileAnalysisCache.analysisColumns, FileAnalysisCache.fileAnalysis.Has c := by
    decide
  refine ⟨?_, fun c hc => hhas _ (hconditions c hc), by simp [horder]⟩
  rcases hcolumns with h | h
  · simp [h]
  · rw [h]
    exact hhas

variable (planner) in
/-- A SELECT of the row with a key, if it has a property. -/
theorem select_row (c : FileAnalysisCache) {q : Sqlite.Select ColumnName}
    {projectId filePath : String} (keep : CacheRow → Bool)
    (hnames : q.Names FileAnalysisCache.fileAnalysis) (horder : q.order = none)
    (hlimit : q.limit = none ∨ q.limit = some 1)
    (hp : ∀ r, q.Matches FileAnalysisCache.fileAnalysis ((analyses json).encode r) =
      (keep r && decide (r.key = (projectId, filePath)))) (n : ℕ) :
    (cacheTable json c n).select planner q =
      .ok (((c.row projectId filePath).filter keep).toList.map (analyses json).encode) := by
  have hfilter : (c.rows.filter fun r => keep r && decide (r.key = (projectId, filePath))) =
      ((c.row projectId filePath).filter keep).toList := by
    rw [← List.filter_filter, Encoding.filter_key c.nodup, ← FileAnalysisCache.row]
    rcases c.row projectId filePath with _ | r
    · rfl
    · by_cases hr : keep r <;> simp [hr, Option.filter]
  rw [cacheTable, Encoding.select_visited hnames (by rcases hlimit with h | h <;> simp [h]) horder
    fun r _ => hp r, hfilter, Encoding.visit_toList]
  rcases hlimit with h | h <;> rcases (c.row projectId filePath).filter keep with _ | r <;> simp [h]

section CacheTable

variable {c : FileAnalysisCache} {n : ℕ}

theorem get_of_table (hn : db.tables .fileAnalysis = some (cacheTable json c n))
    (projectId filePath : String) :
    FileAnalysisCache.get json planner db projectId filePath = .ok (c.get projectId filePath) := by
  have hnames : (⟨FileAnalysisCache.analysisColumns,
      FileAnalysisCache.keyConditions projectId filePath, none, none⟩ :
        Sqlite.Select ColumnName).Names FileAnalysisCache.fileAnalysis :=
    names_analyses (.inr rfl) (by simp [FileAnalysisCache.keyConditions,
      FileAnalysisCache.analysisColumns]) rfl
  have hfirst := first_of_table planner hn (select_row planner c (fun _ => true) hnames rfl
    (.inl rfl) (fun r => (matches_key projectId filePath r).trans (Bool.true_and _).symm) n)
  rw [FileAnalysisCache.get, hfirst, AmbientFs.FileAnalysisCache.get]
  rcases c.row projectId filePath with _ | r <;> rfl

theorem getIfFresh_of_table (hn : db.tables .fileAnalysis = some (cacheTable json c n))
    (projectId filePath currentHash : String) :
    FileAnalysisCache.getIfFresh json planner db projectId filePath currentHash =
      .ok (c.getIfFresh projectId filePath currentHash) := by
  have hnames : (⟨FileAnalysisCache.analysisColumns,
      FileAnalysisCache.freshConditions projectId filePath currentHash, none, none⟩ :
        Sqlite.Select ColumnName).Names FileAnalysisCache.fileAnalysis :=
    names_analyses (.inr rfl) (by simp [FileAnalysisCache.freshConditions,
      FileAnalysisCache.keyConditions, FileAnalysisCache.analysisColumns]) rfl
  have hfirst := first_of_table planner hn (select_row planner c
    (fun r => decide (r.analysis.contentHash = currentHash)) hnames rfl (.inl rfl)
    (fun r => matches_fresh json projectId filePath currentHash r) n)
  rw [FileAnalysisCache.getIfFresh, hfirst, AmbientFs.FileAnalysisCache.getIfFresh,
    AmbientFs.FileAnalysisCache.get]
  rcases c.row projectId filePath with _ | r
  · rfl
  · by_cases hr : r.analysis.contentHash = currentHash <;> simp [hr, Option.filter]

theorem isFresh_of_table (hn : db.tables .fileAnalysis = some (cacheTable json c n))
    (projectId filePath hash : String) :
    FileAnalysisCache.isFresh planner db projectId filePath hash =
      .ok (c.isFresh projectId filePath hash) := by
  have hnames : (⟨[], FileAnalysisCache.freshConditions projectId filePath hash, none, some 1⟩ :
        Sqlite.Select ColumnName).Names FileAnalysisCache.fileAnalysis :=
    names_analyses (.inl rfl) (by simp [FileAnalysisCache.freshConditions,
      FileAnalysisCache.keyConditions, FileAnalysisCache.analysisColumns]) rfl
  have hselect := select_row planner c (fun r => decide (r.analysis.contentHash = hash)) hnames rfl
    (.inr rfl) (fun r => matches_fresh json projectId filePath hash r) n
  simp only [FileAnalysisCache.isFresh, Sqlite.Database.read_of_some hn, hselect, sql,
    Except.mapError, ok_bind]
  rw [AmbientFs.FileAnalysisCache.isFresh, AmbientFs.FileAnalysisCache.getIfFresh,
    AmbientFs.FileAnalysisCache.get]
  rcases c.row projectId filePath with _ | r
  · rfl
  · by_cases hr : r.analysis.contentHash = hash <;> simp [hr, Option.filter]

theorem getByHash_of_table (hn : db.tables .fileAnalysis = some (cacheTable json c n))
    (projectId contentHash : String) :
    FileAnalysisCache.getByHash json planner db projectId contentHash =
      .ok (c.getByHash ((visits json planner).byHash projectId contentHash) projectId
        contentHash) := by
  have hnames : (FileAnalysisCache.selectByHash projectId contentHash).Names
      FileAnalysisCache.fileAnalysis :=
    names_analyses (.inr rfl) (by simp [FileAnalysisCache.selectByHash,
      FileAnalysisCache.analysisColumns]) rfl
  have hmatches : ∀ r : CacheRow, (FileAnalysisCache.selectByHash projectId contentHash).Matches
      FileAnalysisCache.fileAnalysis ((analyses json).encode r) =
        decide (r.analysis.projectId = projectId ∧ r.analysis.contentHash = contentHash) := by
    intro r
    have hproject := holds_eq (d := FileAnalysisCache.fileAnalysis) (v := (analyses json).encode r)
      (c := .projectId) rfl rfl rfl projectId.toList
    simp [Sqlite.Select.Matches, FileAnalysisCache.selectByHash, hproject, matches_hash,
      String.toList_inj]
  have hfirst := first_of_table planner hn
    (q := FileAnalysisCache.selectByHash projectId contentHash)
    (Encoding.select_visited hnames (by simp [FileAnalysisCache.selectByHash]) rfl
      fun r _ => hmatches r)
  rw [FileAnalysisCache.getByHash, hfirst]
  show Except.ok ((List.take 1 _).head?.map _) = _
  rw [List.head?_take]
  rfl

theorem same_analysis (a b : CacheRow) :
    Sqlite.sameKey [.projectId, .filePath] ((analyses json).encode b) ((analyses json).encode a) =
      decide (b.key = a.key) := by
  simp [Sqlite.sameKey, analyses, analysisRow, String.toList_inj, CacheRow.key]

/-- An upsert sets all columns but those of the key. -/
theorem encode_of_key {a b : CacheRow} (h : b.key = a.key) (c : ColumnName)
    (hc : c ∉ [ColumnName.contentHash, .analyzedAt, .exports, .imports, .todoCount, .lintHints,
      .lineCount]) : (analyses json).encode b c = (analyses json).encode a c := by
  obtain ⟨hproject, hpath⟩ := Prod.mk.inj h
  cases c <;> simp_all [analyses, analysisRow]

theorem put_spec
    (hn : db.tables .fileAnalysis = some (cacheTable json c n)) (now : DateTime)
    (analysis : FileAnalysis) : ∃ m, FileAnalysisCache.put json db now analysis =
      .ok (db.set .fileAnalysis (cacheTable json (c.put analysis now.timestamp) m)) := by
  have hinsert : (cacheTable json c n).insert
      (FileAnalysisCache.analysisParams json now analysis) (.update [.projectId, .filePath]
        [.contentHash, .analyzedAt, .exports, .imports, .todoCount, .lintHints, .lineCount]) = _ :=
    Encoding.upsert_eq (by simp [FileAnalysisCache.analysisParams, Sqlite.Definition.Has,
      FileAnalysisCache.fileAnalysis]) (row_analysisParams now analysis _) (allows_analysis _) rfl
      (fun b _ => same_analysis _ b) fun b _ hb c hc => encode_of_key (of_decide_eq_true hb) c hc
  have hany : (c.rows.any fun b =>
      decide (b.key = (⟨analysis, now.timestamp⟩ : CacheRow).key)) = true ↔
        (⟨analysis, now.timestamp⟩ : CacheRow).key ∈ c.rows.map CacheRow.key := by
    simp
  rw [FileAnalysisCache.put, Sqlite.Database.write_of_some (f := (·.insert _ _)) hn hinsert]
  simp only [hany, decide_eq_true_eq, cacheTable, AmbientFs.FileAnalysisCache.put,
    AmbientFs.FileAnalysisCache.upsert]
  split_ifs with hmem
  · exact ⟨n, rfl⟩
  · exact ⟨n + 1, rfl⟩

theorem invalidate_of_table (hn : db.tables .fileAnalysis = some (cacheTable json c n))
    (projectId filePath : String) : FileAnalysisCache.invalidate db projectId filePath =
      .ok (db.set .fileAnalysis (cacheTable json (c.invalidate projectId filePath) n)) := by
  have hdelete : (cacheTable json c n).delete
      (FileAnalysisCache.keyConditions projectId filePath) =
      .ok (cacheTable json (c.invalidate projectId filePath) n) := by
    rw [cacheTable, Encoding.delete_eq (p := fun r => decide (r.key = (projectId, filePath)))
      (by simp [Sqlite.Definition.Has, FileAnalysisCache.fileAnalysis,
        FileAnalysisCache.keyConditions])
      fun r _ => matches_key projectId filePath r]
    simp [cacheTable, AmbientFs.FileAnalysisCache.invalidate]
  rw [FileAnalysisCache.invalidate,
    Sqlite.Database.write_of_some (f := (·.delete _)) hn hdelete]
  rfl

/-- A number is less than the text of a cutoff. -/
theorem holds_analyzedAt (r : CacheRow) (cutoff : DateTime) :
    Sqlite.Condition.holds FileAnalysisCache.fileAnalysis ((analyses json).encode r)
      ⟨.analyzedAt, .lt, .text cutoff.toRfc3339⟩ = true := by
  have hcolumn : FileAnalysisCache.fileAnalysis.columns.lookup .analyzedAt = some integerNotNull :=
    rfl
  simp [Sqlite.Condition.holds, hcolumn, integerNotNull, Sqlite.Affinity.convert,
    numeral_toRfc3339, Sqlite.Comparison.holds, analyses, analysisRow, Value.lt]

theorem delete_analyses (c : FileAnalysisCache) (n : ℕ) (cutoff : DateTime) :
    (cacheTable json c n).delete [⟨.analyzedAt, .lt, .text cutoff.toRfc3339⟩] =
      .ok (cacheTable json .empty n) := by
  rw [cacheTable, Encoding.delete_eq (p := fun _ => true)
    (by simp [Sqlite.Definition.Has, FileAnalysisCache.fileAnalysis])
    fun r _ => by simp [holds_analyzedAt]]
  simp [cacheTable, AmbientFs.FileAnalysisCache.empty]

/-- Whatever the cutoff, all analyses are deleted. -/
theorem pruneAnalysisBefore_spec
    (hn : db.tables .fileAnalysis = some (cacheTable json c n)) (cutoff : DateTime) :
    EventPruner.pruneAnalysisBefore db cutoff =
      .ok (c.rows.length, db.set .fileAnalysis (cacheTable json .empty n)) := by
  simp only [EventPruner.pruneAnalysisBefore, EventPruner.deleteBefore,
    Sqlite.Database.read_of_some hn,
    Sqlite.Database.write_of_some (f := (·.delete _)) hn (delete_analyses c n cutoff),
    Sqlite.Database.read_of_some Sqlite.Database.tables_set_self, sql, Except.mapError, ok_bind]
  simp [cacheTable, Encoding.table, AmbientFs.FileAnalysisCache.empty]

end CacheTable

/-! ## Any operation -/

theorem open_agrees (h : Holds json db s) (now : DateTime) (opener : Opener) :
    Agrees json ((Op.open opener).exec json planner now db)
      (s.exec (visits json planner) now (.open opener)) := by
  obtain ⟨db', hok, hopenable, htables⟩ := run_spec now opener h.openable
  obtain ⟨n, hn⟩ := h.projects
  obtain ⟨m, hm⟩ := h.cache
  simp only [Op.exec, hok]
  refine ⟨rfl, hopenable, ?_, ⟨n, ?_⟩, ⟨m, ?_⟩⟩
  · rw [htables _ (by simp), h.events, Option.some_or]
  · rw [htables _ (by simp), hn, Option.some_or]
  · rw [htables _ (by simp), hm, Option.some_or]

variable (planner)

theorem exec_agrees (h : Holds json db s) (now : DateTime) (op : Op) :
    Agrees json (op.exec json planner now db) (s.exec (visits json planner) now op) := by
  cases op with
  | «open» opener => exact open_agrees h now opener
  | insert event =>
    simp only [Op.exec, insert_spec h.events]
    exact ⟨rfl, h.setEvents _⟩
  | insertBatch events =>
    obtain ⟨db', hok, hholds⟩ := insertBatch_spec events h
    simp only [Op.exec, hok]
    exact ⟨rfl, hholds⟩
  | query f => exact query_agrees h now f
  | getLatest projectId filePath => exact getLatest_agrees h now projectId filePath
  | addProject projectId path => exact addProject_agrees h now projectId path
  | removeProject projectId => exact removeProject_agrees h now projectId
  | getProjectPath projectId => exact getProjectPath_agrees h now projectId
  | listProjects => exact listProjects_agrees h now
  | get projectId filePath =>
    obtain ⟨n, hn⟩ := h.cache
    simp only [Op.exec, get_of_table hn]
    exact ⟨rfl, h⟩
  | getIfFresh projectId filePath hash =>
    obtain ⟨n, hn⟩ := h.cache
    simp only [Op.exec, getIfFresh_of_table hn]
    exact ⟨rfl, h⟩
  | isFresh projectId filePath hash =>
    obtain ⟨n, hn⟩ := h.cache
    simp only [Op.exec, isFresh_of_table hn]
    exact ⟨rfl, h⟩
  | put analysis =>
    obtain ⟨n, hn⟩ := h.cache
    obtain ⟨m, hok⟩ := put_spec hn now analysis
    simp only [Op.exec, hok]
    exact ⟨rfl, h.setCache _ m⟩
  | invalidate projectId filePath =>
    obtain ⟨n, hn⟩ := h.cache
    simp only [Op.exec, invalidate_of_table hn]
    exact ⟨rfl, h.setCache _ n⟩
  | getByHash projectId contentHash =>
    obtain ⟨n, hn⟩ := h.cache
    simp only [Op.exec, getByHash_of_table hn]
    exact ⟨rfl, h⟩
  | pruneEventsBefore cutoff => exact pruneEventsBefore_agrees h now cutoff
  | pruneAnalysisBefore cutoff =>
    obtain ⟨n, hn⟩ := h.cache
    simp only [Op.exec, pruneAnalysisBefore_spec hn]
    exact ⟨rfl, h.setCache _ n⟩

/-- A file that holds the stores answers every sequence of operations as they do. -/
theorem run_eq (ops : List (DateTime × Op)) (h : Holds json db s) :
    run json planner db ops = s.run (visits json planner) ops := by
  induction ops generalizing db s with
  | nil => rfl
  | cons o ops ih =>
    have hagrees := exec_agrees planner h o.1 o.2
    rw [run, Stores.run]
    rcases hdb : o.2.exec json planner o.1 db with e | ⟨reply, db'⟩ <;>
      rcases hs : s.exec (visits json planner) o.1 o.2 with e' | ⟨reply', s'⟩ <;>
      rw [hdb, hs] at hagrees
    · simp only [Agrees] at hagrees
      rw [hagrees, ih h]
    · cases hagrees
    · cases hagrees
    · obtain ⟨hreply, hholds⟩ := hagrees
      simp only [hreply, ih hholds]

end Sql

end AmbientFs
