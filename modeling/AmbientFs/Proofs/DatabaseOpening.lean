import AmbientFs.Proofs.DatabaseRows

/-!
# Opening the database file

What each opener makes of a file, in whatever order they run: a table is the one of the first
opener that makes a table of its name.
-/

namespace AmbientFs

namespace Sql

/-- The table that an opener makes if there is none of the name. -/
def Opener.makes : Opener → TableName → Option (Sqlite.Table ColumnName)
  | eventStore, .fileEvents => some EventStore.fileEvents.table
  | eventStore, .projects => some EventStore.projects.table
  | migrations, .fileEvents => some Migrations.fileEvents.table
  | migrations, .fileAnalysis => some Migrations.fileAnalysis.table
  | migrations, .projects => some Migrations.projects.table
  | cache, .fileAnalysis => some FileAnalysisCache.fileAnalysis.table
  | _, _ => none

/-- Tables that an opener has made. -/
structure Known (db : Db) : Prop where
  fileEvents : ∀ t, db.tables .fileEvents = some t →
    t.definition = EventStore.fileEvents ∨ t.definition = Migrations.fileEvents
  fileAnalysis : ∀ t, db.tables .fileAnalysis = some t →
    t.definition = FileAnalysisCache.fileAnalysis

/-- Files that can be opened: the migrations have run, or nothing says so. -/
structure Openable (db : Db) : Prop extends Known db where
  migrations : db.tables .migrations = none ∨
    Migrations.getCurrentVersion db = .ok 1 ∧ ∀ name, db.tables name ≠ none

variable {db : Db}

/-- Indexes on columns that are there make no difference to the tables. -/
theorem createIndexes_of_has {name : TableName} {t : Sqlite.Table ColumnName}
    (indexes : List (IndexName × List ColumnName)) (h : db.tables name = some t)
    (hcolumns : ∀ i ∈ indexes, ∀ c ∈ i.2, t.definition.Has c) :
    ∃ db', createIndexes name db indexes = .ok db' ∧ db'.tables = db.tables := by
  induction indexes generalizing db with
  | nil => exact ⟨db, rfl, rfl⟩
  | cons i indexes ih =>
    obtain ⟨db₁, hok, htables⟩ := Sqlite.Database.createIndex_of_has i.1 h
      (hcolumns i List.mem_cons_self)
    obtain ⟨db', hrest, htables'⟩ := ih (htables ▸ h) fun j hj =>
      hcolumns j (List.mem_cons_of_mem _ hj)
    refine ⟨db', ?_, htables'.trans htables⟩
    rw [createIndexes, hok]
    exact hrest

/-- The table of events after a CREATE TABLE, with the columns of all indexes. -/
theorem exists_fileEvents (h : ∀ t, db.tables .fileEvents = some t →
      t.definition = EventStore.fileEvents ∨ t.definition = Migrations.fileEvents)
    {d : Sqlite.Definition ColumnName}
    (hd : d = EventStore.fileEvents ∨ d = Migrations.fileEvents) :
    ∃ t, (db.createTable .fileEvents d).tables .fileEvents = some t ∧
      (t.definition = EventStore.fileEvents ∨ t.definition = Migrations.fileEvents) := by
  rw [Sqlite.Database.tables_createTable, if_pos rfl]
  rcases ht : db.tables .fileEvents with _ | t
  · exact ⟨d.table, rfl, hd⟩
  · exact ⟨t, rfl, h t ht⟩

theorem exists_fileAnalysis (h : ∀ t, db.tables .fileAnalysis = some t →
    t.definition = FileAnalysisCache.fileAnalysis) :
    ∃ t, (db.createTable .fileAnalysis FileAnalysisCache.fileAnalysis).tables .fileAnalysis =
      some t ∧ t.definition = FileAnalysisCache.fileAnalysis := by
  rw [Sqlite.Database.tables_createTable, if_pos rfl]
  rcases ht : db.tables .fileAnalysis with _ | t
  · exact ⟨_, rfl, rfl⟩
  · exact ⟨t, rfl, h t ht⟩

theorem new_spec (h : ∀ t, db.tables .fileEvents = some t →
      t.definition = EventStore.fileEvents ∨ t.definition = Migrations.fileEvents) :
    ∃ db', EventStore.new db = .ok db' ∧
    ∀ name, db'.tables name = (db.tables name).or (Opener.eventStore.makes name) := by
  obtain ⟨t, ht, hd⟩ := exists_fileEvents h (.inl rfl)
  obtain ⟨db₁, hok, htables⟩ := createIndexes_of_has [
    (.projectId, [.projectId]),
    (.filePath, [.filePath]),
    (.timestamp, [.timestamp]),
    (.projectFile, [.projectId, .filePath])] ht (by rcases hd with hd | hd <;> rw [hd] <;> decide)
  refine ⟨db₁.createTable .projects EventStore.projects, ?_, fun name => ?_⟩
  · simp only [EventStore.new, hok, ok_bind]
  · rw [Sqlite.Database.tables_createTable, htables, Sqlite.Database.tables_createTable]
    cases name <;> simp [Opener.makes]

theorem initSchema_spec (h : Known db) : ∃ db', FileAnalysisCache.initSchema db = .ok db' ∧
    ∀ name, db'.tables name = (db.tables name).or (Opener.cache.makes name) := by
  obtain ⟨t, ht, hd⟩ := exists_fileAnalysis h.fileAnalysis
  obtain ⟨db', hok, htables⟩ := createIndexes_of_has [(.analysisHash, [.projectId, .contentHash])]
    ht (by rw [hd]; decide)
  refine ⟨db', hok, fun name => ?_⟩
  rw [htables, Sqlite.Database.tables_createTable]
  cases name <;> simp [Opener.makes]

theorem createTablesV1_spec (h : Known db) : ∃ db', Migrations.createTablesV1 db = .ok db' ∧
    ∀ name, db'.tables name = (db.tables name).or (Opener.migrations.makes name) := by
  obtain ⟨t, ht, hd⟩ := exists_fileEvents h.fileEvents (.inr rfl)
  obtain ⟨db₁, hok₁, htables₁⟩ := createIndexes_of_has [
    (.eventsProjectPath, [.projectId, .filePath]),
    (.eventsProjectTime, [.projectId, .timestamp]),
    (.eventsSource, [.projectId, .source]),
    (.eventsMachine, [.machineId, .timestamp])] ht (by
      rcases hd with hd | hd <;> rw [hd] <;> decide)
  have hanalysis : ∀ t, db₁.tables .fileAnalysis = some t →
      t.definition = FileAnalysisCache.fileAnalysis := by
    intro t ht
    rw [htables₁, Sqlite.Database.tables_createTable] at ht
    exact h.fileAnalysis t (by simpa using ht)
  obtain ⟨t', ht', hd'⟩ := exists_fileAnalysis hanalysis
  obtain ⟨db₂, hok₂, htables₂⟩ := createIndexes_of_has
    [(.analysisHash, [.projectId, .contentHash])] ht' (by rw [hd']; decide)
  refine ⟨db₂.createTable .projects Migrations.projects, ?_, fun name => ?_⟩
  · show (do
      let db ← createIndexes .fileEvents (db.createTable .fileEvents Migrations.fileEvents) _
      _) = _
    rw [hok₁]
    show (do let db ← createIndexes .fileAnalysis _ _; _) = _
    rw [show Migrations.fileAnalysis = FileAnalysisCache.fileAnalysis from rfl, hok₂]
    rfl
  · rw [Sqlite.Database.tables_createTable, htables₂, Sqlite.Database.tables_createTable, htables₁,
      Sqlite.Database.tables_createTable]
    cases name <;> simp [Opener.makes]
    rfl

variable (db) in
/-- One row in the table of migrations, for version 1. -/
theorem recordMigration_spec (now : DateTime)
    (h : db.tables .migrations = some Migrations.migrations.table) :
    ∃ t, Migrations.recordMigration db now 1 = .ok (db.set .migrations t) ∧
      Migrations.getCurrentVersion (db.set .migrations t) = .ok 1 := by
  refine ⟨⟨Migrations.migrations, [Migrations.migrations.row
    [(.version, .integer 1), (.appliedAt, .integer now.timestamp)] 1], 1⟩, ?_, ?_⟩
  · rw [Migrations.recordMigration, Sqlite.Database.write_of_some h]
    · rfl
    · rfl
  · rw [Migrations.getCurrentVersion,
      Sqlite.Database.read_of_some Sqlite.Database.tables_set_self]
    rfl

theorem ensureSchema_spec (now : DateTime) (h : Openable db) :
    ∃ db', Migrations.ensureSchema now db = .ok db' ∧
      Migrations.getCurrentVersion db' = .ok 1 ∧
      ∀ name ≠ .migrations,
        db'.tables name = (db.tables name).or (Opener.migrations.makes name) := by
  rcases h.migrations with hnone | ⟨hversion, hall⟩
  · have htables := Sqlite.Database.tables_createTable db .migrations Migrations.migrations
    have hnew : (Migrations.ensureMigrationsTable db).tables .migrations =
        some Migrations.migrations.table := by
      rw [Migrations.ensureMigrationsTable, htables, hnone]
      rfl
    have hothers : ∀ name ≠ .migrations,
        (Migrations.ensureMigrationsTable db).tables name = db.tables name := by
      intro name hname
      rw [Migrations.ensureMigrationsTable, htables, if_neg hname, Option.or_none]
    have hzero : Migrations.getCurrentVersion (Migrations.ensureMigrationsTable db) = .ok 0 := by
      rw [Migrations.getCurrentVersion, Sqlite.Database.read_of_some hnew]
      rfl
    have hknown : Known (Migrations.ensureMigrationsTable db) :=
      ⟨by rw [hothers _ (by simp)]; exact h.fileEvents,
        by rw [hothers _ (by simp)]; exact h.fileAnalysis⟩
    obtain ⟨db₁, hok, htables₁⟩ := createTablesV1_spec hknown
    obtain ⟨t, hrecord, hversion⟩ := recordMigration_spec db₁ now (by
      rw [htables₁, hnew, Option.some_or])
    refine ⟨db₁.set .migrations t, ?_, hversion, fun name hname => ?_⟩
    · have hrun : Migrations.runMigration (Migrations.ensureMigrationsTable db) 1 = .ok db₁ := by
        simp [Migrations.runMigration, hok]
      simp only [Migrations.ensureSchema, hzero, ok_bind]
      show Migrations.migrate now 1 0 _ = _
      simp only [Migrations.migrate, zero_add, hrun, ok_bind, hrecord]
    · rw [Sqlite.Database.tables_set_of_ne hname, htables₁, hothers name hname]
  · obtain ⟨t, ht⟩ := Option.ne_none_iff_exists'.1 (hall .migrations)
    have hsame : Migrations.ensureMigrationsTable db = db := by
      simp [Migrations.ensureMigrationsTable, Sqlite.Database.createTable, ht]
    refine ⟨db, ?_, hversion, fun name _ => ?_⟩
    · simp [Migrations.ensureSchema, hsame, hversion, Migrations.currentVersion, Migrations.migrate]
    · obtain ⟨t, ht⟩ := Option.ne_none_iff_exists'.1 (hall name)
      rw [ht, Option.some_or]

theorem known_empty : Known .empty where
  fileEvents := by simp [Sqlite.Database.empty]
  fileAnalysis := by simp [Sqlite.Database.empty]

theorem openable_empty : Openable .empty := ⟨known_empty, .inl rfl⟩

variable {db' : Db} {opener : Opener}

theorem Known.of_makes (h : Known db)
    (htables : ∀ name ≠ .migrations, db'.tables name = (db.tables name).or (opener.makes name)) :
    Known db' := by
  refine ⟨fun t ht => ?_, fun t ht => ?_⟩
  · rw [htables _ (by simp), Option.or_eq_some_iff] at ht
    rcases ht with ht | ⟨-, ht⟩
    · exact h.fileEvents t ht
    · cases opener <;> simp only [Opener.makes, Option.some.injEq, reduceCtorEq] at ht <;> subst ht
      · exact .inl rfl
      · exact .inr rfl
  · rw [htables _ (by simp), Option.or_eq_some_iff] at ht
    rcases ht with ht | ⟨-, ht⟩
    · exact h.fileAnalysis t ht
    · cases opener <;> simp only [Opener.makes, Option.some.injEq, reduceCtorEq] at ht <;> subst ht
      · rfl
      · rfl

theorem getCurrentVersion_congr (h : db'.tables .migrations = db.tables .migrations) :
    Migrations.getCurrentVersion db' = Migrations.getCurrentVersion db := by
  simp only [Migrations.getCurrentVersion, Sqlite.Database.read, h]

/-- An opener that leaves the table of migrations alone. -/
theorem Openable.of_makes (h : Openable db) (hno : opener.makes .migrations = none)
    (htables : ∀ name, db'.tables name = (db.tables name).or (opener.makes name)) :
    Openable db' := by
  have hsame : db'.tables .migrations = db.tables .migrations := by
    rw [htables, hno, Option.or_none]
  refine ⟨h.toKnown.of_makes fun name _ => htables name, ?_⟩
  rw [hsame, getCurrentVersion_congr hsame]
  refine h.migrations.imp_right fun ⟨hversion, hall⟩ => ⟨hversion, fun name => ?_⟩
  rw [htables, Ne, Option.or_eq_none_iff]
  exact fun hnone => hall name hnone.1

/-- What an opener does to a file. -/
theorem run_spec (now : DateTime) (opener : Opener) (h : Openable db) :
    ∃ db', opener.run now db = .ok db' ∧ Openable db' ∧
      ∀ name ≠ .migrations, db'.tables name = (db.tables name).or (opener.makes name) := by
  cases opener with
  | eventStore =>
    obtain ⟨db', hok, htables⟩ := new_spec h.fileEvents
    exact ⟨db', hok, h.of_makes rfl htables, fun name _ => htables name⟩
  | cache =>
    obtain ⟨db', hok, htables⟩ := initSchema_spec h.toKnown
    exact ⟨db', hok, h.of_makes rfl htables, fun name _ => htables name⟩
  | migrations =>
    obtain ⟨db', hok, hversion, htables⟩ := ensureSchema_spec now h
    refine ⟨db', hok, ⟨h.toKnown.of_makes htables, .inr ⟨hversion, fun name => ?_⟩⟩, htables⟩
    cases name with
    | migrations =>
      intro hnone
      rw [Migrations.getCurrentVersion, Sqlite.Database.read, hnone] at hversion
      cases hversion
    | _ => simp [htables, Opener.makes]

theorem openAll_spec (openings : List (DateTime × Opener)) (h : Openable db) :
    ∃ db', openAll db openings = .ok db' ∧ Openable db' ∧
      ∀ name ≠ .migrations, db'.tables name =
        (db.tables name).or (openings.findSome? fun o => o.2.makes name) := by
  induction openings generalizing db with
  | nil => exact ⟨db, rfl, h, fun name _ => (Option.or_none).symm⟩
  | cons o openings ih =>
    obtain ⟨db₁, hok, hopen, htables⟩ := run_spec o.1 o.2 h
    obtain ⟨db', hrest, hopen', htables'⟩ := ih hopen
    refine ⟨db', ?_, hopen', fun name hname => ?_⟩
    · rw [openAll, hok]
      exact hrest
    · rw [htables' name hname, htables name hname, Option.or_assoc, List.findSome?_cons]
      rcases o.2.makes name with _ | t <;> simp

end Sql

end AmbientFs
