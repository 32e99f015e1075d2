import AmbientFs.Proofs.DatabaseOrder

/-!
# Parts of a file

A file that only some openers have opened holds only some of the stores: the events once the event
store has opened it, the analyses once the cache has. The operations on the other tables leave the
part alone, those that fail for want of a table among them.
-/

namespace AmbientFs

namespace Sql

/-- The file can be opened still, and the table is as it was if it was there. -/
structure Spares (name : TableName) (db db' : Db) : Prop where
  openable : Openable db → Openable db'
  tables : ∀ t, db.tables name = some t → db'.tables name = some t

variable {json : SerdeJson} {planner : Sqlite.Planner ColumnName} {name : TableName}
  {db db' : Db}

theorem Spares.refl (name : TableName) (db : Db) : Spares name db db := ⟨id, fun _ => id⟩

theorem Spares.trans {db₁ : Db} (h : Spares name db db₁) (h' : Spares name db₁ db') :
    Spares name db db' :=
  ⟨h'.openable ∘ h.openable, fun t ht => h'.tables t (h.tables t ht)⟩

theorem spares_run (hname : name ≠ .migrations) (h : Openable db) {now : DateTime}
    {opener : Opener} (hrun : opener.run now db = .ok db') : Spares name db db' := by
  obtain ⟨db₁, hok, hopenable, htables⟩ := run_spec now opener h
  obtain rfl := Except.ok.inj (hok.symm.trans hrun)
  refine ⟨fun _ => hopenable, fun t ht => ?_⟩
  rw [htables name hname, ht, Option.some_or]

theorem sql_eq_ok {α : Type} {x : Except Sqlite.Error α} {a : α} (h : sql x = .ok a) :
    x = .ok a := by
  rcases x with e | b
  · cases h
  · cases h
    rfl

theorem bind_eq_ok {ε α β : Type} {x : Except ε α} {f : α → Except ε β} {b : β}
    (h : x >>= f = .ok b) : ∃ a, x = .ok a ∧ f a = .ok b := by
  rcases x with e | a
  · cases h
  · exact ⟨a, rfl, h⟩

/-- A statement that writes one table spares the others. -/
theorem spares_write {written : TableName}
    {f : Sqlite.Table ColumnName → Except Sqlite.Error (Sqlite.Table ColumnName)}
    (hwritten : written ≠ .migrations)
    (hf : ∀ t t', f t = .ok t' → t'.definition = t.definition) (hname : written ≠ name)
    (h : sql (db.write written f) = .ok db') : Spares name db db' := by
  obtain ⟨t, t', ht, hft, rfl⟩ := Sqlite.Database.write_eq_ok (sql_eq_ok h)
  refine ⟨fun hopen => hopen.set hwritten ht (hf t t' hft), fun x hx => ?_⟩
  rw [Sqlite.Database.tables_set_of_ne hname.symm]
  exact hx

theorem spares_insert (hname : .fileEvents ≠ name) {event : FileEvent} {id : ℕ}
    (h : EventStore.insert db event = .ok (id, db')) : Spares name db db' := by
  obtain ⟨db₁, hw, h⟩ := bind_eq_ok h
  obtain ⟨n, -, h⟩ := bind_eq_ok h
  cases h
  exact spares_write (by simp) (fun t t' => Sqlite.Table.definition_insert) hname hw

theorem spares_insertBatch (hname : .fileEvents ≠ name) {events : List FileEvent} {ids : List ℕ}
    (h : EventStore.insertBatch db events = .ok (ids, db')) : Spares name db db' := by
  induction events generalizing db ids with
  | nil =>
    cases h
    exact .refl name db'
  | cons event events ih =>
    obtain ⟨⟨id, db₁⟩, hi, h⟩ := bind_eq_ok h
    obtain ⟨⟨ids', db₂⟩, hb, h⟩ := bind_eq_ok h
    cases h
    exact (spares_insert hname hi).trans (ih hb)

theorem spares_deleteBefore {table : TableName} (htable : table ≠ .migrations)
    (hname : table ≠ name) {column : ColumnName} {cutoff : DateTime} {count : ℕ}
    (h : EventPruner.deleteBefore db cutoff table column = .ok (count, db')) :
    Spares name db db' := by
  obtain ⟨before, -, h⟩ := bind_eq_ok h
  obtain ⟨db₁, hw, h⟩ := bind_eq_ok h
  obtain ⟨after, -, h⟩ := bind_eq_ok h
  cases h
  exact spares_write htable (fun t t' => Sqlite.Table.definition_delete) hname hw

theorem exists_deleteBefore {table : TableName} {t : Sqlite.Table ColumnName}
    (ht : db.tables table = some t) {column : ColumnName} (hcolumn : t.definition.Has column)
    (cutoff : DateTime) :
    ∃ count db', EventPruner.deleteBefore db cutoff table column = .ok (count, db') := by
  obtain ⟨t', hdelete⟩ := Sqlite.Table.exists_delete
    [⟨column, .lt, .text cutoff.toRfc3339⟩] (t := t) (by simpa using hcolumn)
  simp only [EventPruner.deleteBefore, Sqlite.Database.read_of_some ht,
    Sqlite.Database.write_of_some (f := (·.delete _)) ht hdelete,
    Sqlite.Database.read_of_some Sqlite.Database.tables_set_self, sql, Except.mapError, ok_bind]
  exact ⟨_, _, rfl⟩

/-- The table that an operation is on. -/
def Op.table : Op → Option TableName
  | .open _ => none
  | .insert _ | .insertBatch _ | .query _ | .getLatest .. | .pruneEventsBefore _ =>
    some .fileEvents
  | .addProject .. | .removeProject _ | .getProjectPath _ | .listProjects => some .projects
  | .get .. | .getIfFresh .. | .isFresh .. | .put _ | .invalidate .. | .getByHash .. |
    .pruneAnalysisBefore _ => some .fileAnalysis

theorem map_eq_ok {ε α β : Type} {x : Except ε α} {g : α → β} {b : β} (h : x.map g = .ok b) :
    ∃ a, x = .ok a ∧ g a = b := by
  rcases x with e | a
  · cases h
  · exact ⟨a, rfl, Except.ok.inj h⟩

/-- An operation spares the tables that it is not on. -/
theorem spares_exec (hname : name ≠ .migrations) (h : Openable db) {now : DateTime} {op : Op}
    (hop : op.table ≠ some name) {reply : Reply}
    (hexec : op.exec json planner now db = .ok (reply, db')) : Spares name db db' := by
  have hother : ∀ t, op.table = some t → t ≠ name := fun t ht heq => hop (heq ▸ ht)
  cases op with
  | «open» opener =>
    obtain ⟨db₁, hrun, hdb⟩ := map_eq_ok hexec
    cases hdb
    exact spares_run hname h hrun
  | insert event =>
    obtain ⟨⟨id, db₁⟩, hrun, hdb⟩ := map_eq_ok hexec
    cases hdb
    exact spares_insert (hother _ rfl) hrun
  | insertBatch events =>
    obtain ⟨⟨ids, db₁⟩, hrun, hdb⟩ := map_eq_ok hexec
    cases hdb
    exact spares_insertBatch (hother _ rfl) hrun
  | addProject projectId path =>
    obtain ⟨db₁, hrun, hdb⟩ := map_eq_ok hexec
    cases hdb
    unfold EventStore.addProject at hrun
    rcases htext : path.toStr with _ | text <;> simp only [htext] at hrun
    · cases hrun
    · exact spares_write (by simp) (fun t t' => Sqlite.Table.definition_insert) (hother _ rfl) hrun
  | removeProject projectId =>
    obtain ⟨db₁, hrun, hdb⟩ := map_eq_ok hexec
    cases hdb
    exact spares_write (by simp) (fun t t' => Sqlite.Table.definition_delete) (hother _ rfl) hrun
  | put analysis =>
    obtain ⟨db₁, hrun, hdb⟩ := map_eq_ok hexec
    cases hdb
    exact spares_write (by simp) (fun t t' => Sqlite.Table.definition_insert) (hother _ rfl) hrun
  | invalidate projectId filePath =>
    obtain ⟨db₁, hrun, hdb⟩ := map_eq_ok hexec
    cases hdb
    exact spares_write (by simp) (fun t t' => Sqlite.Table.definition_delete) (hother _ rfl) hrun
  | pruneEventsBefore cutoff | pruneAnalysisBefore cutoff =>
    obtain ⟨⟨count, db₁⟩, hrun, hdb⟩ := map_eq_ok hexec
    cases hdb
    exact spares_deleteBefore (by simp) (hother _ rfl) hrun
  | _ =>
    obtain ⟨found, -, hdb⟩ := map_eq_ok hexec
    cases hdb
    exact .refl name db

/-! ## Events and analyses -/

structure HoldsEvents (db : Db) (es : EventStore) : Prop where
  openable : Openable db
  events : db.tables .fileEvents = some (eventTable es)

structure HoldsCache (json : SerdeJson) (db : Db) (c : FileAnalysisCache) : Prop where
  openable : Openable db
  cache : ∃ n, db.tables .fileAnalysis = some (cacheTable json c n)

variable {es : EventStore} {c : FileAnalysisCache}

theorem HoldsEvents.spared (h : HoldsEvents db es) (hspares : Spares .fileEvents db db') :
    HoldsEvents db' es :=
  ⟨hspares.openable h.openable, hspares.tables _ h.events⟩

theorem HoldsCache.spared (h : HoldsCache json db c) (hspares : Spares .fileAnalysis db db') :
    HoldsCache json db' c := by
  obtain ⟨n, hn⟩ := h.cache
  exact ⟨hspares.openable h.openable, n, hspares.tables _ hn⟩

theorem HoldsEvents.set (h : HoldsEvents db es) (es' : EventStore) :
    HoldsEvents (db.set .fileEvents (eventTable es')) es' :=
  ⟨h.openable.set (by simp) h.events rfl, by simp⟩

theorem HoldsCache.set (h : HoldsCache json db c) (c' : FileAnalysisCache) (n : ℕ) :
    HoldsCache json (db.set .fileAnalysis (cacheTable json c' n)) c' := by
  obtain ⟨m, hm⟩ := h.cache
  exact ⟨h.openable.set (by simp) hm rfl, n, by simp⟩

theorem HoldsEvents.insertBatch (h : HoldsEvents db es) (events : List FileEvent) :
    ∃ ids db', EventStore.insertBatch db events = .ok (ids, db') ∧
      HoldsEvents db' (es.insertBatch events) := by
  induction events generalizing db es with
  | nil => exact ⟨[], db, rfl, h⟩
  | cons event events ih =>
    obtain ⟨ids, db', hok, hholds⟩ := ih (h.set (es.insert event))
    refine ⟨(es.lastId + 1) :: ids, db', ?_, hholds⟩
    rw [EventStore.insertBatch, insert_spec h.events]
    simp only [ok_bind, hok]

/-- The openers that have opened a file, the event store before the migrations. -/
def OpenedByStore (openers : List (DateTime × Opener)) : Prop :=
  (openers.map Prod.snd).find? (· ≠ .cache) = some .eventStore

def OpenedByCache (openers : List (DateTime × Opener)) : Prop := .cache ∈ openers.map Prod.snd

instance (openers : List (DateTime × Opener)) : Decidable (OpenedByStore openers) :=
  inferInstanceAs (Decidable (_ = _))

instance (openers : List (DateTime × Opener)) : Decidable (OpenedByCache openers) :=
  inferInstanceAs (Decidable (_ ∈ _))

variable {openers : List (DateTime × Opener)}

theorem holdsEvents_new (h : OpenedByStore openers) :
    ∃ db, openAll .empty openers = .ok db ∧ HoldsEvents db .new := by
  obtain ⟨db, hok, hopenable, htables⟩ := openAll_spec openers openable_empty
  refine ⟨db, hok, hopenable, ?_⟩
  have hmakes : (openers.map Prod.snd).findSome? (·.makes .fileEvents) = _ :=
    Openings.findSome?_makes (.inl rfl)
  rw [h, List.findSome?_map] at hmakes
  rw [htables _ (by simp)]
  exact hmakes

variable (json) in
theorem holdsCache_new (h : OpenedByCache openers) :
    ∃ db, openAll .empty openers = .ok db ∧ HoldsCache json db .empty := by
  obtain ⟨db, hok, hopenable, htables⟩ := openAll_spec openers openable_empty
  refine ⟨db, hok, hopenable, 0, ?_⟩
  have hmakes := Openings.findSome?_fileAnalysis h
  rw [List.findSome?_map] at hmakes
  rw [htables _ (by simp)]
  exact hmakes

end Sql

end AmbientFs
