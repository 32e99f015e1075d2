import AmbientFs.Proofs.Database

/-!
# Who opens the file first

The event store and the migrations define the table of projects differently, and a file keeps the
definition of the first that runs on it. The operations are written for that of the event store.
-/

namespace AmbientFs

namespace Sql

/-- An order in which all openers have run on a new file. -/
structure Openings where
  list : List (DateTime × Opener)
  all : ∀ opener, opener ∈ list.map Prod.snd

/-- Failures that come from what an operation is given, or from the text of a stored instant. -/
def DbError.OfInput : DbError → Prop
  | .sqlite .mismatch => True
  | .store _ => True
  | .invalidPath => True
  | _ => False

variable {json : SerdeJson} {planner : Sqlite.Planner ColumnName}

theorem ofInput_of_exec {visits : Visits} {now : DateTime} {s : Stores} {op : Op} {e : DbError}
    (h : s.exec visits now op = .error e) : e.OfInput := by
  cases op with
  | query f =>
    simp only [Stores.exec] at h
    split_ifs at h
    · cases h
      trivial
    · rcases hq : s.events.query visits.events f with e' | events <;> rw [hq] at h <;> cases h
      trivial
  | getLatest projectId filePath =>
    simp only [Stores.exec] at h
    rcases hq : s.events.getLatest visits.events projectId filePath with e' | event <;>
      rw [hq] at h <;> cases h
    trivial
  | addProject projectId path =>
    simp only [Stores.exec] at h
    rcases hp : s.projects.addProject projectId path now with _ | projects <;> rw [hp] at h <;>
      cases h
    trivial
  | _ => cases h

theorem ofInput_of_run {visits : Visits} {ops : List (DateTime × Op)} {e : DbError} {s : Stores}
    (h : .error e ∈ s.run visits ops) : e.OfInput := by
  induction ops generalizing s with
  | nil => simp [Stores.run] at h
  | cons o ops ih =>
    rw [Stores.run] at h
    rcases hexec : s.exec visits o.1 o.2 with e' | ⟨reply, s'⟩ <;>
      simp only [hexec, List.mem_cons, Except.error.injEq, reduceCtorEq, false_or] at h
    · rcases h with rfl | h
      · exact ofInput_of_exec hexec
      · exact ih h
    · exact ih h

namespace Openings

variable (o : Openings)

/-- Every sequence of operations answers as the stores do, and the schema makes none fail. -/
def Interchangeable (json : SerdeJson) (planner : Sqlite.Planner ColumnName) : Prop :=
  ∃ db, openAll .empty o.list = .ok db ∧ ∀ ops,
    run json planner db ops = Stores.new.run (visits json planner) ops ∧
      ∀ e, .error e ∈ run json planner db ops → e.OfInput

/-- Of the event store and the migrations, the event store is the first. -/
def StoreFirst : Prop := (o.list.map Prod.snd).find? (· ≠ .cache) = some .eventStore

instance : Decidable o.StoreFirst := inferInstanceAs (Decidable (_ = _))

/-- The table of a name is the one that the first opener makes. -/
theorem tables_spec : ∃ db, openAll .empty o.list = .ok db ∧ Openable db ∧
    ∀ name ≠ .migrations, db.tables name = (o.list.map Prod.snd).findSome? (·.makes name) := by
  obtain ⟨db, hok, hopenable, htables⟩ := openAll_spec o.list openable_empty
  refine ⟨db, hok, hopenable, fun name hname => ?_⟩
  rw [htables name hname, List.findSome?_map]
  rfl

/-- Apart from the cache's, the first of the other two openers makes all tables. -/
theorem findSome?_makes {openers : List Opener} {name : TableName}
    (hname : name = .fileEvents ∨ name = .projects) :
    openers.findSome? (·.makes name) = (openers.find? (· ≠ .cache)).bind (·.makes name) := by
  induction openers with
  | nil => rfl
  | cons opener openers ih =>
    rw [List.findSome?_cons, List.find?_cons]
    cases opener with
    | cache =>
      rcases hname with rfl | rfl
      · simpa [Opener.makes] using ih
      · simpa [Opener.makes] using ih
    | _ => rcases hname with rfl | rfl <;> simp [Opener.makes]

theorem findSome?_fileAnalysis {openers : List Opener} (h : .cache ∈ openers) :
    openers.findSome? (·.makes .fileAnalysis) = some FileAnalysisCache.fileAnalysis.table := by
  induction openers with
  | nil => simp at h
  | cons opener openers ih =>
    rw [List.findSome?_cons]
    cases opener with
    | eventStore => exact ih (by simpa using h)
    | _ => rfl

theorem holds_new (h : o.StoreFirst) :
    ∃ db, openAll .empty o.list = .ok db ∧ Holds json db .new := by
  obtain ⟨db, hok, hopenable, htables⟩ := o.tables_spec
  refine ⟨db, hok, hopenable, ?_, ⟨0, ?_⟩, ⟨0, ?_⟩⟩
  · rw [htables _ (by simp), findSome?_makes (.inl rfl), h]
    rfl
  · rw [htables _ (by simp), findSome?_makes (.inr rfl), h]
    rfl
  · rw [htables _ (by simp), findSome?_fileAnalysis (o.all .cache)]
    rfl

/-- The projects of the migrations have none of the columns that are read. -/
theorem listProjects_of_migrations {db : Db}
    (h : db.tables .projects = some Migrations.projects.table) :
    EventStore.listProjects planner db = .error (.sqlite .noColumn) := by
  have hselect : Migrations.projects.table.select planner EventStore.selectProjects =
      .error .noColumn := if_pos (by decide)
  simp only [EventStore.listProjects, Sqlite.Database.read_of_some h, hselect]
  rfl

/-- If the migrations run first, the projects cannot be listed. -/
theorem not_interchangeable (h : (o.list.map Prod.snd).find? (· ≠ .cache) = some .migrations) :
    ¬ o.Interchangeable json planner := by
  intro hall
  obtain ⟨db, hok, hrun⟩ := hall
  obtain ⟨db', hok', -, htables⟩ := o.tables_spec
  have hprojects : db.tables .projects = some Migrations.projects.table := by
    rw [Except.ok.inj (hok.symm.trans hok'), htables _ (by simp), findSome?_makes (.inr rfl), h]
    rfl
  have hlist := (hrun [(.epoch, .listProjects)]).1
  simp only [run, Op.exec, listProjects_of_migrations hprojects] at hlist
  cases hlist

theorem storeFirst_or : o.StoreFirst ∨
    (o.list.map Prod.snd).find? (· ≠ .cache) = some .migrations := by
  unfold StoreFirst
  rcases h : (o.list.map Prod.snd).find? (· ≠ .cache) with _ | opener
  · simpa using List.find?_eq_none.1 h .eventStore (o.all .eventStore)
  · cases opener with
    | eventStore => exact .inl h
    | migrations => exact .inr h
    | cache => simpa using List.find?_some h

end Openings

/-- The order in which a file is first opened makes no difference to any later operation if and
only if the event store runs before the migrations. -/
theorem interchangeable_iff (json : SerdeJson) (planner : Sqlite.Planner ColumnName)
    (o : Openings) : o.Interchangeable json planner ↔ o.StoreFirst := by
  refine ⟨fun h => ?_, fun h => ?_⟩
  · exact o.storeFirst_or.resolve_right fun hfirst => o.not_interchangeable hfirst h
  · obtain ⟨db, hok, hholds⟩ := o.holds_new h
    refine ⟨db, hok, fun ops => ?_⟩
    have hrun := run_eq planner ops hholds
    refine ⟨hrun, fun e he => ?_⟩
    rw [hrun] at he
    exact ofInput_of_run he

/-! ## Running the migrations first -/

def rowidOrder : Sqlite.Planner ColumnName := ⟨fun _ rows => rows, fun _ _ => .refl _⟩

def migrationsFirst : Openings where
  list := [(.epoch, .migrations), (.epoch, .eventStore), (.epoch, .cache)]
  all opener := by cases opener <;> simp

/-- A file that is pruned before it is served cannot list its projects. -/
theorem openings_not_interchangeable :
    ¬ ∀ (json : SerdeJson) (planner : Sqlite.Planner ColumnName) (o : Openings),
      o.Interchangeable json planner :=
  fun h => migrationsFirst.not_interchangeable rfl (h blankJson rowidOrder migrationsFirst)

end Sql

end AmbientFs
