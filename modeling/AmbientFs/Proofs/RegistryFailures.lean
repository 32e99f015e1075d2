import AmbientFs.Proofs.RegistryCoherence

/-!
# What failures leave behind

The daemon server's functions change the watcher, the table and the maps one after the other and
give up at the first failure, with what is done left as it is. When the projects are restored, one
that is watched already counts as one that cannot be watched, and loses its row.
-/

namespace AmbientFs

open Watching (Contains contains_add)

namespace DaemonServer

/-- The same paths are watched, and the table and the maps are the same. -/
structure SameProjects (d d' : DaemonServer) : Prop where
  watched : ∀ p, Contains d'.watcher.watched p ↔ Contains d.watcher.watched p
  table : d'.table = d.table
  projects : d'.registry.projects = d.registry.projects
  trees : d'.registry.trees = d.registry.trees

theorem SameProjects.refl (d : DaemonServer) : d.SameProjects d :=
  ⟨fun _ => Iff.rfl, rfl, rfl, rfl⟩

/-! ## Watching and unwatching -/

/-- Where an error is returned nothing is changed. -/
def Atomic {α : Type*} (d : DaemonServer) (r : DaemonServer × Except DaemonError α) : Prop :=
  ∀ e, r.2 = .error e → d.SameProjects r.1

theorem unwatch_of_not_drops {d : DaemonServer} {a : Answers} {id : String} {q : PathBuf}
    (hs : a.stores = true) (hq : d.table.getProjectPath id = some q)
    (hno : ¬ d.watcher.Drops q (a.notifyError q)) :
    ∃ e, d.unwatchProject a id =
      ({ d with table := d.table.removeProject id }, .error (.watch e)) := by
  unfold unwatchProject
  rw [if_neg (by simp [hs]), hq]
  dsimp only
  rcases d.watcher.unwatch_cases q (a.notifyError q) with ⟨e, hw, -⟩ | ⟨-, hyes⟩
  · exact ⟨e, by rw [hw]⟩
  · exact absurd hyes hno

/-- The row is removed before the path is unwatched. -/
theorem unwatch_atomic (d : DaemonServer) (a : Answers) (id : String) :
    d.Atomic (d.unwatchProject a id) ↔ (a.stores = true → ∀ q,
      d.table.getProjectPath id = some q → d.watcher.Drops q (a.notifyError q)) := by
  rcases unwatch_cases d id a with ⟨e, t, heq, -, hno⟩ | ⟨-, ⟨hnone, heq⟩ | ⟨q, hq, hyes, heq⟩⟩
  · by_cases hs : a.stores = true
    · obtain ⟨q, hq, hno⟩ := hno hs
      obtain ⟨e, heq⟩ := unwatch_of_not_drops hs hq hno
      rw [heq]
      refine iff_of_false (fun h => ?_) fun h => hno (h hs q hq)
      have htable := congrArg (·.getProjectPath id) (h _ rfl).table
      simp only [hq] at htable
      rw [ProjectsTable.getProjectPath_eq, ProjectsTable.text_removeProject, if_pos rfl] at htable
      cases htable
    · refine iff_of_true (fun _ _ => ?_) fun h => absurd h hs
      unfold unwatchProject
      rw [if_pos (by simpa using hs)]
      exact .refl d
  · rw [heq]
    refine iff_of_true (fun e he => ?_) fun _ q hq => ?_
    · cases he
    · rw [hnone] at hq
      cases hq
  · rw [heq]
    refine iff_of_true (fun e he => ?_) fun _ q' hq' => ?_
    · cases he
    · rw [hq] at hq'
      cases hq'
      exact hyes

section Watch

variable [Lowercase]

/-- The path is watched before the project is added. -/
theorem watch_atomic (d : DaemonServer) (a : Answers) (path : PathBuf) :
    d.Atomic (d.watchProject a path) ↔
      (d.watcher.Accepts path (a.pathExists path) (a.notifyError path) → a.Tracks path) := by
  rcases watch_cases d path a with
    ⟨e, heq, hno⟩ | ⟨hyes, ⟨heq, hno⟩ | ⟨t, tree, htracks, -, heq⟩⟩
  · rw [heq]
    exact iff_of_true (fun _ _ => .refl d) fun hyes => absurd hyes hno
  · rw [heq]
    refine iff_of_false (fun h => hyes.new ?_) fun h => hno (h hyes)
    exact ((h .store rfl).watched path).1 (contains_add.2 (.inr (.refl _)))
  · rw [heq]
    refine iff_of_true (fun e he => ?_) fun _ => htracks
    cases he

theorem projects_atomic_iff (d : DaemonServer) (a : Answers) :
    (∀ path, d.Atomic (d.watchProject a path) ↔
      (d.watcher.Accepts path (a.pathExists path) (a.notifyError path) → a.Tracks path)) ∧
    ∀ id, d.Atomic (d.unwatchProject a id) ↔ (a.stores = true → ∀ q,
      d.table.getProjectPath id = some q → d.watcher.Drops q (a.notifyError q)) :=
  ⟨d.watch_atomic a, d.unwatch_atomic a⟩

end Watch

/-! ## Restoring the projects -/

section Restore

variable [Lowercase] {d : DaemonServer} {a : Answers} {x : String × PathBuf}
  {xs : List (String × PathBuf)}

theorem restoreProject_of_accepts
    (h : d.watcher.Accepts x.2 (a.pathExists x.2) (a.notifyError x.2)) :
    Contains (restoreProject a d x).watcher.watched x.2 := by
  rcases restoreProject_cases a d x with ⟨t, heq, -, hno⟩ | ⟨-, r, heq, -⟩
  · exact absurd h hno
  · rw [heq]
    exact contains_add.2 (.inr (.refl _))

theorem restoreProject_of_not_accepts
    (h : ¬ d.watcher.Accepts x.2 (a.pathExists x.2) (a.notifyError x.2)) :
    restoreProject a d x =
      if a.stores then { d with table := d.table.removeProject x.1 } else d := by
  unfold restoreProject
  by_cases hex : a.pathExists x.2 = true
  · rw [hex] at h
    rcases d.watcher.watch_cases x.2 true (a.notifyError x.2) with ⟨e, hw, -⟩ | ⟨-, hyes⟩
    · simp only [hex, if_pos, hw]
    · exact absurd hyes h
  · simp only [hex]
    rfl

theorem restoreProject_of_not_stores (hs : a.stores = false) (x : String × PathBuf) :
    (restoreProject a d x).table = d.table := by
  rcases restoreProject_cases a d x with ⟨t, -, -, hno⟩ | ⟨-, r, heq, -⟩
  · rw [restoreProject_of_not_accepts hno, hs]
    rfl
  · rw [heq]

theorem getProjectPath_of_restoreProject {id : String} {p : PathBuf}
    (h : (restoreProject a d x).table.getProjectPath id = some p) :
    d.table.getProjectPath id = some p := by
  rcases restoreProject_cases a d x with ⟨t, heq, ht, -⟩ | ⟨-, r, heq, -⟩
  · rw [heq] at h
    rcases ht with rfl | rfl
    · exact h
    · exact ProjectsTable.getProjectPath_eq_some_of_removeProject h
  · rw [heq] at h
    exact h

/-- Once it cannot be watched, a path cannot be watched after other projects either. -/
theorem not_accepts_restoreProject {p : PathBuf}
    (h : ¬ d.watcher.Accepts p (a.pathExists p) (a.notifyError p)) :
    ¬ (restoreProject a d x).watcher.Accepts p (a.pathExists p) (a.notifyError p) := by
  rcases restoreProject_cases a d x with ⟨t, heq, -⟩ | ⟨-, r, heq, -⟩
  · rw [heq]
    exact h
  · rw [heq]
    intro hyes
    refine h ⟨hyes.isAbsolute, hyes.pathExists, fun hin => hyes.new ?_, fun hsome => ?_⟩
    · exact contains_add.2 (.inl hin)
    · refine hyes.notifyError ?_
      simpa [Watching.add] using hsome

theorem not_accepts_foldl {p : PathBuf}
    (h : ¬ d.watcher.Accepts p (a.pathExists p) (a.notifyError p)) :
    ¬ (xs.foldl (restoreProject a) d).watcher.Accepts p (a.pathExists p) (a.notifyError p) := by
  induction xs generalizing d with
  | nil => exact h
  | cons x xs ih => exact ih (not_accepts_restoreProject h)

/-- After its turn a project cannot be watched: it is watched, or could not be before. -/
theorem not_accepts_of_mem (hx : x ∈ xs) : ¬ (xs.foldl (restoreProject a) d).watcher.Accepts x.2
    (a.pathExists x.2) (a.notifyError x.2) := by
  induction xs generalizing d with
  | nil => simp at hx
  | cons y ys ih =>
    rw [List.foldl_cons]
    rcases List.mem_cons.1 hx with rfl | hx
    · refine not_accepts_foldl ?_
      by_cases hyes : d.watcher.Accepts x.2 (a.pathExists x.2) (a.notifyError x.2)
      · exact fun h => h.new (restoreProject_of_accepts hyes)
      · exact not_accepts_restoreProject hyes
    · exact ih hx

theorem getProjectPath_of_foldl {id : String} {p : PathBuf}
    (h : (xs.foldl (restoreProject a) d).table.getProjectPath id = some p) :
    d.table.getProjectPath id = some p := by
  induction xs generalizing d with
  | nil => exact h
  | cons x xs ih => exact getProjectPath_of_restoreProject (ih h)

/-- A project that cannot be watched loses its row. -/
theorem gone_of_not_accepts (hs : a.stores = true) (hx : x ∈ xs)
    (hno : ¬ d.watcher.Accepts x.2 (a.pathExists x.2) (a.notifyError x.2)) :
    (xs.foldl (restoreProject a) d).table.getProjectPath x.1 = none := by
  induction xs generalizing d with
  | nil => simp at hx
  | cons y ys ih =>
    rw [List.foldl_cons]
    rcases List.mem_cons.1 hx with rfl | hx
    · rw [restoreProject_of_not_accepts hno, if_pos hs]
      refine Option.eq_none_iff_forall_ne_some.2 fun p hp => ?_
      have hremoved := getProjectPath_of_foldl hp
      rw [ProjectsTable.getProjectPath_eq, ProjectsTable.text_removeProject, if_pos rfl]
        at hremoved
      cases hremoved
    · exact ih hx (not_accepts_restoreProject hno)

/-- Where the table is not written, projects that cannot be watched change nothing. -/
theorem foldl_of_not_stores (hs : a.stores = false)
    (hno : ∀ x ∈ xs, ¬ d.watcher.Accepts x.2 (a.pathExists x.2) (a.notifyError x.2)) :
    xs.foldl (restoreProject a) d = d := by
  induction xs with
  | nil => rfl
  | cons x xs ih =>
    have hx := restoreProject_of_not_accepts (hno x (by simp))
    rw [if_neg (by simp [hs])] at hx
    rw [List.foldl_cons, hx]
    exact ih fun y hy => hno y (by simp [hy])

theorem table_foldl_of_not_stores (hs : a.stores = false) :
    (xs.foldl (restoreProject a) d).table = d.table := by
  induction xs generalizing d with
  | nil => rfl
  | cons x xs ih => exact ih.trans (restoreProject_of_not_stores hs x)

omit [Lowercase] in
theorem listProjects_eq_nil {t : ProjectsTable} (h : ∀ id, t.getProjectPath id = none) :
    t.listProjects = [] := by
  refine List.eq_nil_iff_forall_not_mem.2 fun ⟨id, p⟩ hx => ?_
  have hrow := ProjectsTable.mem_listProjects.1 hx
  rw [h id] at hrow
  cases hrow

theorem restoreProjects_of_lists (d : DaemonServer) (a : Answers) :
    (d.restoreProjects a true).1 = d.table.listProjects.foldl (restoreProject a) d := rfl

/-- To restore the projects again, with the same answers, changes nothing, and neither time is a
row removed whose directory is there. -/
structure Idempotent (d : DaemonServer) (a : Answers) (lists : Bool) : Prop where
  same : (d.restoreProjects a lists).1.SameProjects
    ((d.restoreProjects a lists).1.restoreProjects a lists).1
  keeps : ∀ d' ∈ [d, (d.restoreProjects a lists).1], ∀ id p,
    d'.table.getProjectPath id = some p → a.pathExists p = true →
      (d'.restoreProjects a lists).1.table.getProjectPath id = some p

/-- What is watched after the first time cannot be watched the second time. -/
theorem Idempotent.pathExists_eq_false (h : d.Idempotent a true) (hs : a.stores = true)
    {id : String} {p : PathBuf} (hrow : d.table.getProjectPath id = some p) :
    a.pathExists p = false := by
  by_contra hex
  rw [Bool.not_eq_false] at hex
  have hfirst := h.keeps d (by simp) id p hrow hex
  have hsecond := h.keeps _ (by simp) id p hfirst hex
  have hno : ¬ (d.restoreProjects a true).1.watcher.Accepts p (a.pathExists p)
      (a.notifyError p) := not_accepts_of_mem (ProjectsTable.mem_listProjects.2 hrow)
  have hgone := gone_of_not_accepts hs (ProjectsTable.mem_listProjects.2 hfirst) hno
  rw [restoreProjects_of_lists _ a, hgone] at hsecond
  cases hsecond

theorem idempotent_of_not_stores (hs : a.stores = false) : d.Idempotent a true := by
  have htable : ∀ d' : DaemonServer, (d'.restoreProjects a true).1.table = d'.table :=
    fun d' => table_foldl_of_not_stores hs
  have hsecond : ((d.restoreProjects a true).1.restoreProjects a true).1 =
      (d.restoreProjects a true).1 := by
    rw [restoreProjects_of_lists (d.restoreProjects a true).1, htable]
    exact foldl_of_not_stores hs fun x hx => not_accepts_of_mem hx
  refine ⟨?_, fun d' _ id p hrow _ => ?_⟩
  · rw [hsecond]
    exact .refl _
  · rw [htable]
    exact hrow

/-- Where no directory is there all rows are removed the first time. -/
theorem idempotent_of_not_exists (hs : a.stores = true)
    (hno : ∀ id p, d.table.getProjectPath id = some p → a.pathExists p = false) :
    d.Idempotent a true := by
  have hgone : ∀ id, (d.restoreProjects a true).1.table.getProjectPath id = none := by
    refine fun id => Option.eq_none_iff_forall_ne_some.2 fun p hp => ?_
    have hrow : d.table.getProjectPath id = some p := getProjectPath_of_foldl hp
    have hnot : ¬ d.watcher.Accepts p (a.pathExists p) (a.notifyError p) := fun hyes => by
      rw [hno id p hrow] at hyes
      cases hyes.pathExists
    have hout := gone_of_not_accepts hs (ProjectsTable.mem_listProjects.2 hrow) hnot
    rw [restoreProjects_of_lists, hout] at hp
    cases hp
  refine ⟨?_, fun d' hd' id p hrow hex => ?_⟩
  · rw [restoreProjects_of_lists (d.restoreProjects a true).1, listProjects_eq_nil hgone]
    exact .refl _
  · rcases List.mem_pair.1 hd' with rfl | rfl
    · rw [hno id p hrow] at hex
      cases hex
    · rw [hgone id] at hrow
      cases hrow

theorem restore_idempotent_iff (d : DaemonServer) (a : Answers) (lists : Bool) :
    d.Idempotent a lists ↔ (lists = true → a.stores = true → ∀ id p,
      d.table.getProjectPath id = some p → a.pathExists p = false) := by
  cases lists with
  | false =>
    have hfirst : ∀ d' : DaemonServer, (d'.restoreProjects a false).1 = d' := fun _ => rfl
    refine iff_of_true ⟨?_, fun d' _ id p hrow _ => ?_⟩ fun h => by cases h
    · rw [hfirst, hfirst]
      exact .refl d
    · rw [hfirst]
      exact hrow
  | true =>
    refine ⟨fun h _ hs id p hrow => h.pathExists_eq_false hs hrow, fun h => ?_⟩
    by_cases hs : a.stores = true
    · exact idempotent_of_not_exists hs (h rfl hs)
    · exact idempotent_of_not_stores (by simpa using hs)

end Restore

/-! ## One project -/

attribute [local instance] asciiLowercase

/-- The store cannot be opened; everything else goes well, and the directories are empty. -/
def unopened : Answers := ⟨fun _ => true, fun _ => none, false, .epoch, fun _ _ => some []⟩

theorem not_projects_atomic : ¬ (started emptyTable.toProjectsTable).Atomic
    ((started emptyTable.toProjectsTable).watchProject unopened (.ofString "/w/app")) := by
  intro h
  have hwatched := ((h .store rfl).watched (.ofString "/w/app")).1 (by decide)
  exact absurd hwatched (by decide)

/-- The table with the project of that directory. -/
def appTable : ProjectsTable := ⟨[⟨"app", "/w/app", DateTime.epoch.toRfc3339⟩], by simp⟩

/-- Everything goes well, and the directories are empty. -/
def listed : Answers := { unopened with stores := true }

theorem not_restore_idempotent : ¬ (started appTable).Idempotent listed true := by
  intro h
  have htable := congrArg (·.getProjectPath "app") h.same.table
  revert htable
  decide

end DaemonServer

end AmbientFs
