import AmbientFs.Processes
import AmbientFs.Proofs.RegistryCoherence

/-!
# Which projects a daemon that starts watches

A row of the table stays until it is given up, and the daemon that starts then watches its path. A
project that the command line unwatches is watched on until the daemon stops: the command removes
the row first, and then finds that its own watcher does not watch the path.
-/

namespace AmbientFs

open Watching (Contains contains_add)

namespace DaemonServer

section Restore

variable [Lowercase] {d : DaemonServer} {a : Answers} {x : String × PathBuf} {id : String}
  {path : PathBuf}

/-- Restoring one project leaves the others as they are. -/
theorem restoreProject_of_ne (d : DaemonServer) (a : Answers) (hx : x.1 ≠ id) :
    (restoreProject a d x).registry.projects id = d.registry.projects id ∧
      (restoreProject a d x).table.getProjectPath id = d.table.getProjectPath id ∧
      ∀ p, Contains d.watcher.watched p → Contains (restoreProject a d x).watcher.watched p := by
  rcases restoreProject_cases a d x with ⟨t, heq, ht, -⟩ | ⟨-, r, heq, hprojects, -⟩
  · rw [heq]
    refine ⟨rfl, ?_, fun p hp => hp⟩
    rcases ht with rfl | rfl
    · rfl
    · rw [ProjectsTable.getProjectPath_eq, ProjectsTable.getProjectPath_eq,
        ProjectsTable.text_removeProject, if_neg (Ne.symm hx)]
  · rw [heq]
    refine ⟨?_, rfl, fun p hp => contains_add.2 (.inl hp)⟩
    show r.projects id = _
    rw [hprojects, Function.update_of_ne (Ne.symm hx)]

theorem foldl_restoreProject_of_notMem (a : Answers) : ∀ (l : List (String × PathBuf))
    (d : DaemonServer), id ∉ l.map Prod.fst →
      (l.foldl (restoreProject a) d).registry.projects id = d.registry.projects id ∧
      (l.foldl (restoreProject a) d).table.getProjectPath id = d.table.getProjectPath id ∧
      ∀ p, Contains d.watcher.watched p →
        Contains (l.foldl (restoreProject a) d).watcher.watched p
  | [], d, _ => ⟨rfl, rfl, fun _ hp => hp⟩
  | x :: l, d, hid => by
    rw [List.map_cons, List.mem_cons, not_or] at hid
    obtain ⟨hp, ht, hw⟩ := restoreProject_of_ne d a (x := x) (Ne.symm hid.1)
    obtain ⟨hp', ht', hw'⟩ := foldl_restoreProject_of_notMem a l (restoreProject a d x) hid.2
    exact ⟨hp'.trans hp, ht'.trans ht, fun p h => hw' p (hw p h)⟩

/-- A path stays one that can be watched where another is restored. -/
theorem accepts_restoreProject (hx : x.1 = x.2.generateProjectId)
    (hid : id = path.generateProjectId) (hne : x.1 ≠ id)
    (h : d.watcher.Accepts path (a.pathExists path) (a.notifyError path)) :
    (restoreProject a d x).watcher.Accepts path (a.pathExists path) (a.notifyError path) := by
  rcases restoreProject_cases a d x with ⟨t, heq, -⟩ | ⟨-, r, heq, -⟩
  · rw [heq]
    exact h
  · rw [heq]
    refine ⟨h.isAbsolute, h.pathExists, fun hin => ?_, fun hsome => h.notifyError ?_⟩
    · rcases contains_add.1 hin with hin | hsame
      · exact h.new hin
      · exact hne (by rw [hx, hid, hsame.generateProjectId_eq])
    · simpa [Watching.add] using hsome

theorem foldl_restoreProject_of_mem (a : Answers) (hid : id = path.generateProjectId) :
    ∀ (l : List (String × PathBuf)) (d : DaemonServer), (l.map Prod.fst).Nodup →
      (∀ x ∈ l, x.1 = x.2.generateProjectId) → (id, path) ∈ l →
      d.watcher.Accepts path (a.pathExists path) (a.notifyError path) →
      (l.foldl (restoreProject a) d).registry.projects id = some path ∧
      (l.foldl (restoreProject a) d).table.getProjectPath id = d.table.getProjectPath id ∧
      Contains (l.foldl (restoreProject a) d).watcher.watched path
  | [], d, _, _, h, _ => nomatch h
  | x :: l, d, hnodup, hnames, hmem, hyes => by
    obtain ⟨hnew, hnodup⟩ := List.nodup_cons.1 hnodup
    rw [List.foldl_cons]
    by_cases hx : x.1 = id
    · have hself : x = (id, path) := by
        rcases List.mem_cons.1 hmem with h | h
        · exact h.symm
        · exact absurd (hx ▸ List.mem_map_of_mem (f := Prod.fst) h) hnew
      subst hself
      obtain ⟨hp, ht, hw⟩ := foldl_restoreProject_of_notMem a l (restoreProject a d (id, path)) hnew
      rcases restoreProject_cases a d (id, path) with ⟨t, -, -, hno⟩ | ⟨-, r, heq, hprojects, -⟩
      · exact absurd hyes hno
      · rw [heq] at hp ht hw ⊢
        refine ⟨hp.trans ?_, ht, hw path (contains_add.2 (.inr (.refl _)))⟩
        show r.projects id = _
        rw [hprojects, Function.update_self]
    · have hmem : (id, path) ∈ l := (List.mem_cons.1 hmem).resolve_left fun h => hx (h ▸ rfl)
      have hname := hnames x List.mem_cons_self
      obtain ⟨hp, ht, hw⟩ := foldl_restoreProject_of_mem a hid l (restoreProject a d x) hnodup
        (fun y hy => hnames y (List.mem_cons_of_mem _ hy)) hmem
        (accepts_restoreProject hname hid hx hyes)
      exact ⟨hp, ht.trans (restoreProject_of_ne d a hx).2.1, hw⟩

end Restore

end DaemonServer

namespace Processes

section Steps

variable [Lowercase] {s : Processes} {id : String} {path : PathBuf}

/-! ## Names -/

omit [Lowercase] in
theorem named_new {t : ProjectsTable} (h : ∀ id p, t.getProjectPath id = some p →
    id = p.generateProjectId ∧ p.isAbsolute = true) : (DaemonServer.new t).Named :=
  ⟨fun _ _ h => (nomatch h), h, fun _ _ h => (nomatch h)⟩

omit [Lowercase] in
theorem named_started {t : ProjectsTable} (h : ∀ id p, t.getProjectPath id = some p →
    id = p.generateProjectId ∧ p.isAbsolute = true) : (DaemonServer.started t).Named :=
  ⟨fun _ _ h => (nomatch h), h, fun _ _ h => (nomatch h)⟩

theorem named_start (h : s.Named) (lists : Bool) (a : Answers) :
    (s.start lists a).Named := by
  have hstep := (named_started h.table).step (.restore lists a)
  simp only [DaemonServer.step] at hstep
  unfold start
  split <;> rename_i hr <;> rw [hr] at hstep
  · exact hstep
  · exact named_new hstep.table

theorem named_serve (h : s.Named) (x : RegistryAction) : (s.serve x).Named := by
  unfold serve
  split_ifs
  · exact DaemonServer.Named.step h x
  · exact h

theorem named_step (h : s.Named) (x : ProcessAction) : (s.step x).Named := by
  cases x with
  | start lists a =>
    simp only [step]
    split_ifs
    · exact h
    · exact named_start h lists a
  | stop => exact named_new h.table
  | watchRequest path look => exact named_serve h _
  | unwatchRequest projectId => exact named_serve h _
  | runWrite i now => exact named_serve h _
  | cmdWatch path a =>
    rcases path with _ | canonical
    · exact h
    · exact ⟨h.projects, ((named_new h.table).step (.watch canonical a)).table, h.pending⟩
  | cmdUnwatch projectId a =>
    exact ⟨h.projects, ((named_new h.table).step (.unwatch projectId a)).table, h.pending⟩

theorem named_after {t : ProjectsTable} (h : ∀ id p, t.getProjectPath id = some p →
    id = p.generateProjectId ∧ p.isAbsolute = true) (xs : List ProcessAction) :
    (Run.after step (new t) xs).Named := by
  induction xs using List.reverseRecOn with
  | nil => exact named_new h
  | append_singleton xs x ih =>
    rw [Run.after_snoc]
    exact named_step ih x

/-! ## Rows that stay -/

/-- A daemon that can list the projects and write to the table comes to run, with the project and
its path. -/
theorem start_of_row (h : s.Named) (hrow : s.table.getProjectPath id = some path) {a : Answers}
    (hex : a.pathExists path = true) (hnotify : a.notifyError path = none) :
    (s.start true a).running = true ∧ (s.start true a).registry.projects id = some path ∧
      Contains (s.start true a).watcher.watched path ∧
      (s.start true a).table.getProjectPath id = some path := by
  obtain ⟨hid, habs⟩ := h.table id path hrow
  have hyes : (DaemonServer.started s.table).watcher.Accepts path (a.pathExists path)
      (a.notifyError path) := ⟨habs, hex, fun ⟨_, hp, _⟩ => (nomatch hp), fun _ => hnotify⟩
  obtain ⟨hp, ht, hw⟩ := DaemonServer.foldl_restoreProject_of_mem a hid s.table.listProjects
    (DaemonServer.started s.table) s.table.nodup_listProjects
    (fun x hx => (h.table x.1 x.2 (ProjectsTable.mem_listProjects.1 hx)).1)
    (ProjectsTable.mem_listProjects.2 hrow) hyes
  exact ⟨rfl, hp, hw, ht.trans hrow⟩

/-- The project is not given up. -/
def Keeps (id : String) (path : PathBuf) (s : Processes) : ProcessAction → Prop
  | .start lists a => s.running = false → lists = true →
      a.pathExists path = true ∧ a.notifyError path = none
  | .runWrite i _ => s.pending[i]? ≠ some (.remove id)
  | .cmdUnwatch projectId _ => projectId ≠ id
  | _ => True

omit [Lowercase] in
theorem getProjectPath_removeProject (t : ProjectsTable) {projectId : String} (h : projectId ≠ id) :
    (t.removeProject projectId).getProjectPath id = t.getProjectPath id := by
  rw [ProjectsTable.getProjectPath_eq, ProjectsTable.getProjectPath_eq,
    ProjectsTable.text_removeProject, if_neg (Ne.symm h)]

omit [Lowercase] in
/-- A row that is there is not replaced. -/
theorem getProjectPath_addProject {t t' : ProjectsTable} {projectId : String} {p : PathBuf}
    {now : DateTime} (ht : t.addProject projectId p now = some t')
    (hrow : t.getProjectPath id = some path) : t'.getProjectPath id = some path := by
  rcases hs : p.toStr with _ | text
  · rw [ProjectsTable.addProject_eq_none.2 hs] at ht
    cases ht
  rw [ProjectsTable.getProjectPath_eq] at hrow ⊢
  rw [ProjectsTable.text_addProject hs ht]
  rcases hold : t.text id with _ | s'
  · rw [hold] at hrow
    cases hrow
  · rw [hold] at hrow
    split_ifs <;> exact hrow

theorem row_cmdWatch {t : ProjectsTable} (hrow : t.getProjectPath id = some path)
    (canonical : Option PathBuf) (a : Answers) :
    (Cli.cmdWatch a t canonical).1.getProjectPath id = some path := by
  rcases canonical with _ | p
  · exact hrow
  show ((DaemonServer.new t).watchProject a p).1.table.getProjectPath id = some path
  rcases DaemonServer.watch_cases (DaemonServer.new t) p a with
    ⟨e, heq, -⟩ | ⟨-, ⟨heq, -⟩ | ⟨t', tree, -, ht, heq⟩⟩
  · rw [heq]
    exact hrow
  · rw [heq]
    exact hrow
  · rw [heq]
    exact getProjectPath_addProject ht hrow

omit [Lowercase] in
theorem row_cmdUnwatch {t : ProjectsTable} (hrow : t.getProjectPath id = some path)
    {projectId : String} (hne : projectId ≠ id) (a : Answers) :
    (Cli.cmdUnwatch a t projectId).1.getProjectPath id = some path := by
  show ((DaemonServer.new t).unwatchProject a projectId).1.table.getProjectPath id = some path
  have hremoved : (t.removeProject projectId).getProjectPath id = some path :=
    (getProjectPath_removeProject t hne).trans hrow
  rcases DaemonServer.unwatch_cases (DaemonServer.new t) projectId a with
    ⟨e, t', heq, ht, -⟩ | ⟨-, ⟨-, heq⟩ | ⟨q, -, -, heq⟩⟩
  · rw [heq]
    rcases ht with rfl | rfl
    · exact hrow
    · exact hremoved
  · rw [heq]
    exact hremoved
  · rw [heq]
    exact hremoved

omit [Lowercase] in
theorem row_runWrite {d : DaemonServer} (hrow : d.table.getProjectPath id = some path) {i : ℕ}
    (hi : d.pending[i]? ≠ some (.remove id)) (now : DateTime) :
    (d.runWrite i now).table.getProjectPath id = some path := by
  unfold DaemonServer.runWrite
  rcases hw : d.pending[i]? with _ | w
  · exact hrow
  · cases w with
    | add projectId p =>
      show ((d.table.addProject projectId p now).getD d.table).getProjectPath id = some path
      rcases ht : d.table.addProject projectId p now with _ | t
      · exact hrow
      · exact getProjectPath_addProject ht hrow
    | remove projectId =>
      have hne : projectId ≠ id := by
        rintro rfl
        exact hi hw
      exact (getProjectPath_removeProject d.table hne).trans hrow

theorem row_step (h : s.Named) (hrow : s.table.getProjectPath id = some path) {x : ProcessAction}
    (hx : Keeps id path s x) : (s.step x).table.getProjectPath id = some path := by
  cases x with
  | start lists a =>
    simp only [step]
    split_ifs with hrun
    · exact hrow
    · cases lists with
      | false => exact hrow
      | true =>
        obtain ⟨hex, hnotify⟩ := hx (by simpa using hrun) rfl
        exact (start_of_row h hrow hex hnotify).2.2.2
  | stop => exact hrow
  | watchRequest p look =>
    simp only [step, serve]
    split_ifs
    · rcases DaemonServer.watchRequest_cases s.toDaemonServer p look with
        ⟨heq, -⟩ | ⟨c, w, -, -, -, heq⟩ <;> rw [heq] <;> exact hrow
    · exact hrow
  | unwatchRequest projectId =>
    simp only [step, serve]
    split_ifs
    · rcases DaemonServer.unwatchRequest_cases s.toDaemonServer projectId with
        ⟨heq, -⟩ | ⟨_, p, -, -, heq⟩ <;> rw [heq] <;> exact hrow
    · exact hrow
  | runWrite i now =>
    simp only [step, serve]
    split_ifs
    · exact row_runWrite hrow hx now
    · exact hrow
  | cmdWatch p a => exact row_cmdWatch hrow p a
  | cmdUnwatch projectId a => exact row_cmdUnwatch hrow hx a

/-- A project of the table that is not given up is watched again by the daemon that starts next. -/
theorem watched_again (t : NamedTable) (xs ys : List ProcessAction) (id : String) (path : PathBuf)
    (a : Answers)
    (hrow : (Run.after step (new t.toProjectsTable) xs).table.getProjectPath id = some path)
    (hkeeps : Run.Steps step (Run.after step (new t.toProjectsTable) xs) (Keeps id path) ys)
    (hex : a.pathExists path = true) (hnotify : a.notifyError path = none) :
    let s := Run.after step (new t.toProjectsTable) (xs ++ ys ++ [.stop, .start true a])
    s.running = true ∧ s.registry.projects id = some path ∧
      Contains s.watcher.watched path ∧ s.table.getProjectPath id = some path := by
  intro s
  have hrun : (Run.after step (Run.after step (new t.toProjectsTable) xs) ys).Named ∧
      (Run.after step (Run.after step (new t.toProjectsTable) xs) ys).table.getProjectPath id =
        some path :=
    hkeeps.after (I := fun s => s.Named ∧ s.table.getProjectPath id = some path)
      ⟨named_after t.getProjectPath_named xs, hrow⟩
      fun s x h hx => ⟨named_step h.1 x, row_step h.1 h.2 hx⟩
  have hs : s = (new (Run.after step (Run.after step (new t.toProjectsTable) xs) ys).table).start
      true a := by
    simp only [s, Run.after_append]
    rfl
  rw [hs]
  exact start_of_row (s := new _) (named_new hrun.1.table) hrun.2 hex hnotify

/-! ## Rows that are removed -/

/-- The daemon does not stop, nothing is asked of it for the project, and no command watches it. -/
def Leaves (id : String) (_ : Processes) : ProcessAction → Prop
  | .stop => False
  | .watchRequest path look => ∀ c, look.Accepts path c → c.generateProjectId ≠ id
  | .unwatchRequest projectId => projectId ≠ some id
  | .cmdWatch path _ => ∀ c, path = some c → c.generateProjectId ≠ id
  | _ => True

/-- The daemon has the project, and the table neither has it nor will get it by a write. -/
structure Late (s : Processes) (id : String) (path : PathBuf) : Prop where
  running : s.running = true
  projects : s.registry.projects id = some path
  row : s.table.getProjectPath id = none
  pending : ∀ p, .add id p ∉ s.pending

omit [Lowercase] in
theorem no_row_removeProject {t : ProjectsTable} (h : t.getProjectPath id = none)
    (projectId : String) : (t.removeProject projectId).getProjectPath id = none :=
  Option.eq_none_iff_forall_ne_some.2 fun p hp => by
    have := ProjectsTable.getProjectPath_eq_some_of_removeProject hp
    rw [h] at this
    cases this

omit [Lowercase] in
theorem no_row_addProject {t t' : ProjectsTable} (h : t.getProjectPath id = none)
    {projectId : String} (hne : projectId ≠ id) {p : PathBuf} {now : DateTime}
    (ht : t.addProject projectId p now = some t') : t'.getProjectPath id = none :=
  Option.eq_none_iff_forall_ne_some.2 fun q hq => by
    rcases ProjectsTable.getProjectPath_eq_some_of_addProject ht hq with hq | ⟨rfl, -⟩
    · rw [h] at hq
      cases hq
    · exact hne rfl

theorem no_row_cmdWatch {t : ProjectsTable} (h : t.getProjectPath id = none)
    {path : Option PathBuf} (hne : ∀ c, path = some c → c.generateProjectId ≠ id) (a : Answers) :
    (Cli.cmdWatch a t path).1.getProjectPath id = none := by
  rcases path with _ | c
  · exact h
  show ((DaemonServer.new t).watchProject a c).1.table.getProjectPath id = none
  rcases DaemonServer.watch_cases (DaemonServer.new t) c a with
    ⟨e, heq, -⟩ | ⟨-, ⟨heq, -⟩ | ⟨t', tree, -, ht, heq⟩⟩
  · rw [heq]
    exact h
  · rw [heq]
    exact h
  · rw [heq]
    exact no_row_addProject h (hne c rfl) ht

omit [Lowercase] in
theorem no_row_cmdUnwatch {t : ProjectsTable} (h : t.getProjectPath id = none)
    (projectId : String) (a : Answers) :
    (Cli.cmdUnwatch a t projectId).1.getProjectPath id = none := by
  show ((DaemonServer.new t).unwatchProject a projectId).1.table.getProjectPath id = none
  have hremoved := no_row_removeProject h projectId
  rcases DaemonServer.unwatch_cases (DaemonServer.new t) projectId a with
    ⟨e, t', heq, ht, -⟩ | ⟨-, ⟨-, heq⟩ | ⟨q, -, -, heq⟩⟩
  · rw [heq]
    rcases ht with rfl | rfl
    · exact h
    · exact hremoved
  · rw [heq]
    exact hremoved
  · rw [heq]
    exact hremoved

theorem late_step (h : s.Late id path) {x : ProcessAction} (hx : Leaves id s x) :
    (s.step x).Late id path := by
  have hrun := h.running
  cases x with
  | start lists a =>
    simp only [step, hrun, if_true]
    exact h
  | stop => exact hx.elim
  | watchRequest p look =>
    simp only [step, serve, hrun, if_true]
    rcases DaemonServer.watchRequest_cases s.toDaemonServer p look with
      ⟨heq, -⟩ | ⟨c, w, hc, -, -, heq⟩
    · rw [heq]
      exact ⟨rfl, h.projects, h.row, h.pending⟩
    · rw [heq]
      refine ⟨rfl, ?_, h.row, fun p hp => ?_⟩
      · show Function.update s.registry.projects c.generateProjectId (some c) id = some path
        rw [Function.update_of_ne (Ne.symm (hx c hc))]
        exact h.projects
      · rcases List.mem_append.1 hp with hp | hp
        · exact h.pending p hp
        · cases List.mem_singleton.1 hp
          exact hx _ hc rfl
  | unwatchRequest projectId =>
    simp only [step, serve, hrun, if_true]
    rcases DaemonServer.unwatchRequest_cases s.toDaemonServer projectId with
      ⟨heq, -⟩ | ⟨pid, p, rfl, -, heq⟩
    · rw [heq]
      exact ⟨rfl, h.projects, h.row, h.pending⟩
    · rw [heq]
      refine ⟨rfl, ?_, h.row, fun q hq => ?_⟩
      · show Function.update s.registry.projects pid none id = some path
        rw [Function.update_of_ne fun hid => hx (congrArg some hid.symm)]
        exact h.projects
      · rcases List.mem_append.1 hq with hq | hq
        · exact h.pending q hq
        · cases List.mem_singleton.1 hq
  | runWrite i now =>
    simp only [step, serve, hrun, if_true]
    have hsame := s.toDaemonServer.runWrite_same i now
    refine ⟨rfl, ?_, ?_, fun p hp => ?_⟩
    · show (s.toDaemonServer.runWrite i now).registry.projects id = some path
      rw [hsame.1]
      exact h.projects
    · show (s.toDaemonServer.runWrite i now).table.getProjectPath id = none
      unfold DaemonServer.runWrite
      rcases hw : s.pending[i]? with _ | w
      · exact h.row
      cases w with
      | add projectId p =>
        have hne : projectId ≠ id := by
          rintro rfl
          exact h.pending p (List.mem_of_getElem? hw)
        show ((s.table.addProject projectId p now).getD s.table).getProjectPath id = none
        rcases ht : s.table.addProject projectId p now with _ | t
        · exact h.row
        · exact no_row_addProject h.row hne ht
      | remove projectId => exact no_row_removeProject h.row projectId
    · replace hp : .add id p ∈ (s.toDaemonServer.runWrite i now).pending := hp
      unfold DaemonServer.runWrite at hp
      rcases hw : s.pending[i]? with _ | w <;> rw [hw] at hp
      · exact h.pending p hp
      · exact h.pending p (List.mem_of_mem_eraseIdx hp)
  | cmdWatch p a => exact ⟨h.running, h.projects, no_row_cmdWatch h.row hx a, h.pending⟩
  | cmdUnwatch projectId a =>
    exact ⟨h.running, h.projects, no_row_cmdUnwatch h.row projectId a, h.pending⟩

omit [Lowercase] in
/-- The row is removed, and the path is not watched by the command's own watcher. -/
theorem cmdUnwatch_of_row {t : ProjectsTable} (hrow : t.getProjectPath id = some path)
    {a : Answers} (hs : a.stores = true) : Cli.cmdUnwatch a t id =
      (t.removeProject id, .error (.daemon (.watch (.notWatching path)))) := by
  unfold Cli.cmdUnwatch DaemonServer.unwatchProject
  rw [if_neg (by simp [hs])]
  have hpath : (DaemonServer.new t).table.getProjectPath id = some path := hrow
  simp only [hpath]
  rfl

/-- A project without a row is not restored. -/
theorem start_of_no_row (hrow : s.table.getProjectPath id = none) (lists : Bool) (a : Answers) :
    (s.start lists a).registry.projects id = none := by
  cases lists with
  | false => rfl
  | true =>
    have hnot : id ∉ s.table.listProjects.map Prod.fst := by
      intro hid
      obtain ⟨x, hx, rfl⟩ := List.mem_map.1 hid
      rw [ProjectsTable.mem_listProjects.1 (show (x.1, x.2) ∈ _ from hx)] at hrow
      cases hrow
    exact (DaemonServer.foldl_restoreProject_of_notMem a s.table.listProjects
      (DaemonServer.started s.table) hnot).1

/-- The command to unwatch a project fails where the project is there. If no write that adds it is
left over, and it is not watched anew, the running daemon has it until it stops, and the next does
not. -/
theorem unwatch_late (t : ProjectsTable) (xs ys : List ProcessAction) (id : String)
    (path root : PathBuf) (a b : Answers) (lists : Bool)
    (hrun : (Run.after step (new t) xs).running = true)
    (hproject : (Run.after step (new t) xs).registry.projects id = some root)
    (hrow : (Run.after step (new t) xs).table.getProjectPath id = some path)
    (hs : a.stores = true) (hpending : ∀ p, .add id p ∉ (Run.after step (new t) xs).pending)
    (hleaves : Run.Steps step (Run.after step (new t) (xs ++ [.cmdUnwatch id a])) (Leaves id) ys) :
    let s := Run.after step (new t) (xs ++ [.cmdUnwatch id a] ++ ys)
    (Cli.cmdUnwatch a (Run.after step (new t) xs).table id).2 =
        .error (.daemon (.watch (.notWatching path))) ∧
      s.running = true ∧ s.registry.projects id = some root ∧
      (Run.after step s [.stop, .start lists b]).registry.projects id = none := by
  intro s
  have hcmd := cmdUnwatch_of_row hrow hs
  have hfirst : (Run.after step (new t) (xs ++ [.cmdUnwatch id a])).Late id root := by
    rw [Run.after_snoc]
    refine ⟨hrun, hproject, ?_, hpending⟩
    show (Cli.cmdUnwatch a (Run.after step (new t) xs).table id).1.getProjectPath id = none
    rw [hcmd, ProjectsTable.getProjectPath_eq, ProjectsTable.text_removeProject, if_pos rfl]
    rfl
  have hlate : s.Late id root := by
    rw [show s = Run.after step (Run.after step (new t) (xs ++ [.cmdUnwatch id a])) ys from
      Run.after_append ..]
    exact hleaves.after (I := fun s => s.Late id root) hfirst fun s x h hx => late_step h hx
  refine ⟨by rw [hcmd], hlate.running, hlate.projects, ?_⟩
  have hstart : Run.after step s [.stop, .start lists b] = (new s.table).start lists b := rfl
  rw [hstart]
  exact start_of_no_row (s := new s.table) hlate.row lists b

end Steps

/-! ## A project of the command line -/

attribute [local instance] asciiLowercase

/-- Everything goes well, and the directories are empty. -/
def wellAnswered : Answers :=
  ⟨fun _ => true, fun _ => none, true, .epoch, fun _ _ => some []⟩

/-- The project is put into the table before the daemon starts. -/
theorem watched_again_app :
    let s := Run.after step (new DaemonServer.emptyTable.toProjectsTable)
      ([.cmdWatch (some (.ofString "/w/app")) wellAnswered] ++
        [.cmdWatch (some (.ofString "/v/app")) wellAnswered] ++ [.stop, .start true wellAnswered])
    s.running = true ∧ s.registry.projects "app" = some (.ofString "/w/app") ∧
      Contains s.watcher.watched (.ofString "/w/app") ∧
      s.table.getProjectPath "app" = some (.ofString "/w/app") :=
  watched_again DaemonServer.emptyTable [.cmdWatch (some (.ofString "/w/app")) wellAnswered]
    [.cmdWatch (some (.ofString "/v/app")) wellAnswered] "app" (.ofString "/w/app") wellAnswered
    (by decide) (Run.steps_cons.2 ⟨trivial, Run.steps_nil⟩) rfl rfl

/-- The path at which a request finds a directory. -/
def foundAt (path : PathBuf) : Look := ⟨true, true, some path, true, true, none⟩

/-- Another directory is watched before and after the daemon's project is unwatched. -/
theorem unwatch_late_app :
    let xs := [.cmdWatch (some (.ofString "/w/app")) wellAnswered, .start true wellAnswered,
      .watchRequest (some "/w/lib") (foundAt (.ofString "/w/lib"))]
    let ys := [.runWrite 0 .epoch, .unwatchRequest (some "lib"),
      .watchRequest (some "/w/doc") (foundAt (.ofString "/w/doc")), .runWrite 1 .epoch,
      .runWrite 0 .epoch]
    let s := Run.after step (new DaemonServer.emptyTable.toProjectsTable)
      (xs ++ [.cmdUnwatch "app" wellAnswered] ++ ys)
    (Cli.cmdUnwatch wellAnswered
        (Run.after step (new DaemonServer.emptyTable.toProjectsTable) xs).table "app").2 =
        .error (.daemon (.watch (.notWatching (.ofString "/w/app")))) ∧
      s.running = true ∧ s.registry.projects "app" = some (.ofString "/w/app") ∧
      (Run.after step s [.stop, .start true wellAnswered]).registry.projects "app" = none := by
  intro xs ys
  refine unwatch_late DaemonServer.emptyTable.toProjectsTable xs ys "app" (.ofString "/w/app")
    (.ofString "/w/app") wellAnswered wellAnswered true (by decide) (by decide) (by decide) rfl
    (fun p hp => ?_) ?_
  · have hid := (ProjectWrite.add.inj (List.mem_singleton.1 hp)).1
    revert hid
    decide
  · have hother : some "lib" ≠ some "app" := by decide
    refine Run.steps_cons.2 ⟨trivial, Run.steps_cons.2 ⟨hother, Run.steps_cons.2 ⟨?_,
      Run.steps_cons.2 ⟨trivial, Run.steps_cons.2 ⟨trivial, Run.steps_nil⟩⟩⟩⟩⟩
    rintro c ⟨-, -, -, hc, -⟩
    cases hc
    decide

end Processes

end AmbientFs
