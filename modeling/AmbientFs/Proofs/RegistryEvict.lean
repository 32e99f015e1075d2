import AmbientFs.Lib.Run
import AmbientFs.Proofs.RegistryWrites

/-!
# When watching a project evicts another

A registration replaces the one that has the name of the directory. Beside the daemon, the
directories are kept that were watched and have not been unwatched since. They are all registered
as long as no two of them have the same name.
-/

namespace AmbientFs

/-- What can happen to the registry while the daemon serves. -/
inductive WatchAction
  | server (x : ServerStep)
  | watch (path : PathBuf) (a : Answers)
  | unwatch (projectId : String) (a : Answers)

def WatchAction.action : WatchAction → RegistryAction
  | server x => x.action
  | watch path a => .watch path a
  | unwatch projectId a => .unwatch projectId a

/-- The daemon, and the directories that were watched and not unwatched since. -/
structure WatchAudit where
  daemon : DaemonServer
  dirs : List PathBuf

namespace WatchAudit

/-- The directories without that of a project. -/
def without (s : WatchAudit) (projectId : String) : List PathBuf :=
  match s.daemon.registry.projects projectId with
  | none => s.dirs
  | some root => s.dirs.filter fun dir => ¬ dir.Same root

/-- Every directory is registered under an id of its own. -/
def Registered (s : WatchAudit) : Prop :=
  ∃ idOf : PathBuf → String,
    (∀ dir ∈ s.dirs, ∃ root, s.daemon.registry.projects (idOf dir) = some root ∧ root.Same dir) ∧
    ∀ dir ∈ s.dirs, ∀ dir' ∈ s.dirs, idOf dir = idOf dir' → dir.Same dir'

/-- No other directory has the name of this one. -/
def OnlyNamed (s : WatchAudit) (c : PathBuf) : Prop :=
  ∀ dir ∈ s.dirs, dir.generateProjectId = c.generateProjectId → dir.Same c

/-- A directory that is to be watched is the only one with its name, if it can be watched. -/
def Apart (s : WatchAudit) : WatchAction → Prop
  | .server (.request (.watch path look)) => ∀ c, look.Accepts path c → s.OnlyNamed c
  | .watch path a =>
    s.daemon.watcher.Accepts path (a.pathExists path) (a.notifyError path) → a.Tracks path →
      s.OnlyNamed path
  | _ => True

section Steps

variable [Lowercase]

/-- A request that succeeds adds a directory or takes those of a project. -/
def dirsAfter (s : WatchAudit) : WatchAction → List PathBuf
  | .server (.request (.watch path look)) =>
    if (s.daemon.handleWatchProject path look).2.isOk then look.canonical.toList ++ s.dirs
    else s.dirs
  | .server (.request (.unwatch projectId)) =>
    if (s.daemon.handleUnwatchProject projectId).2.isOk then projectId.elim s.dirs s.without
    else s.dirs
  | .server (.write _ _) => s.dirs
  | .watch path a =>
    if (s.daemon.watchProject a path).2.isOk then path :: s.dirs else s.dirs
  | .unwatch projectId a =>
    if (s.daemon.unwatchProject a projectId).2.isOk then s.without projectId else s.dirs

def step (s : WatchAudit) (x : WatchAction) : WatchAudit :=
  ⟨s.daemon.step x.action, s.dirsAfter x⟩

/-- The daemon serves the projects it had before. -/
def start (t : NamedTable) (lists : Bool) (a : Answers) : WatchAudit :=
  ⟨((DaemonServer.started t.toProjectsTable).restoreProjects a lists).1, []⟩

end Steps

/-- Projects have the names of their directories, and every directory is registered. -/
structure Inv (s : WatchAudit) : Prop where
  named : ∀ id root, s.daemon.registry.projects id = some root → id = root.generateProjectId
  registered : ∀ dir ∈ s.dirs, ∃ root,
    s.daemon.registry.projects dir.generateProjectId = some root ∧ root.Same dir

namespace Inv

variable {s s' : WatchAudit}

theorem registered_own (h : s.Inv) : s.Registered := by
  refine ⟨PathBuf.generateProjectId, h.registered, fun dir hdir dir' hdir' heq => ?_⟩
  obtain ⟨root, hroot, hsame⟩ := h.registered dir hdir
  obtain ⟨root', hroot', hsame'⟩ := h.registered dir' hdir'
  rw [heq, hroot'] at hroot
  cases hroot
  exact hsame.symm.trans hsame'

/-- A directory that is the registered one under its name is the only one with the name. -/
theorem onlyNamed (h : s.Inv) {c : PathBuf}
    (hc : (s.daemon.registry.projects c.generateProjectId).any (·.Same c)) : s.OnlyNamed c := by
  intro dir hdir heq
  obtain ⟨root, hroot, hsame⟩ := h.registered dir hdir
  rw [heq] at hroot
  rw [hroot, Option.any_some, decide_eq_true_iff] at hc
  exact hsame.symm.trans hc

/-- One more directory is registered in place of the one that has its name. -/
theorem watch (h : s.Inv) {c : PathBuf}
    (hprojects : s'.daemon.registry.projects =
      Function.update s.daemon.registry.projects c.generateProjectId (some c))
    (hdirs : s'.dirs = c :: s.dirs) :
    s'.Inv ∧ s.OnlyNamed c ∨ ¬ s'.Registered ∧ ¬ s.OnlyNamed c := by
  by_cases hc : s.OnlyNamed c
  · refine .inl ⟨⟨fun id root hroot => ?_, fun dir hdir => ?_⟩, hc⟩
    · rw [hprojects] at hroot
      by_cases hid : id = c.generateProjectId
      · rw [hid, Function.update_self] at hroot
        cases hroot
        exact hid
      · rw [Function.update_of_ne hid] at hroot
        exact h.named id root hroot
    · rw [hprojects]
      rw [hdirs] at hdir
      by_cases hname : dir.generateProjectId = c.generateProjectId
      · rw [hname, Function.update_self]
        refine ⟨c, rfl, ?_⟩
        rcases List.mem_cons.1 hdir with rfl | hdir
        · exact .refl _
        · exact (hc dir hdir hname).symm
      · rw [Function.update_of_ne hname]
        rcases List.mem_cons.1 hdir with rfl | hdir
        · exact absurd rfl hname
        · exact h.registered dir hdir
  · refine .inr ⟨?_, hc⟩
    rintro ⟨idOf, hreg, -⟩
    refine hc fun dir hdir hname => ?_
    obtain ⟨root, hroot, hsame⟩ := hreg dir (hdirs ▸ List.mem_cons_of_mem _ hdir)
    rw [hprojects] at hroot
    by_cases hid : idOf dir = c.generateProjectId
    · rw [hid, Function.update_self] at hroot
      cases hroot
      exact hsame.symm
    · rw [Function.update_of_ne hid] at hroot
      refine absurd ?_ hid
      rw [h.named _ root hroot, hsame.generateProjectId_eq, hname]

theorem unwatch (h : s.Inv) {id : String}
    (hprojects : s'.daemon.registry.projects =
      Function.update s.daemon.registry.projects id none)
    (hdirs : s'.dirs = s.without id) : s'.Inv := by
  refine ⟨fun id' root hroot => ?_, fun dir hdir => ?_⟩
  · rw [hprojects] at hroot
    by_cases hid : id' = id
    · rw [hid, Function.update_self] at hroot
      cases hroot
    · rw [Function.update_of_ne hid] at hroot
      exact h.named id' root hroot
  · rw [hdirs] at hdir
    unfold without at hdir
    have hkept : dir ∈ s.dirs ∧ dir.generateProjectId ≠ id := by
      rcases hp : s.daemon.registry.projects id with _ | root
      · rw [hp] at hdir
        refine ⟨hdir, fun hid => ?_⟩
        obtain ⟨root, hroot, -⟩ := h.registered dir hdir
        rw [hid, hp] at hroot
        cases hroot
      · rw [hp] at hdir
        obtain ⟨hdir, hne⟩ := List.mem_filter.1 hdir
        refine ⟨hdir, fun hid => of_decide_eq_true hne ?_⟩
        obtain ⟨root', hroot, hsame⟩ := h.registered dir hdir
        rw [hid, hp] at hroot
        cases hroot
        exact hsame.symm
    rw [hprojects, Function.update_of_ne hkept.2]
    exact h.registered dir hkept.1

theorem congr (h : s.Inv) (hprojects : s'.daemon.registry.projects = s.daemon.registry.projects)
    (hdirs : s'.dirs = s.dirs) : s'.Inv := by
  refine ⟨?_, ?_⟩
  · rw [hprojects]
    exact h.named
  · rw [hprojects, hdirs]
    exact h.registered

section Steps

variable [Lowercase]

theorem step_watchRequest (h : s.Inv) (path : Option String) (look : Look) :
    (s.step (.server (.request (.watch path look)))).Inv ∧
        s.Apart (.server (.request (.watch path look))) ∨
      ¬ (s.step (.server (.request (.watch path look)))).Registered ∧
        ¬ s.Apart (.server (.request (.watch path look))) := by
  have hdaemon : (s.step (.server (.request (.watch path look)))).daemon =
    (s.daemon.handleWatchProject path look).1 := rfl
  have hdirs : (s.step (.server (.request (.watch path look)))).dirs =
    if (s.daemon.handleWatchProject path look).2.isOk then look.canonical.toList ++ s.dirs
    else s.dirs := rfl
  rcases ha : s.daemon.registry.validateWatch path look with e | ⟨id, c, w⟩
  · rw [DaemonServer.handleWatchProject_of_error ha] at hdaemon hdirs
    refine .inl ⟨h.congr (by rw [hdaemon]) hdirs, fun c hc => h.onlyNamed ?_⟩
    by_contra hnew
    obtain ⟨w, hw⟩ := Registry.validateWatch_of_accepts hc hnew
    rw [ha] at hw
    cases hw
  · obtain ⟨hc, -, rfl, -⟩ := Registry.validateWatch_eq_ok ha
    rw [DaemonServer.handleWatchProject_of_ok ha] at hdaemon hdirs
    have hcanonical := hc.canonical
    rw [hcanonical] at hdirs
    have hapart : s.Apart (.server (.request (.watch path look))) ↔ s.OnlyNamed c := by
      refine ⟨fun hall => hall c hc, fun honly c' hc' => ?_⟩
      rw [← Option.some.inj (hcanonical.symm.trans hc'.canonical)]
      exact honly
    rw [hapart]
    exact h.watch (by rw [hdaemon]; rfl) hdirs

theorem step_unwatchRequest (h : s.Inv) (projectId : Option String) :
    (s.step (.server (.request (.unwatch projectId)))).Inv := by
  have hdaemon : (s.step (.server (.request (.unwatch projectId)))).daemon =
    (s.daemon.handleUnwatchProject projectId).1 := rfl
  have hdirs : (s.step (.server (.request (.unwatch projectId)))).dirs =
    if (s.daemon.handleUnwatchProject projectId).2.isOk then projectId.elim s.dirs s.without
    else s.dirs := rfl
  rcases projectId with _ | id
  · exact h.congr (by rw [hdaemon]; rfl) hdirs
  rcases hp : s.daemon.registry.projects id with _ | p
  · rw [DaemonServer.handleUnwatchProject_of_none hp] at hdaemon hdirs
    exact h.congr (by rw [hdaemon]) hdirs
  · rw [DaemonServer.handleUnwatchProject_of_some hp] at hdaemon hdirs
    exact h.unwatch (by rw [hdaemon]; rfl) hdirs

theorem step_watch (h : s.Inv) (path : PathBuf) (a : Answers) :
    (s.step (.watch path a)).Inv ∧ s.Apart (.watch path a) ∨
      ¬ (s.step (.watch path a)).Registered ∧ ¬ s.Apart (.watch path a) := by
  have hdaemon : (s.step (.watch path a)).daemon = (s.daemon.watchProject a path).1 := rfl
  have hdirs : (s.step (.watch path a)).dirs =
    if (s.daemon.watchProject a path).2.isOk then path :: s.dirs else s.dirs := rfl
  rcases s.daemon.watch_cases path a with ⟨e, heq, hno⟩ | ⟨hyes, hrest⟩
  · rw [heq] at hdaemon hdirs
    exact .inl ⟨h.congr (by rw [hdaemon]) hdirs, fun hw => absurd hw hno⟩
  rcases hrest with ⟨heq, hno⟩ | ⟨t, tree, ha, -, heq⟩
  · rw [heq] at hdaemon hdirs
    exact .inl ⟨h.congr (by rw [hdaemon]) hdirs, fun _ ha => absurd ha hno⟩
  · rw [heq] at hdaemon hdirs
    have hapart : s.Apart (.watch path a) ↔ s.OnlyNamed path :=
      ⟨fun hall => hall hyes ha, fun honly _ _ => honly⟩
    rw [hapart]
    exact h.watch (by rw [hdaemon]; rfl) hdirs

theorem step_unwatch (h : s.Inv) (projectId : String) (a : Answers) :
    (s.step (.unwatch projectId a)).Inv := by
  have hdaemon : (s.step (.unwatch projectId a)).daemon =
    (s.daemon.unwatchProject a projectId).1 := rfl
  have hdirs : (s.step (.unwatch projectId a)).dirs =
    if (s.daemon.unwatchProject a projectId).2.isOk then s.without projectId else s.dirs := rfl
  rcases s.daemon.unwatch_cases projectId a with ⟨e, t, heq, -⟩ | ⟨-, ⟨-, heq⟩ | ⟨q, -, -, heq⟩⟩
  · rw [heq] at hdaemon hdirs
    exact h.congr (by rw [hdaemon]) hdirs
  · rw [heq] at hdaemon hdirs
    exact h.unwatch (by rw [hdaemon]; rfl) hdirs
  · rw [heq] at hdaemon hdirs
    exact h.unwatch (by rw [hdaemon]; rfl) hdirs

/-- A step keeps the invariant if it is apart, and evicts a directory if it is not. -/
theorem step (h : s.Inv) (x : WatchAction) :
    (s.step x).Inv ∧ s.Apart x ∨ ¬ (s.step x).Registered ∧ ¬ s.Apart x := by
  cases x with
  | server x =>
    cases x with
    | write i now =>
      exact .inl ⟨h.congr (congrArg (·.projects) (s.daemon.runWrite_same i now).1) rfl, trivial⟩
    | request r =>
      cases r with
      | watch path look => exact h.step_watchRequest path look
      | unwatch projectId => exact .inl ⟨h.step_unwatchRequest projectId, trivial⟩
  | watch path a => exact h.step_watch path a
  | unwatch projectId a => exact .inl ⟨h.step_unwatch projectId a, trivial⟩

end Steps

end Inv

variable [Lowercase]

theorem inv_start (t : NamedTable) (lists : Bool) (a : Answers) : (start t lists a).Inv := by
  have hnamed : (DaemonServer.started t.toProjectsTable).Named :=
    ⟨fun _ _ h => (nomatch h), t.getProjectPath_named, fun _ _ h => (nomatch h)⟩
  exact ⟨fun id p hp => ((hnamed.step (.restore lists a)).projects id p hp).1,
    fun _ hdir => (nomatch hdir)⟩

/-- Watched directories are all registered exactly if no two of them have the same name. -/
theorem always_registered_iff (t : NamedTable) (lists : Bool) (a : Answers)
    (xs : List WatchAction) :
    Run.Always step (start t lists a) Registered xs ↔
      Run.Steps step (start t lists a) Apart xs := by
  refine Run.always_iff_steps (inv_start t lists a) (fun _ h => h.registered_own) ?_ ?_
  · intro s x h hx
    exact (h.step x).resolve_right (fun hbad => hbad.2 hx) |>.1
  · intro s x h hx
    exact (h.step x).resolve_left (fun hgood => hx hgood.2) |>.1

end WatchAudit

/-! ## Two directories of one name -/

namespace WatchAudit

attribute [local instance] asciiLowercase

/-- A daemon without projects. -/
def sampleStart : WatchAudit :=
  start DaemonServer.emptyTable true ⟨fun _ => true, fun _ => none, true, .epoch, fun _ _ => none⟩

theorem not_always_registered : ¬ Run.Always step sampleStart Registered
    [.server (.request (DaemonServer.watchDirectory "/x/app")),
      .server (.request (DaemonServer.watchDirectory "/y/app"))] := by
  intro h
  have hfirst := (inv_start DaemonServer.emptyTable true
    ⟨fun _ => true, fun _ => none, true, .epoch, fun _ _ => none⟩).step
      (.server (.request (DaemonServer.watchDirectory "/x/app")))
  have hinv := (hfirst.resolve_right fun hbad => hbad.2 fun c _ dir hdir => (nomatch hdir)).1
  refine ((hinv.step (.server (.request (DaemonServer.watchDirectory "/y/app")))).resolve_left
    fun hgood => ?_).1 (h _ List.prefix_rfl)
  have honly := hgood.2 (.ofString "/y/app") ⟨rfl, rfl, rfl, rfl, rfl, by decide, rfl, rfl⟩
  exact absurd (honly (.ofString "/x/app") (by decide) (by decide)) (by decide)

end WatchAudit

end AmbientFs
