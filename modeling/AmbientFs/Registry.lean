import AmbientFs.Event
import AmbientFs.OsPath
import AmbientFs.Rfc3339
import AmbientFs.TreeState

/-!
# The project registry

Which projects are watched is kept in the maps of the server state, in the paths of the daemon's
watcher and in the `projects` table. Projects come and go by the requests `watch_project` and
`unwatch_project` of the socket server, which write to the table in tasks of their own, by the
functions of the same names of the daemon server, and by `restore_projects`. What the operating
system, notify and the database answer is passed in.
-/

namespace AmbientFs

/-! ## Watchers -/

inductive WatchError
  | notify (text : String)
  | notAbsolute (path : PathBuf)
  | notExists (path : PathBuf)
  | alreadyWatching (path : PathBuf)
  | notWatching (path : PathBuf)
  deriving DecidableEq

def WatchError.message : WatchError → String
  | notify text => "notify error: " ++ text
  | notAbsolute path => "path is not absolute: " ++ path.display
  | notExists path => "path does not exist: " ++ path.display
  | alreadyWatching path => "already watching: " ++ path.display
  | notWatching path => "not watching: " ++ path.display

/-- The paths of an `FsWatcher`. -/
structure Watching where
  /-- The paths notify watches, once the watcher has been started. -/
  notify : Option (List PathBuf)
  watched : List PathBuf
  /-- Whether the receiver of its events is there. -/
  receiver : Bool
  deriving DecidableEq

namespace Watching

def new : Watching := ⟨none, [], false⟩

variable (w : Watching)

def start : Watching := { w with notify := some [], receiver := true }

def Contains (paths : List PathBuf) (path : PathBuf) : Prop := ∃ p ∈ paths, p.Same path

instance (paths : List PathBuf) (path : PathBuf) : Decidable (Contains paths path) :=
  inferInstanceAs (Decidable (∃ p ∈ paths, _))

/-- `notifyError` is the error of notify, if it is asked and fails. -/
def watch (path : PathBuf) (pathExists : Bool) (notifyError : Option String) :
    Except WatchError Watching :=
  if path.isAbsolute = false then .error (.notAbsolute path)
  else if pathExists = false then .error (.notExists path)
  else if Contains w.watched path then .error (.alreadyWatching path)
  else
    match w.notify, notifyError with
    | none, _ => .ok { w with watched := w.watched ++ [path] }
    | some _, some text => .error (.notify text)
    | some paths, none => .ok { w with
        notify := some (paths ++ [path])
        watched := w.watched ++ [path] }

def unwatch (path : PathBuf) (notifyError : Option String) : Except WatchError Watching :=
  if ¬ Contains w.watched path then .error (.notWatching path)
  else
    match w.notify, notifyError with
    | none, _ => .ok { w with watched := w.watched.filter fun p => ¬ p.Same path }
    | some _, some text => .error (.notify text)
    | some paths, none => .ok { w with
        notify := some (paths.filter fun p => ¬ p.Same path)
        watched := w.watched.filter fun p => ¬ p.Same path }

def dropReceiver : Watching := { w with receiver := false }

def stop : Watching := { w with notify := none, watched := [] }

end Watching

/-! ## The projects table -/

/-- A row of `projects`. -/
structure ProjectRow where
  projectId : String
  path : String
  createdAt : List Char

/-- The id is the primary key. -/
structure ProjectsTable where
  rows : List ProjectRow
  nodup : (rows.map (·.projectId)).Nodup

namespace ProjectsTable

def empty : ProjectsTable := ⟨[], List.nodup_nil⟩

variable (t : ProjectsTable)

def getProjectPath (projectId : String) : Option PathBuf :=
  (t.rows.find? (·.projectId = projectId)).map fun r => .ofString r.path

/-- `INSERT OR IGNORE`. A path that is not UTF-8 is an error. -/
def addProject (projectId : String) (path : PathBuf) (now : DateTime) : Option ProjectsTable :=
  match path.toStr with
  | none => none
  | some text =>
    if h : projectId ∈ t.rows.map (·.projectId) then some t
    else some ⟨t.rows ++ [⟨projectId, text, now.toRfc3339⟩], by
      rw [List.map_append, List.nodup_append]
      refine ⟨t.nodup, List.nodup_singleton _, fun x hx y hy hxy => h ?_⟩
      rw [hxy, List.mem_singleton.1 hy] at hx
      exact hx⟩

def removeProject (projectId : String) : ProjectsTable where
  rows := t.rows.filter (·.projectId ≠ projectId)
  nodup := t.nodup.sublist (List.filter_sublist.map _)

/-- The projects in the order they were added. -/
def listProjects : List (String × PathBuf) :=
  (t.rows.insertionSort fun a b => a.createdAt ≤ b.createdAt).map fun r =>
    (r.projectId, .ofString r.path)

end ProjectsTable

/-- A write to the table in a task of its own. -/
inductive ProjectWrite
  | add (projectId : String) (path : PathBuf)
  | remove (projectId : String)
  deriving DecidableEq

/-- A failed write is dropped. -/
def ProjectWrite.run (t : ProjectsTable) (now : DateTime) : ProjectWrite → ProjectsTable
  | add projectId path => (t.addProject projectId path now).getD t
  | remove projectId => t.removeProject projectId

/-! ## The daemon -/

structure ProtocolError where
  code : ℤ
  message : String
  deriving DecidableEq

namespace ProtocolError

def invalidParams (message : String) : ProtocolError := ⟨-32602, message⟩

def internalError : ProtocolError := ⟨-32603, "Internal error"⟩

def projectNotFound (id : String) : ProtocolError := ⟨-1001, "Project not found: " ++ id⟩

def alreadyWatching (path : String) : ProtocolError := ⟨-1002, "Already watching: " ++ path⟩

def watchFailed (path : String) : ProtocolError := ⟨-1003, "Failed to watch: " ++ path⟩

def invalidPath (path : String) : ProtocolError := ⟨-1004, "Invalid path: " ++ path⟩

end ProtocolError

/-- The maps of the server state that say which projects are watched, and how. -/
structure Registry where
  projects : String → Option PathBuf
  watchers : String → Option Watching
  trees : String → Option ProjectTree

def Registry.new : Registry := ⟨fun _ => none, fun _ => none, fun _ => none⟩

/-- What a request to watch a path finds there. -/
structure Look where
  pathExists : Bool
  isDir : Bool
  canonical : Option PathBuf
  /-- Whether a watcher can be started. -/
  starts : Bool
  canonicalExists : Bool
  notifyError : Option String

namespace Registry

variable (r : Registry)

/-- What a request to watch a path comes to: the project with its directory and watcher. The
receiver of the watcher is dropped. -/
def validateWatch (path : Option String) (look : Look) :
    Except ProtocolError (String × PathBuf × Watching) :=
  match path with
  | none => .error (.invalidParams "path is required and must be a string")
  | some pathStr =>
    if look.pathExists = false then .error (.invalidPath ("path does not exist: " ++ pathStr))
    else if look.isDir = false then .error (.invalidPath ("path is not a directory: " ++ pathStr))
    else
      match look.canonical with
      | none => .error (.invalidPath ("cannot canonicalize path: " ++ pathStr))
      | some canonical =>
        let projectId := canonical.generateProjectId
        if (r.projects projectId).any (·.Same canonical) then
          .error (.alreadyWatching ("already watching: " ++ pathStr))
        else if look.starts = false then
          .error (.watchFailed ("failed to start watcher for: " ++ pathStr))
        else
          match Watching.new.start.dropReceiver.watch canonical look.canonicalExists
            look.notifyError with
          | .error e => .error (.watchFailed ("failed to watch " ++ pathStr ++ ": " ++ e.message))
          | .ok watcher => .ok (projectId, canonical, watcher)

/-- Adds a project, in place of the one that has the id. -/
def addProject (projectId : String) (path : PathBuf) : Registry :=
  { r with projects := Function.update r.projects projectId (some path) }

def removeProject (projectId : String) : Registry :=
  { r with projects := Function.update r.projects projectId none }

def addWatcher (projectId : String) (watcher : Watching) : Registry :=
  { r with watchers := Function.update r.watchers projectId (some watcher) }

/-- Unwatching the path of a watcher that is dropped does nothing else. -/
def removeWatcher (projectId : String) : Registry :=
  { r with watchers := Function.update r.watchers projectId none }

def addTree (projectId : String) (tree : ProjectTree) : Registry :=
  { r with trees := Function.update r.trees projectId (some tree) }

def removeTree (projectId : String) : Registry :=
  { r with trees := Function.update r.trees projectId none }

def queryTree (projectId : Option String) : Except ProtocolError TreeNode :=
  match projectId with
  | none => .error (.invalidParams "project_id is required and must be a string")
  | some projectId =>
    match r.trees projectId with
    | none => .error (.projectNotFound projectId)
    | some tree => .ok tree.root

end Registry

structure DaemonServer where
  registry : Registry
  /-- The daemon's own watcher, whose events the event loop receives. -/
  watcher : Watching
  table : ProjectsTable
  /-- The writes that have not been carried out. -/
  pending : List ProjectWrite

inductive DaemonError
  | watch (e : WatchError)
  | store
  deriving DecidableEq

namespace DaemonServer

variable (d : DaemonServer)

def handleWatchProject (path : Option String) (look : Look) :
    DaemonServer × Except ProtocolError String :=
  match d.registry.validateWatch path look with
  | .error e => (d, .error e)
  | .ok (projectId, canonical, watcher) =>
    ({ d with
      registry := (d.registry.addProject projectId canonical).addWatcher projectId watcher
      pending := d.pending ++ [.add projectId canonical] }, .ok projectId)

def handleUnwatchProject (projectId : Option String) : DaemonServer × Except ProtocolError Unit :=
  match projectId with
  | none => (d, .error (.invalidParams "project_id is required and must be a string"))
  | some projectId =>
    match d.registry.projects projectId with
    | none => (d, .error (.projectNotFound projectId))
    | some _ =>
      ({ d with
        registry := (d.registry.removeWatcher projectId).removeProject projectId
        pending := d.pending ++ [.remove projectId] }, .ok ())

/-- A task carries out one of the writes. -/
def runWrite (i : ℕ) (now : DateTime) : DaemonServer :=
  match d.pending[i]? with
  | none => d
  | some w => { d with table := w.run d.table now, pending := d.pending.eraseIdx i }

end DaemonServer

/-- What the daemon server's functions are answered: whether a path exists, the error of notify,
whether the store can be opened and written, the time, and the listings of a directory. -/
structure Answers where
  pathExists : PathBuf → Bool
  notifyError : PathBuf → Option String
  stores : Bool
  now : DateTime
  listing : PathBuf → ReadDir

namespace DaemonServer

section Trees

variable [Lowercase] (d : DaemonServer) (a : Answers)

/-- The initial tree of a project. -/
def scan (path : PathBuf) : ProjectTree :=
  .fromDirectory (a.listing path) .default (path.fileName.bind OsString.toStr)

def watchProject (path : PathBuf) : DaemonServer × Except DaemonError String :=
  let projectId := path.generateProjectId
  match d.watcher.watch path (a.pathExists path) (a.notifyError path) with
  | .error e => (d, .error (.watch e))
  | .ok watcher =>
    let d := { d with watcher := watcher }
    match if a.stores then d.table.addProject projectId path a.now else none with
    | none => (d, .error .store)
    | some table =>
      ({ d with
        table := table
        registry := (d.registry.addTree projectId (scan a path)).addProject projectId path },
        .ok projectId)

def unwatchProject (projectId : String) : DaemonServer × Except DaemonError Unit :=
  if a.stores = false then (d, .error .store)
  else
    let path := d.table.getProjectPath projectId
    let d := { d with table := d.table.removeProject projectId }
    match path with
    | none => ({ d with registry := (d.registry.removeTree projectId).removeProject projectId },
        .ok ())
    | some path =>
      match d.watcher.unwatch path (a.notifyError path) with
      | .error e => (d, .error (.watch e))
      | .ok watcher => ({ d with
          watcher := watcher
          registry := (d.registry.removeTree projectId).removeProject projectId }, .ok ())

/-- A project that was watched before. One that cannot be watched any more is removed from the
table. -/
def restoreProject (d : DaemonServer) (project : String × PathBuf) : DaemonServer :=
  let removed := if a.stores then { d with table := d.table.removeProject project.1 } else d
  if a.pathExists project.2 then
    match d.watcher.watch project.2 true (a.notifyError project.2) with
    | .error _ => removed
    | .ok watcher => { d with
        watcher := watcher
        registry := (d.registry.addProject project.1 project.2).addTree project.1
          (scan a project.2) }
  else removed

/-- `lists` is whether the table can be read. -/
def restoreProjects (lists : Bool) : DaemonServer × Except DaemonError Unit :=
  if lists = false then (d, .error .store)
  else (d.table.listProjects.foldl (restoreProject a) d, .ok ())

end Trees

end DaemonServer

inductive RegistryAction
  | watchRequest (path : Option String) (look : Look)
  | unwatchRequest (projectId : Option String)
  | runWrite (i : ℕ) (now : DateTime)
  | watch (path : PathBuf) (a : Answers)
  | unwatch (projectId : String) (a : Answers)
  | restore (lists : Bool) (a : Answers)

namespace DaemonServer

variable [Lowercase]

def step (d : DaemonServer) : RegistryAction → DaemonServer
  | .watchRequest path look => (d.handleWatchProject path look).1
  | .unwatchRequest projectId => (d.handleUnwatchProject projectId).1
  | .runWrite i now => d.runWrite i now
  | .watch path a => (d.watchProject a path).1
  | .unwatch projectId a => (d.unwatchProject a projectId).1
  | .restore lists a => (d.restoreProjects a lists).1

/-- The daemon when it starts, with the table of the last one. -/
def started (t : ProjectsTable) : DaemonServer := ⟨.new, Watching.new.start, t, []⟩

end DaemonServer

end AmbientFs
