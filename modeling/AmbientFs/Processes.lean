import AmbientFs.Registry

/-!
# Processes on one table

One daemon at a time runs: it restores the projects of the table as it starts, answers requests,
and loses what it has in memory when it stops. The commands `watch` and `unwatch` of the command
line each make a daemon server of their own, whose watcher is not started, and call its function on
the table they share with the daemon.
-/

namespace AmbientFs

inductive CommandError
  /-- The path of `watch` cannot be made canonical. -/
  | canonicalize
  | daemon (e : DaemonError)
  deriving DecidableEq

def DaemonServer.new (t : ProjectsTable) : DaemonServer := ⟨.new, Watching.new, t, []⟩

def Cli.cmdUnwatch (a : Answers) (t : ProjectsTable) (projectId : String) :
    ProjectsTable × Except CommandError Unit :=
  let r := (DaemonServer.new t).unwatchProject a projectId
  (r.1.table, r.2.mapError .daemon)

/-- The daemon, which may be running, with the table. -/
structure Processes extends DaemonServer where
  running : Bool

inductive ProcessAction
  /-- `lists` is whether the table can be read. -/
  | start (lists : Bool) (a : Answers)
  | stop
  | watchRequest (path : Option String) (look : Look)
  | unwatchRequest (projectId : Option String)
  | runWrite (i : ℕ) (now : DateTime)
  /-- The path is canonical, if it can be made so. -/
  | cmdWatch (path : Option PathBuf) (a : Answers)
  | cmdUnwatch (projectId : String) (a : Answers)

section

variable [Lowercase]

def Cli.cmdWatch (a : Answers) (t : ProjectsTable) (path : Option PathBuf) :
    ProjectsTable × Except CommandError String :=
  match path with
  | none => (t, .error .canonicalize)
  | some canonical =>
    let r := (DaemonServer.new t).watchProject a canonical
    (r.1.table, r.2.mapError .daemon)

namespace Processes

def new (t : ProjectsTable) : Processes := ⟨.new t, false⟩

variable (s : Processes)

/-- A daemon that cannot list the projects does not come to run. -/
def start (lists : Bool) (a : Answers) : Processes :=
  match (DaemonServer.started s.table).restoreProjects a lists with
  | (d, .ok ()) => ⟨d, true⟩
  | (d, .error _) => new d.table

/-- The running daemon takes a step. -/
def serve (x : RegistryAction) : Processes :=
  if s.running then { s with toDaemonServer := s.toDaemonServer.step x } else s

def step (s : Processes) : ProcessAction → Processes
  | .start lists a => if s.running then s else s.start lists a
  | .stop => new s.table
  | .watchRequest path look => s.serve (.watchRequest path look)
  | .unwatchRequest projectId => s.serve (.unwatchRequest projectId)
  | .runWrite i now => s.serve (.runWrite i now)
  | .cmdWatch path a => { s with table := (Cli.cmdWatch a s.table path).1 }
  | .cmdUnwatch projectId a => { s with table := (Cli.cmdUnwatch a s.table projectId).1 }

end Processes

end

end AmbientFs
