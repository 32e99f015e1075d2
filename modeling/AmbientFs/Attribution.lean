import AmbientFs.Agents
import AmbientFs.Pipeline
import AmbientFs.Watcher

/-!
# Source attribution

The attributor detects the source of a change from the modification time of the project's git index
and from patterns for build output, and the content hash of a file is taken if the file is not too
large. The watcher's callback asks both where it is configured with them. The daemon's watcher is
made without either, and its event loop asks the agent tracker about the path of each event.
-/

namespace AmbientFs

structure BuildPatterns where
  patterns : List String
  deriving DecidableEq

namespace BuildPatterns

def default : BuildPatterns where
  patterns := ["dist/", "build/", "target/", "out/", ".next/", ".nuxt/", "node_modules/.cache/",
    ".cache/", "coverage/", "*.o", "*.so", "*.dylib", "*.dll", "*.exe", "*.a", "*.lib", "*.pyc",
    "*.pyo", "__pycache__/", ".pytest_cache/", ".venv/", "venv/", "*.rmeta", "*.rlib"]

/-- A directory pattern, an extension pattern, or else any part of the path. -/
def matchesPattern (path pattern : List Char) : Bool :=
  if pattern.getLast? = some '/' then
    let dir := trimEndMatches '/' pattern
    dir.isPrefixOf path || dir ++ ['/'] <:+: path
  else if ['*', '.'].isPrefixOf pattern then (pattern.drop 2).isSuffixOf path
  else pattern <:+: path

def «matches» (b : BuildPatterns) (path : String) : Bool :=
  b.patterns.any fun pattern => matchesPattern path.toList pattern.toList

end BuildPatterns

/-- What `fs::metadata` says of `.git/index`; times are in nanoseconds since the epoch. -/
inductive GitIndex
  | missing
  /-- The time cannot be told. -/
  | unknown
  | modified (mtime : ℤ)

structure EventAttributor where
  explicitSource : Option Source
  buildPatterns : BuildPatterns
  lastGitIndexMtime : Option ℤ

namespace EventAttributor

def new : EventAttributor := ⟨none, .default, none⟩

variable (a : EventAttributor)

def withExplicitSource (source : Source) : EventAttributor :=
  { a with explicitSource := some source }

def withBuildPatterns (patterns : BuildPatterns) : EventAttributor :=
  { a with buildPatterns := patterns }

/-- Whether the index changed in the last five seconds, and since it was last seen. -/
def isGitActive (index : GitIndex) (now : ℤ) : Bool × EventAttributor :=
  match index with
  | .missing => (false, { a with lastGitIndexMtime := none })
  | .unknown => (false, a)
  | .modified mtime =>
    (a.lastGitIndexMtime.any fun last =>
      mtime ≤ now && (now - mtime) / nanosPerSec < 5 && last < mtime,
      { a with lastGitIndexMtime := some mtime })

/-- First an explicit source, then git, then build output, and the user otherwise. -/
def detectSource (path : String) (index : GitIndex) (now : ℤ) : Source × EventAttributor :=
  match a.explicitSource with
  | some source => (source, a)
  | none =>
    let r := a.isGitActive index now
    if r.1 then (.git, r.2)
    else if r.2.buildPatterns.matches path then (.build, r.2)
    else (.user, r.2)

example : (new.detectSource "target/debug/a" .missing 0).1 = .build := by decide

end EventAttributor

namespace FsWatcher

/-- The attributor and the deduplicator are added by calls of their own. -/
def new (projectId machineId : String) : FsWatcher where
  pathFilter := .default
  projectId := projectId
  machineId := machineId
  attributor := false
  projectRoot := none
  contentDedup := false

def withAttributor (w : FsWatcher) (projectRoot : String) : FsWatcher :=
  { w with attributor := true, projectRoot := some projectRoot }

def withContentDedup (w : FsWatcher) : FsWatcher := { w with contentDedup := true }

end FsWatcher

/-- A change that the watcher is told of, and what can be found out about it at that moment. -/
structure Change where
  kind : EventKind
  path : String
  /-- The name under which agents report the file: its path, or relative to the project. -/
  agentName : String
  now : DateTime
  attributor : EventAttributor
  /-- The index of the project's repository. -/
  gitIndex : GitIndex
  systemTime : ℤ
  dedup : ContentDedup
  files : Files

namespace Change

variable (c : Change)

/-- What the callback is told by an attributor and a deduplicator, where it has them. -/
def surroundings : Surroundings where
  now := fun _ => c.now
  detectSource := fun path _ => some (c.attributor.detectSource path c.gitIndex c.systemTime).1
  hashFile := fun path => c.dedup.hashFile c.files (.ofString path)

end Change

/-- The watcher of `DaemonServer::new`, which watches for all projects. -/
def DaemonServer.newWatcher (machineId : String) : FsWatcher := .new "default" machineId

/-- A change goes through the callback and, if an event is sent, through the event loop. -/
def AgentServer.pass [Lowercase] (s : AgentServer) (machineId : String)
    (clock : String → DateTime) (h : Handling) (c : Change) : AgentServer :=
  match (DaemonServer.newWatcher machineId).handlePath c.surroundings c.kind c.path with
  | none => s
  | some event => s.step (.serve clock (.event h event))

end AmbientFs
