import AmbientFs.Event
import AmbientFs.Filter

/-!
# The watcher

The callback the watcher hands to notify: each path of a notification that the filter lets
through becomes at most one file event, whose type is read off the notification's kind. What
notify says about a kind beyond that (what was created, which part was modified) the callback
does not look at.
-/

namespace AmbientFs

inductive CreateKind
  | any
  | file
  | folder
  | other
  deriving DecidableEq

inductive ModifyKind
  | any
  | data
  | metadata
  | name
  | other
  deriving DecidableEq

inductive RemoveKind
  | any
  | file
  | folder
  | other
  deriving DecidableEq

inductive EventKind
  | any
  | access
  | create (kind : CreateKind)
  | modify (kind : ModifyKind)
  | remove (kind : RemoveKind)
  | other
  deriving DecidableEq

structure NotifyEvent where
  kind : EventKind
  paths : List String

/-- What the callback uses of the watcher it is made for. -/
structure FsWatcher where
  pathFilter : PathFilter
  projectId : String
  machineId : String
  /-- Whether source attribution is configured, which also takes a project root. -/
  attributor : Bool
  projectRoot : Option String
  contentDedup : Bool

/-- What the callback is told while it handles a notification: the clock for each path's event,
the source of a path if the attributor's lock is not poisoned, and the hash of a file if it can
be read and is not too large. -/
structure Surroundings where
  now : String → DateTime
  detectSource : String → String → Option Source
  hashFile : String → Option String

def EventKind.eventType : EventKind → Option EventType
  | create _ => some .created
  | modify _ => some .modified
  | remove _ => some .deleted
  | _ => none

namespace FsWatcher

variable (w : FsWatcher) (s : Surroundings)

def addSource (path : String) (e : FileEvent) : FileEvent :=
  match w.attributor, w.projectRoot with
  | true, some root =>
    match s.detectSource path root with
    | some source => e.withSource source
    | none => e
  | _, _ => e

def addHash (path : String) (e : FileEvent) : FileEvent :=
  if w.contentDedup ∧ (e.eventType = .created ∨ e.eventType = .modified) then
    match s.hashFile path with
    | some hash => e.withContentHash hash
    | none => e
  else e

def handlePath (kind : EventKind) (path : String) : Option FileEvent :=
  if w.pathFilter.shouldIgnore path then none
  else kind.eventType.map fun eventType =>
    w.addHash s path
      (w.addSource s path (.new (s.now path) eventType path w.projectId w.machineId))

/-- `handle_events`: the file events sent for a notification, none if it is an error. -/
def handleEvents : Option NotifyEvent → List FileEvent
  | none => []
  | some event => event.paths.filterMap (w.handlePath s event.kind)

/-- Only the type, the path and the lack of an old path matter to the tree. -/
theorem handlePath_of_not_ignored {path : String} (h : w.pathFilter.shouldIgnore path = false)
    (kind : EventKind) {eventType : EventType} (hk : kind.eventType = some eventType) :
    ∃ e, w.handlePath s kind path = some e ∧ e.eventType = eventType ∧ e.filePath = path ∧
      e.oldPath = none := by
  have hattr : ∀ e : FileEvent, (w.addSource s path e).eventType = e.eventType ∧
      (w.addSource s path e).filePath = e.filePath ∧
      (w.addSource s path e).oldPath = e.oldPath := by
    intro e
    unfold addSource
    split
    · split <;> exact ⟨rfl, rfl, rfl⟩
    · exact ⟨rfl, rfl, rfl⟩
  have hhash : ∀ e : FileEvent, (w.addHash s path e).eventType = e.eventType ∧
      (w.addHash s path e).filePath = e.filePath ∧
      (w.addHash s path e).oldPath = e.oldPath := by
    intro e
    unfold addHash
    split
    · split <;> exact ⟨rfl, rfl, rfl⟩
    · exact ⟨rfl, rfl, rfl⟩
  refine ⟨w.addHash s path (w.addSource s path
    (.new (s.now path) eventType path w.projectId w.machineId)), ?_, ?_, ?_, ?_⟩
  · unfold handlePath
    rw [h, hk]
    rfl
  · rw [(hhash _).1, (hattr _).1]
    rfl
  · rw [(hhash _).2.1, (hattr _).2.1]
    rfl
  · rw [(hhash _).2.2, (hattr _).2.2]
    rfl

end FsWatcher

end AmbientFs
