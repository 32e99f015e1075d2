import AmbientFs.Registry
import AmbientFs.Watcher

/-!
# Starting and watching

The part of an `FsWatcher` that its calls change: the sender, the notify watcher with the paths
registered in it, and the map of watched paths. A notify watcher keeps the sender and the
configuration it was made with. What notify and the file system answer is passed in; a call of
notify that fails may leave the path registered or not.
-/

namespace AmbientFs

/-- Tracked watch on a path. -/
structure WatchedPath where
  path : PathBuf
  recursive : Bool

/-- What notify answers: done, or an error and whether the path is registered after it. -/
inductive NotifyAnswer
  | done
  | failed (text : String) (registered : Bool)

/-- A watcher of notify: what its callback was made with and the paths registered. -/
structure NotifyWatcher where
  callback : FsWatcher
  tx : ℕ
  registered : List WatchedPath

namespace NotifyWatcher

variable (n : NotifyWatcher)

def paths : List PathBuf := n.registered.map WatchedPath.path

/-- The watcher with a path registered or not. -/
def setRegistered (path : WatchedPath) : Bool → NotifyWatcher
  | true => { n with registered := n.registered ++ [path] }
  | false => { n with registered := n.registered.filter fun p => ¬ p.path.Same path.path }

def watch (path : WatchedPath) : NotifyAnswer → NotifyWatcher × Except WatchError Unit
  | .done => (n.setRegistered path true, .ok ())
  | .failed text registered => (n.setRegistered path registered, .error (.notify text))

def unwatch (path : WatchedPath) : NotifyAnswer → NotifyWatcher × Except WatchError Unit
  | .done => (n.setRegistered path false, .ok ())
  | .failed text registered => (n.setRegistered path registered, .error (.notify text))

/-- What a notification sends, and where. -/
def handle (s : Surroundings) (event : Option NotifyEvent) : ℕ × List FileEvent :=
  (n.tx, n.callback.handleEvents s event)

end NotifyWatcher

/-- What the file system says of a path. -/
structure PathLook where
  pathExists : Bool
  isDir : Bool

/-- An `FsWatcher`: its configuration, the channel it sends to, and what it watches. -/
structure Watches where
  config : FsWatcher
  tx : ℕ
  watcher : Option NotifyWatcher
  watched : List WatchedPath

namespace Watches

/-- The receiver of the channel made here is dropped. -/
def new (config : FsWatcher) (channel : ℕ) : Watches := ⟨config, channel, none, []⟩

variable (w : Watches)

/-- Get list of currently watched paths. -/
def watchedPaths : List PathBuf := w.watched.map WatchedPath.path

def createWatcher : Option String → Except WatchError NotifyWatcher
  | some text => .error (.notify text)
  | none => .ok ⟨w.config, w.tx, []⟩

/-- Start watching and return the receiver, that of the new channel. -/
def start (channel : ℕ) (failure : Option String) : Watches × Except WatchError ℕ :=
  let w := { w with tx := channel }
  match w.createWatcher failure with
  | .error e => (w, .error e)
  | .ok watcher => ({ w with watcher := some watcher }, .ok channel)

/-- Watch a path for filesystem events. -/
def watch (path : PathBuf) (look : PathLook) (answer : NotifyAnswer) :
    Watches × Except WatchError Unit :=
  if path.isAbsolute = false then (w, .error (.notAbsolute path))
  else if look.pathExists = false then (w, .error (.notExists path))
  else if Watching.Contains w.watchedPaths path then (w, .error (.alreadyWatching path))
  else
    let entry := ⟨path, look.isDir⟩
    match w.watcher with
    | none => ({ w with watched := w.watched ++ [entry] }, .ok ())
    | some n =>
      match n.watch entry answer with
      | (n, .error e) => ({ w with watcher := some n }, .error e)
      | (n, .ok ()) => ({ w with watcher := some n, watched := w.watched ++ [entry] }, .ok ())

/-- Stop watching a path. -/
def unwatch (path : PathBuf) (answer : NotifyAnswer) : Watches × Except WatchError Unit :=
  if ¬ Watching.Contains w.watchedPaths path then (w, .error (.notWatching path))
  else
    let left := w.watched.filter fun p => ¬ p.path.Same path
    match w.watcher with
    | none => ({ w with watched := left }, .ok ())
    | some n =>
      match n.unwatch ⟨path, false⟩ answer with
      | (n, .error e) => ({ w with watcher := some n }, .error e)
      | (n, .ok ()) => ({ w with watcher := some n, watched := left }, .ok ())

/-- Stop the watcher and release all resources. -/
def stop : Watches := { w with watcher := none, watched := [] }

/-- A call, with what is answered to it. -/
inductive Call
  | start (failure : Option String)
  | watch (path : PathBuf) (look : PathLook) (answer : NotifyAnswer)
  | unwatch (path : PathBuf) (answer : NotifyAnswer)
  | stop

/-- A watcher in use: the channels made so far and the receiver the latest start returned. -/
structure Session where
  watches : Watches
  channels : ℕ
  receiver : Option ℕ

namespace Session

def new (config : FsWatcher) : Session := ⟨.new config 0, 1, none⟩

def step (s : Session) : Call → Session
  | .start failure =>
    match s.watches.start s.channels failure with
    | (w, .ok receiver) => ⟨w, s.channels + 1, some receiver⟩
    | (w, .error _) => ⟨w, s.channels + 1, s.receiver⟩
  | .watch path look answer => { s with watches := (s.watches.watch path look answer).1 }
  | .unwatch path answer => { s with watches := (s.watches.unwatch path answer).1 }
  | .stop => { s with watches := s.watches.stop }

end Session

end Watches

end AmbientFs
