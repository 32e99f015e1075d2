import AmbientFs.Lib.Run

/-!
# The life of the daemon

`DaemonServer::run` starts the watcher, restores the projects, binds the socket server, gives it to
a task that runs it, and waits for a signal or for that task. `DaemonServer::shutdown` can be called
beside it. All of them lock the socket server: the task for as long as it runs it, the others for
one step. Calls and tasks are numbered, and the task of a call has the number of the call. What can
fail is passed in.
-/

namespace AmbientFs

/-- The listeners of the socket server, how often its shutdown channel has been sent to, once it
has been made, and whether the server has been given its state. -/
structure SocketListener where
  stdListener : Bool
  tokioListener : Bool
  shutdownTx : Option ℕ
  state : Bool
  deriving DecidableEq

namespace SocketListener

def new : SocketListener := ⟨false, false, none, false⟩

variable (l : SocketListener)

/-- `binds` is whether the socket's file can be replaced. -/
def bind (binds : Bool) : Option SocketListener :=
  if l.stdListener ∨ l.tokioListener then none
  else if binds then some { l with stdListener := true }
  else none

def setState : SocketListener := { l with state := true }

/-- `run` up to its loop, with what had been sent to the channel when it subscribed, if it comes so
far. `converts` is whether the listener can be made one of tokio's. -/
def run (converts : Bool) : SocketListener × Option ℕ :=
  let listen (l : SocketListener) : SocketListener × Option ℕ :=
    let sent := l.shutdownTx.getD 0
    ({ l with shutdownTx := some sent }, if l.state then some sent else none)
  if l.tokioListener then listen l
  else if l.stdListener then
    if converts then listen { l with stdListener := false, tokioListener := true }
    else ({ l with stdListener := false }, none)
  else (l, none)

/-- Sends to the channel if it has been made. -/
def shutdown : SocketListener := { l with shutdownTx := l.shutdownTx.map (· + 1) }

end SocketListener

/-- What a call of `run` does next. -/
inductive RunPoint
  | check
  | start
  | restore
  | bind
  | signals
  | sender
  /-- It waits, and has the sender of the shutdown channel or none. -/
  | select (sender : Bool)
  | clear
  | stop
  | returned (ok : Bool)
  deriving DecidableEq

/-- Where the task that runs the socket server is. -/
inductive TaskPoint
  | waiting
  /-- It accepts connections until the channel has been sent to again. -/
  | listening (seen : ℕ)
  | finished (ok : Bool)
  deriving DecidableEq

/-- What a call of `shutdown` does next. -/
inductive ShutdownPoint
  | clear
  | signal
  | stop
  | returned
  deriving DecidableEq

structure Lifecycle where
  running : Bool
  /-- Whether the watcher is started. -/
  watching : Bool
  listener : SocketListener
  /-- The task that holds the lock of the socket server. -/
  holder : Option ℕ
  runs : ℕ → Option RunPoint
  tasks : ℕ → Option TaskPoint
  shutdowns : ℕ → Option ShutdownPoint

namespace Lifecycle

inductive Action
  | call (i : ℕ)
  /-- A call of `run` takes a step, which is `ok` if nothing in it fails. -/
  | run (i : ℕ) (ok : Bool)
  /-- A call of `run` that waits gets a signal, or sees the shutdown flag. -/
  | signal (i : ℕ)
  | task (i : ℕ) (ok : Bool)
  | shutdown (j : ℕ)
  | shutdownStep (j : ℕ)

def new : Lifecycle :=
  ⟨false, false, .new, none, fun _ => none, fun _ => none, fun _ => none⟩

variable (s : Lifecycle)

def setRun (i : ℕ) (p : RunPoint) : Lifecycle :=
  { s with runs := Function.update s.runs i (some p) }

def setTask (i : ℕ) (p : TaskPoint) : Lifecycle :=
  { s with tasks := Function.update s.tasks i (some p) }

def setShutdown (j : ℕ) (p : ShutdownPoint) : Lifecycle :=
  { s with shutdowns := Function.update s.shutdowns j (some p) }

/-- An error is returned at once, and leaves what has been done. -/
def runStep (i : ℕ) (ok : Bool) : RunPoint → Lifecycle
  | .check =>
    if s.running then s.setRun i (.returned true)
    else { s with running := true }.setRun i .start
  | .start =>
    if ok then { s with watching := true }.setRun i .restore else s.setRun i (.returned false)
  | .restore => if ok then s.setRun i .bind else s.setRun i (.returned false)
  | .bind =>
    match s.holder with
    | some _ => s
    | none =>
      match s.listener.bind ok with
      | none => s.setRun i (.returned false)
      | some l => { s with listener := l.setState }.setRun i .signals
  | .signals => if ok then s.setRun i .sender else s.setRun i (.returned false)
  | .sender =>
    match s.holder with
    | some _ => s
    | none => (s.setRun i (.select s.listener.shutdownTx.isSome)).setTask i .waiting
  | .select _ =>
    match s.tasks i with
    | some (.finished true) => s.setRun i .clear
    | some (.finished false) => s.setRun i (.returned false)
    | _ => s
  | .clear => { s with running := false }.setRun i .stop
  | .stop => { s with watching := false }.setRun i (.returned true)
  | .returned _ => s

/-- The signal is passed on if there is a sender. -/
def signal (i : ℕ) : Lifecycle :=
  match s.runs i with
  | some (.select true) => { s with listener := s.listener.shutdown }.setRun i .clear
  | some (.select false) => s.setRun i .clear
  | _ => s

def taskStep (i : ℕ) (ok : Bool) : TaskPoint → Lifecycle
  | .waiting =>
    match s.holder with
    | some _ => s
    | none =>
      match s.listener.run ok with
      | (l, some seen) => { s with listener := l, holder := some i }.setTask i (.listening seen)
      | (l, none) => { s with listener := l }.setTask i (.finished false)
  | .listening seen =>
    if seen < s.listener.shutdownTx.getD 0 then
      { s with holder := none }.setTask i (.finished true)
    else s
  | .finished _ => s

def shutdownStep (j : ℕ) : ShutdownPoint → Lifecycle
  | .clear => { s with running := false }.setShutdown j .signal
  | .signal =>
    match s.holder with
    | some _ => s
    | none => { s with listener := s.listener.shutdown }.setShutdown j .stop
  | .stop => { s with watching := false }.setShutdown j .returned
  | .returned => s

def step : Action → Lifecycle
  | .call i => if (s.runs i).isNone then s.setRun i .check else s
  | .run i ok => ((s.runs i).map (s.runStep i ok)).getD s
  | .signal i => s.signal i
  | .task i ok => ((s.tasks i).map (s.taskStep i ok)).getD s
  | .shutdown j => if (s.shutdowns j).isNone then s.setShutdown j .clear else s
  | .shutdownStep j => ((s.shutdowns j).map (s.shutdownStep j)).getD s

end Lifecycle

end AmbientFs
