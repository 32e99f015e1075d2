import AmbientFs.Lib.Lines

/-!
# The pid file

Processes that start the daemon read the pid file, ask whether the process it names is there, read
and ask once more when they create it, and write their own pid. The file is opened, which empties
it, before the pid is written to what was opened. Between any two of these steps the others go on,
processes end and pids are used again. What goes wrong apart from that, when a process forks, writes
or sets up its output, is an action that fails it.
-/

namespace AmbientFs

/-- The pids of processes, which are positive as an `i32`. -/
abbrev Pid := { n : ℕ // 0 < n ∧ n < 2 ^ 31 }

/-- `str::parse::<u32>`. -/
def parseU32 (s : List Char) : Option ℕ :=
  let digits := match s with
    | '+' :: rest => rest
    | s => s
  let n := Nat.ofDigitChars 10 digits 0
  if digits ≠ [] ∧ digits.all Char.isDigit ∧ n < 2 ^ 32 then some n else none

namespace Daemon

/-- What is written for a pid. -/
def pidText (p : Pid) : List Char := Nat.toDigits 10 p.1 ++ ['\n']

/-- A file is opened once and can lose its name before it is written to. -/
structure File where
  inode : ℕ
  content : List Char

inductive PidError
  | pidFileRead
  | invalidPid (text : List Char)

def readPid : Option File → Except PidError ℕ
  | none => .error .pidFileRead
  | some f =>
    let pidStr := Lines.trim Lines.whiteSpace f.content
    match parseU32 pidStr with
    | some pid => .ok pid
    | none => .error (.invalidPid pidStr)

/-! ## Signals -/

inductive Signal
  | term

/-- A call of `kill`, which without a signal asks whether there is a process. -/
structure Kill where
  target : ℤ
  signal : Option Signal

inductive Errno
  | esrch
  | other

/-- `pid as i32`. -/
def asI32 (pid : ℕ) : ℤ := (pid : ℤ).bmod (2 ^ 32)

inductive SignalError
  | pid (e : PidError)
  | notRunning
  | io

section Signals

variable (kill : Kill → Except Errno Unit)

/-- Check if a process with given PID is running. Other errors mean that it exists. -/
def checkProcess (pid : ℕ) : List Kill × Bool :=
  let call : Kill := ⟨asI32 pid, none⟩
  ([call], match kill call with
    | .ok () => true
    | .error .esrch => false
    | .error .other => true)

def isRunning (file : Option File) : List Kill × Except PidError Bool :=
  match readPid file with
  | .ok pid =>
    let (calls, running) := checkProcess kill pid
    (calls, .ok running)
  | .error .pidFileRead => ([], .ok false)
  | .error e => ([], .error e)

def getPid (file : Option File) : List Kill × Except SignalError ℕ :=
  match readPid file with
  | .error e => ([], .error (.pid e))
  | .ok pid =>
    let (calls, running) := checkProcess kill pid
    (calls, if running then .ok pid else .error .notRunning)

/-- Sends SIGTERM to the process that the file names, if it runs. -/
def stop (file : Option File) : List Kill × Except SignalError Unit :=
  match getPid kill file with
  | (calls, .error e) => (calls, .error e)
  | (calls, .ok pid) =>
    let call : Kill := ⟨asI32 pid, some .term⟩
    (calls ++ [call], match kill call with
      | .ok () => .ok ()
      | .error _ => .error .io)

end Signals

/-! ## Processes -/

/-- Where a process is. In `start` it comes first to what `isRunning` reads and asks, then, after it
has forked, to the same in `create`. -/
inductive Stage
  /-- A process that does not start the daemon, or not yet. -/
  | other
  | reading
  | checking (pid : ℕ)
  /-- The pid is read again for the error. -/
  | rereading
  | forking
  | createReading
  | createChecking (pid : ℕ)
  | createRereading
  | opening
  | writing (inode : ℕ)
  /-- The pid is written; signals and output are to be set up. -/
  | written
  /-- `start` has returned `Ok`. -/
  | passed
  /-- The daemon has shut down and taken the file away, and ends next. -/
  | stopping
  /-- `start` has returned an error. -/
  | failed
  deriving DecidableEq

structure System where
  file : Option File
  inodes : ℕ
  procs : Pid → Option Stage

inductive Action
  /-- A process comes to be, under a pid that is free. -/
  | spawn (p : Pid)
  | start (p : Pid)
  | read (p : Pid)
  /-- `group` is what is answered for a pid that names no single process. -/
  | check (p : Pid) (group : Bool)
  /-- The process goes on as its child, or itself in the foreground. -/
  | fork (p : Pid) (child : Option Pid)
  | openFile (p : Pid)
  | write (p : Pid)
  | finish (p : Pid)
  | fail (p : Pid)
  | remove (p : Pid)
  | exit (p : Pid)

namespace System

variable (s : System)

def setStage (p : Pid) (stage : Option Stage) : System :=
  { s with procs := Function.update s.procs p stage }

/-- `kill(pid as i32, 0)`: a process that is there counts, whoever owns it. The target 0 is the
caller's own group, and a negative one another group or all processes. -/
def checkProcess (group : Bool) (pid : ℕ) : Bool :=
  if h : 0 < pid ∧ pid < 2 ^ 31 then (s.procs ⟨pid, h⟩).isSome
  else if pid = 0 then true
  else group

def read (p : Pid) : System :=
  match s.procs p with
  | some .reading =>
    match readPid s.file with
    | .ok pid => s.setStage p (some (.checking pid))
    | .error .pidFileRead => s.setStage p (some .forking)
    | .error (.invalidPid _) => s.setStage p (some .failed)
  | some .rereading => s.setStage p (some .failed)
  | some .createReading =>
    match readPid s.file with
    | .ok pid => s.setStage p (some (.createChecking pid))
    | .error _ => s.setStage p (some .opening)
  | some .createRereading =>
    match readPid s.file with
    | .ok _ => s.setStage p (some .failed)
    | .error _ => s.setStage p (some .opening)
  | _ => s

def check (p : Pid) (group : Bool) : System :=
  match s.procs p with
  | some (.checking pid) =>
    s.setStage p (some (if s.checkProcess group pid then .rereading else .forking))
  | some (.createChecking pid) =>
    s.setStage p (some (if s.checkProcess group pid then .createRereading else .opening))
  | _ => s

def fork (p : Pid) (child : Option Pid) : System :=
  match s.procs p, child with
  | some .forking, none => s.setStage p (some .createReading)
  | some .forking, some c =>
    if s.procs c = none then (s.setStage c (some .createReading)).setStage p none else s
  | _, _ => s

/-- `File::create`. -/
def openFile (p : Pid) : System :=
  match s.procs p, s.file with
  | some .opening, none =>
    { s with file := some ⟨s.inodes, []⟩, inodes := s.inodes + 1 }.setStage p
      (some (.writing s.inodes))
  | some .opening, some f =>
    { s with file := some { f with content := [] } }.setStage p (some (.writing f.inode))
  | _, _ => s

/-- The pid is written over the start of the file that was opened. -/
def write (p : Pid) : System :=
  match s.procs p with
  | some (.writing inode) =>
    let file := s.file.map fun f =>
      if f.inode = inode then
        { f with content := pidText p ++ f.content.drop (pidText p).length }
      else f
    { s with file := file }.setStage p (some .written)
  | _ => s

def fail (p : Pid) : System :=
  match s.procs p with
  | some .forking | some .opening | some (.writing _) | some .written => s.setStage p (some .failed)
  | _ => s

def remove (p : Pid) : System :=
  match s.procs p with
  | some .passed => { s with file := none }.setStage p (some .stopping)
  | _ => s

def step (s : System) : Action → System
  | .spawn p => if s.procs p = none then s.setStage p (some .other) else s
  | .start p => if s.procs p = some .other then s.setStage p (some .reading) else s
  | .read p => s.read p
  | .check p group => s.check p group
  | .fork p child => s.fork p child
  | .openFile p => s.openFile p
  | .write p => s.write p
  | .finish p => if s.procs p = some .written then s.setStage p (some .passed) else s
  | .fail p => s.fail p
  | .remove p => s.remove p
  | .exit p => s.setStage p none

end System

end Daemon

end AmbientFs
