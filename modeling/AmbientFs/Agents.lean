import AmbientFs.BuildAwareness
import AmbientFs.EventLoop

/-!
# Agent activity

The tracker keeps for each agent its active files and when it was last seen, and for each file how
often it was referenced. Both maps are keyed by what an activity says of its agent and its file. An
activity comes in by a request; the event loop and the awareness of a file ask who is active on it.
The order in which the map of agents is iterated is not specified, so what is visited is passed in.
-/

namespace AmbientFs

/-- Parsed agent activity from a JSONL line or a request. -/
structure AgentActivity where
  /-- Unix timestamp in seconds. -/
  ts : ℤ
  agent : String
  action : String
  file : String
  project : Option String := none
  tool : Option String := none
  session : Option String := none
  intent : Option String := none
  lines : Option (List UInt32) := none
  confidence : Option ℚ := none
  /-- The agent is finished with the file. -/
  done : Option Bool := none

namespace AgentActivity

variable (a : AgentActivity)

def isDone : Bool := a.done.getD false

/-- The clock is read where the timestamp is out of range. -/
def timestamp (now : DateTime) : DateTime := (DateTime.timestampOpt a.ts).getD now

end AgentActivity

/-- Per-agent tracking state. -/
structure AgentState where
  agentId : String
  files : List String
  lastSeen : DateTime
  intent : Option String
  tool : Option String
  session : Option String

namespace AgentState

def new (agentId : String) (now : DateTime) : AgentState :=
  ⟨agentId, [], now, none, none, none⟩

/-- Whether the agent has not been seen within the timeout, in nanoseconds. -/
def isStale (s : AgentState) (timeout : ℤ) (now : DateTime) : Bool :=
  timeout < now.nanos - s.lastSeen.nanos

/-- What an activity makes of the state of its agent. -/
def update (s : AgentState) (a : AgentActivity) (now : DateTime) : AgentState where
  agentId := s.agentId
  files :=
    if a.isDone then s.files.filter (· ≠ a.file)
    else if a.file ∈ s.files then s.files
    else s.files ++ [a.file]
  lastSeen := a.timestamp now
  intent := a.intent
  tool := a.tool
  session := a.session

end AgentState

abbrev AgentEntry := Sigma fun _ : String => AgentState

structure AgentTracker where
  agents : AList fun _ : String => AgentState
  staleTimeout : ℤ
  fileReferences : String → Option UInt32

namespace AgentTracker

def new (staleTimeout : ℤ) : AgentTracker := ⟨∅, staleTimeout, fun _ => none⟩

/-- Five minutes. -/
def withDefaultTimeout : AgentTracker := new (300 * nanosPerSec)

variable (t : AgentTracker)

/-- Counts are taken modulo `2 ^ 32`. -/
def updateFromActivity (a : AgentActivity) (now : DateTime) : AgentTracker where
  agents := t.agents.insert a.agent
    (((t.agents.lookup a.agent).getD (.new a.agent now)).update a now)
  staleTimeout := t.staleTimeout
  fileReferences := Function.update t.fileReferences a.file
    (some ((t.fileReferences a.file).getD 0 + 1))

/-- The better of the best agent so far and the next. The clock is read for each agent. -/
def better (clock : String → DateTime) (filePath : String) (best : Option (String × DateTime))
    (e : AgentEntry) : Option (String × DateTime) :=
  if e.2.isStale t.staleTimeout (clock e.1) then best
  else if filePath ∈ e.2.files then
    match best with
    | none => some (e.1, e.2.lastSeen)
    | some (_, lastSeen) =>
      if lastSeen.nanos < e.2.lastSeen.nanos then some (e.1, e.2.lastSeen) else best
  else best

/-- The most recently seen agent that has the file in its active list. -/
def getActiveAgent (clock : String → DateTime) (filePath : String) (visited : List AgentEntry) :
    Option String :=
  (visited.foldl (t.better clock filePath) none).map Prod.fst

/-- The agents that are not stale. -/
def getAllAgents (clock : String → DateTime) (visited : List AgentEntry) : List AgentState :=
  (visited.filter fun e => !e.2.isStale t.staleTimeout (clock e.1)).map Sigma.snd

def getReferenceCount (filePath : String) : UInt32 := (t.fileReferences filePath).getD 0

/-- Stale or not. -/
def agentCount : ℕ := t.agents.entries.length

def activeAgentCount (clock : String → DateTime) (visited : List AgentEntry) : ℕ :=
  visited.countP fun e => !e.2.isStale t.staleTimeout (clock e.1)

/-- The keys of the maps in which a prune collects files: those of the stale agents, or of the
others. How many agents have a file is not used. -/
def collectFiles (clock : String → DateTime) (stale : Bool) : List String :=
  (t.agents.entries.filter fun e => e.2.isStale t.staleTimeout (clock e.1) == stale).flatMap
    fun e => e.2.files

def retainFresh (clock : String → DateTime) : AgentTracker where
  agents := ⟨t.agents.entries.filter fun e => !e.2.isStale t.staleTimeout (clock e.1),
    t.agents.nodupKeys.sublist List.filter_sublist⟩
  staleTimeout := t.staleTimeout
  fileReferences := t.fileReferences

/-- The files that only stale agents have in their lists. -/
def staleOnly (clock : String → DateTime) : List String :=
  (t.collectFiles clock true).filter fun f => f ∉ t.collectFiles clock false

def removeReferences (files : List String) : AgentTracker where
  agents := t.agents
  staleTimeout := t.staleTimeout
  fileReferences := fun f => if f ∈ files then none else t.fileReferences f

/-- The clock is read for each agent where the files are collected, and again where the stale agents
are removed. -/
def pruneStale (clock later : String → DateTime) : ℕ × AgentTracker :=
  let kept := t.retainFresh later
  (t.agentCount - kept.agentCount,
    if (t.collectFiles clock true).isEmpty then kept
    else kept.removeReferences (t.staleOnly clock))

end AgentTracker

inductive TrackerAction
  | update (a : AgentActivity) (now : DateTime)
  | prune (clock later : String → DateTime)

def AgentTracker.step (t : AgentTracker) : TrackerAction → AgentTracker
  | .update a now => t.updateFromActivity a now
  | .prune clock later => (t.pruneStale clock later).2

/-- The disk with other events in the file at a path. -/
def Disk.withEvents {ι : Type} [DecidableEq ι] (d : Disk ι) (path : PathBuf) (events : EventStore) :
    Disk ι :=
  match d.opens path with
  | none => d
  | some i => { d with file := Function.update d.file i { d.file i with events := events } }

/-- The tracker and the rest of the server. -/
structure AgentServer where
  tracker : AgentTracker
  server : EventServer

inductive AgentAction
  /-- An activity is reported. -/
  | report (a : AgentActivity) (now : DateTime)
  /-- The event loop or a request, with the clock that is read for each agent. -/
  | serve (clock : String → DateTime) (x : EventAction)

/-- The event loop asks the tracker. -/
def EventAction.withActive (activeAgent : String → Option String) : EventAction → EventAction
  | .event h e => .event { h with activeAgent := activeAgent } e
  | x => x

namespace AgentServer

/-- Whether there is an agent does not depend on the order, and no more is asked here. -/
def activeAgent (s : AgentServer) (clock : String → DateTime) (filePath : String) : Option String :=
  s.tracker.getActiveAgent clock filePath s.tracker.agents.entries

def step [Lowercase] (s : AgentServer) : AgentAction → AgentServer
  | .report a now => { s with tracker := s.tracker.updateFromActivity a now }
  | .serve clock x => { s with server := s.server.step (x.withActive (s.activeAgent clock)) }

/-- What `build_awareness` can answer: its agents are visited in some order. -/
def awareness {ι : Type} [DecidableEq ι] (s : AgentServer) (d : Disk ι) (planner : Planner)
    (storePath : PathBuf) (projectId filePath : String) (clock : String → DateTime)
    (now : DateTime) :
    Set (Except AwarenessError (Option FileAwareness)) :=
  {r | ∃ visited : List AgentEntry, visited.Perm s.tracker.agents.entries ∧
    r = (d.withEvents storePath s.server.store).buildAwareness planner storePath projectId filePath
      (s.tracker.getActiveAgent clock filePath visited) (s.tracker.getReferenceCount filePath)
      now}

end AgentServer

end AmbientFs
