import AmbientFs.Agents
import AmbientFs.Lib.Sections

/-!
# The two locks of the agent tracker

An update and a prune each take the lock of the agents, release it, and then take that of the
references. What a prune resets is decided under the first lock.
-/

namespace AmbientFs

/-- What is left to do under the lock of the references. -/
inductive ReferenceWork
  | count (file : String)
  | reset (files : List String)

namespace AgentTracker

variable (t : AgentTracker)

def updateAgents (a : AgentActivity) (now : DateTime) : AgentTracker where
  agents := t.agents.insert a.agent
    (((t.agents.lookup a.agent).getD (.new a.agent now)).update a now)
  staleTimeout := t.staleTimeout
  fileReferences := t.fileReferences

def countReference (file : String) : AgentTracker where
  agents := t.agents
  staleTimeout := t.staleTimeout
  fileReferences := Function.update t.fileReferences file
    (some ((t.fileReferences file).getD 0 + 1))

def agentsSection : TrackerAction → AgentTracker × ReferenceWork
  | .update a now => (t.updateAgents a now, .count a.file)
  | .prune clock later => (t.retainFresh later, .reset (t.staleOnly clock))

/-- A prune that finds no file of a stale agent does not take this lock, and has none to reset. -/
def referencesSection : ReferenceWork → AgentTracker
  | .count file => t.countReference file
  | .reset files => t.removeReferences files

def sections : Sections AgentTracker TrackerAction ReferenceWork where
  first := agentsSection
  second := referencesSection
  apart t work x := by cases work <;> cases x <;> rfl

/-- Some updates and prunes, interleaved. -/
abbrev SectionAction := Sections.Action TrackerAction

abbrev SectionState := Sections.State AgentTracker ReferenceWork

end AgentTracker

end AmbientFs
