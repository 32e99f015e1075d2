import AmbientFs.Attribution
import AmbientFs.Proofs.EventStored

/-!
# What is stored of a change

The daemon's watcher has no attributor and no deduplicator. So a change is stored as an agent's or
as the user's and without a content hash, which is what the documented priority and the hash of the
file come to in the cases that `attributed_iff` names.
-/

namespace AmbientFs

theorem Source.asStr_injective : Function.Injective Source.asStr := by
  intro a b h
  have := congrArg Source.fromStr h
  rw [Source.fromStr_asStr, Source.fromStr_asStr] at this
  exact Except.ok.inj this

namespace EventAttributor

variable {a : EventAttributor} {path : String} {index : GitIndex} {now : ℤ}

theorem isGitActive_buildPatterns :
    (a.isGitActive index now).2.buildPatterns = a.buildPatterns := by
  cases index <;> rfl

theorem detectSource_eq_user (h : a.explicitSource = none) :
    (a.detectSource path index now).1 = .user ↔
      (a.isGitActive index now).1 = false ∧ a.buildPatterns.matches path = false := by
  unfold detectSource
  simp only [h, isGitActive_buildPatterns]
  split_ifs with hg hb
  · simp [hg]
  · simp [hb]
  · simp [hg, hb]

theorem detectSource_ne_aiAgent (h : a.explicitSource = none) :
    (a.detectSource path index now).1 ≠ .aiAgent := by
  unfold detectSource
  simp only [h]
  split_ifs <;> simp

end EventAttributor

namespace Change

variable (c : Change)

/-- First an agent on the file, then what an attributor detects. -/
def documented (agent : Bool) : Source :=
  if agent then .aiAgent
  else ({ c.attributor with explicitSource := none }.detectSource c.path c.gitIndex c.systemTime).1

/-- The hash of the file that was created or modified, where it can be taken. -/
def contentHash : Option String :=
  if c.kind.eventType = some .created ∨ c.kind.eventType = some .modified then
    c.dedup.hashFile c.files (.ofString c.path)
  else none

/-- The change goes through the watcher and the event loop into the store. -/
def Passes (h : Handling) : Prop :=
  PathFilter.default.shouldIgnore c.path = false ∧ c.kind.eventType.isSome ∧
    h.running = true ∧ h.writes.Succeeds

def gitActive : Bool := (c.attributor.isGitActive c.gitIndex c.systemTime).1

def isBuild : Bool := c.attributor.buildPatterns.matches c.path

theorem documented_false_eq_user :
    c.documented false = .user ↔ c.gitActive = false ∧ c.isBuild = false := by
  have hgit : ({ c.attributor with explicitSource := none }.isGitActive c.gitIndex
      c.systemTime).1 = c.gitActive := by
    unfold gitActive
    cases c.gitIndex <;> rfl
  simp only [documented, Bool.false_eq_true, if_false]
  rw [EventAttributor.detectSource_eq_user rfl, hgit]
  rfl

theorem documented_eq_aiAgent (agent : Bool) : c.documented agent = .aiAgent ↔ agent = true := by
  cases agent with
  | true => simp [documented]
  | false =>
    simp only [documented, Bool.false_eq_true, if_false, iff_false]
    exact EventAttributor.detectSource_ne_aiAgent rfl

/-- When what the event loop stores is as documented, by who is active on the path and who is by the
agents' name of the file. -/
theorem eq_documented_iff (onPath onName : Bool) :
    (if onPath then .aiAgent else .user) = c.documented onName ↔
      if onPath then onName = true
      else onName = false ∧ c.gitActive = false ∧ c.isBuild = false := by
  rw [eq_comm]
  cases onPath with
  | true =>
    rw [if_pos rfl, if_pos rfl]
    exact c.documented_eq_aiAgent onName
  | false =>
    rw [if_neg Bool.false_ne_true, if_neg Bool.false_ne_true]
    cases onName with
    | true => simp [documented]
    | false => exact c.documented_false_eq_user.trans (and_iff_right rfl).symm

end Change

theorem DaemonServer.newWatcher_handlePath (machineId : String) (around : Surroundings)
    (kind : EventKind) (path : String) :
    (newWatcher machineId).handlePath around kind path =
      if PathFilter.default.shouldIgnore path then none
      else kind.eventType.map fun eventType =>
        .new (around.now path) eventType path "default" machineId := by
  rfl

/-- A watcher with both sends what is documented, apart from agents. -/
theorem FsWatcher.configured_handlePath {c : Change} (hexp : c.attributor.explicitSource = none)
    {projectId machineId root : String} {e : FileEvent}
    (he : ((new projectId machineId).withAttributor root).withContentDedup.handlePath
      c.surroundings c.kind c.path = some e) :
    e.source = c.documented false ∧ e.contentHash = c.contentHash := by
  have hattr : ({ c.attributor with explicitSource := none } : EventAttributor) = c.attributor := by
    rw [← hexp]
  unfold handlePath at he
  split_ifs at he
  obtain ⟨t, ht, rfl⟩ := Option.map_eq_some_iff.1 he
  simp only [Change.documented, hattr, Change.contentHash, ht, Option.some.injEq,
    Bool.false_eq_true, if_false]
  simp only [addHash, addSource, withAttributor, withContentDedup, Change.surroundings,
    FileEvent.withSource, FileEvent.new, true_and]
  split_ifs
  · rcases c.dedup.hashFile c.files (.ofString c.path) with _ | hash <;> exact ⟨rfl, rfl⟩
  · exact ⟨rfl, rfl⟩

namespace AgentServer

variable [Lowercase] (s : AgentServer) (machineId : String) (clock : String → DateTime)
  (h : Handling) (c : Change)

/-- What is new in the store is as documented. -/
def Attributed (s' : AgentServer) : Prop :=
  ∀ r ∈ s'.server.store.rows, r ∉ s.server.store.rows →
    r.source = (c.documented (s.activeAgent clock c.agentName).isSome).asStr ∧
      ∀ hash, c.contentHash = some hash → r.contentHash = some hash

variable {h} in
theorem store_serve (hrun : h.running = true) (e : FileEvent) :
    (s.step (.serve clock (.event h e))).server.store =
      if h.writes.Succeeds then
        s.server.store.insert (s.server.prepare { h with activeAgent := s.activeAgent clock } e)
      else s.server.store := by
  have hrun' : ({ h with activeAgent := s.activeAgent clock } : Handling).running = true := hrun
  exact s.server.store_handleEvent hrun'

theorem pass_of_not_passes (hc : ¬ c.Passes h) :
    (s.pass machineId clock h c).server.store = s.server.store := by
  unfold pass
  rw [DaemonServer.newWatcher_handlePath]
  unfold Change.Passes at hc
  by_cases hf : PathFilter.default.shouldIgnore c.path = true
  · rw [if_pos hf]
  rw [if_neg hf]
  rcases hk : c.kind.eventType with _ | t
  · rfl
  by_cases hrun : h.running = true
  · have hw : ¬ h.writes.Succeeds := by
      intro hw
      exact hc ⟨by simpa using hf, by simp [hk], hrun, hw⟩
    exact (s.store_serve clock hrun _).trans (if_neg hw)
  · show (EventServer.handleEvent _ _ _).store = _
    unfold EventServer.handleEvent
    rw [if_neg hrun]

/-- The row that is stored has the source of an agent or the user, and no hash. -/
theorem pass_of_passes (hc : c.Passes h) :
    ∃ e : FileEvent, (s.pass machineId clock h c).server.store = s.server.store.insert e ∧
      e.source = (if (s.activeAgent clock c.path).isSome then .aiAgent else .user) ∧
      e.contentHash = none := by
  obtain ⟨hf, hk, hrun, hw⟩ := hc
  obtain ⟨t, hk⟩ := Option.isSome_iff_exists.1 hk
  have hstore : (s.pass machineId clock h c).server.store =
      s.server.store.insert (s.server.prepare { h with activeAgent := s.activeAgent clock }
        (.new c.now t c.path "default" machineId)) := by
    unfold pass
    rw [DaemonServer.newWatcher_handlePath, if_neg (by simp [hf]), hk]
    exact (s.store_serve clock hrun _).trans (if_pos hw)
  refine ⟨_, hstore, ?_, ?_⟩
  all_goals
    dsimp only [EventServer.prepare, FileEvent.new]
    rcases s.server.registry.assign h.order c.path with _ | projectId
    all_goals
      rcases hactive : s.activeAgent clock c.path with _ | agent
      all_goals simp [FileEvent.withSource]

omit [Lowercase] in
/-- The row of an event is the only one that is new. -/
theorem attributed_of_insert {s' : AgentServer} {e : FileEvent}
    (hstore : s'.server.store = s.server.store.insert e) : s.Attributed clock c s' ↔
      e.source.asStr = (c.documented (s.activeAgent clock c.agentName).isSome).asStr ∧
        ∀ hash, c.contentHash = some hash → e.contentHash = some hash := by
  have hold : e.toRow (s.server.store.lastId + 1) ∉ s.server.store.rows := by
    intro hmem
    have := s.server.store.id_le _ hmem
    simp only [FileEvent.toRow] at this
    omega
  unfold Attributed
  rw [hstore]
  constructor
  · intro hall
    exact hall _ (by simp [EventStore.insert]) hold
  · intro hrow r hr hnew
    rcases List.mem_append.1 hr with hr | hr
    · exact absurd hr hnew
    · rw [List.mem_singleton.1 hr]
      exact hrow

/-- The event loop asks for the path, and the daemon has neither an attributor nor a deduplicator:
what is stored is as documented exactly if nothing is stored, or no hash can be taken and agents are
on the path and on the file by the name they report it under, or on neither while git is not active
and the path is no build output. -/
theorem attributed_iff :
    s.Attributed clock c (s.pass machineId clock h c) ↔ (c.Passes h →
      c.contentHash = none ∧
        if (s.activeAgent clock c.path).isSome then (s.activeAgent clock c.agentName).isSome = true
        else (s.activeAgent clock c.agentName).isSome = false ∧ c.gitActive = false ∧
          c.isBuild = false) := by
  by_cases hc : c.Passes h
  · obtain ⟨e, hstore, hsource, hhash⟩ := s.pass_of_passes machineId clock h c hc
    have hnone : (∀ hash, c.contentHash = some hash → e.contentHash = some hash) ↔
        c.contentHash = none := by
      rw [hhash]
      rcases c.contentHash with _ | hash <;> simp
    rw [s.attributed_of_insert clock c hstore, hnone, Source.asStr_injective.eq_iff, hsource,
      c.eq_documented_iff, and_comm]
    exact ⟨fun hs _ => hs, fun hs => hs hc⟩
  · refine ⟨fun _ hc' => absurd hc' hc, fun _ r hr hnew => ?_⟩
    rw [s.pass_of_not_passes machineId clock h c hc] at hr
    exact absurd hr hnew

end AgentServer

section Example

attribute [local instance] asciiLowercase

/-- A file that git writes, by the time of the index. -/
def checkout : Change where
  kind := .modify .data
  path := "/w/app/src/a.rs"
  agentName := "/w/app/src/a.rs"
  now := .epoch
  attributor := ⟨none, .default, some 0⟩
  gitIndex := .modified 1
  systemTime := 2
  dedup := ⟨10, fun _ => "h"⟩
  files := fun _ => none

def idleServer : AgentServer := ⟨.withDefaultTimeout, ⟨.new, .new, .new, []⟩⟩

/-- What git writes is stored as the user's. -/
theorem not_attributed : ¬ ∀ (s : AgentServer) (machineId : String) (clock : String → DateTime)
    (h : Handling) (c : Change), s.Attributed clock c (s.pass machineId clock h c) := by
  intro hall
  have hrow := hall idleServer "m" (fun _ => .epoch) ⟨true, [], fun _ => none, true, true⟩ checkout
    ((FileEvent.new .epoch .modified "/w/app/src/a.rs" "default" "m").toRow 1) ?_ ?_
  · exact absurd hrow.1 (by decide)
  · exact List.mem_append_right _ (List.mem_singleton.2 rfl)
  · exact List.not_mem_nil

end Example

end AmbientFs
