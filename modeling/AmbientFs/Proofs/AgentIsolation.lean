import AmbientFs.Lib.Run
import AmbientFs.Proofs.Agents
import AmbientFs.Proofs.BuildAwareness
import AmbientFs.Proofs.EventStored

/-!
# Agents and other projects

An activity changes the tracker by the names of its agent and its file alone, so what is reported
for one project shows in the awareness of another's files: in the count of a file of the same name
at once, and in who is active on a file of an agent that was seen for the project at another time.
While neither happens the awareness of the file is what it would be without the project's
activities, and it is so only then (`isolated_iff`).
-/

namespace AmbientFs

/-! ## The awareness of a file -/

namespace EventStore

/-- The rows of a file. -/
def fileRows (s : EventStore) (f : String) : List Row := s.rows.filter (·.filePath = f)

variable {s s' : EventStore} {p f : String}

theorem fileRows_insert (s : EventStore) (e : FileEvent) (f : String) :
    (s.insert e).fileRows f =
      s.fileRows f ++ if e.filePath = f then [e.toRow (s.lastId + 1)] else [] := by
  unfold fileRows
  have hrows : (s.insert e).rows = s.rows ++ [e.toRow (s.lastId + 1)] := rfl
  rw [hrows, List.filter_append]
  congr 1
  have hfile : (e.toRow (s.lastId + 1)).filePath = e.filePath := rfl
  split_ifs with hf
  · simp [hfile, hf]
  · simp [hfile, hf]

/-- The filter by which the latest event of a file is found. -/
def latestFilter (p f : String) : EventFilter :=
  { projectId := some p, filePath := some f, limit := some 1 }

theorem latestFilter_matches (r : Row) :
    (latestFilter p f).matches r = (decide (r.projectId = p) && decide (r.filePath = f)) := by
  simp [latestFilter, EventFilter.matches]

theorem filter_latest : s.rows.filter (latestFilter p f).matches =
    (s.fileRows f).filter (·.projectId = p) := by
  unfold fileRows
  rw [List.filter_filter]
  refine List.filter_congr fun r _ => ?_
  exact latestFilter_matches r

/-- The latest event of a file is found among its rows. -/
theorem getLatest_congr (h : s.fileRows f = s'.fileRows f) (planner : Planner) :
    s.getLatest planner p f = s'.getLatest planner p f := by
  have hfilter : s.rows.filter (latestFilter p f).matches =
      s'.rows.filter (latestFilter p f).matches := by
    rw [filter_latest, filter_latest, h]
  unfold getLatest select
  dsimp only
  rw [show (⟨some p, some f, none, none, some 1⟩ : EventFilter) = latestFilter p f from rfl,
    hfilter]

/-- An event of a project that has no others is its latest. -/
theorem getLatest_insert_of_new (planner : Planner) (h : ∀ r ∈ s.rows, r.projectId ≠ p)
    {e : FileEvent} (hp : e.projectId = p) (hf : e.filePath = f) (ht : e.timestamp.FourDigitYear) :
    (s.insert e).getLatest planner p f = .ok (some e) := by
  have hfilter : (s.insert e).rows.filter (latestFilter p f).matches =
      [e.toRow (s.lastId + 1)] := by
    rw [filter_latest, fileRows_insert, if_pos hf, List.filter_append]
    have hnone : (s.fileRows f).filter (·.projectId = p) = [] := by
      rw [List.filter_eq_nil_iff]
      intro r hr
      simpa using h r (List.mem_of_mem_filter hr)
    have hproject : (e.toRow (s.lastId + 1)).projectId = p := hp
    simp [hnone, hproject]
  have hvisit := (planner.perm (latestFilter p f) [e.toRow (s.lastId + 1)]).eq_singleton
  unfold getLatest select
  dsimp only
  rw [show (⟨some p, some f, none, none, some 1⟩ : EventFilter) = latestFilter p f from rfl,
    hfilter, hvisit]
  simp [FileEvent.toEvent_toRow ht, Except.map]

end EventStore

namespace Disk

variable {ι : Type} [DecidableEq ι] (d : Disk ι) (path : PathBuf) {events events' : EventStore}

@[simp] theorem opens_withEvents : (d.withEvents path events).opens = d.opens := by
  unfold withEvents
  split <;> rfl

@[simp] theorem cache_withEvents (i : ι) :
    ((d.withEvents path events).file i).cache = (d.file i).cache := by
  unfold withEvents
  split
  · rfl
  · rename_i j _
    by_cases hj : i = j
    · subst hj
      simp
    · simp [hj]

theorem getLatest_withEvents (planner : Planner) (p f : String) :
    (d.withEvents path events).getLatest planner path p f =
      if (d.opens path).isSome then
        match events.getLatest planner p f with
        | .error _ => .error .store
        | .ok event => .ok event
      else .error .store := by
  unfold getLatest
  rw [opens_withEvents]
  rcases h : d.opens path with _ | i
  · rfl
  · rcases he : events.getLatest planner p f with e | event
    · simp [withEvents, h, he]
    · simp [withEvents, h, he]

/-- The awareness of a file depends on its events, its agent and its count. -/
theorem buildAwareness_withEvents_congr {p f : String} (planner : Planner)
    (h : events.getLatest planner p f = events'.getLatest planner p f)
    (agent : Option String) (count : UInt32) (now : DateTime) :
    (d.withEvents path events).buildAwareness planner path p f agent count now =
      (d.withEvents path events').buildAwareness planner path p f agent count now := by
  unfold buildAwareness
  simp only [getLatest_withEvents, h, opens_withEvents, cache_withEvents]

end Disk

/-! ## One action of the server -/

namespace EventServer

variable (s : EventServer)

theorem projects_scheduleAnalysis (e : FileEvent) :
    (s.scheduleAnalysis e).registry = s.registry := by
  obtain ⟨analyses, heq⟩ := s.scheduleAnalysis_eq e
  rw [heq]

theorem projects_updateTree [Lowercase] (e : FileEvent) :
    (s.updateTree e).registry.projects = s.registry.projects := by
  unfold updateTree
  rcases s.registry.trees e.projectId with _ | tree
  · rfl
  · dsimp only
    rcases (tree.applyEvent e).2 <;> rfl

theorem projects_handleEvent [Lowercase] (h : Handling) (event : FileEvent) :
    (s.handleEvent h event).registry.projects = s.registry.projects := by
  unfold handleEvent
  split_ifs
  · dsimp only
    rw [projects_scheduleAnalysis, projects_updateTree]
    unfold publish persist
    split_ifs <;> rfl
  · rfl

/-- A request to attribute a file stores what it says, or nothing. -/
theorem exists_handleAttribute (params : Option AttributeParams) (machineId : String)
    (now : DateTime) (w : Writes) : ∃ stored : Option FileEvent, ∀ s : EventServer,
      (s.handleAttribute params machineId now w).1.store =
        stored.elim s.store s.store.insert ∧
      (s.handleAttribute params machineId now w).1.registry = s.registry := by
  unfold handleAttribute
  rcases params with _ | ⟨_ | filePath, _ | projectId, _ | source, sourceId⟩
  · exact ⟨none, fun _ => ⟨rfl, rfl⟩⟩
  all_goals try exact ⟨none, fun _ => ⟨rfl, rfl⟩⟩
  dsimp only
  rcases Source.fromStr source with e | source
  · exact ⟨none, fun _ => ⟨rfl, rfl⟩⟩
  dsimp only
  rcases w with ⟨_ | _, _ | _⟩
  · exact ⟨none, fun _ => ⟨rfl, rfl⟩⟩
  · exact ⟨none, fun _ => ⟨rfl, rfl⟩⟩
  · exact ⟨none, fun _ => ⟨rfl, rfl⟩⟩
  · exact ⟨some _, fun _ => ⟨rfl, rfl⟩⟩

/-- Preparing an event looks at the projects, and at whether an agent is active on its file. -/
theorem prepare_congr {s s' : EventServer} (hp : s.registry.projects = s'.registry.projects)
    {h h' : Handling} (ho : h.order = h'.order) {event : FileEvent}
    (ha : (h.activeAgent event.filePath).isSome = (h'.activeAgent event.filePath).isSome) :
    s.prepare h event = s'.prepare h' event := by
  have hassign : s.registry.assign h.order event.filePath =
      s'.registry.assign h'.order event.filePath := by
    unfold Registry.assign
    rw [hp, ho]
  unfold prepare
  rw [hassign]
  rcases s'.registry.assign h'.order event.filePath with _ | id
  all_goals
    dsimp only
    rcases hx : h.activeAgent event.filePath with _ | x
    · rw [hx] at ha
      rcases hx' : h'.activeAgent event.filePath with _ | x'
      · rfl
      · simp [hx'] at ha
    · rw [hx] at ha
      rcases hx' : h'.activeAgent event.filePath with _ | x'
      · simp [hx'] at ha
      · rfl

end EventServer

namespace AgentServer

open AgentTracker

/-- What the awareness of the files of this name and the next events of them depend on, agents
left out. -/
structure SameFile (f : String) (a b : AgentServer) : Prop where
  projects : a.server.registry.projects = b.server.registry.projects
  lastId : a.server.store.lastId = b.server.store.lastId
  rows : a.server.store.fileRows f = b.server.store.fileRows f

/-- The agents that hold the file were last seen at the same time, and its counts agree. -/
structure SameAgents (f : String) (a b : AgentTracker) : Prop where
  timeout : a.staleTimeout = b.staleTimeout
  holds : ∀ agent seen, a.Holds f agent seen ↔ b.Holds f agent seen
  count : a.getReferenceCount f = b.getReferenceCount f

variable {f : String} {a b : AgentServer} {t t' : AgentTracker}

theorem SameFile.insert (h : SameFile f a b) {e e' : FileEvent}
    (he : e = e' ∨ e.filePath ≠ f ∧ e'.filePath ≠ f) :
    (a.server.store.insert e).lastId = (b.server.store.insert e').lastId ∧
      (a.server.store.insert e).fileRows f = (b.server.store.insert e').fileRows f := by
  refine ⟨congrArg (· + 1) h.lastId, ?_⟩
  rw [EventStore.fileRows_insert, EventStore.fileRows_insert, h.rows, h.lastId]
  rcases he with rfl | ⟨he, he'⟩
  · rfl
  · rw [if_neg he, if_neg he']

theorem SameAgents.refl (t : AgentTracker) : SameAgents f t t := ⟨rfl, fun _ _ => .rfl, rfl⟩

theorem SameFile.refl (a : AgentServer) : SameFile f a a := ⟨rfl, rfl, rfl⟩

theorem SameAgents.update (h : SameAgents f t t') (x : AgentActivity) (now : DateTime) :
    SameAgents f (t.updateFromActivity x now) (t'.updateFromActivity x now) := by
  refine ⟨h.timeout, fun agent seen => ?_, ?_⟩
  · simp only [holds_update, h.holds]
  · rw [getReferenceCount_update, getReferenceCount_update, h.count]

theorem SameAgents.leads_iff (h : SameAgents f t t') {clock : String → DateTime}
    {agent : String} : t.Leads clock f agent ↔ t'.Leads clock f agent := by
  unfold Leads
  simp only [h.holds, h.timeout]

theorem SameAgents.isSome_active (h : SameAgents f t t') (clock : String → DateTime) :
    (t.getActiveAgent clock f t.agents.entries).isSome =
      (t'.getActiveAgent clock f t'.agents.entries).isSome := by
  rw [Bool.eq_iff_iff, Option.isSome_iff_ne_none, Option.isSome_iff_ne_none, not_iff_not,
    active_eq_none (.refl _), active_eq_none (.refl _)]
  simp only [h.holds, h.timeout]

section Step

variable [Lowercase]

theorem store_event (s : AgentServer) (clock : String → DateTime) {hd : Handling}
    (hrun : hd.running = true) (event : FileEvent) :
    (s.step (.serve clock (.event hd event))).server.store =
      if hd.writes.Succeeds then s.server.store.insert
        (s.server.prepare { hd with activeAgent := s.activeAgent clock } event)
      else s.server.store :=
  EventServer.store_handleEvent (h := { hd with activeAgent := s.activeAgent clock }) s.server hrun

/-- Events and requests keep what the awareness of a file depends on the same. -/
theorem SameFile.serve (h : SameFile f a b) (ha : SameAgents f a.tracker b.tracker)
    (clock : String → DateTime) (x : EventAction) :
    SameFile f (a.step (.serve clock x)) (b.step (.serve clock x)) := by
  cases x with
  | event hd event =>
    have hprojects : (a.step (.serve clock (.event hd event))).server.registry.projects =
        (b.step (.serve clock (.event hd event))).server.registry.projects := by
      simp only [step, EventAction.withActive, EventServer.step,
        EventServer.projects_handleEvent, h.projects]
    by_cases hrun : hd.running = true
    · have hprep : a.server.prepare { hd with activeAgent := a.activeAgent clock } event =
            b.server.prepare { hd with activeAgent := b.activeAgent clock } event ∨
          (a.server.prepare { hd with activeAgent := a.activeAgent clock } event).filePath ≠ f ∧
            (b.server.prepare { hd with activeAgent := b.activeAgent clock } event).filePath
              ≠ f := by
        by_cases hf : event.filePath = f
        · subst hf
          refine .inl (EventServer.prepare_congr h.projects ?_ ?_)
          · rfl
          · exact ha.isSome_active clock
        · refine .inr ⟨?_, ?_⟩
          · rwa [EventServer.prepare_filePath]
          · rwa [EventServer.prepare_filePath]
      have hins := h.insert hprep
      refine ⟨hprojects, ?_, ?_⟩
      all_goals
        rw [a.store_event clock hrun, b.store_event clock hrun]
        split_ifs
      · exact hins.1
      · exact h.lastId
      · exact hins.2
      · exact h.rows
    · have hstep : ∀ s : AgentServer, (s.step (.serve clock (.event hd event))).server =
          s.server := fun s => if_neg hrun
      exact ⟨hprojects, by rw [hstep, hstep, h.lastId], by rw [hstep, hstep, h.rows]⟩
  | attribution params machineId now w =>
    obtain ⟨stored, hstored⟩ := EventServer.exists_handleAttribute params machineId now w
    have hstep : ∀ s : AgentServer,
        (s.step (.serve clock (.attribution params machineId now w))).server =
          (s.server.handleAttribute params machineId now w).1 := fun _ => rfl
    refine ⟨?_, ?_, ?_⟩
    · rw [hstep, hstep, (hstored _).2, (hstored _).2, h.projects]
    all_goals
      rw [hstep, hstep, (hstored _).1, (hstored _).1]
      rcases stored with _ | e
    · exact h.lastId
    · exact (h.insert (.inl rfl)).1
    · exact h.rows
    · exact (h.insert (.inl rfl)).2
  | subscribe projectId => exact ⟨h.projects, h.lastId, h.rows⟩
  | unsubscribe projectId => exact ⟨h.projects, h.lastId, h.rows⟩
  | register r => exact ⟨rfl, h.lastId, h.rows⟩

end Step

/-! ## The awareness and the agents -/

section Awareness

variable {ι : Type} [DecidableEq ι] (d : Disk ι) (planner : Planner) (storePath : PathBuf)
  {p : String} (clock : String → DateTime) (now : DateTime)

/-- Where the agents and the rows of a file are the same, so is its awareness. -/
theorem awareness_subset (h : SameFile f a b) (ha : SameAgents f a.tracker b.tracker) :
    a.awareness d planner storePath p f clock now ⊆
      b.awareness d planner storePath p f clock now := by
  rintro r ⟨visited, hperm, rfl⟩
  have hcongr : ∀ visited' : List AgentEntry,
      b.tracker.getActiveAgent clock f visited' = a.tracker.getActiveAgent clock f visited →
      (d.withEvents storePath a.server.store).buildAwareness planner storePath p f
          (a.tracker.getActiveAgent clock f visited) (a.tracker.getReferenceCount f) now =
        (d.withEvents storePath b.server.store).buildAwareness planner storePath p f
          (b.tracker.getActiveAgent clock f visited') (b.tracker.getReferenceCount f) now := by
    intro visited' heq
    rw [heq, ha.count]
    exact d.buildAwareness_withEvents_congr storePath planner
      (EventStore.getLatest_congr h.rows planner) _ _ _
  rcases hactive : a.tracker.getActiveAgent clock f visited with _ | agent
  · refine ⟨b.tracker.agents.entries, .refl _, ?_⟩
    rw [← hactive]
    refine hcongr _ ?_
    rw [hactive, active_eq_none (.refl _)]
    intro agent seen hb
    rw [← ha.timeout]
    exact (active_eq_none hperm).1 hactive agent seen ((ha.holds agent seen).2 hb)
  · obtain ⟨visited', hperm', heq⟩ :=
      (ha.leads_iff.1 (leads_of_active hperm hactive)).exists_active
    refine ⟨visited', hperm', ?_⟩
    rw [← hactive]
    exact hcongr visited' (heq.trans hactive.symm)

theorem SameFile.symm (h : SameFile f a b) : SameFile f b a :=
  ⟨h.projects.symm, h.lastId.symm, h.rows.symm⟩

theorem SameAgents.symm (h : SameAgents f t t') : SameAgents f t' t :=
  ⟨h.timeout.symm, fun agent seen => (h.holds agent seen).symm, h.count.symm⟩

theorem awareness_eq (h : SameFile f a b) (ha : SameAgents f a.tracker b.tracker) :
    a.awareness d planner storePath p f clock now = b.awareness d planner storePath p f clock now :=
  (awareness_subset d planner storePath clock now h ha).antisymm
    (awareness_subset d planner storePath clock now h.symm ha.symm)

end Awareness

/-- A disk on which every path opens one file, without an analysis. -/
def oneFile : Disk Unit := ⟨fun _ => some (), fun _ => ⟨.new, .empty⟩⟩

/-- The awareness of a file that has an event and no analysis. -/
def plainAwareness (e : FileEvent) (agent : Option String) (count : UInt32) (now : DateTime) :
    FileAwareness where
  filePath := e.filePath
  projectId := e.projectId
  lastModified := e.timestamp
  modifiedBy := e.source
  modifiedByLabel := e.sourceId
  activeAgent := agent
  chatReferences := count
  todoCount := 0
  lintHints := 0
  lineCount := 0
  changeFrequency := .fromAge e.timestamp now

theorem mem_awareness {planner : Planner} {storePath : PathBuf} {p : String} {e : FileEvent}
    (he : a.server.store.getLatest planner p f = .ok (some e)) {clock : String → DateTime}
    {now : DateTime} {r : Except AwarenessError (Option FileAwareness)} :
    r ∈ a.awareness oneFile planner storePath p f clock now ↔
      ∃ visited : List AgentEntry, visited.Perm a.tracker.agents.entries ∧
        r = .ok (some (plainAwareness e (a.tracker.getActiveAgent clock f visited)
          (a.tracker.getReferenceCount f) now)) := by
  have hbuild : ∀ agent count,
      (oneFile.withEvents storePath a.server.store).buildAwareness planner storePath p f agent
        count now = .ok (some (plainAwareness e agent count now)) := by
    intro agent count
    have hcache : ((oneFile.withEvents storePath a.server.store).file ()).cache.get p f = none := by
      rw [Disk.cache_withEvents]
      rfl
    have hopens : ∀ path, oneFile.opens path = some () := fun _ => rfl
    unfold Disk.buildAwareness
    simp only [Disk.getLatest_withEvents, he, Disk.opens_withEvents, hopens, Option.isSome_some,
      if_true, hcache, Option.map_none, Option.getD_none]
    rfl
  unfold awareness
  simp only [hbuild]
  rfl

/-- Where two servers answer alike for a file with an event, their counts and those who lead on it
are the same. -/
theorem agents_of_awareness {planner : Planner} {storePath : PathBuf} {p : String}
    {e : FileEvent} (ha : a.server.store.getLatest planner p f = .ok (some e))
    (hb : b.server.store.getLatest planner p f = .ok (some e)) {clock : String → DateTime}
    {now : DateTime} (h : a.awareness oneFile planner storePath p f clock now =
      b.awareness oneFile planner storePath p f clock now) :
    a.tracker.getReferenceCount f = b.tracker.getReferenceCount f ∧
      ∀ agent, a.tracker.Leads clock f agent → b.tracker.Leads clock f agent := by
  have hmem : ∀ visited : List AgentEntry, visited.Perm a.tracker.agents.entries →
      ∃ visited' : List AgentEntry, visited'.Perm b.tracker.agents.entries ∧
        a.tracker.getActiveAgent clock f visited = b.tracker.getActiveAgent clock f visited' ∧
        a.tracker.getReferenceCount f = b.tracker.getReferenceCount f := by
    intro visited hperm
    have hr : .ok (some (plainAwareness e (a.tracker.getActiveAgent clock f visited)
        (a.tracker.getReferenceCount f) now)) ∈
          a.awareness oneFile planner storePath p f clock now :=
      (mem_awareness ha).2 ⟨visited, hperm, rfl⟩
    rw [h, mem_awareness hb] at hr
    obtain ⟨visited', hperm', heq⟩ := hr
    have heq := Option.some.inj (Except.ok.inj heq)
    exact ⟨visited', hperm', congrArg FileAwareness.activeAgent heq,
      congrArg FileAwareness.chatReferences heq⟩
  refine ⟨?_, fun agent hleads => ?_⟩
  · obtain ⟨-, -, -, hcount⟩ := hmem _ (.refl _)
    exact hcount
  · obtain ⟨visited, hperm, hactive⟩ := hleads.exists_active
    obtain ⟨visited', hperm', heq, -⟩ := hmem visited hperm
    exact leads_of_active hperm' (heq ▸ hactive)

end AgentServer

/-! ## With and without a project's activities -/

/-- An activity that is reported for the project. -/
def AgentAction.forProject (x : String) : AgentAction → Bool
  | .report a _ => a.project = some x
  | .serve _ _ => false

namespace AgentServer

open AgentTracker

section Isolation

variable [Lowercase] (x f : String)

/-- The actions without the activities that are reported for the project. -/
def without (l : List AgentAction) : List AgentAction := l.filter fun y => !y.forProject x

/-- Two servers answer alike for the file in every other project. -/
def AnswersAlike (a b : AgentServer) : Prop :=
  ∀ (ι : Type) [DecidableEq ι] (d : Disk ι) (planner : Planner) (storePath : PathBuf) (p : String)
    (clock : String → DateTime) (now : DateTime), p ≠ x →
    a.awareness d planner storePath p f clock now = b.awareness d planner storePath p f clock now

/-- At every moment of a run, and for as long as nothing more is reported for the project, the
file's awareness in every other project is what it is without what was reported for it. -/
def Isolated (s : AgentServer) (l : List AgentAction) : Prop :=
  ∀ pre c, pre <+: l → (∀ y ∈ c, y.forProject x = false) →
    AnswersAlike x f (Run.after step s (pre ++ c)) (Run.after step s (without x (pre ++ c)))

/-- What is reported for the project is about another file, and of an agent that does not hold
the file, or was last seen at the same time. -/
def Avoids (s : AgentServer) : AgentAction → Prop
  | .report a now => a.project = some x →
      a.file ≠ f ∧ ∀ seen, s.tracker.Holds f a.agent seen → seen = a.timestamp now
  | .serve _ _ => True

/-- One action, taken on the left, and on the right if it is not reported for the project. -/
def both (s : AgentServer × AgentServer) (y : AgentAction) : AgentServer × AgentServer :=
  (s.1.step y, if y.forProject x then s.2 else s.2.step y)

/-- What two servers answer, as long as nothing more is reported for the project. -/
def StayAlike (s : AgentServer × AgentServer) : Prop :=
  ∀ c : List AgentAction, (∀ y ∈ c, y.forProject x = false) →
    AnswersAlike x f (Run.after step s.1 c) (Run.after step s.2 c)

structure Inv (s : AgentServer × AgentServer) : Prop where
  file : SameFile f s.1 s.2
  agents : SameAgents f s.1.tracker s.2.tracker
  timeout : 0 ≤ s.1.tracker.staleTimeout

variable {x f} {s : AgentServer × AgentServer}

theorem Inv.same (h : Inv f s) (y : AgentAction) : Inv f (s.1.step y, s.2.step y) := by
  cases y with
  | report a now =>
    exact ⟨⟨h.file.projects, h.file.lastId, h.file.rows⟩, h.agents.update a now, h.timeout⟩
  | serve clock y => exact ⟨h.file.serve h.agents clock y, h.agents, h.timeout⟩

theorem Inv.both (h : Inv f s) {y : AgentAction} (hy : s.1.Avoids x f y) : Inv f (both x s y) := by
  unfold AgentServer.both
  by_cases hx : y.forProject x = true
  · rw [if_pos hx]
    cases y with
    | report a now =>
      obtain ⟨hfile, hseen⟩ := hy (by simpa [AgentAction.forProject] using hx)
      refine ⟨⟨h.file.projects, h.file.lastId, h.file.rows⟩, ⟨h.agents.timeout, ?_, ?_⟩, h.timeout⟩
      · intro agent seen
        rw [← h.agents.holds]
        simp only [step, holds_update, if_neg hfile]
        split_ifs with ha
        · subst ha
          constructor
          · rintro ⟨rfl, seen', hs⟩
            rwa [← hseen seen' hs]
          · exact fun hs => ⟨hseen seen hs, seen, hs⟩
        · rfl
      · simp only [step, getReferenceCount_update, if_neg hfile]
        exact h.agents.count
    | serve clock y => simp [AgentAction.forProject] at hx
  · rw [if_neg hx]
    exact h.same y

theorem Inv.stayAlike (h : Inv f s) : StayAlike x f s := by
  intro c _ ι _ d planner storePath p clock now _
  have hc : Inv f (Run.after step s.1 c, Run.after step s.2 c) := by
    induction c using List.reverseRecOn with
    | nil => exact h
    | append_singleton c y ih =>
      rw [Run.after_snoc, Run.after_snoc]
      exact (ih (by simp_all)).same y
  exact awareness_eq d planner storePath clock now hc.file hc.agents

/-! ### What gives an activity away -/

/-- An event of a file, put in by a request. -/
def attribution (p f : String) : AgentAction :=
  .serve (fun _ => .epoch) (.attribution (some ⟨some f, some p, some "user", none⟩) "" .epoch
    ⟨true, true⟩)

/-- As long as two servers answer alike, their counts and those who lead on the file agree. -/
theorem StayAlike.agents (h : StayAlike x f s) :
    s.1.tracker.getReferenceCount f = s.2.tracker.getReferenceCount f ∧
      ∀ clock agent, s.1.tracker.Leads clock f agent ↔ s.2.tracker.Leads clock f agent := by
  obtain ⟨p, hp⟩ := Infinite.exists_notMem_finset
    (insert x (s.1.server.store.rows.map (·.projectId) ++
      s.2.server.store.rows.map (·.projectId)).toFinset)
  simp only [Finset.mem_insert, List.mem_toFinset, List.mem_append, List.mem_map, not_or,
    not_exists, not_and] at hp
  obtain ⟨hpx, hp₁, hp₂⟩ := hp
  have hlatest : ∀ a : AgentServer, (∀ r ∈ a.server.store.rows, r.projectId ≠ p) →
      (a.step (attribution p f)).server.store.getLatest .byId p f =
        .ok (some ((FileEvent.new .epoch .modified f p "").withSource .user)) := by
    intro a ha
    refine EventStore.getLatest_insert_of_new .byId ha rfl rfl ?_
    show DateTime.epoch.FourDigitYear
    decide
  have hl₁ := hlatest s.1 hp₁
  have hl₂ := hlatest s.2 hp₂
  have halike := fun clock => h [attribution p f] (by simp [attribution, AgentAction.forProject])
    Unit oneFile .byId (.ofString "") p clock .epoch hpx
  have hiff := fun clock => agents_of_awareness hl₁ hl₂ (halike clock)
  have hiff' := fun clock => agents_of_awareness hl₂ hl₁ (halike clock).symm
  exact ⟨(hiff fun _ => .epoch).1, fun clock agent => ⟨(hiff clock).2 agent, (hiff' clock).2 agent⟩⟩

theorem StayAlike.after (h : StayAlike x f s) {c : List AgentAction}
    (hc : ∀ y ∈ c, y.forProject x = false) :
    StayAlike x f (Run.after step s.1 c, Run.after step s.2 c) := by
  intro c' hc'
  have hall : ∀ y ∈ c ++ c', y.forProject x = false := by
    intro y hy
    rcases List.mem_append.1 hy with hy | hy
    · exact hc y hy
    · exact hc' y hy
  have := h (c ++ c') hall
  rwa [Run.after_append, Run.after_append] at this

/-- An agent says that it is finished with the file. -/
def finish (f agent : String) : AgentAction :=
  .report { ts := 0, agent := agent, action := "", file := f, done := some true } .epoch

/-- An agent says that it is working on the file, and is seen then. -/
def work (f agent : String) (seen : DateTime) : AgentAction :=
  .report { ts := maxSecs + 1, agent := agent, action := "", file := f } seen

theorem holds_finish {a : AgentServer} {g agent : String} {seen : DateTime} :
    (a.step (finish f g)).tracker.Holds f agent seen ↔
      agent ≠ g ∧ a.tracker.Holds f agent seen := by
  simp only [step, finish, holds_update, if_true]
  split_ifs with hg
  · simp [AgentActivity.isDone, hg]
  · simp [hg]

theorem holds_after_finish {a : AgentServer} {agent : String} {seen : DateTime} :
    ∀ agents : List String,
      (Run.after step a (agents.map (finish f))).tracker.Holds f agent seen ↔
        agent ∉ agents ∧ a.tracker.Holds f agent seen := by
  intro agents
  induction agents using List.reverseRecOn with
  | nil => simp
  | append_singleton agents g ih =>
    rw [List.map_append, List.map_singleton, Run.after_snoc, holds_finish, ih]
    simp only [List.mem_append, List.mem_singleton, not_or]
    tauto

theorem holds_work {a : AgentServer} {g agent : String} {seen seen' : DateTime} :
    (a.step (work f g seen)).tracker.Holds f agent seen' ↔
      if agent = g then seen' = seen else a.tracker.Holds f agent seen' := by
  have htime : ∀ activity : AgentActivity, activity.ts = maxSecs + 1 →
      activity.timestamp seen = seen := by
    intro activity hts
    have hnone : DateTime.timestampOpt (maxSecs + 1) = none := by decide
    simp [AgentActivity.timestamp, hts, hnone]
  simp only [step, work, holds_update, if_true, AgentActivity.isDone, Option.getD_none, and_true]
  split_ifs
  · rw [htime _ rfl]
  · rfl

/-- The tracker's timeout stays. -/
theorem staleTimeout_step (a : AgentServer) (y : AgentAction) :
    (a.step y).tracker.staleTimeout = a.tracker.staleTimeout := by
  cases y <;> rfl

theorem staleTimeout_after (a : AgentServer) (l : List AgentAction) :
    (Run.after step a l).tracker.staleTimeout = a.tracker.staleTimeout := by
  induction l using List.reverseRecOn with
  | nil => rfl
  | append_singleton l y ih => rw [Run.after_snoc, staleTimeout_step, ih]

/-- Two servers on which one agent alone holds the file, seen at different times, do not answer
alike: another agent that is seen at the earlier time leads on the one, and not on the other. -/
theorem not_stayAlike_of_alone {agent : String} {seen seen' : DateTime}
    (h₁ : ∀ b when, s.1.tracker.Holds f b when ↔ b = agent ∧ when = seen)
    (h₂ : ∀ b when, s.2.tracker.Holds f b when ↔ b = agent ∧ when = seen')
    (ht₁ : 0 ≤ s.1.tracker.staleTimeout) (ht₂ : 0 ≤ s.2.tracker.staleTimeout)
    (hlt : seen.nanos < seen'.nanos) : ¬ StayAlike x f s := by
  intro h
  have hne : agent ++ "'" ≠ agent := by
    intro heq
    have := congrArg String.length heq
    simp at this
  have hw : ∀ y ∈ [work f (agent ++ "'") seen], y.forProject x = false := by
    simp [work, AgentAction.forProject]
  have hleads := (h.after hw).agents.2 (fun _ => seen) (agent ++ "'")
  have hholds : ∀ a : AgentServer, ∀ when', (∀ b when, a.tracker.Holds f b when ↔
      b = agent ∧ when = when') → ∀ b when,
      (Run.after step a [work f (agent ++ "'") seen]).tracker.Holds f b when ↔
        b = agent ++ "'" ∧ when = seen ∨ b = agent ∧ when = when' := by
    intro a when' ha b when
    rw [Run.after_cons, Run.after_nil, holds_work, ha]
    split_ifs with hb
    · subst hb
      simp [hne]
    · simp [hb]
  have hfirst : (Run.after step s.1 [work f (agent ++ "'") seen]).tracker.Leads (fun _ => seen) f
      (agent ++ "'") := by
    refine ⟨seen, (hholds s.1 seen h₁ _ _).2 (.inl ⟨rfl, rfl⟩), ?_, ?_⟩
    · rw [staleTimeout_after, sub_self]
      exact ht₁
    · intro b when hb _
      rcases (hholds s.1 seen h₁ _ _).1 hb with ⟨-, rfl⟩ | ⟨-, rfl⟩
      · exact le_rfl
      · exact le_rfl
  obtain ⟨when, hwhen, -, hmax⟩ := hleads.1 hfirst
  have hlater := hmax agent seen' ((hholds s.2 seen' h₂ _ _).2 (.inr ⟨rfl, rfl⟩))
    (by rw [staleTimeout_after]; exact (sub_neg.2 hlt).le.trans ht₂)
  rcases (hholds s.2 seen' h₂ _ _).1 hwhen with ⟨-, rfl⟩ | ⟨heq, -⟩
  · omega
  · exact hne heq

theorem StayAlike.symm (h : StayAlike x f s) : StayAlike x f (s.2, s.1) := by
  intro c hc ι _ d planner storePath p clock now hp
  exact (h c hc ι d planner storePath p clock now hp).symm

/-- An activity that does not avoid the file shows, at once or later. -/
theorem Inv.not_stayAlike (h : Inv f s) {y : AgentAction} (hy : ¬ s.1.Avoids x f y) :
    ¬ StayAlike x f (AgentServer.both x s y) := by
  intro halike
  cases y with
  | serve clock y => exact hy trivial
  | report a now =>
    simp only [Avoids, Classical.not_imp, not_and_or, not_not] at hy
    obtain ⟨hx, hy⟩ := hy
    have hboth : AgentServer.both x s (.report a now) = (s.1.step (.report a now), s.2) := by
      simp [AgentServer.both, AgentAction.forProject, hx]
    rw [hboth] at halike
    by_cases hfile : a.file = f
    · have hcount := halike.agents.1
      rw [step, getReferenceCount_update, if_pos hfile, ← h.agents.count] at hcount
      simp at hcount
    · simp only [hfile, false_or, not_forall] at hy
      obtain ⟨seen, hseen, hne⟩ := hy
      have hstep : ∀ b when, (s.1.step (.report a now)).tracker.Holds f b when ↔
          if b = a.agent then when = a.timestamp now else s.1.tracker.Holds f b when := by
        intro b when
        simp only [step, holds_update, if_neg hfile]
        split_ifs with hb
        · subst hb
          exact and_iff_left ⟨seen, hseen⟩
        · rfl
      -- the others finish the file, so this agent alone is left with it
      let others := s.1.tracker.agents.keys.filter (· ≠ a.agent)
      have hothers : ∀ b when, s.1.tracker.Holds f b when → (b ∉ others ↔ b = a.agent) := by
        rintro b when ⟨state, hb, -⟩
        have hmem : b ∈ s.1.tracker.agents.keys := AList.lookup_isSome.1 (by simp [hb])
        simp [others, hmem]
      have hreal : ∀ b when,
          (Run.after step (s.1.step (.report a now)) (others.map (finish f))).tracker.Holds f b
            when ↔ b = a.agent ∧ when = a.timestamp now := by
        intro b when
        rw [holds_after_finish, hstep]
        by_cases hb : b = a.agent
        · subst hb
          simp [others]
        · rw [if_neg hb]
          refine iff_of_false (fun hh => hb ((hothers b when hh.2).1 hh.1)) fun hh => hb hh.1
      have herased : ∀ b when,
          (Run.after step s.2 (others.map (finish f))).tracker.Holds f b when ↔
            b = a.agent ∧ when = seen := by
        intro b when
        rw [holds_after_finish, ← h.agents.holds]
        constructor
        · rintro ⟨hb, hh⟩
          obtain rfl := (hothers b when hh).1 hb
          exact ⟨rfl, hh.unique hseen⟩
        · rintro ⟨rfl, rfl⟩
          exact ⟨(hothers _ _ hseen).2 rfl, hseen⟩
      have hafter := halike.after (c := others.map (finish f)) (by
        simp [finish, AgentAction.forProject])
      have ht₁ : 0 ≤ (Run.after step (s.1.step (.report a now))
          (others.map (finish f))).tracker.staleTimeout := by
        rw [staleTimeout_after]
        exact h.timeout
      have ht₂ : 0 ≤ (Run.after step s.2 (others.map (finish f))).tracker.staleTimeout := by
        rw [staleTimeout_after, ← h.agents.timeout]
        exact h.timeout
      rcases lt_trichotomy seen.nanos (a.timestamp now).nanos with hlt | heq | hlt
      · exact not_stayAlike_of_alone herased hreal ht₂ ht₁ hlt hafter.symm
      · exact hne (DateTime.ext heq)
      · exact not_stayAlike_of_alone hreal herased ht₁ ht₂ hlt hafter

/-! ### Every run -/

/-- The server as it starts, with the store and the registry it finds. -/
def start (server : EventServer) : AgentServer := ⟨.withDefaultTimeout, server⟩

theorem after_both (x : String) (a : AgentServer) (l : List AgentAction) :
    Run.after (AgentServer.both x) (a, a) l =
      (Run.after step a l, Run.after step a (without x l)) := by
  induction l using List.reverseRecOn with
  | nil => rfl
  | append_singleton l y ih =>
    unfold without at ih ⊢
    rw [Run.after_snoc, ih, Run.after_snoc, List.filter_append, Run.after_append]
    cases hy : y.forProject x <;> simp [AgentServer.both, hy, Run.after_cons]

omit [Lowercase] in
theorem without_append_of_not {l c : List AgentAction} (hc : ∀ y ∈ c, y.forProject x = false) :
    without x (l ++ c) = without x l ++ c := by
  have hself : c.filter (fun y => !y.forProject x) = c :=
    List.filter_eq_self.2 fun y hy => by simp [hc y hy]
  unfold without
  rw [List.filter_append, hself]

theorem isolated_iff_always {a : AgentServer} {l : List AgentAction} : Isolated x f a l ↔
    Run.Always (AgentServer.both x) (a, a) (StayAlike x f) l := by
  constructor
  · intro h pre hpre c hc
    have := h pre c hpre hc
    rw [without_append_of_not hc, Run.after_append, Run.after_append] at this
    rw [after_both]
    exact this
  · intro h pre c hpre hc
    have := h pre hpre c hc
    rw [after_both] at this
    rwa [without_append_of_not hc, Run.after_append, Run.after_append]

theorem steps_avoids {a : AgentServer} {l : List AgentAction} :
    Run.Steps (AgentServer.both x) (a, a) (fun s => s.1.Avoids x f) l ↔
      Run.Steps step a (Avoids x f) l :=
  Run.steps_map (g := Prod.fst) (fun _ _ => rfl)

omit [Lowercase] in
theorem inv_start (f : String) (server : EventServer) : Inv f (start server, start server) :=
  ⟨.refl _, .refl _, show (0 : ℤ) ≤ 300 * nanosPerSec by decide⟩

/-- **What is reported for a project shows in no other project's awareness of a file exactly if it
names other files and moves no agent that holds the file. Two runs that differ in such reports
only have the same awareness of it.** -/
theorem isolated_iff (x f : String) (server : EventServer) (l : List AgentAction) :
    (Isolated x f (start server) l ↔ Run.Steps step (start server) (Avoids x f) l) ∧
      (Run.Steps step (start server) (Avoids x f) l → ∀ l', without x l' = without x l →
        Run.Steps step (start server) (Avoids x f) l' →
        AnswersAlike x f (Run.after step (start server) l) (Run.after step (start server) l')) := by
  have hsound : ∀ l, Run.Steps step (start server) (Avoids x f) l →
      Inv f (Run.after step (start server) l, Run.after step (start server) (without x l)) := by
    intro l hl
    rw [← after_both]
    exact (steps_avoids.2 hl).after (inv_start f server) fun _ _ h hy => h.both hy
  refine ⟨?_, fun hl l' heq hl' => ?_⟩
  · rw [isolated_iff_always, ← steps_avoids]
    exact Run.always_iff_steps (inv_start f server) (fun _ h => h.stayAlike)
      (fun _ _ h hy => h.both hy) (fun _ _ h hy => h.not_stayAlike hy)
  · intro ι _ d planner storePath p clock now hp
    have h := (hsound l hl).stayAlike [] (by simp) ι d planner storePath p clock now hp
    have h' := (hsound l' hl').stayAlike [] (by simp) ι d planner storePath p clock now hp
    rw [heq] at h'
    exact h.trans h'.symm

end Isolation

attribute [local instance] asciiLowercase

/-- One report for another project is counted. -/
theorem not_isolated : ¬ ∀ l l', without "x" l = without "x" l' →
    AnswersAlike "x" "a" (Run.after step (start ⟨.new, .new, .new, []⟩) l)
      (Run.after step (start ⟨.new, .new, .new, []⟩) l') := by
  intro h
  have halike := h [attribution "y" "a", .report
    { ts := 0, agent := "c", action := "edit", file := "a", project := some "x" } .epoch]
    [attribution "y" "a"] rfl Unit oneFile .byId (.ofString "") "y" (fun _ => .epoch) .epoch
    (by decide)
  have hlatest := EventStore.getLatest_insert_of_new (s := .new) (f := "a") (p := "y") .byId
    (by simp [EventStore.new]) (e := (FileEvent.new .epoch .modified "a" "y" "").withSource .user)
    rfl rfl (by decide)
  have hcount := (agents_of_awareness hlatest hlatest halike).1
  exact absurd hcount (by decide)

end AgentServer

end AmbientFs
