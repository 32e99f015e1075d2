import AmbientFs.EventLoop

/-!
# What the event loop does with an event

The body of the loop uses one event four times, in order: it stores it if the store lets it, sends
it, applies it to a tree and schedules its analysis. Preparing the event changes its project and its
source only.
-/

namespace AmbientFs

/-- What an event is used for. -/
inductive Use
  | store (event : FileEvent)
  | broadcast (event : FileEvent)
  | applyTo (event : FileEvent)
  | analyse (event : FileEvent)

namespace Use

def event : Use → FileEvent
  | store event => event
  | broadcast event => event
  | applyTo event => event
  | analyse event => event

def perform [Lowercase] (s : EventServer) : Use → EventServer
  | store event => { s with store := s.store.insert event }
  | broadcast event => s.publish (.event event)
  | applyTo event => s.updateTree event
  | analyse event => s.scheduleAnalysis event

end Use

/-- The store takes the event. -/
def Writes.Succeeds (w : Writes) : Prop := w.opens = true ∧ w.inserts = true

instance (w : Writes) : Decidable w.Succeeds := inferInstanceAs (Decidable (_ ∧ _))

namespace EventServer

variable (s : EventServer) (h : Handling) (event : FileEvent)

/-- The uses the loop makes of an event. -/
def uses : List Use :=
  let event := s.prepare h event
  if h.running then
    (if h.writes.Succeeds then [.store event] else []) ++
      [.broadcast event, .applyTo event, .analyse event]
  else []

theorem prepare_eq : ∃ source, s.prepare h event = { event with
    projectId := (s.registry.assign h.order event.filePath).getD event.projectId
    source := source } := by
  unfold prepare
  rcases s.registry.assign h.order event.filePath with _ | id
  · dsimp only
    rcases h.activeAgent event.filePath
    · exact ⟨event.source, rfl⟩
    · exact ⟨.aiAgent, rfl⟩
  · dsimp only
    rcases h.activeAgent event.filePath
    · exact ⟨event.source, rfl⟩
    · exact ⟨.aiAgent, rfl⟩

theorem prepare_projectId : (s.prepare h event).projectId =
    (s.registry.assign h.order event.filePath).getD event.projectId := by
  obtain ⟨source, heq⟩ := s.prepare_eq h event
  rw [heq]

theorem prepare_filePath : (s.prepare h event).filePath = event.filePath := by
  obtain ⟨source, heq⟩ := s.prepare_eq h event
  rw [heq]

theorem persist_of_succeeds {w : Writes} (hw : w.Succeeds) :
    s.persist w event = { s with store := s.store.insert event } := by
  unfold persist
  rw [if_pos hw.1, if_pos hw.2]

theorem persist_of_not_succeeds {w : Writes} (hw : ¬ w.Succeeds) : s.persist w event = s := by
  unfold persist
  split_ifs with hopens hinserts
  · exact absurd ⟨hopens, hinserts⟩ hw
  · rfl
  · rfl

theorem event_of_mem_uses {u : Use} (hu : u ∈ s.uses h event) : u.event = s.prepare h event := by
  unfold uses at hu
  dsimp only at hu
  split_ifs at hu <;> simp at hu
  · rcases hu with rfl | rfl | rfl | rfl <;> rfl
  · rcases hu with rfl | rfl | rfl <;> rfl

theorem handleEvent_eq [Lowercase] :
    s.handleEvent h event = (s.uses h event).foldl Use.perform s := by
  unfold handleEvent uses
  dsimp only
  by_cases hrun : h.running = true
  · rw [if_pos hrun, if_pos hrun]
    by_cases hw : h.writes.Succeeds
    · rw [if_pos hw, s.persist_of_succeeds _ hw]
      rfl
    · rw [if_neg hw, s.persist_of_not_succeeds _ hw]
      rfl
  · rw [if_neg hrun, if_neg hrun]
    rfl

/-- A file that can be attributed has its event stored and then sent. -/
theorem handleAttribute_cases (params : Option AttributeParams) (machineId : String)
    (now : DateTime) (w : Writes) :
    (s.handleAttribute params machineId now w).1 = s ∨
    ∃ p filePath projectId e, params = some p ∧ p.filePath = some filePath ∧
      p.projectId = some projectId ∧ e.filePath = filePath ∧ e.projectId = projectId ∧
      (s.handleAttribute params machineId now w).1 =
        { s with store := s.store.insert e }.publish (.event e) := by
  unfold handleAttribute
  rcases params with _ | ⟨_ | filePath, _ | projectId, _ | source, sourceId⟩
  · exact .inl rfl
  all_goals try exact .inl rfl
  dsimp only
  rcases Source.fromStr source with e | source
  · exact .inl rfl
  dsimp only
  by_cases hopens : w.opens = true
  · by_cases hinserts : w.inserts = true
    · rw [if_pos hopens, if_pos hinserts]
      refine .inr ⟨_, filePath, projectId, _, rfl, rfl, rfl, ?_, ?_, rfl⟩
      · rcases sourceId <;> rfl
      · rcases sourceId <;> rfl
    · rw [if_pos hopens, if_neg hinserts]
      exact .inl rfl
  · rw [if_neg hopens]
    exact .inl rfl

end EventServer

end AmbientFs
