import AmbientFs.BuildAwareness
import AmbientFs.Proofs.Pipeline
import AmbientFs.Proofs.Store

/-!
# Where an analysis is looked for

The awareness of a file has the counts of the cache in the file `analysis.db` next to the store.
-/

namespace AmbientFs

variable {ι : Type} [DecidableEq ι] {d : Disk ι} {i : ι} {path : PathBuf}
  {projectId filePath : String}

/-- What the awareness of a file has of its analysis: its lines and its comments. -/
def FileAnalysisCache.counts (c : FileAnalysisCache) (projectId filePath : String) :
    UInt32 × UInt32 :=
  match c.get projectId filePath with
  | none => (0, 0)
  | some analysis => (analysis.lineCount, analysis.todoCount)

/-- The awareness has the counts of the analysis. -/
def Reports (r : Except AwarenessError (Option FileAwareness)) (analysis : FileAnalysis) : Prop :=
  ∃ awareness, r = .ok (some awareness) ∧ awareness.lineCount = analysis.lineCount ∧
    awareness.todoCount = analysis.todoCount

namespace Disk

@[simp] theorem opens_insertEvent (e : FileEvent) : (d.insertEvent path e).opens = d.opens := by
  unfold insertEvent
  split <;> rfl

@[simp] theorem opens_putAnalysis (analysis : FileAnalysis) (now : ℤ) :
    (d.putAnalysis path analysis now).opens = d.opens := by
  unfold putAnalysis
  split <;> rfl

@[simp] theorem cache_insertEvent (e : FileEvent) :
    ((d.insertEvent path e).file i).cache = (d.file i).cache := by
  unfold insertEvent
  split
  · rfl
  · rename_i j _
    rcases eq_or_ne i j with rfl | hij
    · simp
    · simp [hij]

@[simp] theorem events_putAnalysis (analysis : FileAnalysis) (now : ℤ) :
    ((d.putAnalysis path analysis now).file i).events = (d.file i).events := by
  unfold putAnalysis
  split
  · rfl
  · rename_i j _
    rcases eq_or_ne i j with rfl | hij
    · simp
    · simp [hij]

theorem cache_putAnalysis (analysis : FileAnalysis) (now : ℤ) :
    ((d.putAnalysis path analysis now).file i).cache =
      if d.opens path = some i then (d.file i).cache.put analysis now else (d.file i).cache := by
  unfold putAnalysis
  split
  · rename_i h
    simp [h]
  · rename_i j h
    rcases eq_or_ne i j with rfl | hij
    · simp [h]
    · simp [h, hij, hij.symm]

theorem opens_after (later : List DiskAction) : (Run.after step d later).opens = d.opens := by
  induction later using List.reverseRecOn with
  | nil => rfl
  | append_singleton later a ih =>
    rw [Run.after_snoc, ← ih]
    cases a with
    | insert path e => exact opens_insertEvent e
    | put path analysis now => exact opens_putAnalysis analysis now

/-- Events and analyses of other files leave the entry as it is. -/
theorem get_after {later : List DiskAction}
    (h : ∀ path analysis now, .put path analysis now ∈ later →
      (analysis.projectId, analysis.filePath) ≠ (projectId, filePath)) :
    ((Run.after step d later).file i).cache.get projectId filePath =
      (d.file i).cache.get projectId filePath := by
  induction later using List.reverseRecOn with
  | nil => rfl
  | append_singleton later a ih =>
    have hbefore := ih fun path analysis now hmem =>
      h path analysis now (List.mem_append_left _ hmem)
    rw [Run.after_snoc]
    cases a with
    | insert path e => rw [step, cache_insertEvent, hbefore]
    | put path analysis now =>
      rw [step, cache_putAnalysis]
      split_ifs
      · rw [FileAnalysisCache.get_put_of_ne _ _ (h path analysis now (by simp)), hbefore]
      · exact hbefore

theorem counts_after {later : List DiskAction}
    (h : ∀ path analysis now, .put path analysis now ∈ later →
      (analysis.projectId, analysis.filePath) ≠ (projectId, filePath)) :
    ((Run.after step d later).file i).cache.counts projectId filePath =
      (d.file i).cache.counts projectId filePath := by
  rw [FileAnalysisCache.counts, get_after h, FileAnalysisCache.counts]

omit [DecidableEq ι] in
theorem reports_iff {planner : Planner} {storePath : PathBuf} {event : FileEvent}
    (h : d.getLatest planner storePath projectId filePath = .ok (some event))
    (activeAgent : Option String) (chatReferences : UInt32) (now : DateTime)
    (analysis : FileAnalysis) :
    Reports (d.buildAwareness planner storePath projectId filePath activeAgent chatReferences now)
      analysis ↔ ∃ i, d.opens (storePath.withFileName analysisDb) = some i ∧
        (d.file i).cache.counts projectId filePath = (analysis.lineCount, analysis.todoCount) := by
  unfold Reports buildAwareness
  simp only [h]
  rcases ho : d.opens (storePath.withFileName analysisDb) with _ | i
  · simp
  · simp only [Except.ok.injEq, Option.some.injEq, exists_eq_left', FileAnalysisCache.counts]
    rcases (d.file i).cache.get projectId filePath with _ | b <;> simp

variable [Letters]

/-- A result is an analysis of the event, and has been put if the cache could be written. -/
theorem analyzeFile_some {config : PipelineConfig} {storePath : PathBuf} {e : FileEvent}
    {r : Reads ι} {analysis : FileAnalysis}
    (h : (analyzeFile config storePath e r).2 = some analysis) :
    analysis.projectId = e.projectId ∧ analysis.filePath = e.filePath ∧
      (analyzeFile config storePath e r).1 =
        if r.stored then r.disk.putAnalysis storePath analysis r.now else r.disk := by
  unfold analyzeFile at h ⊢
  rcases hhash : e.analyzedHash with _ | hash
  · simp [hhash] at h
  by_cases hfresh : r.checked.isFresh storePath e.projectId e.filePath hash = true
  · simp [hhash, hfresh] at h
  rcases hsize : r.size with _ | size
  · simp [hhash, hfresh, hsize] at h
  by_cases hlarge : config.maxFileSize < size
  · simp [hhash, hfresh, hsize, hlarge] at h
  rcases hbytes : r.bytes.bind Utf8.decode? with _ | content
  · simp [hhash, hfresh, hsize, hlarge, hbytes] at h
  simp only [hhash, hfresh, hsize, hlarge, hbytes, if_false, Bool.false_eq_true,
    Option.some.injEq] at h ⊢
  subst h
  exact ⟨rfl, rfl, rfl⟩

/-- **An analysis that was returned is reported until the next one, exactly if the file it was put
in is the one that is named for the awareness, or the counts there are the same anyway.** -/
theorem awareness_reports_iff (config : PipelineConfig) (storePath : PathBuf) (e : FileEvent)
    (r : Reads ι) (analysis : FileAnalysis)
    (h : (analyzeFile config storePath e r).2 = some analysis) (later : List DiskAction)
    (hlater : ∀ path other now, .put path other now ∈ later →
      (other.projectId, other.filePath) ≠ (e.projectId, e.filePath))
    (planner : Planner) (event : FileEvent)
    (hstored : (Run.after step (analyzeFile config storePath e r).1 later).getLatest planner
      storePath e.projectId e.filePath = .ok (some event))
    (activeAgent : Option String) (chatReferences : UInt32) (now : DateTime) :
    Reports ((Run.after step (analyzeFile config storePath e r).1 later).buildAwareness planner
        storePath e.projectId e.filePath activeAgent chatReferences now) analysis ↔
      ∃ i, r.disk.opens (storePath.withFileName analysisDb) = some i ∧
        (r.stored = true ∧ r.disk.opens storePath = some i ∨
          (r.disk.file i).cache.counts e.projectId e.filePath =
            (analysis.lineCount, analysis.todoCount)) := by
  obtain ⟨hproject, hfile, hdisk⟩ := analyzeFile_some h
  rw [reports_iff hstored, opens_after, hdisk]
  have hopens : (if r.stored then r.disk.putAnalysis storePath analysis r.now
      else r.disk).opens = r.disk.opens := by
    split_ifs
    · exact opens_putAnalysis analysis r.now
    · rfl
  rw [hopens]
  refine exists_congr fun i => and_congr_right fun _ => ?_
  rw [counts_after hlater]
  by_cases hs : r.stored = true
  · rw [if_pos hs, FileAnalysisCache.counts, cache_putAnalysis]
    by_cases ho : r.disk.opens storePath = some i
    · have hget := (r.disk.file i).cache.get_put_self analysis r.now
      rw [hproject, hfile] at hget
      simp [ho, hs, hget]
    · simp [ho, FileAnalysisCache.counts]
  · simp [hs]

end Disk

section Examples

open Disk

attribute [local instance] asciiLetters

def hashedEvent : FileEvent := AnalysisPipeline.modifiedEvent.withContentHash "other"

/-- A store `/d/events.db` and the file next to it, each with an event. -/
def twoFiles : Disk Bool where
  opens path :=
    if path = .ofString "/d/events.db" then some false
    else if path = .ofString "/d/analysis.db" then some true
    else none
  file _ := ⟨EventStore.new.insert hashedEvent, .empty⟩

/-- A file with one line is read. -/
def oneLine : Reads Bool := ⟨twoFiles, some 2, some [97, 10], twoFiles, true, 0⟩

theorem getLatest_oneEvent : (EventStore.new.insert hashedEvent).getLatest .byId "p" "a" =
    .ok (some hashedEvent) := by
  have hrow : (hashedEvent.toRow 1).toEvent = .ok hashedEvent :=
    FileEvent.toEvent_toRow (by decide) 1
  have hmatches : EventFilter.matches
      { projectId := some "p", filePath := some "a", limit := some 1 } (hashedEvent.toRow 1) := rfl
  simp [EventStore.getLatest, EventStore.select, EventStore.insert, EventStore.new, Planner.byId,
    hmatches, hrow, Except.map]

theorem analyzeFile_oneLine (storePath : PathBuf) :
    analyzeFile {} storePath hashedEvent oneLine =
      (twoFiles.putAnalysis storePath (hashedEvent.analysis "other" ['a', '\n']) 0,
        some (hashedEvent.analysis "other" ['a', '\n'])) := by
  have hhash : hashedEvent.analyzedHash = some "other" := rfl
  have hstale : twoFiles.isFresh storePath hashedEvent.projectId hashedEvent.filePath
      "other" = false := by
    unfold Disk.isFresh
    split <;> rfl
  simp [analyzeFile, hhash, hstale, oneLine, AnalysisPipeline.decode_line]

theorem getLatest_twoFiles {storePath : PathBuf} {i : Bool}
    (h : twoFiles.opens storePath = some i) (analysis : FileAnalysis) (now : ℤ) :
    (twoFiles.putAnalysis storePath analysis now).getLatest .byId storePath "p" "a" =
      .ok (some hashedEvent) := by
  have hevents : (twoFiles.file i).events = EventStore.new.insert hashedEvent := rfl
  simp only [Disk.getLatest, opens_putAnalysis, h, events_putAnalysis, hevents,
    getLatest_oneEvent]

/-- With the store in a file `analysis.db` the analysis is reported. -/
theorem awareness_in_analysis_db : Reports
    ((analyzeFile {} (.ofString "/d/analysis.db") hashedEvent oneLine).1.buildAwareness
      .byId (.ofString "/d/analysis.db") "p" "a" none 0 .epoch)
    (hashedEvent.analysis "other" ['a', '\n']) := by
  have hopens : twoFiles.opens (.ofString "/d/analysis.db") = some true := by decide
  refine (awareness_reports_iff {} (.ofString "/d/analysis.db") hashedEvent oneLine _
    (by rw [analyzeFile_oneLine]) [] (by simp) .byId hashedEvent ?_ none 0 .epoch).2
    ⟨true, by decide, .inl ⟨rfl, hopens⟩⟩
  rw [analyzeFile_oneLine]
  exact getLatest_twoFiles hopens _ _

/-- With the store in a file `events.db` it is not. -/
theorem awareness_not_reported : ¬ ∀ (config : PipelineConfig)
    (storePath : PathBuf) (e : FileEvent) (r : Reads Bool) (analysis : FileAnalysis)
    (planner : Planner) (event : FileEvent),
    (analyzeFile config storePath e r).2 = some analysis →
    (analyzeFile config storePath e r).1.getLatest planner storePath e.projectId e.filePath =
      .ok (some event) →
    Reports ((analyzeFile config storePath e r).1.buildAwareness planner storePath e.projectId
      e.filePath none 0 .epoch) analysis := by
  intro h
  have hopens : twoFiles.opens (.ofString "/d/events.db") = some false := by decide
  have hlatest := getLatest_twoFiles hopens (hashedEvent.analysis "other" ['a', '\n']) 0
  have hreports := h {} (.ofString "/d/events.db") hashedEvent oneLine _ .byId hashedEvent
    (by rw [analyzeFile_oneLine]) (by rw [analyzeFile_oneLine]; exact hlatest)
  rw [analyzeFile_oneLine] at hreports
  obtain ⟨i, hi, hcounts⟩ := (reports_iff hlatest none 0 .epoch _).1 hreports
  rw [opens_putAnalysis, show twoFiles.opens ((PathBuf.ofString "/d/events.db").withFileName
    analysisDb) = some true by decide] at hi
  cases hi
  have hempty : (twoFiles.putAnalysis (.ofString "/d/events.db")
      (hashedEvent.analysis "other" ['a', '\n']) 0).file true = twoFiles.file true := by
    simp [putAnalysis, hopens]
  rw [hempty] at hcounts
  exact absurd (congrArg Prod.fst hcounts) (by decide)

end Examples

end AmbientFs
