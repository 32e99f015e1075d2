import AmbientFs.Pipeline

/-!
# What is in the cache

The hash of an entry is that of the event, and its counts are those of what the task has read
later. Each entry is written by the last of its tasks to put one, whichever event that was for.
-/

namespace AmbientFs

variable {p : AnalysisPipeline} {n m : ℕ} {stage : AnalysisStage} {key : String × String}

namespace AnalysisPipeline

/-! ## Tasks -/

@[simp] theorem cache_setStage : (p.setStage n stage).cache = p.cache := rfl

theorem tasks_setStage : (p.setStage n stage).tasks[m]? =
    (p.tasks[m]?).map fun t => if n = m then { t with stage := stage } else t := by
  simp only [setStage, List.getElem?_modify]
  split_ifs <;> rfl

theorem tasks_setStage_self {t : AnalysisTask} (h : p.tasks[n]? = some t) :
    (p.setStage n stage).tasks[n]? = some { t with stage := stage } := by
  simp [tasks_setStage, h]

theorem tasks_setStage_of_ne (h : n ≠ m) : (p.setStage n stage).tasks[m]? = p.tasks[m]? := by
  simp [tasks_setStage, h]

/-- The hash of the latest event of a file that is analysed. -/
def latestHash (p : AnalysisPipeline) (key : String × String) : Option String :=
  ((p.tasks.filter (·.key = key)).getLast?).map (·.hash)

theorem latestHash_eq (p : AnalysisPipeline) (key : String × String) : p.latestHash key =
    ((p.tasks.map fun t => (t.key, t.hash)).filter (·.1 = key)).getLast?.map Prod.snd := by
  rw [latestHash, List.filter_map, List.getLast?_map, Option.map_map]
  rfl

@[simp] theorem latestHash_setStage : (p.setStage n stage).latestHash key = p.latestHash key := by
  have hmap : (p.setStage n stage).tasks.map (fun t => (t.key, t.hash)) =
      p.tasks.map fun t => (t.key, t.hash) := by
    refine List.ext_getElem? fun m => ?_
    rw [List.getElem?_map, List.getElem?_map, tasks_setStage, Option.map_map]
    congr 1
    funext t
    simp only [Function.comp_apply]
    split_ifs <;> rfl
  rw [latestHash_eq, hmap, ← latestHash_eq]

/-! ## What a step does -/

section Step

variable [Letters] (config : PipelineConfig) (dedup : ContentDedup)

/-- The task that an action ends, and whether the entry of its file has its hash then: because it
was put or because it was found. -/
def ends (p : AnalysisPipeline) : PipelineAction → Option (ℕ × Bool)
  | .check n opens =>
    match p.tasks[n]? with
    | some ⟨e, hash, _, .scheduled⟩ =>
      if opens && p.cache.isFresh e.projectId e.filePath hash then some (n, true) else none
    | _ => none
  | .checkSize n =>
    match p.tasks[n]? with
    | some ⟨e, _, projectRoot, .permitted⟩ =>
      if (p.files (e.file projectRoot)).all (config.maxFileSize < ·.length) then some (n, false)
      else none
    | _ => none
  | .read n =>
    match p.tasks[n]? with
    | some ⟨e, _, projectRoot, .sized⟩ =>
      if (p.files (e.file projectRoot)).bind Utf8.decode? = none then some (n, false) else none
    | _ => none
  | .put n stored _ =>
    match p.tasks[n]? with
    | some ⟨_, _, _, .read _⟩ => some (n, stored)
    | _ => none
  | _ => none

/-- What an action can do: nothing to tasks and cache, schedule a task, bring one further, or end
one, which a put does with or without an entry. -/
inductive StepCases (p : AnalysisPipeline) (a : PipelineAction) : Prop
  | same (hends : p.ends config a = none) (htasks : (p.step config dedup a).tasks = p.tasks)
      (hcache : (p.step config dedup a).cache = p.cache)
  | schedule (t : AnalysisTask) (ht : t.stage = .scheduled) (hends : p.ends config a = none)
      (htasks : (p.step config dedup a).tasks = p.tasks ++ [t])
      (hcache : (p.step config dedup a).cache = p.cache)
  | further (n : ℕ) (t : AnalysisTask) (stage : AnalysisStage) (ht : p.tasks[n]? = some t)
      (hstage : ∀ result, stage ≠ .finished result) (hends : p.ends config a = none)
      (hstep : p.step config dedup a = p.setStage n stage)
  | endFresh (n : ℕ) (t : AnalysisTask) (ht : p.tasks[n]? = some t)
      (hfresh : p.cache.isFresh t.key.1 t.key.2 t.hash = true)
      (hends : p.ends config a = some (n, true))
      (hstep : p.step config dedup a = p.setStage n (.finished none))
  | endNone (n : ℕ) (t : AnalysisTask) (result : Option FileAnalysis)
      (ht : p.tasks[n]? = some t) (hends : p.ends config a = some (n, false))
      (hstep : p.step config dedup a = p.setStage n (.finished result))
  | endPut (n : ℕ) (t : AnalysisTask) (content : List Char) (now : ℤ)
      (ht : p.tasks[n]? = some t) (hread : t.stage = .read content)
      (ha : a = .put n true now) (hends : p.ends config a = some (n, true))
      (hstep : p.step config dedup a =
        { p.setStage n (.finished (some (t.event.analysis t.hash content))) with
          cache := p.cache.put (t.event.analysis t.hash content) now })

theorem step_cases (p : AnalysisPipeline) (a : PipelineAction) :
    StepCases config dedup p a := by
  cases a with
  | change files => exact .same rfl rfl rfl
  | event e projectRoot =>
    rcases hhash : (e.hashed dedup p.files projectRoot).analyzedHash with _ | hash
    · have hstep : p.step config dedup (.event e projectRoot) = p := by
        simp [step, handleEvent, hhash]
      exact .same rfl (by rw [hstep]) (by rw [hstep])
    · have hstep : p.step config dedup (.event e projectRoot) = { p with
          tasks := p.tasks ++ [⟨e.hashed dedup p.files projectRoot, hash, projectRoot,
            .scheduled⟩] } := by
        simp [step, handleEvent, hhash]
      exact .schedule _ rfl rfl (by rw [hstep]) (by rw [hstep])
  | check n opens =>
    rcases ht : p.tasks[n]? with _ | ⟨e, hash, root, _ | _ | _ | _ | content | result⟩
    case some.scheduled =>
      by_cases hfresh : (opens && p.cache.isFresh e.projectId e.filePath hash) = true
      · have hcached : p.cache.isFresh e.projectId e.filePath hash = true := by
          simp only [Bool.and_eq_true] at hfresh
          exact hfresh.2
        refine .endFresh n _ ht hcached ?_ ?_ <;> simp_all [ends, step, check]
      · refine .further n _ .stale ht (by simp) ?_ ?_ <;>
          simp_all [ends, step, check]
    all_goals refine .same ?_ ?_ ?_ <;> simp [ends, step, check, ht]
  | acquire n =>
    rcases ht : p.tasks[n]? with _ | ⟨e, hash, root, _ | _ | _ | _ | content | result⟩
    case some.stale =>
      by_cases hfree : p.tasks.countP (·.holdsPermit) < config.maxConcurrent
      · refine .further n _ .permitted ht (by simp) rfl ?_
        simp [step, acquire, ht, hfree]
      · refine .same rfl ?_ ?_ <;> simp [step, acquire, ht, hfree]
    all_goals refine .same rfl ?_ ?_ <;> simp [step, acquire, ht]
  | checkSize n =>
    rcases ht : p.tasks[n]? with _ | ⟨e, hash, root, _ | _ | _ | _ | content | result⟩
    case some.permitted =>
      rcases hf : p.files (e.file root) with _ | bytes
      · refine .endNone n _ none ht ?_ ?_ <;> simp [ends, step, checkSize, ht, hf]
      · by_cases hlarge : config.maxFileSize < bytes.length
        · refine .endNone n _ none ht ?_ ?_ <;> simp [ends, step, checkSize, ht, hf, hlarge]
        · refine .further n _ .sized ht (by simp) ?_ ?_ <;>
            simp [ends, step, checkSize, ht, hf, hlarge]
    all_goals refine .same ?_ ?_ ?_ <;> simp [ends, step, checkSize, ht]
  | read n =>
    rcases ht : p.tasks[n]? with _ | ⟨e, hash, root, _ | _ | _ | _ | content | result⟩
    case some.sized =>
      rcases hf : (p.files (e.file root)).bind Utf8.decode? with _ | content
      · refine .endNone n _ none ht ?_ ?_
        · simp only [ends, ht, hf, if_true]
        · simp only [step, AnalysisPipeline.read, ht, hf]
      · refine .further n _ (.read content) ht (by simp) ?_ ?_
        · simp only [ends, ht, hf, reduceCtorEq, if_false]
        · simp only [step, AnalysisPipeline.read, ht, hf]
    all_goals refine .same ?_ ?_ ?_ <;> simp [ends, step, AnalysisPipeline.read, ht]
  | put n stored now =>
    rcases ht : p.tasks[n]? with _ | ⟨e, hash, root, _ | _ | _ | _ | content | result⟩
    case some.read =>
      cases stored with
      | true =>
        refine .endPut n _ content now ht rfl rfl ?_ ?_ <;> simp [ends, step, put, ht]
      | false =>
        refine .endNone n _ (some (e.analysis hash content)) ht ?_ ?_ <;>
          simp [ends, step, put, ht]
    all_goals refine .same ?_ ?_ ?_ <;> simp [ends, step, put, ht]

end Step

/-! ## Entries and contents -/

section Counted

variable [Letters] (dedup : ContentDedup)

/-- The counts are those of some content with the hash. -/
def Counted (hash : String) (lineCount todoCount : UInt32) : Prop :=
  ∃ bytes content, dedup.hash bytes = hash ∧ Utf8.decode? bytes = some content ∧
    countLines content = lineCount ∧ countTodos content = todoCount

/-- The entries have the counts of contents with their hashes, and so has what is fresh. -/
def Matches (p : AnalysisPipeline) : Prop :=
  (∀ r ∈ p.cache.rows,
    Counted dedup r.analysis.contentHash r.analysis.lineCount r.analysis.todoCount) ∧
  ∀ projectId filePath hash, p.cache.isFresh projectId filePath hash = true →
    ∃ analysis, p.cache.get projectId filePath = some analysis ∧ analysis.contentHash = hash ∧
      Counted dedup hash analysis.lineCount analysis.todoCount

/-- What a task has read when it puts its result counts as some content with the hash of its
event does. -/
def ReadsHashed (p : AnalysisPipeline) : PipelineAction → Prop
  | .put n true _ => ∀ t content, p.tasks[n]? = some t → t.stage = .read content →
      Counted dedup t.hash (countLines content) (countTodos content)
  | _ => True

variable {dedup}

theorem matches_iff : Matches dedup p ↔ ∀ r ∈ p.cache.rows,
    Counted dedup r.analysis.contentHash r.analysis.lineCount r.analysis.todoCount := by
  refine ⟨fun h => h.1, fun h => ⟨h, fun projectId filePath hash hfresh => ?_⟩⟩
  obtain ⟨analysis, hget, rfl⟩ := p.cache.isFresh_iff.1 hfresh
  obtain ⟨r, hr, rfl⟩ := p.cache.mem_rows_of_get hget
  exact ⟨r.analysis, hget, rfl, h r hr⟩

variable {config : PipelineConfig} {a : PipelineAction}

theorem Matches.step (h : Matches dedup p) (ha : ReadsHashed dedup p a) :
    Matches dedup (p.step config dedup a) := by
  rw [matches_iff] at h ⊢
  cases step_cases config dedup p a with
  | same _ _ hcache => rwa [hcache]
  | schedule t _ _ _ hcache => rwa [hcache]
  | further n t stage _ _ _ hstep => rwa [hstep]
  | endFresh n t _ _ _ hstep => rwa [hstep]
  | endNone n t result _ _ hstep => rwa [hstep]
  | endPut n t content now ht hread hput _ hstep =>
    rw [hstep]
    intro r hr
    rcases p.cache.mem_rows_put hr with hr | rfl
    · exact h r hr
    · subst hput
      exact ha t content ht hread

theorem not_matches_of_put (ha : ¬ ReadsHashed dedup p a) :
    ¬ Matches dedup (p.step config dedup a) := by
  cases a with
  | put n stored now =>
    cases stored with
    | false => exact absurd trivial ha
    | true =>
      simp only [ReadsHashed, not_forall] at ha
      obtain ⟨t, content, ht, hread, hno⟩ := ha
      have hcache : (p.step config dedup (.put n true now)).cache =
          p.cache.put (t.event.analysis t.hash content) now := by
        obtain ⟨e, hash, root, stage⟩ := t
        cases hread
        simp [AnalysisPipeline.step, put, ht]
      intro h
      rw [matches_iff, hcache] at h
      have hrow := p.cache.row_put_self (t.event.analysis t.hash content) now
      exact hno (h _ (List.mem_of_find?_eq_some hrow))
  | _ => exact absurd trivial ha

/-- **Over a run the entries have the counts of contents with their hashes, exactly if every task
that puts a result has read what counts as some content with the hash of its event.** -/
theorem cache_matches_iff (config : PipelineConfig) (dedup : ContentDedup) (files : Files)
    (as : List PipelineAction) :
    Run.Always (AnalysisPipeline.step config dedup) (new files) (Matches dedup) as ↔
      Run.Steps (AnalysisPipeline.step config dedup) (new files) (ReadsHashed dedup) as := by
  refine Run.always_iff_steps (matches_iff.2 (by simp [new, FileAnalysisCache.empty]))
    (fun p h => h) ?_ ?_
  · exact fun p a h ha => h.step ha
  · exact fun p a _ ha => not_matches_of_put ha

end Counted

/-! ## Files that stay as they are -/

section Undisturbed

variable {dedup : ContentDedup} {config : PipelineConfig} {a : PipelineAction}

/-- While an analysis is under way its file holds what was hashed, and it has read that. -/
def Undisturbed (dedup : ContentDedup) (p : AnalysisPipeline) : Prop :=
  ∀ (n : ℕ) t, p.tasks[n]? = some t → ¬ t.Finished → ∃ bytes, p.files t.file = some bytes ∧
    dedup.hash bytes = t.hash ∧
      ∀ content, t.stage = .read content → Utf8.decode? bytes = some content

/-- The files of analyses that are under way are left as they are. -/
def LeavesFiles (p : AnalysisPipeline) : PipelineAction → Prop
  | .change files => ∀ (n : ℕ) t, p.tasks[n]? = some t → ¬ t.Finished →
      files t.file = p.files t.file
  | _ => True

theorem Undisturbed.setStage {t : AnalysisTask} (h : Undisturbed dedup p)
    (ht : p.tasks[n]? = some t) (hunfinished : ¬ t.Finished)
    (hstage : ∀ content, stage = .read content →
      (p.files t.file).bind Utf8.decode? = some content) :
    Undisturbed dedup (p.setStage n stage) := by
  intro m t' ht' hf
  rcases eq_or_ne n m with rfl | hnm
  · rw [tasks_setStage_self ht] at ht'
    cases ht'
    obtain ⟨bytes, hbytes, hhash, -⟩ := h n t ht hunfinished
    refine ⟨bytes, hbytes, hhash, fun content hc => ?_⟩
    have hread := hstage content hc
    rwa [hbytes, Option.bind_some] at hread
  · rw [tasks_setStage_of_ne hnm] at ht'
    exact h m t' ht' hf

/-- The hash of an event that is analysed is that of its file. -/
theorem analyzedHash_hashed {e : FileEvent} {files : Files} {projectRoot : PathBuf} {hash : String}
    (h : (e.hashed dedup files projectRoot).analyzedHash = some hash) :
    ∃ bytes, files (e.file projectRoot) = some bytes ∧ dedup.hash bytes = hash := by
  have hfile : dedup.hashFile files (e.file projectRoot) = some hash := by
    unfold FileEvent.analyzedHash FileEvent.hashed at h
    rcases htype : e.eventType with _ | _ | _ | _ <;> simp [htype] at h <;> exact h
  unfold ContentDedup.hashFile at hfile
  rcases hbytes : files (e.file projectRoot) with _ | bytes
  · simp [hbytes] at hfile
  · simp only [hbytes] at hfile
    split_ifs at hfile
    cases hfile
    exact ⟨bytes, rfl, rfl⟩

theorem Undisturbed.handleEvent (h : Undisturbed dedup p) (e : FileEvent) (projectRoot : PathBuf) :
    Undisturbed dedup (p.handleEvent dedup e projectRoot) := by
  unfold AnalysisPipeline.handleEvent
  rcases hhash : (e.hashed dedup p.files projectRoot).analyzedHash with _ | hash
  · simpa only [hhash] using h
  · simp only [hhash]
    intro m t ht hf
    rcases lt_or_ge m p.tasks.length with hlt | hge
    · rw [List.getElem?_append_left hlt] at ht
      exact h m t ht hf
    · rw [List.getElem?_append_right hge] at ht
      obtain ⟨-, rfl⟩ := List.getElem?_eq_some_iff.1 ht
      obtain ⟨bytes, hbytes, heq⟩ := analyzedHash_hashed hhash
      rw [List.getElem_singleton]
      exact ⟨bytes, hbytes, heq, fun content hc => nomatch hc⟩

theorem Undisturbed.read (h : Undisturbed dedup p) (n : ℕ) : Undisturbed dedup (p.read n) := by
  unfold AnalysisPipeline.read
  split
  · rename_i e hash projectRoot ht
    have hunfinished : ¬ (⟨e, hash, projectRoot, .sized⟩ : AnalysisTask).Finished := by
      simp [AnalysisTask.Finished]
    split
    · exact h.setStage ht hunfinished (by simp)
    · rename_i content hcontent
      refine h.setStage ht hunfinished fun content' hc => ?_
      cases hc
      exact hcontent
  · exact h

theorem Undisturbed.step [Letters] (h : Undisturbed dedup p) (ha : LeavesFiles p a) :
    Undisturbed dedup (p.step config dedup a) := by
  cases a with
  | change files =>
    intro n t ht hf
    obtain ⟨bytes, hbytes, hread⟩ := h n t ht hf
    exact ⟨bytes, (ha n t ht hf).trans hbytes, hread⟩
  | event e projectRoot => exact h.handleEvent e projectRoot
  | read n => exact h.read n
  | check n opens =>
    simp only [AnalysisPipeline.step, check]
    split
    · rename_i ht
      split_ifs
      · exact h.setStage ht (by simp [AnalysisTask.Finished]) (by simp)
      · exact h.setStage ht (by simp [AnalysisTask.Finished]) (by simp)
    · exact h
  | acquire n =>
    simp only [AnalysisPipeline.step, acquire]
    split
    · rename_i ht
      split_ifs
      · exact h.setStage ht (by simp [AnalysisTask.Finished]) (by simp)
      · exact h
    · exact h
  | checkSize n =>
    simp only [AnalysisPipeline.step, checkSize]
    split
    · rename_i ht
      split
      · exact h.setStage ht (by simp [AnalysisTask.Finished]) (by simp)
      · split_ifs
        · exact h.setStage ht (by simp [AnalysisTask.Finished]) (by simp)
        · exact h.setStage ht (by simp [AnalysisTask.Finished]) (by simp)
    · exact h
  | put n stored now =>
    simp only [AnalysisPipeline.step, put]
    split
    · rename_i e hash projectRoot content ht
      have hfinished : Undisturbed dedup
          (p.setStage n (.finished (some (e.analysis hash content)))) :=
        h.setStage ht (by simp [AnalysisTask.Finished]) (by simp)
      split_ifs
      · exact hfinished
      · exact hfinished
    · exact h

theorem Undisturbed.readsHashed [Letters] (h : Undisturbed dedup p) : ReadsHashed dedup p a := by
  cases a with
  | put n stored now =>
    cases stored with
    | false => trivial
    | true =>
      intro t content ht hread
      have hunfinished : ¬ t.Finished := by
        rintro ⟨result, hf⟩
        rw [hread] at hf
        cases hf
      obtain ⟨bytes, -, hhash, hdecode⟩ := h n t ht hunfinished
      exact ⟨bytes, content, hhash, hdecode content hread, rfl, rfl⟩
  | _ => trivial

/-- Tasks read what was hashed if no file is rewritten while its analysis is under way. -/
theorem steps_readsHashed [Letters] {files : Files} {as : List PipelineAction}
    (h : Run.Steps (AnalysisPipeline.step config dedup) (new files) LeavesFiles as) :
    Run.Steps (AnalysisPipeline.step config dedup) (new files) (ReadsHashed dedup) as := by
  have hnew : Undisturbed dedup (new files) := by
    intro n t ht
    simp [new] at ht
  exact h.imp hnew (fun p a hp ha => hp.step ha) fun p a hp _ => hp.readsHashed

end Undisturbed

def modifiedEvent : FileEvent := .new .epoch .modified "a" "p" "m"

theorem decode_line : Utf8.decode? [97, 10] = some ['a', '\n'] := Utf8.decode?_eq_some.2 (by decide)

/-- A file that was empty when its event was handled is analysed after a line is written. -/
theorem cache_not_matches : ¬ ∀ (_ : Letters) config dedup files as,
    Run.Always (AnalysisPipeline.step config dedup) (new files) (Matches dedup) as := by
  intro h
  have hmatches := h asciiLetters {} ⟨1024, fun bytes => if bytes = [] then "empty" else "other"⟩
    (fun _ => some []) [.event modifiedEvent (.ofString "/w"), .change fun _ => some [97, 10],
      .check 0 true, .acquire 0, .checkSize 0, .read 0, .put 0 true 0] _ List.prefix_rfl
  obtain ⟨bytes, content, hhash, hcontent, hlines, -⟩ := hmatches.1
    ⟨@FileEvent.analysis asciiLetters modifiedEvent "empty" ['a', '\n'], 0⟩ (by
      simp [Run.after, AnalysisPipeline.step, new, handleEvent, FileEvent.hashed,
        FileEvent.analyzedHash, modifiedEvent, FileEvent.new, ContentDedup.hashFile, check,
        FileAnalysisCache.isFresh, FileAnalysisCache.getIfFresh, FileAnalysisCache.get,
        FileAnalysisCache.row, FileAnalysisCache.empty, setStage, acquire,
        AnalysisTask.holdsPermit, checkSize,
        AnalysisPipeline.read, put, decode_line, FileAnalysisCache.put, FileAnalysisCache.upsert,
        FileEvent.analysis])
  have hbytes : bytes = [] := by
    by_contra hne
    simp [FileEvent.analysis, hne] at hhash
  subst hbytes
  cases hcontent
  exact absurd hlines (by decide)

end AnalysisPipeline

end AmbientFs
