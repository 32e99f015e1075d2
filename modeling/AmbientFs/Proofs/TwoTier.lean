import AmbientFs.Proofs.Pipeline
import AmbientFs.TwoTier

/-!
# The second tier adds to the first

An answer of the model is merged into the imports, exports and lint hints of an analysis. All else
is what the first tier made of the file: what is in the cache is the result of a task up to these,
and nothing that happens depends on what the answers say, only on whether they can be read.
-/

namespace AmbientFs

/-- What the first tier finds out. -/
def FileAnalysis.base (a : FileAnalysis) : FileAnalysis :=
  { a with imports := [], exports := [], lintHints := [] }

@[simp] theorem FileEvent.base_analysis [Letters] (e : FileEvent) (hash : String)
    (content : List Char) : (e.analysis hash content).base = e.analysis hash content := rfl

/-- An answer is merged into what the first tier has not found out. -/
theorem SerdeJson.base_merge {serde : SerdeJson} {a enhanced : FileAnalysis}
    {response : List Char} (h : serde.merge a response = some enhanced) :
    enhanced.base = a.base := by
  unfold merge LlmFileAnalyzer.enhanceWithLlmResponse at h
  rcases hparse : LlmFileAnalyzer.parseResponse serde response with e | parsed
  · simp [hparse, Except.map, Except.toOption] at h
  · simp only [hparse, Except.map, Except.toOption, Option.some.injEq] at h
    subst h
    rfl

def CacheRow.base (r : CacheRow) : CacheRow := { r with analysis := r.analysis.base }

@[simp] theorem CacheRow.key_base (r : CacheRow) : r.base.key = r.key := rfl

namespace FileAnalysisCache

variable (c : FileAnalysisCache)

theorem map_key_base (rows : List CacheRow) :
    (rows.map CacheRow.base).map CacheRow.key = rows.map CacheRow.key := by
  rw [List.map_map]
  rfl

theorem upsert_base (rows : List CacheRow) (row : CacheRow) :
    upsert (rows.map CacheRow.base) row.base = (upsert rows row).map CacheRow.base := by
  unfold upsert
  rw [map_key_base, CacheRow.key_base]
  split_ifs
  · rw [List.map_map, List.map_map]
    refine List.map_congr_left fun r _ => ?_
    simp only [Function.comp_apply, CacheRow.key_base]
    exact (apply_ite CacheRow.base _ _ _).symm
  · rw [List.map_append]
    rfl

def base : FileAnalysisCache := ⟨c.rows.map CacheRow.base, (map_key_base c.rows).symm ▸ c.nodup⟩

@[simp] theorem base_put (a : FileAnalysis) (now : ℤ) :
    (c.put a now).base = c.base.put a.base now := by
  simp only [base, put, mk.injEq]
  exact (upsert_base c.rows ⟨a, now⟩).symm

theorem get_base (projectId filePath : String) :
    c.base.get projectId filePath = (c.get projectId filePath).map FileAnalysis.base := by
  unfold get row base
  rw [List.find?_map, Option.map_map, Option.map_map]
  rfl

@[simp] theorem isFresh_base (projectId filePath hash : String) :
    c.base.isFresh projectId filePath hash = c.isFresh projectId filePath hash := by
  rw [Bool.eq_iff_iff, isFresh_iff, isFresh_iff, get_base]
  rcases c.get projectId filePath with _ | a
  · simp
  · simp [FileAnalysis.base]

end FileAnalysisCache

namespace AnalysisPipeline

variable [Letters] (config : PipelineConfig) (dedup : ContentDedup)

def base (p : AnalysisPipeline) : AnalysisPipeline := { p with cache := p.cache.base }

/-- The first tier looks at the cache, and puts into it, only what it has found out. -/
theorem base_step (p : AnalysisPipeline) (a : PipelineAction) :
    (p.step config dedup a).base = p.base.step config dedup a := by
  cases a with
  | change files => rfl
  | event e projectRoot =>
    simp only [step, handleEvent]
    rcases h : (e.hashed dedup p.files projectRoot).analyzedHash with _ | hash
    · simp [base, h]
    · simp [base, h]
  | check n opens =>
    simp only [step, check, base, FileAnalysisCache.isFresh_base]
    split
    · split_ifs <;> rfl
    · rfl
  | acquire n =>
    simp only [step, acquire, base]
    split
    · exact apply_ite base _ _ _
    · rfl
  | checkSize n =>
    simp only [step, checkSize, base]
    split
    · split
      · rfl
      · split_ifs <;> rfl
    · rfl
  | read n =>
    simp only [step, read, base]
    split
    · split <;> rfl
    · rfl
  | put n stored now =>
    simp only [step, put, base]
    split
    · split_ifs
      · simp only [setStage, FileAnalysisCache.base_put, FileEvent.base_analysis]
      · rfl
    · rfl

end AnalysisPipeline

/-- What does not depend on what the answers say. -/
def TierStage.base : TierStage → TierStage
  | .first => .first
  | .reading analysis language => .reading analysis.base language
  | .asking analysis prompt => .asking analysis.base prompt
  | .storing analysis => .storing analysis.base
  | .publishing analysis => .publishing analysis.base
  | .done => .done

namespace TwoTier

def base (s : TwoTier) : TwoTier :=
  { s with pipeline := s.pipeline.base, stages := fun n => (s.stages n).base }

variable {s s' : TwoTier} {n : ℕ}

theorem base_setStage {stage stage' : TierStage} (h : s.base = s'.base)
    (hstage : stage.base = stage'.base) :
    (s.setStage n stage).base = (s'.setStage n stage').base := by
  simp only [base, mk.injEq] at h ⊢
  refine ⟨h.1, h.2.1, funext fun m => ?_, h.2.2.2⟩
  have hm := congrFun h.2.2.1 m
  simp only [setStage, Function.update_apply]
  split_ifs
  · exact hstage
  · exact hm

/-! ## Answers that read alike -/

theorem stages_base (h : s.base = s'.base) (n : ℕ) : (s.stages n).base = (s'.stages n).base :=
  congrFun (congrArg TwoTier.stages h) n

theorem base_lookUp (h : s.base = s'.base) (llm : Bool) (n : ℕ) (locked : Bool) :
    (s.lookUp llm n locked).base = (s'.lookUp llm n locked).base := by
  have htasks : s.pipeline.tasks = s'.pipeline.tasks := congrArg (·.pipeline.tasks) h
  have hlanguages : s.languages = s'.languages := congrArg (·.languages) h
  have hresult : s.result n = s'.result n := by
    have hn := stages_base h n
    unfold result
    rw [htasks]
    rcases hs : s.stages n <;> rcases hs' : s'.stages n <;> simp [hs, hs', TierStage.base] at hn ⊢
  unfold lookUp
  rw [hresult, hlanguages]
  rcases s'.result n with _ | ⟨t, analysis⟩
  · exact h
  · simp only
    split <;> exact base_setStage h rfl

theorem base_readAgain (h : s.base = s'.base) (n : ℕ) :
    (s.readAgain n).base = (s'.readAgain n).base := by
  have htasks : s.pipeline.tasks = s'.pipeline.tasks := congrArg (·.pipeline.tasks) h
  have hfiles : s.pipeline.files = s'.pipeline.files := congrArg (·.pipeline.files) h
  have hn := stages_base h n
  unfold readAgain
  rw [htasks, hfiles]
  rcases hs : s.stages n <;> rcases hs' : s'.stages n <;> simp [hs, hs', TierStage.base] at hn ⊢
  case reading.reading analysis language analysis' language' =>
    obtain ⟨hbase, rfl⟩ := hn
    rcases s'.pipeline.tasks[n]? with _ | t
    · exact h
    · simp only
      split <;> exact base_setStage h (by simp [TierStage.base, hbase])
  all_goals exact h

theorem base_store (h : s.base = s'.base) (n : ℕ) (stored : Bool) (now : ℤ) :
    (s.store n stored now).base = (s'.store n stored now).base := by
  have hn := stages_base h n
  unfold store
  rcases hs : s.stages n <;> rcases hs' : s'.stages n <;> simp [hs, hs', TierStage.base] at hn ⊢
  case storing.storing analysis analysis' =>
    have hset : (s.setStage n (.publishing analysis)).base =
        (s'.setStage n (.publishing analysis')).base :=
      base_setStage h (by simp [TierStage.base, hn])
    split_ifs
    · simp only [base, AnalysisPipeline.base, FileAnalysisCache.base_put, hn] at hset ⊢
      simp_all
    · exact hset
  all_goals exact h

theorem base_publish (h : s.base = s'.base) (n : ℕ) :
    (s.publish n).base = (s'.publish n).base := by
  have htasks : s.pipeline.tasks = s'.pipeline.tasks := congrArg (·.pipeline.tasks) h
  have hn := stages_base h n
  unfold publish
  rw [htasks]
  rcases hs : s.stages n <;> rcases hs' : s'.stages n <;> simp [hs, hs', TierStage.base] at hn ⊢
  case publishing.publishing analysis analysis' =>
    rcases s'.pipeline.tasks[n]? with _ | t
    · exact h
    · have hlines : analysis.lineCount = analysis'.lineCount := 
        congrArg (·.lineCount) (show analysis.base = analysis'.base from hn)
      have htodos : analysis.todoCount = analysis'.todoCount := 
        congrArg (·.todoCount) (show analysis.base = analysis'.base from hn)
      refine base_setStage ?_ rfl
      simp only [base, mk.injEq] at h ⊢
      simp [h, hlines, htodos]
  all_goals exact h

end TwoTier

/-- Whether an answer can be merged, and what it leaves as it is. -/
structure Merges (merge : FileAnalysis → List Char → Option FileAnalysis)
    (readable : List Char → Prop) : Prop where
  readable_iff : ∀ a response, (∃ b, merge a response = some b) ↔ readable response
  base : ∀ a response b, merge a response = some b → b.base = a.base

/-- The same action, but for what the model answers where both answers can be read or both
cannot. No answer cannot be read. -/
inductive TierAction.Alike (readable : List Char → Prop) : TierAction → TierAction → Prop
  | same (a : TierAction) : Alike readable a a
  | respond (n : ℕ) {response response' : Option (List Char)}
      (h : (∃ r ∈ response, readable r) ↔ ∃ r ∈ response', readable r) :
      Alike readable (.respond n response) (.respond n response')

namespace TwoTier

variable {s s' : TwoTier} {merge : FileAnalysis → List Char → Option FileAnalysis}
  {readable : List Char → Prop}

theorem base_respond (hmerge : Merges merge readable) (h : s.base = s'.base) (n : ℕ)
    {response response' : Option (List Char)}
    (hread : (∃ r ∈ response, readable r) ↔ ∃ r ∈ response', readable r) :
    (s.respond merge n response).base = (s'.respond merge n response').base := by
  have hn := stages_base h n
  unfold respond
  rcases hs : s.stages n <;> rcases hs' : s'.stages n <;> simp [hs, hs', TierStage.base] at hn ⊢
  case asking.asking analysis prompt analysis' prompt' =>
    obtain ⟨hbase, rfl⟩ := hn
    have hsome : ∀ (a : FileAnalysis) (r : Option (List Char)),
        (∃ b, r.bind (merge a) = some b) ↔ ∃ x ∈ r, readable x := by
      intro a r
      rcases r with _ | x
      · simp
      · simpa using hmerge.readable_iff a x
    have hadds : ∀ (a b : FileAnalysis) (r : Option (List Char)),
        r.bind (merge a) = some b → b.base = a.base := by
      intro a b r hr
      obtain ⟨x, -, hx⟩ := Option.bind_eq_some_iff.1 hr
      exact hmerge.base a x b hx
    rcases hb : response.bind (merge analysis) with _ | b <;>
      rcases hb' : response'.bind (merge analysis') with _ | b'
    · exact base_setStage h (by simp [TierStage.base, hbase])
    · obtain ⟨b, hb'⟩ := (hsome analysis _).2 (hread.2 ((hsome _ _).1 ⟨b', hb'⟩))
      simp [hb] at hb'
    · obtain ⟨b', hb⟩ := (hsome analysis' _).2 (hread.1 ((hsome _ _).1 ⟨b, hb⟩))
      simp [hb'] at hb
    · refine base_setStage h ?_
      simp [TierStage.base, hadds _ _ _ hb, hadds _ _ _ hb', hbase]
  all_goals exact h

variable [Letters] {config : PipelineConfig} {dedup : ContentDedup} {llm : Bool}
  {a a' : TierAction}

/-- What an answer says is not seen in what is done. -/
theorem base_step (hmerge : Merges merge readable) (h : s.base = s'.base)
    (ha : TierAction.Alike readable a a') :
    (s.step config dedup llm merge a).base = (s'.step config dedup llm merge a').base := by
  cases ha with
  | respond n hread => exact base_respond hmerge h n hread
  | same a =>
    cases a with
    | first a =>
      have hpipeline : s.pipeline.base = s'.pipeline.base := congrArg TwoTier.pipeline h
      simp only [base, mk.injEq, step, AnalysisPipeline.base_step] at h ⊢
      exact ⟨by rw [hpipeline], h.2⟩
    | register language =>
      simp only [base, mk.injEq, step] at h ⊢
      exact ⟨h.1, by rw [h.2.1], h.2.2⟩
    | lookUp n locked => exact base_lookUp h llm n locked
    | readAgain n => exact base_readAgain h n
    | respond n response => exact base_respond hmerge h n Iff.rfl
    | store n stored now => exact base_store h n stored now
    | publish n => exact base_publish h n

theorem base_after (hmerge : Merges merge readable) {as as' : List TierAction}
    (has : List.Forall₂ (TierAction.Alike readable) as as') (h : s.base = s'.base) :
    (Run.after (step config dedup llm merge) s as).base =
      (Run.after (step config dedup llm merge) s' as').base := by
  refine Run.after_related (fun s s' : TwoTier => s.base = s'.base) (fun s s' a a' h ha => ?_) has h
  exact base_step hmerge h ha

end TwoTier

/-! ## Where results come from -/

namespace AnalysisPipeline

variable [Letters] {config : PipelineConfig} {dedup : ContentDedup} {p : AnalysisPipeline}
  {a : PipelineAction} {had : PathBuf → List Char → Prop} {n m : ℕ}

/-- The tasks after an action: those before, one more, or one of them further than it was. -/
inductive Moves (p : AnalysisPipeline) (tasks : List AnalysisTask) : Prop
  | same (h : tasks = p.tasks)
  | schedule (t : AnalysisTask) (ht : t.stage = .scheduled) (h : tasks = p.tasks ++ [t])
  | move (n : ℕ) (t : AnalysisTask) (stage : AnalysisStage) (ht : p.tasks[n]? = some t)
      (hunfinished : ¬ t.Finished)
      (hread : ∀ content, stage = .read content →
        (p.files t.file).bind Utf8.decode? = some content)
      (hresult : ∀ b, stage = .finished (some b) → ∃ content, t.stage = .read content ∧
        b = t.event.analysis t.hash content)
      (h : tasks = (p.setStage n stage).tasks)

theorem moves_step (p : AnalysisPipeline) (a : PipelineAction) :
    Moves p (p.step config dedup a).tasks := by
  cases a with
  | change files => exact .same rfl
  | event e projectRoot =>
    simp only [step, handleEvent]
    split
    · exact .same rfl
    · exact .schedule _ rfl rfl
  | check n opens =>
    simp only [step, check]
    split
    · rename_i ht
      split_ifs
      · exact .move n _ _ ht (by simp [AnalysisTask.Finished]) (by simp) (by simp) rfl
      · exact .move n _ _ ht (by simp [AnalysisTask.Finished]) (by simp) (by simp) rfl
    · exact .same rfl
  | acquire n =>
    simp only [step, acquire]
    split
    · rename_i ht
      split_ifs
      · exact .move n _ _ ht (by simp [AnalysisTask.Finished]) (by simp) (by simp) rfl
      · exact .same rfl
    · exact .same rfl
  | checkSize n =>
    simp only [step, checkSize]
    split
    · rename_i ht
      split
      · exact .move n _ _ ht (by simp [AnalysisTask.Finished]) (by simp) (by simp) rfl
      · split_ifs
        · exact .move n _ _ ht (by simp [AnalysisTask.Finished]) (by simp) (by simp) rfl
        · exact .move n _ _ ht (by simp [AnalysisTask.Finished]) (by simp) (by simp) rfl
    · exact .same rfl
  | read n =>
    simp only [step, AnalysisPipeline.read]
    split
    · rename_i ht
      split
      · exact .move n _ _ ht (by simp [AnalysisTask.Finished]) (by simp) (by simp) rfl
      · rename_i content hcontent
        refine .move n _ _ ht (by simp [AnalysisTask.Finished]) (fun content' h => ?_) (by simp) rfl
        cases h
        exact hcontent
    · exact .same rfl
  | put n stored now =>
    simp only [step, put]
    split
    · rename_i e hash projectRoot content ht
      refine .move n _ (.finished (some (e.analysis hash content))) ht
        (by simp [AnalysisTask.Finished]) (by simp) (fun b h => ?_) ?_
      · cases h
        exact ⟨content, rfl, rfl⟩
      · split_ifs <;> rfl
    · exact .same rfl

/-- What has come to an end stays as it is. -/
theorem Moves.finished {tasks : List AnalysisTask} (h : Moves p tasks) {t : AnalysisTask}
    (ht : p.tasks[m]? = some t) (hf : t.Finished) : tasks[m]? = some t := by
  cases h with
  | same h => rwa [h]
  | schedule t' _ h =>
    rw [h]
    exact List.getElem?_append_left (List.getElem?_eq_some_iff.1 ht).1 ▸ ht
  | move n t' stage ht' hunfinished _ _ h =>
    have hne : n ≠ m := by
      rintro rfl
      rw [ht] at ht'
      cases ht'
      exact hunfinished hf
    rw [h, tasks_setStage_of_ne hne]
    exact ht

/-- What a task has read was in its file, and a result is of what the task has read. -/
structure Sourced (had : PathBuf → List Char → Prop) (tasks : List AnalysisTask) : Prop where
  read : ∀ (n : ℕ) t content, tasks[n]? = some t → t.stage = .read content → had t.file content
  result : ∀ (n : ℕ) t b, tasks[n]? = some t → t.stage = .finished (some b) →
    ∃ content, had t.file content ∧ b = t.event.analysis t.hash content

/-- The contents of the files are among those that were there. -/
def Has (had : PathBuf → List Char → Prop) (files : Files) : Prop :=
  ∀ path content, (files path).bind Utf8.decode? = some content → had path content

theorem Sourced.moves {tasks : List AnalysisTask} (h : Sourced had p.tasks)
    (hfiles : Has had p.files) (hmoves : Moves p tasks) : Sourced had tasks := by
  cases hmoves with
  | same heq => rwa [heq]
  | schedule t ht heq =>
    subst heq
    have hmem : ∀ (n : ℕ) t', (p.tasks ++ [t])[n]? = some t' →
        p.tasks[n]? = some t' ∨ t'.stage = .scheduled := by
      intro n t' ht'
      rw [List.getElem?_append] at ht'
      split_ifs at ht'
      · exact .inl ht'
      · rw [List.getElem?_singleton] at ht'
        split_ifs at ht'
        cases ht'
        exact .inr ht
    refine ⟨fun n t' content ht' hread => ?_, fun n t' b ht' hresult => ?_⟩
    · rcases hmem n t' ht' with hold | hnew
      · exact h.read n t' content hold hread
      · simp [hnew] at hread
    · rcases hmem n t' ht' with hold | hnew
      · exact h.result n t' b hold hresult
      · simp [hnew] at hresult
  | move n t stage ht _ hread hresult heq =>
    subst heq
    refine ⟨fun m t' content ht' hr => ?_, fun m t' b ht' hb => ?_⟩ <;>
      rcases eq_or_ne n m with rfl | hne
    · rw [tasks_setStage_self ht] at ht'
      cases ht'
      exact hfiles t.file content (hread content hr)
    · rw [tasks_setStage_of_ne hne] at ht'
      exact h.read m t' content ht' hr
    · rw [tasks_setStage_self ht] at ht'
      cases ht'
      obtain ⟨content, hstage, rfl⟩ := hresult b hb
      exact ⟨content, h.read n t content ht hstage, rfl⟩
    · rw [tasks_setStage_of_ne hne] at ht'
      exact h.result m t' b ht' hb

end AnalysisPipeline

def TierStage.analysis : TierStage → Option FileAnalysis
  | .first => none
  | .reading analysis _ => some analysis
  | .asking analysis _ => some analysis
  | .storing analysis => some analysis
  | .publishing analysis => some analysis
  | .done => none

namespace TwoTier

section Origin

open AnalysisPipeline

variable [Letters] (had : PathBuf → List Char → Prop) (tasks : List AnalysisTask)

/-- The task with the result it has come to, of a content its file had. -/
def Result (n : ℕ) (t : AnalysisTask) (b : FileAnalysis) : Prop :=
  tasks[n]? = some t ∧ t.stage = .finished (some b) ∧
    ∃ content, had t.file content ∧ b = t.event.analysis t.hash content

/-- The result of a task, up to what an answer has added. -/
def ResultOf (n : ℕ) (a : FileAnalysis) : Prop := ∃ t b, Result had tasks n t b ∧ a.base = b

def SentFor (n : ℕ) (sent : Notification) : Prop := ∃ t b, Result had tasks n t b ∧
  sent = .analysisComplete t.event.projectId t.event.filePath b.lineCount b.todoCount

variable {had tasks} {n : ℕ} {t : AnalysisTask} {a b : FileAnalysis} {sent : Notification}

theorem Result.base (h : Result had tasks n t b) : b.base = b := by
  obtain ⟨-, -, content, -, rfl⟩ := h
  rfl

theorem Result.moves {p : AnalysisPipeline} (h : Result had p.tasks n t b)
    (hmoves : Moves p tasks) : Result had tasks n t b :=
  ⟨hmoves.finished h.1 ⟨_, h.2.1⟩, h.2⟩

theorem ResultOf.moves {p : AnalysisPipeline} (h : ResultOf had p.tasks n a)
    (hmoves : Moves p tasks) : ResultOf had tasks n a := by
  obtain ⟨t, b, hresult, hbase⟩ := h
  exact ⟨t, b, hresult.moves hmoves, hbase⟩

theorem SentFor.moves {p : AnalysisPipeline} (h : SentFor had p.tasks n sent)
    (hmoves : Moves p tasks) : SentFor had tasks n sent := by
  obtain ⟨t, b, hresult, heq⟩ := h
  exact ⟨t, b, hresult.moves hmoves, heq⟩

end Origin

open AnalysisPipeline

variable [Letters] {had : PathBuf → List Char → Prop} {s : TwoTier} {n : ℕ}

/-- Whatever is on its way, cached or sent is of the result of a task, and each task sends once. -/
structure Origin (had : PathBuf → List Char → Prop) (s : TwoTier) : Prop where
  sourced : Sourced had s.pipeline.tasks
  stages : ∀ n a, (s.stages n).analysis = some a → ResultOf had s.pipeline.tasks n a
  cached : ∀ r ∈ s.pipeline.cache.rows, ∃ n, ResultOf had s.pipeline.tasks n r.analysis
  sent : ∀ q ∈ s.published, SentFor had s.pipeline.tasks q.1 q.2
  once : (s.published.map Prod.fst).Nodup
  done : ∀ n ∈ s.published.map Prod.fst, s.stages n = .done

theorem Origin.setStage (h : Origin had s) {stage : TierStage} (hn : s.stages n ≠ .done)
    (hstage : ∀ a, stage.analysis = some a → ResultOf had s.pipeline.tasks n a) :
    Origin had (s.setStage n stage) where
  sourced := h.sourced
  stages m a hm := by
    simp only [TwoTier.setStage, Function.update_apply] at hm ⊢
    split_ifs at hm with heq
    · subst heq
      exact hstage a hm
    · exact h.stages m a hm
  cached := h.cached
  sent := h.sent
  once := h.once
  done m hm := by
    simp only [TwoTier.setStage, Function.update_apply]
    split_ifs with heq
    · subst heq
      exact absurd (h.done m hm) hn
    · exact h.done m hm

theorem Origin.first {config : PipelineConfig} {dedup : ContentDedup} (h : Origin had s)
    (hfiles : Has had s.pipeline.files) (a : PipelineAction) :
    Origin had { s with pipeline := s.pipeline.step config dedup a } := by
  have hmoves : Moves s.pipeline (s.pipeline.step config dedup a).tasks := moves_step _ a
  refine ⟨h.sourced.moves hfiles hmoves, fun n a hn => (h.stages n a hn).moves hmoves, ?_,
    fun q hq => (h.sent q hq).moves hmoves, h.once, h.done⟩
  have hold : ∀ r ∈ s.pipeline.cache.rows,
      ∃ n, ResultOf had (s.pipeline.step config dedup a).tasks n r.analysis := by
    intro r hr
    obtain ⟨n, hn⟩ := h.cached r hr
    exact ⟨n, hn.moves hmoves⟩
  cases step_cases config dedup s.pipeline a with
  | same _ _ hcache => rwa [hcache]
  | schedule _ _ _ _ hcache => rwa [hcache]
  | further n t stage _ _ _ hstep =>
    have hcache : (s.pipeline.step config dedup a).cache = s.pipeline.cache := by rw [hstep]; rfl
    rwa [hcache]
  | endFresh n t _ _ _ hstep =>
    have hcache : (s.pipeline.step config dedup a).cache = s.pipeline.cache := by rw [hstep]; rfl
    rwa [hcache]
  | endNone n t result _ _ hstep =>
    have hcache : (s.pipeline.step config dedup a).cache = s.pipeline.cache := by rw [hstep]; rfl
    rwa [hcache]
  | endPut n t content now ht hread _ _ hstep =>
    have hcache : (s.pipeline.step config dedup a).cache =
        s.pipeline.cache.put (t.event.analysis t.hash content) now := by rw [hstep]
    have htask : (s.pipeline.step config dedup a).tasks[n]? =
        some { t with stage := .finished (some (t.event.analysis t.hash content)) } := by
      rw [hstep]
      exact tasks_setStage_self ht
    rw [hcache]
    intro r hr
    rcases s.pipeline.cache.mem_rows_put hr with hr | rfl
    · exact hold r hr
    · exact ⟨n, _, _, ⟨htask, rfl, content, h.sourced.read n t content ht hread, rfl⟩, rfl⟩

omit [Letters] in
theorem result_eq_some {t : AnalysisTask} {a : FileAnalysis} (h : s.result n = some (t, a)) :
    s.stages n = .first ∧ s.pipeline.tasks[n]? = some t ∧ t.stage = .finished (some a) := by
  unfold result at h
  split at h
  · rename_i hstage htask
    split at h
    · rename_i hfinished
      cases h
      exact ⟨hstage, htask, hfinished⟩
    · cases h
  · cases h

theorem Origin.lookUp (h : Origin had s) (llm : Bool) (n : ℕ) (locked : Bool) :
    Origin had (s.lookUp llm n locked) := by
  unfold TwoTier.lookUp
  split
  · exact h
  · rename_i t a hresult
    obtain ⟨hfirst, htask, hstage⟩ := result_eq_some hresult
    have hof : ResultOf had s.pipeline.tasks n a := by
      have hr : Result had s.pipeline.tasks n t a :=
        ⟨htask, hstage, h.sourced.result n t a htask hstage⟩
      exact ⟨t, a, hr, hr.base⟩
    have hn : s.stages n ≠ .done := by simp [hfirst]
    split
    · exact h.setStage hn fun b hb => by cases hb; exact hof
    · exact h.setStage hn fun b hb => by cases hb; exact hof

theorem Origin.readAgain (h : Origin had s) (n : ℕ) : Origin had (s.readAgain n) := by
  unfold TwoTier.readAgain
  split
  · rename_i a language t hstage htask
    have hof := h.stages n a (by rw [hstage]; rfl)
    have hn : s.stages n ≠ .done := by simp [hstage]
    split
    · exact h.setStage hn fun b hb => by cases hb; exact hof
    · exact h.setStage hn fun b hb => by cases hb; exact hof
  · exact h

theorem Origin.respond {merge : FileAnalysis → List Char → Option FileAnalysis}
    {readable : List Char → Prop} (hmerge : Merges merge readable) (h : Origin had s) (n : ℕ)
    (response : Option (List Char)) : Origin had (s.respond merge n response) := by
  unfold TwoTier.respond
  split
  · rename_i a prompt hstage
    obtain ⟨t, b, hresult, hbase⟩ := h.stages n a (by rw [hstage]; rfl)
    have hn : s.stages n ≠ .done := by simp [hstage]
    split
    · exact h.setStage hn fun c hc => by cases hc; exact ⟨t, b, hresult, hbase⟩
    · rename_i enhanced henhanced
      obtain ⟨r, -, hr⟩ := Option.bind_eq_some_iff.1 henhanced
      refine h.setStage hn fun c hc => ?_
      cases hc
      exact ⟨t, b, hresult, (hmerge.base a r enhanced hr).trans hbase⟩
  · exact h

theorem Origin.store (h : Origin had s) (n : ℕ) (stored : Bool) (now : ℤ) :
    Origin had (s.store n stored now) := by
  unfold TwoTier.store
  split
  · rename_i a hstage
    have hof := h.stages n a (by rw [hstage]; rfl)
    have hset : Origin had (s.setStage n (.publishing a)) :=
      h.setStage (by simp [hstage]) fun b hb => by cases hb; exact hof
    split_ifs
    · refine ⟨hset.sourced, hset.stages, fun r hr => ?_, hset.sent, hset.once, hset.done⟩
      rcases s.pipeline.cache.mem_rows_put hr with hr | rfl
      · exact h.cached r hr
      · exact ⟨n, hof⟩
    · exact hset
  · exact h

theorem Origin.publish (h : Origin had s) (n : ℕ) : Origin had (s.publish n) := by
  unfold TwoTier.publish
  split
  · rename_i a t hstage htask
    obtain ⟨t', b, hresult, hbase⟩ := h.stages n a (by rw [hstage]; rfl)
    have heq : t' = t := by
      have hn := hresult.1
      rw [htask] at hn
      exact (Option.some.inj hn).symm
    subst heq
    have hnew : n ∉ s.published.map Prod.fst := by
      intro hmem
      have hdone := h.done n hmem
      simp [hstage] at hdone
    refine ⟨h.sourced, fun m c hm => ?_, h.cached, fun q hq => ?_, ?_, fun m hm => ?_⟩
    · simp only [TwoTier.setStage, Function.update_apply] at hm
      split_ifs at hm with heq
      · cases hm
      · exact h.stages m c hm
    · rcases List.mem_append.1 hq with hq | hq
      · exact h.sent q hq
      · rw [List.mem_singleton.1 hq]
        exact ⟨t', b, hresult, by rw [← hbase]; rfl⟩
    · simp only [TwoTier.setStage, List.map_append, List.map_singleton]
      exact List.nodup_append.2 ⟨h.once, List.nodup_singleton n, fun m hm k hk heq =>
        hnew (by rw [← List.mem_singleton.1 hk, ← heq]; exact hm)⟩
    · simp only [TwoTier.setStage, Function.update_apply]
      split_ifs with heq
      · rfl
      · refine h.done m ?_
        simpa [TwoTier.setStage, heq] using hm
  · exact h

theorem Origin.step {config : PipelineConfig} {dedup : ContentDedup} {llm : Bool}
    {merge : FileAnalysis → List Char → Option FileAnalysis} {readable : List Char → Prop}
    (hmerge : Merges merge readable) (h : Origin had s) (hfiles : Has had s.pipeline.files)
    (a : TierAction) : Origin had (s.step config dedup llm merge a) := by
  cases a with
  | first a => exact h.first hfiles a
  | register language => exact ⟨h.sourced, h.stages, h.cached, h.sent, h.once, h.done⟩
  | lookUp n locked => exact h.lookUp llm n locked
  | readAgain n => exact h.readAgain n
  | respond n response => exact h.respond hmerge n response
  | store n stored now => exact h.store n stored now
  | publish n => exact h.publish n

theorem origin_new (files : Files) : Origin had (new files) where
  sourced := ⟨by simp [new, AnalysisPipeline.new], by simp [new, AnalysisPipeline.new]⟩
  stages := by simp [new, TierStage.analysis]
  cached := by simp [new, AnalysisPipeline.new, FileAnalysisCache.empty]
  sent := by simp [new]
  once := List.nodup_nil
  done := by simp [new]

end TwoTier

theorem SerdeJson.merges (serde : SerdeJson) : Merges serde.merge
    fun r => ∃ parsed, LlmFileAnalyzer.parseResponse serde r = .ok parsed where
  readable_iff a r := by
    unfold merge LlmFileAnalyzer.enhanceWithLlmResponse
    rcases LlmFileAnalyzer.parseResponse serde r with e | parsed
    · simp [Except.map, Except.toOption]
    · simp [Except.map, Except.toOption]
  base _ _ _ h := base_merge h

namespace TwoTier

section Runs

variable [Letters] (config : PipelineConfig) (dedup : ContentDedup) (llm : Bool)
  (serde : SerdeJson) (files : Files)

/-- The state after some actions, where the answers are JSON. -/
def reached (as : List TierAction) : TwoTier :=
  Run.after (step config dedup llm serde.merge) (new files) as

/-- A file had a content in some state of a run. -/
def Had (as : List TierAction) (path : PathBuf) (content : List Char) : Prop :=
  ∃ pre, pre <+: as ∧
    ((reached config dedup llm serde files pre).pipeline.files path).bind Utf8.decode? =
      some content

/-- **In every run what is cached is, up to its imports, exports and lint hints, the result of a
task, counted from a content that its file had during the run. Each notification has the counts of
such a result, and no task sends two.** -/
theorem results_sourced (as : List TierAction) :
    let s := reached config dedup llm serde files as
    let had := Had config dedup llm serde files as
    (∀ r ∈ s.pipeline.cache.rows, ∃ n, ResultOf had s.pipeline.tasks n r.analysis) ∧
    (∀ q ∈ s.published, SentFor had s.pipeline.tasks q.1 q.2) ∧
    (s.published.map Prod.fst).Nodup := by
  have hsteps : Run.Steps (step config dedup llm serde.merge) (new files)
      (fun s _ => AnalysisPipeline.Has (Had config dedup llm serde files as) s.pipeline.files)
      as :=
    fun pre a hpre path content hcontent =>
      ⟨pre, (List.prefix_append pre [a]).trans hpre, hcontent⟩
  have horigin : Origin (Had config dedup llm serde files as)
      (reached config dedup llm serde files as) :=
    hsteps.after (origin_new files) fun s a hs hhas => hs.step serde.merges hhas a
  exact ⟨horigin.cached, horigin.sent, horigin.once⟩

variable {as as' : List TierAction}

/-- **Runs in which the model gives different answers are the same, as long as the same of them
can be read: files, tasks and notifications are the same in the end, and the entries of the cache
are up to imports, exports and lint hints.** -/
theorem answers_unseen
    (h : List.Forall₂ (TierAction.Alike fun response =>
      ∃ parsed, LlmFileAnalyzer.parseResponse serde response = .ok parsed) as as') :
    let s := reached config dedup llm serde files as
    let s' := reached config dedup llm serde files as'
    s.pipeline.files = s'.pipeline.files ∧ s.pipeline.tasks = s'.pipeline.tasks ∧
    s.published = s'.published ∧ s.languages = s'.languages ∧
    ∀ projectId filePath,
      (s.pipeline.cache.get projectId filePath).map FileAnalysis.base =
        (s'.pipeline.cache.get projectId filePath).map FileAnalysis.base := by
  have hbase : (reached config dedup llm serde files as).base =
      (reached config dedup llm serde files as').base := base_after serde.merges h rfl
  refine ⟨congrArg (·.pipeline.files) hbase, congrArg (·.pipeline.tasks) hbase,
    congrArg (·.published) hbase, congrArg (·.languages) hbase, fun projectId filePath => ?_⟩
  have hget := congrArg (·.pipeline.cache.get projectId filePath) hbase
  simpa only [base, AnalysisPipeline.base, FileAnalysisCache.get_base] using hget

end Runs

def exportsText : List Char := "\x7b\"exports\":[\"f\"]\x7d".toList

def nothingText : List Char := "\x7b\x7d".toList

/-- Reads the answer with an export and the one without any. -/
def answersJson : SerdeJson where
  toStr _ := nothingText
  fromStr s :=
    if s = exportsText then some (.object [("exports", .array [.string "f"])])
    else if s = nothingText then some (.object []) else none

theorem parse_answersJson : ∀ response ∈ [exportsText, nothingText],
    ∃ parsed, LlmFileAnalyzer.parseResponse answersJson response = .ok parsed := by
  intro response h
  rcases List.mem_pair.1 h with rfl | rfl
  · exact ⟨⟨[], ["f"], []⟩, rfl⟩
  · exact ⟨⟨[], [], []⟩, rfl⟩

def answered (response : List Char) : List TierAction :=
  [.first (.event (.new .epoch .modified "app" "a.rs" "m") (.ofString "/w")),
    .first (.check 0 true), .first (.acquire 0), .first (.checkSize 0), .first (.read 0),
    .first (.put 0 true 0), .lookUp 0 true, .readAgain 0, .respond 0 (some response),
    .store 0 true 0, .publish 0]

theorem answers_unseen_exports :
    (@reached asciiLetters {} ⟨1024, fun _ => "hash"⟩ true answersJson (fun _ => some [97, 10])
      (answered exportsText)).published =
    (@reached asciiLetters {} ⟨1024, fun _ => "hash"⟩ true answersJson (fun _ => some [97, 10])
      (answered nothingText)).published :=
  (@answers_unseen asciiLetters {} ⟨1024, fun _ => "hash"⟩ true answersJson
    (fun _ => some [97, 10]) _ _ (by
      have hread := parse_answersJson
      simp only [answered, List.forall₂_cons, List.forall₂_nil_left_iff, and_true]
      refine ⟨.same _, .same _, .same _, .same _, .same _, .same _, .same _, .same _,
        .respond 0 ?_, .same _, .same _⟩
      simp [hread])).2.2.1

end TwoTier

end AmbientFs
