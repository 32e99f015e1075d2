import AmbientFs.Proofs.Pipeline

/-!
# The order in which analyses end

The entry of a file is left by the task that ends last, which need not be that of its latest
event: tasks wait for permits and for the disk in any order, and put what they have without asking
the cache again.
-/

namespace AmbientFs

variable {p : AnalysisPipeline} {n m : ℕ} {stage : AnalysisStage} {key : String × String}
  {hash : String} {t : AnalysisTask}

namespace AnalysisPipeline

/-- The analyses of a file have all ended. -/
def AllFinished (tasks : List AnalysisTask) (key : String × String) : Prop :=
  ∀ (m : ℕ) t, tasks[m]? = some t → t.key = key → t.Finished

/-- Those of a file but one have ended. -/
def OthersFinished (tasks : List AnalysisTask) (n : ℕ) (key : String × String) : Prop :=
  ∀ (m : ℕ) t, tasks[m]? = some t → t.key = key → m ≠ n → t.Finished

/-- The entry of a file carries the hash. -/
def HasHash (c : FileAnalysisCache) (key : String × String) (hash : String) : Prop :=
  ∃ analysis, c.get key.1 key.2 = some analysis ∧ analysis.contentHash = hash

/-- Of a file whose analyses have all ended the entry carries the hash of its latest event. -/
def LatestWins (p : AnalysisPipeline) : Prop :=
  ∀ key, AllFinished p.tasks key → ∀ hash, p.latestHash key = some hash →
    HasHash p.cache key hash

/-- The task that ends when those of its file have all ended otherwise has the hash of the latest
event, if it puts an entry or finds one; and if it fails, the entry carries that hash already. -/
def LatestLast (config : PipelineConfig) (p : AnalysisPipeline) (a : PipelineAction) : Prop :=
  ∀ n carried t, p.ends config a = some (n, carried) → p.tasks[n]? = some t →
    OthersFinished p.tasks n t.key → ∀ hash, p.latestHash t.key = some hash →
      if carried then t.hash = hash else HasHash p.cache t.key hash

theorem HasHash.eq {c : FileAnalysisCache} {hash' : String} (h : HasHash c key hash)
    (h' : HasHash c key hash') : hash = hash' := by
  obtain ⟨analysis, hget, rfl⟩ := h
  obtain ⟨analysis', hget', rfl⟩ := h'
  rw [hget] at hget'
  cases hget'
  rfl

theorem hasHash_of_isFresh {c : FileAnalysisCache}
    (h : c.isFresh key.1 key.2 hash = true) : HasHash c key hash := c.isFresh_iff.1 h

variable [Letters]

theorem hasHash_put {c : FileAnalysisCache} (e : FileEvent) (content : List Char) (now : ℤ) :
    HasHash (c.put (e.analysis hash content) now) e.key hash :=
  ⟨_, c.get_put_self (e.analysis hash content) now, rfl⟩

theorem hasHash_put_of_ne {c : FileAnalysisCache} {e : FileEvent} {hash' : String}
    (h : e.key ≠ key) (content : List Char) (now : ℤ) :
    HasHash (c.put (e.analysis hash' content) now) key hash ↔ HasHash c key hash := by
  rw [HasHash, HasHash, c.get_put_of_ne now h]

omit [Letters] in
theorem finished_setStage (ht : p.tasks[n]? = some t) {result : Option FileAnalysis}
    (h : OthersFinished p.tasks n key) :
    AllFinished (p.setStage n (.finished result)).tasks key := by
  intro m t' ht' hkey
  rcases eq_or_ne n m with rfl | hnm
  · rw [tasks_setStage_self ht] at ht'
    cases ht'
    exact ⟨result, rfl⟩
  · rw [tasks_setStage_of_ne hnm] at ht'
    exact h m t' ht' hkey hnm.symm

omit [Letters] in
theorem othersFinished_of_setStage (h : AllFinished (p.setStage n stage).tasks key) :
    OthersFinished p.tasks n key := by
  intro m t ht hkey hne
  exact h m t (by rw [tasks_setStage_of_ne hne.symm, ht]) hkey

omit [Letters] in
/-- What happens to a task does not matter for another file. -/
theorem allFinished_of_setStage (ht : p.tasks[n]? = some t) (hne : t.key ≠ key)
    (h : AllFinished (p.setStage n stage).tasks key) : AllFinished p.tasks key := by
  intro m t' ht' hkey
  refine othersFinished_of_setStage h m t' ht' hkey ?_
  rintro rfl
  rw [ht] at ht'
  cases ht'
  exact hne hkey

variable {config : PipelineConfig} {dedup : ContentDedup} {a : PipelineAction}

theorem LatestWins.step (h : LatestWins p) (ha : LatestLast config p a) :
    LatestWins (p.step config dedup a) := by
  intro key hall hash hlatest
  cases step_cases config dedup p a with
  | same _ htasks hcache =>
    rw [htasks] at hall
    rw [latestHash, htasks] at hlatest
    rw [hcache]
    exact h key hall hash hlatest
  | schedule t ht _ htasks hcache =>
    rw [htasks] at hall
    have hne : t.key ≠ key := by
      intro hkey
      obtain ⟨result, hr⟩ := hall p.tasks.length t (by simp) hkey
      rw [ht] at hr
      cases hr
    rw [latestHash, htasks, List.filter_append, List.filter_singleton] at hlatest
    simp only [hne, decide_false, cond_false, List.append_nil] at hlatest
    rw [hcache]
    refine h key (fun m t' ht' => hall m t' ?_) hash hlatest
    rw [List.getElem?_append_left (List.getElem?_eq_some_iff.1 ht').1, ht']
  | further n t stage ht hstage _ hstep =>
    rw [hstep] at hall hlatest ⊢
    have hne : t.key ≠ key := by
      intro hkey
      obtain ⟨result, hr⟩ := hall n _ (tasks_setStage_self ht) hkey
      exact hstage result hr
    rw [latestHash_setStage] at hlatest
    exact h key (allFinished_of_setStage ht hne hall) hash hlatest
  | endFresh n t ht hfresh hends hstep =>
    rw [hstep] at hall hlatest ⊢
    rw [latestHash_setStage] at hlatest
    by_cases hkey : t.key = key
    · subst hkey
      have heq := ha n true t hends ht (othersFinished_of_setStage hall) hash hlatest
      rw [if_pos rfl] at heq
      exact heq ▸ hasHash_of_isFresh hfresh
    · exact h key (allFinished_of_setStage ht hkey hall) hash hlatest
  | endNone n t result ht hends hstep =>
    rw [hstep] at hall hlatest ⊢
    rw [latestHash_setStage] at hlatest
    by_cases hkey : t.key = key
    · subst hkey
      exact ha n false t hends ht (othersFinished_of_setStage hall) hash hlatest
    · exact h key (allFinished_of_setStage ht hkey hall) hash hlatest
  | endPut n t content now ht _ _ hends hstep =>
    rw [hstep] at hall hlatest ⊢
    have hlatest' : p.latestHash key = some hash := by
      rw [← latestHash_setStage]
      exact hlatest
    by_cases hkey : t.key = key
    · subst hkey
      have heq := ha n true t hends ht (othersFinished_of_setStage hall) hash hlatest'
      rw [if_pos rfl] at heq
      exact heq ▸ hasHash_put t.event content now
    · refine (hasHash_put_of_ne hkey content now).2 ?_
      exact h key (allFinished_of_setStage ht hkey hall) hash hlatest'

theorem not_latestWins_of_ends (ha : ¬ LatestLast config p a) :
    ¬ LatestWins (p.step config dedup a) := by
  simp only [LatestLast, not_forall] at ha
  obtain ⟨n, carried, t, hends, ht, hothers, hash, hlatest, hno⟩ := ha
  intro h
  cases step_cases config dedup p a with
  | same hends' _ _ => simp [hends'] at hends
  | schedule _ _ hends' _ _ => simp [hends'] at hends
  | further _ _ _ _ _ hends' _ => simp [hends'] at hends
  | endFresh n' t' ht' hfresh hends' hstep =>
    rw [hends'] at hends
    cases hends
    cases ht.symm.trans ht'
    rw [hstep] at h
    have hhash := h t.key (finished_setStage ht hothers) hash (by rw [latestHash_setStage, hlatest])
    exact hno ((hasHash_of_isFresh hfresh).eq hhash)
  | endNone n' t' result ht' hends' hstep =>
    rw [hends'] at hends
    cases hends
    rw [hstep] at h
    exact hno (h t.key (finished_setStage ht hothers) hash (by rw [latestHash_setStage, hlatest]))
  | endPut n' t' content now ht' _ _ hends' hstep =>
    rw [hends'] at hends
    cases hends
    cases ht.symm.trans ht'
    rw [hstep] at h
    have hlatest' : (p.setStage n (.finished (some (t.event.analysis t.hash content)))).latestHash
        t.key = some hash := by rw [latestHash_setStage, hlatest]
    have hhash := h t.key (finished_setStage ht hothers) hash hlatest'
    exact hno ((hasHash_put t.event content now).eq hhash)

/-- **Over a run the entry of a file whose analyses have all ended carries the hash of its latest
event, exactly if the analysis that ends last is always one of an event with that hash, or fails
where the entry carries it.** -/
theorem latest_wins_iff (config : PipelineConfig) (dedup : ContentDedup) (files : Files)
    (as : List PipelineAction) :
    Run.Always (AnalysisPipeline.step config dedup) (new files) LatestWins as ↔
      Run.Steps (AnalysisPipeline.step config dedup) (new files) (LatestLast config) as := by
  refine Run.always_iff_steps ?_ (fun p h => h) ?_ ?_
  · intro key _ hash hlatest
    simp [latestHash, new] at hlatest
  · exact fun p a h ha => h.step ha
  · exact fun p a _ ha => not_latestWins_of_ends ha

omit [Letters] in
/-- The analysis of the first of two events is put after that of the second. -/
theorem latest_not_wins : ¬ ∀ (_ : Letters) config dedup files as,
    Run.Always (AnalysisPipeline.step config dedup) (new files) LatestWins as := by
  intro h
  have hwins := h asciiLetters {} ⟨1024, fun bytes => if bytes = [] then "empty" else "other"⟩
    (fun _ => some []) [.event modifiedEvent (.ofString "/w"), .change fun _ => some [97, 10],
      .event modifiedEvent (.ofString "/w"), .check 0 true, .check 1 true, .acquire 0, .acquire 1,
      .checkSize 0, .checkSize 1, .read 0, .read 1, .put 1 true 0, .put 0 true 1] _
    List.prefix_rfl ("p", "a")
  simp [Run.after, AnalysisPipeline.step, new, handleEvent, FileEvent.hashed,
    FileEvent.analyzedHash, modifiedEvent, FileEvent.new, ContentDedup.hashFile, check,
    FileAnalysisCache.isFresh, FileAnalysisCache.getIfFresh, FileAnalysisCache.get,
    FileAnalysisCache.row, FileAnalysisCache.empty, setStage, acquire,
    AnalysisTask.holdsPermit, checkSize, AnalysisPipeline.read, put, decode_line,
    FileAnalysisCache.put, FileAnalysisCache.upsert, FileEvent.analysis, latestHash, HasHash,
    AllFinished, AnalysisTask.Finished, AnalysisTask.key, FileEvent.key, CacheRow.key] at hwins
  obtain ⟨m, t, ht, -, -, hunfinished⟩ := hwins
  rcases m with _ | _ | m
  · cases ht
    exact hunfinished _ rfl
  · cases ht
    exact hunfinished _ rfl
  · simp at ht

end AnalysisPipeline

end AmbientFs
