import AmbientFs.AwarenessStore
import AmbientFs.Proofs.CacheMap
import AmbientFs.Proofs.Retention

/-!
# What awareness is built from

The awareness of a file that is built from the databases is that of the events the one holds and the
analyses the other does. So over whole runs it is of the latest of the events that are kept, with
what the last write left of its analysis: a prune leaves none.
-/

namespace AmbientFs

open Sql (Db Op HoldsEvents HoldsCache Opener)

/-! ## What the files hold -/

namespace Sql

variable {json : SerdeJson} {planner : Sqlite.Planner ColumnName} {db db' : Db}

theorem openAndGetLatest_eq {es : AmbientFs.EventStore} (h : HoldsEvents db es)
    (projectId filePath : String) : openAndGetLatest planner db projectId filePath =
      (es.getLatest (eventPlanner planner) projectId filePath).mapError .store := by
  obtain ⟨db', hnew, -⟩ := run_spec .epoch .eventStore h.openable
  have hholds := h.spared (spares_run (by simp) h.openable hnew)
  simp only [Opener.run] at hnew
  rw [openAndGetLatest, hnew]
  exact getLatest_of_table hholds.events projectId filePath

theorem openAndGet_eq {c : AmbientFs.FileAnalysisCache} (h : HoldsCache json db c)
    (projectId filePath : String) :
    openAndGet json planner db projectId filePath = .ok (c.get projectId filePath) := by
  obtain ⟨db', hinit, -⟩ := run_spec .epoch .cache h.openable
  obtain ⟨n, hn⟩ := (h.spared (spares_run (by simp) h.openable hinit)).cache
  simp only [Opener.run] at hinit
  rw [openAndGet, hinit]
  exact get_of_table hn projectId filePath

/-- What is built from the database files is what is built from a disk with the stores they
hold. -/
theorem buildAwareness_eq_disk {ι : Type} [DecidableEq ι] (d : Disk ι) {storePath : PathBuf}
    {i j : ι} (hi : d.opens storePath = some i)
    (hj : d.opens (storePath.withFileName analysisDb) = some j)
    (h : HoldsEvents db (d.file i).events) (h' : HoldsCache json db' (d.file j).cache)
    (projectId filePath : String) (activeAgent : Option String) (chatReferences : UInt32)
    (now : DateTime) :
    buildAwareness json planner db db' projectId filePath activeAgent chatReferences now =
      d.buildAwareness (eventPlanner planner) storePath projectId filePath activeAgent
        chatReferences now := by
  simp only [buildAwareness, openAndGetLatest_eq h, openAndGet_eq h', Disk.buildAwareness,
    Disk.getLatest, hi, hj]
  rcases (d.file i).events.getLatest (eventPlanner planner) projectId filePath with
    e | _ | event <;> rfl

end Sql

/-! ## The cache over a run -/

/-- What an action makes of the cached analyses. -/
def StoreAction.onMap (scheduler : PruneScheduler) (m : AnalysisMap) : StoreAction → AnalysisMap
  | .exec _ (.put analysis) => (CacheWrite.put analysis).apply m
  | .exec _ (.invalidate projectId filePath) => (CacheWrite.invalidate projectId filePath).apply m
  | .exec _ (.pruneAnalysisBefore _) => fun _ => none
  | .exec _ _ => m
  | a => if (a.cutoff scheduler).isSome then fun _ => none else m

/-- What is cached in the end. -/
def cachedAfter (scheduler : PruneScheduler) (as : List StoreAction) : AnalysisMap :=
  as.foldl (StoreAction.onMap scheduler) fun _ => none

variable {scheduler : PruneScheduler} {json : Sql.SerdeJson}
  {planner : Sqlite.Planner Sql.ColumnName} {db : Db} {c : FileAnalysisCache}

/-- The migrations that a prune runs make the table of events, so that it comes to the analyses. -/
theorem holdsCache_pruneBefore (h : HoldsCache json db c) (cutoff : DateTime) (vacuums : Bool)
    (now : DateTime) : HoldsCache json (pruneBefore cutoff vacuums now db).2 .empty := by
  obtain ⟨db₁, hschema, hopenable, htables⟩ := Sql.run_spec now .migrations h.openable
  have hopened := h.spared (Sql.spares_run (by simp) h.openable hschema)
  obtain ⟨t, ht⟩ : ∃ t, db₁.tables .fileEvents = some t := by
    rw [htables _ (by simp)]
    rcases db.tables .fileEvents with _ | t
    · exact ⟨_, rfl⟩
    · exact ⟨t, rfl⟩
  have hcolumn : t.definition.Has .timestamp := by
    rcases hopenable.fileEvents t ht with hd | hd <;> rw [hd] <;> decide
  obtain ⟨count, db₂, hevents⟩ := Sql.exists_deleteBefore ht hcolumn cutoff
  have hspared := hopened.spared (Sql.spares_deleteBefore (by simp) (by simp) hevents)
  obtain ⟨n, hn⟩ := hspared.cache
  simp only [Sql.Opener.run] at hschema
  simp only [pruneBefore, hschema, Sql.EventPruner.pruneEventsBefore, hevents,
    Sql.pruneAnalysisBefore_spec hn]
  have hpruned := hspared.set .empty n
  split_ifs
  · exact hpruned
  · exact hpruned

theorem Sql.HoldsCache.exec (h : HoldsCache json db c) (now : DateTime) {op : Op}
    (hop : op.table ≠ some .fileAnalysis) :
    HoldsCache json (StoreAction.run scheduler json planner db (.exec now op)) c := by
  simp only [StoreAction.run]
  rcases hexec : op.exec json planner now db with e | ⟨reply, db'⟩
  · exact h
  · exact h.spared (Sql.spares_exec (by simp) h.openable hop hexec)

theorem Sql.HoldsCache.run (h : HoldsCache json db c) (a : StoreAction) :
    ∃ c', HoldsCache json (a.run scheduler json planner db) c' ∧
      c'.toMap = a.onMap scheduler c.toMap := by
  cases a with
  | exec now op =>
    obtain ⟨n, hn⟩ := h.cache
    cases op with
    | put analysis =>
      obtain ⟨m, hok⟩ := Sql.put_spec hn now analysis
      simp only [StoreAction.run, Op.exec, hok]
      exact ⟨_, h.set _ m, c.toMap_write now.timestamp (.put analysis)⟩
    | invalidate projectId filePath =>
      simp only [StoreAction.run, Op.exec, Sql.invalidate_of_table hn]
      exact ⟨_, h.set _ n, c.toMap_write now.timestamp (.invalidate projectId filePath)⟩
    | pruneAnalysisBefore cutoff =>
      simp only [StoreAction.run, Op.exec, Sql.pruneAnalysisBefore_spec hn]
      exact ⟨.empty, h.set _ n, rfl⟩
    | get projectId filePath =>
      simp only [StoreAction.run, Op.exec, Sql.get_of_table hn]
      exact ⟨c, h, rfl⟩
    | getIfFresh projectId filePath hash =>
      simp only [StoreAction.run, Op.exec, Sql.getIfFresh_of_table hn]
      exact ⟨c, h, rfl⟩
    | isFresh projectId filePath hash =>
      simp only [StoreAction.run, Op.exec, Sql.isFresh_of_table hn]
      exact ⟨c, h, rfl⟩
    | getByHash projectId contentHash =>
      simp only [StoreAction.run, Op.exec, Sql.getByHash_of_table hn]
      exact ⟨c, h, rfl⟩
    | _ => exact ⟨c, h.exec now (by simp [Op.table]), rfl⟩
  | cycle vacuums now =>
    rcases hcutoff : scheduler.config.cutoffTimestamp now with _ | cutoff <;>
      simp only [StoreAction.run, PruneScheduler.pruneCycle, StoreAction.onMap,
        StoreAction.cutoff, hcutoff]
    · exact ⟨c, h, rfl⟩
    · exact ⟨.empty, holdsCache_pruneBefore h cutoff vacuums now, rfl⟩
  | cmdPrune retentionDays vacuums now =>
    rcases hcutoff : (PruneConfig.mk retentionDays).cutoffTimestamp now with _ | cutoff <;>
      simp only [StoreAction.run, Cli.cmdPrune, StoreAction.onMap, StoreAction.cutoff, hcutoff]
    · exact ⟨c, h, rfl⟩
    · exact ⟨.empty, holdsCache_pruneBefore h cutoff vacuums now, rfl⟩

variable (scheduler planner) in
theorem exists_cached (h : HoldsCache json db .empty) (as : List StoreAction) :
    ∃ c, HoldsCache json (Run.after (StoreAction.run scheduler json planner) db as) c ∧
      c.toMap = cachedAfter scheduler as := by
  induction as using List.reverseRecOn with
  | nil => exact ⟨.empty, h, rfl⟩
  | append_singleton as a ih =>
    obtain ⟨c, hholds, hcache⟩ := ih
    rw [Run.after_snoc]
    obtain ⟨c', hholds', hcache'⟩ := hholds.run a
    refine ⟨c', hholds', ?_⟩
    rw [hcache', hcache, cachedAfter, cachedAfter, List.foldl_append]
    rfl

/-! ## Awareness over a run -/

theorem Keeps.getLatest {as : List StoreAction} {es : EventStore} (h : Keeps scheduler as es)
    (hyears : ∀ e ∈ as.flatMap StoreAction.events, e.timestamp.FourDigitYear) (planner : Planner)
    (projectId filePath : String) : ∃ latest, es.getLatest planner projectId filePath = .ok latest ∧
      LatestOf ((kept scheduler 0 as).map Prod.snd) projectId filePath latest := by
  obtain ⟨found, hquery, sorted, hperm, hsorted, rfl⟩ :=
    h.query hyears planner (f := .latest projectId filePath) (by simp [EventFilter.latest])
  refine ⟨_, EventStore.getLatest_of_query hquery, ?_⟩
  have hhead : (upTo (EventFilter.latest projectId filePath).limit sorted).head? = sorted.head? := by
    simp [EventFilter.latest, upTo, List.head?_take]
  rw [hhead]
  exact latestOf_head? hperm hsorted

open Sql (openAll OpenedByStore OpenedByCache) in
/-- **On a file that the event store opens first and one that the cache opens, whether the others
have opened them or not: after any operations and prunes on both, the awareness of a file is there
exactly if one of its events is kept. It is of the latest of them, with the analysis that was put
last, unless it was removed or a prune came after it.** -/
theorem awareness_reference (scheduler : PruneScheduler) (json : Sql.SerdeJson)
    (planner : Sqlite.Planner Sql.ColumnName) (openers openers' : List (DateTime × Opener))
    (ho : OpenedByStore openers) (ho' : OpenedByCache openers') (as bs : List StoreAction)
    (h : ∀ a ∈ as, a.OfYears scheduler) (projectId filePath : String)
    (activeAgent : Option String) (chatReferences : UInt32) (now : DateTime) :
    ∃ events analyses latest, openAll .empty openers = .ok events ∧
      openAll .empty openers' = .ok analyses ∧
      LatestOf ((kept scheduler 0 as).map Prod.snd) projectId filePath latest ∧
      Sql.buildAwareness json planner
          (Run.after (StoreAction.run scheduler json planner) events as)
          (Run.after (StoreAction.run scheduler json planner) analyses bs)
          projectId filePath activeAgent chatReferences now =
        .ok (latest.map fun event => .combine event
          (cachedAfter scheduler bs (projectId, filePath)) activeAgent chatReferences now) := by
  obtain ⟨events, hopen, hnew⟩ := Sql.holdsEvents_new ho
  obtain ⟨analyses, hopen', hnew'⟩ := Sql.holdsCache_new json ho'
  obtain ⟨es, hholds, hkeeps⟩ := exists_keeps json planner hnew h
  obtain ⟨c, hholds', hcache⟩ := exists_cached scheduler planner hnew' bs
  obtain ⟨latest, hlatest, hof⟩ :=
    hkeeps.getLatest (ofYears_events h) (Sql.eventPlanner planner) projectId filePath
  refine ⟨events, analyses, latest, hopen, hopen', hof, ?_⟩
  have hanalysis : c.get projectId filePath = cachedAfter scheduler bs (projectId, filePath) := by
    rw [← hcache]
    rfl
  simp only [Sql.buildAwareness, Sql.openAndGetLatest_eq hholds, Sql.openAndGet_eq hholds',
    hlatest, hanalysis]
  rcases latest with _ | event <;> rfl

/-- Only the cache has opened the file. -/
def cacheOnly : List (DateTime × Opener) := [(.epoch, .cache)]

open Sql (blankJson rowidOrder secondEvent) in
theorem awareness_reference_pruned : ∃ events analyses latest,
    Sql.openAll .empty storeOnly = .ok events ∧
    Sql.openAll .empty cacheOnly = .ok analyses ∧
    LatestOf [secondEvent] "p" "a" latest ∧
    Sql.buildAwareness blankJson rowidOrder
        (Run.after (StoreAction.run (.new 90) blankJson rowidOrder) events pruned)
        (Run.after (StoreAction.run (.new 90) blankJson rowidOrder) analyses
          [.exec .epoch (.put ⟨"a", "p", "hash", [], [], 0, [], 1⟩), .cycle true .epoch])
        "p" "a" (some "agent") 1 .epoch =
      .ok (latest.map fun event => .combine event none (some "agent") 1 .epoch) := by
  have h := awareness_reference (.new 90) blankJson rowidOrder storeOnly cacheOnly (by decide)
    (by decide) pruned [.exec .epoch (.put ⟨"a", "p", "hash", [], [], 0, [], 1⟩), .cycle true .epoch]
    ofYears_pruned "p" "a" (some "agent") 1 .epoch
  rw [kept_pruned] at h
  exact h

end AmbientFs
