import AmbientFs.Proofs.DatabaseParts
import AmbientFs.Proofs.EventPruning
import AmbientFs.Retention

/-!
# What is kept

Over a whole run an event is kept exactly if no prune after it has a cutoff after its time, and it
keeps the number it was inserted under: numbers are not given again. Of the analyses a prune leaves
none.
-/

namespace AmbientFs

open Sql (Db DbError Op HoldsEvents)

/-! ## Events and cutoffs -/

def Sql.Op.events : Op → List FileEvent
  | .insert event => [event]
  | .insertBatch events => events
  | _ => []

def Sql.Op.cutoff : Op → Option DateTime
  | .pruneEventsBefore cutoff => some cutoff
  | _ => none

namespace StoreAction

/-- The events that are inserted. -/
def events : StoreAction → List FileEvent
  | .exec _ op => op.events
  | _ => []

/-- Before when events are deleted. -/
def cutoff (scheduler : PruneScheduler) : StoreAction → Option DateTime
  | .exec _ op => op.cutoff
  | .cycle _ now => scheduler.config.cutoffTimestamp now
  | .cmdPrune retentionDays _ now => (PruneConfig.mk retentionDays).cutoffTimestamp now

/-- The events and the cutoff are of the years 0 to 9999. -/
def OfYears (scheduler : PruneScheduler) (a : StoreAction) : Prop :=
  (∀ e ∈ a.events, e.timestamp.FourDigitYear) ∧
    ∀ cutoff ∈ a.cutoff scheduler, cutoff.FourDigitYear

end StoreAction

variable (scheduler : PruneScheduler)

/-- No cutoff of the actions is after the event. -/
def FileEvent.outlasts (e : FileEvent) (as : List StoreAction) : Bool :=
  as.all fun a => (a.cutoff scheduler).all fun cutoff => !e.before cutoff

/-- The events that are kept to the end, with their numbers, where `n` have been inserted before. -/
def kept (n : ℕ) : List StoreAction → List (ℕ × FileEvent)
  | [] => []
  | a :: as => ((a.events.mapIdx fun i e => (n + 1 + i, e)).filter
      fun p => p.2.outlasts scheduler as) ++ kept (n + a.events.length) as

theorem FileEvent.outlasts_snoc (e : FileEvent) (as : List StoreAction) (a : StoreAction) :
    e.outlasts scheduler (as ++ [a]) =
      (e.outlasts scheduler as && (a.cutoff scheduler).all fun cutoff => !e.before cutoff) := by
  simp [outlasts]

/-- One more action deletes what is before its cutoff, and inserts its own events. -/
theorem kept_snoc (n : ℕ) (as : List StoreAction) (a : StoreAction) :
    kept scheduler n (as ++ [a]) =
      ((kept scheduler n as).filter fun p => (a.cutoff scheduler).all fun c => !p.2.before c) ++
        a.events.mapIdx fun i e => (n + (as.flatMap StoreAction.events).length + 1 + i, e) := by
  induction as generalizing n with
  | nil => simp [kept, FileEvent.outlasts]
  | cons b as ih =>
    simp only [List.cons_append, kept, ih, List.filter_append, List.filter_filter,
      FileEvent.outlasts_snoc, List.flatMap_cons, List.length_append, Nat.add_assoc,
      List.append_assoc, Bool.and_comm]

/-! ## One action -/

variable {scheduler} {json : Sql.SerdeJson} {planner : Sqlite.Planner Sql.ColumnName} {db : Db}
  {es : EventStore}

theorem holdsEvents_pruneBefore (h : HoldsEvents db es) (cutoff : DateTime) (vacuums : Bool)
    (now : DateTime) :
    HoldsEvents (pruneBefore cutoff vacuums now db).2 (es.pruneEventsBefore cutoff) := by
  obtain ⟨db₁, hschema, -⟩ := Sql.run_spec now .migrations h.openable
  have hopened := h.spared (Sql.spares_run (by simp) h.openable hschema)
  have hpruned := hopened.set (es.pruneEventsBefore cutoff)
  simp only [Sql.Opener.run] at hschema
  simp only [pruneBefore, hschema, Sql.pruneEventsBefore_of_table hopened.events]
  rcases hanalysis : Sql.EventPruner.pruneAnalysisBefore _ cutoff with e | ⟨count, db'⟩
  · exact hpruned
  · have hdone := hpruned.spared (Sql.spares_deleteBefore (by simp) (by simp) hanalysis)
    dsimp only
    split_ifs
    · exact hdone
    · exact hdone

/-- An operation that is not on the events leaves them. -/
theorem Sql.HoldsEvents.exec (h : HoldsEvents db es) (now : DateTime) {op : Op}
    (hop : op.table ≠ some .fileEvents) :
    HoldsEvents (StoreAction.run scheduler json planner db (.exec now op)) es := by
  simp only [StoreAction.run]
  rcases hexec : op.exec json planner now db with e | ⟨reply, db'⟩
  · exact h
  · exact h.spared (Sql.spares_exec (by simp) h.openable hop hexec)

/-- An action deletes what is before its cutoff, and inserts its events. -/
theorem Sql.HoldsEvents.run (h : HoldsEvents db es) (a : StoreAction) :
    HoldsEvents (a.run scheduler json planner db)
      (((a.cutoff scheduler).elim es es.pruneEventsBefore).insertBatch a.events) := by
  cases a with
  | exec now op =>
    cases op with
    | insert event =>
      simp only [StoreAction.run, Op.exec, Sql.insert_spec h.events]
      exact h.set (es.insert event)
    | insertBatch events =>
      obtain ⟨ids, db', hok, hholds⟩ := h.insertBatch events
      simp only [StoreAction.run, Op.exec, hok]
      exact hholds
    | query filter =>
      simp only [StoreAction.run, Op.exec]
      rcases Sql.EventStore.query planner db filter with e | events <;> exact h
    | getLatest projectId filePath =>
      simp only [StoreAction.run, Op.exec]
      rcases Sql.EventStore.getLatest planner db projectId filePath with e | event <;> exact h
    | pruneEventsBefore cutoff =>
      simp only [StoreAction.run, Op.exec, Sql.pruneEventsBefore_of_table h.events]
      exact h.set (es.pruneEventsBefore cutoff)
    | _ => exact h.exec now (by simp [Op.table])
  | cycle vacuums now =>
    simp only [StoreAction.run, PruneScheduler.pruneCycle, StoreAction.cutoff]
    rcases scheduler.config.cutoffTimestamp now with _ | cutoff
    · exact h
    · exact holdsEvents_pruneBefore h cutoff vacuums now
  | cmdPrune retentionDays vacuums now =>
    simp only [StoreAction.run, Cli.cmdPrune, StoreAction.cutoff]
    rcases (PruneConfig.mk retentionDays).cutoffTimestamp now with _ | cutoff
    · exact h
    · exact holdsEvents_pruneBefore h cutoff vacuums now

/-! ## A run -/

theorem mem_kept {n : ℕ} {as : List StoreAction} {p : ℕ × FileEvent} (h : p ∈ kept scheduler n as) :
    p.2 ∈ as.flatMap StoreAction.events := by
  induction as generalizing n with
  | nil => simp [kept] at h
  | cons a as ih =>
    rw [List.flatMap_cons, List.mem_append]
    rcases List.mem_append.1 h with h | h
    · obtain ⟨i, hi, rfl⟩ := List.mem_mapIdx.1 (List.mem_of_mem_filter h)
      exact .inl (List.getElem_mem hi)
    · exact .inr (ih h)

/-- The table has the events that are kept, under their numbers. -/
structure Keeps (scheduler : PruneScheduler) (as : List StoreAction) (s : EventStore) : Prop where
  rows : s.rows = (kept scheduler 0 as).map fun p => p.2.toRow p.1
  lastId : s.lastId = (as.flatMap StoreAction.events).length

variable {as : List StoreAction} {a : StoreAction}

theorem Keeps.insertBatch (h : es.rows = ((kept scheduler 0 as).filter fun p =>
      (a.cutoff scheduler).all fun c => !p.2.before c).map fun p => p.2.toRow p.1)
    (hid : es.lastId = (as.flatMap StoreAction.events).length) :
    Keeps scheduler (as ++ [a]) (es.insertBatch a.events) := by
  obtain ⟨hrows, hlast⟩ := EventStore.rows_insertBatch a.events es
  refine ⟨?_, ?_⟩
  · rw [hrows, h, kept_snoc, List.map_append, hid, Nat.zero_add]
    simp only [List.mapIdx_eq_zipIdx_map, List.map_map, Function.comp_def]
  · rw [hlast, hid, List.flatMap_append, List.length_append]
    simp

theorem Keeps.snoc (h : Keeps scheduler as es)
    (hyears : ∀ e ∈ as.flatMap StoreAction.events, e.timestamp.FourDigitYear)
    (ha : a.OfYears scheduler) : Keeps scheduler (as ++ [a])
      (((a.cutoff scheduler).elim es es.pruneEventsBefore).insertBatch a.events) := by
  rcases hcutoff : a.cutoff scheduler with _ | cutoff
  · refine insertBatch ?_ h.lastId
    simp [hcutoff, h.rows]
  · refine insertBatch ?_ h.lastId
    have hyear : cutoff.FourDigitYear := ha.2 cutoff hcutoff
    simp only [hcutoff, Option.elim, EventStore.pruneEventsBefore, h.rows, List.filter_map,
      Option.all_some]
    refine congrArg _ (List.filter_congr fun p hp => ?_)
    exact EventStore.decide_not_lt hyear (hyears _ (mem_kept hp)) p.1

theorem keeps_new : Keeps scheduler [] .new := ⟨rfl, rfl⟩

theorem ofYears_events (h : ∀ a ∈ as, a.OfYears scheduler) :
    ∀ e ∈ as.flatMap StoreAction.events, e.timestamp.FourDigitYear := by
  intro e he
  obtain ⟨a, ha, he⟩ := List.mem_flatMap.1 he
  exact (h a ha).1 e he

variable (json planner) in
/-- A file from which the events of a run can be read. -/
theorem exists_keeps (hdb : HoldsEvents db .new) (h : ∀ a ∈ as, a.OfYears scheduler) :
    ∃ es, HoldsEvents (Run.after (StoreAction.run scheduler json planner) db as) es ∧
      Keeps scheduler as es := by
  induction as using List.reverseRecOn with
  | nil => exact ⟨.new, hdb, keeps_new⟩
  | append_singleton as a ih =>
    obtain ⟨es, hholds, hkeeps⟩ := ih fun b hb => h b (List.mem_append_left [a] hb)
    have hyears := ofYears_events fun b hb => h b (List.mem_append_left [a] hb)
    rw [Run.after_snoc]
    exact ⟨_, hholds.run a, hkeeps.snoc hyears (h a (by simp))⟩

theorem Keeps.stored (h : Keeps scheduler as es)
    (hyears : ∀ e ∈ as.flatMap StoreAction.events, e.timestamp.FourDigitYear) :
    es.OfYears ∧ es.stored = (kept scheduler 0 as).map Prod.snd := by
  refine ⟨fun r hr => ?_, ?_⟩
  · rw [h.rows] at hr
    obtain ⟨p, hp, rfl⟩ := List.mem_map.1 hr
    exact ⟨p.2, hyears _ (mem_kept hp), rfl⟩
  · rw [EventStore.stored, h.rows, List.filterMap_map, ← List.filterMap_eq_map]
    refine List.filterMap_congr fun p hp => ?_
    simp [read_toRow, hyears _ (mem_kept hp)]

theorem Keeps.query (h : Keeps scheduler as es)
    (hyears : ∀ e ∈ as.flatMap StoreAction.events, e.timestamp.FourDigitYear) (planner : Planner)
    {f : EventFilter} (hsince : ∀ since ∈ f.since, since.timestamp ≤ 253402300799) :
    ∃ found, es.query planner f = .ok found ∧
      f.Reference ((kept scheduler 0 as).map Prod.snd) found := by
  obtain ⟨hes, hstored⟩ := h.stored hyears
  obtain ⟨sorted, hperm, hsorted, hquery⟩ := hes.query planner f
  refine ⟨_, hquery, sorted, ?_, hsorted, rfl⟩
  have hkept : ∀ e ∈ (kept scheduler 0 as).map Prod.snd, e.timestamp.FourDigitYear := by
    intro e he
    obtain ⟨p, hp, rfl⟩ := List.mem_map.1 he
    exact hyears _ (mem_kept hp)
  rw [hstored, filter_matchesText hsince hkept] at hperm
  exact hperm

open Sql (firstEvent secondEvent rowidOrder blankJson)

/-- Only the event store has opened the file. -/
def storeOnly : List (DateTime × Sql.Opener) := [(.epoch, .eventStore)]

/-- The prunes and the cache open it later. -/
def pruned : List StoreAction :=
  [.exec .epoch (.insert firstEvent), .exec .epoch (.insert secondEvent), .cycle true .epoch,
    .exec .epoch (.open .cache), .exec .epoch (.pruneEventsBefore secondEvent.timestamp)]

theorem kept_pruned : kept (.new 90) 0 pruned = [(2, secondEvent)] := by decide

theorem ofYears_pruned : ∀ a ∈ pruned, a.OfYears (.new 90) := by
  intro a ha
  fin_cases ha <;> exact ⟨by decide, by decide⟩

end AmbientFs
