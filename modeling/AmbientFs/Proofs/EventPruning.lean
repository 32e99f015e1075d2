import AmbientFs.Proofs.EventQuery

/-!
# Pruning the events

The texts of instants of the years 0 to 9999 compare as the instants do, so the rows that a prune
deletes are those of the events before the cutoff, and it leaves what a query since the cutoff
would have found.
-/

namespace AmbientFs

def FileEvent.before (e : FileEvent) (cutoff : DateTime) : Bool := e.timestamp.nanos < cutoff.nanos

namespace EventStore

variable {s : EventStore} {cutoff : DateTime}

theorem OfYears.prune (h : s.OfYears) : (s.pruneEventsBefore cutoff).OfYears :=
  fun r hr => h r (List.mem_of_mem_filter hr)

theorem decide_not_lt (hcutoff : cutoff.FourDigitYear) {e : FileEvent}
    (he : e.timestamp.FourDigitYear) (id : ℕ) :
    decide (¬ (e.toRow id).timestamp < cutoff.toRfc3339) = !e.before cutoff := by
  rw [FileEvent.before, ← decide_not, decide_eq_decide]
  exact not_congr (DateTime.toRfc3339_lt_iff he hcutoff)

theorem OfYears.stored_prune (h : s.OfYears) (hcutoff : cutoff.FourDigitYear) :
    (s.pruneEventsBefore cutoff).stored = s.stored.filter fun e => !e.before cutoff :=
  h.filter_read fun _ id he => decide_not_lt hcutoff he id

theorem OfYears.rows_prune (h : s.OfYears) (hcutoff : cutoff.FourDigitYear) :
    (s.pruneEventsBefore cutoff).rows =
      s.rows.filter fun r => r.read.all fun e => !e.before cutoff := by
  refine List.filter_congr fun r hr => ?_
  obtain ⟨e, hyear, he, hread⟩ := h.read hr
  rw [hread, Option.all_some, he, decide_not_lt hcutoff hyear]

theorem OfYears.length_rows (h : s.OfYears) : s.rows.length = s.stored.length := by
  rw [stored, List.length_filterMap_eq_countP, eq_comm, List.countP_eq_length]
  intro r hr
  obtain ⟨e, -, -, hread⟩ := h.read hr
  rw [hread]
  rfl

/-- A prune and a query since its cutoff divide the events between them. -/
theorem filter_since (hcutoff : cutoff.FourDigitYear) {es : List FileEvent}
    (hes : ∀ e ∈ es, e.timestamp.FourDigitYear) :
    es.filter (EventFilter.MatchesText { since := some cutoff }) =
      es.filter fun e => !e.before cutoff := by
  have hsince : ∀ since ∈ (some cutoff : Option DateTime), since.timestamp ≤ 253402300799 := by
    rintro since ⟨⟩
    exact ((DateTime.fourDigitYear_iff cutoff).1 hcutoff).2
  rw [filter_matchesText hsince hes]
  refine List.filter_congr fun e he => ?_
  simp [EventFilter.Wants, FileEvent.before, ← decide_not]

theorem OfYears.stored_years (h : s.OfYears) : ∀ e ∈ s.stored, e.timestamp.FourDigitYear := by
  intro e he
  obtain ⟨r, hr, hread⟩ := List.mem_filterMap.1 he
  obtain ⟨e', hyear, -, hread'⟩ := h.read hr
  rw [hread'] at hread
  exact Option.some.inj hread ▸ hyear

theorem OfYears.length_prune (h : s.OfYears) (hcutoff : cutoff.FourDigitYear) :
    s.rows.length - (s.pruneEventsBefore cutoff).rows.length =
      (s.stored.filter (·.before cutoff)).length := by
  have hdivide := s.stored.length_eq_length_filter_add (·.before cutoff)
  rw [h.length_rows, h.prune.length_rows, h.stored_prune hcutoff]
  omega

end EventStore

namespace Sql

variable {db : Db} {es : AmbientFs.EventStore}

theorem pruneEventsStatement_of_table (h : db.tables .fileEvents = some (eventTable es))
    (cutoff : DateTime) : EventPruner.pruneEventsStatement db cutoff =
      .ok (es.rows.length - (es.pruneEventsBefore cutoff).rows.length,
        db.set .fileEvents (eventTable (es.pruneEventsBefore cutoff))) := by
  rw [pruneEventsStatement_eq, pruneEventsBefore_of_table h]
  rfl

/-- Exactly the events before the cutoff are deleted, and what is left is what a query since the
cutoff found before. -/
theorem pruneEvents_exact (planner : Sqlite.Planner ColumnName)
    (htable : db.tables .fileEvents = some (eventTable es)) (hes : es.OfYears) (cutoff : DateTime)
    (hcutoff : cutoff.FourDigitYear) : ∃ db' es' found,
      EventPruner.pruneEventsStatement db cutoff =
          .ok ((es.stored.filter (·.before cutoff)).length, db') ∧
        db'.tables .fileEvents = some (eventTable es') ∧
        es'.rows = (es.rows.filter fun r => r.read.all fun e => !e.before cutoff) ∧
        es'.stored = (es.stored.filter fun e => !e.before cutoff) ∧
        EventStore.queryStatement planner db { since := some cutoff } = .ok found ∧
        found.Perm es'.stored := by
  obtain ⟨sorted, hperm, -, hquery⟩ := hes.query (eventPlanner planner) { since := some cutoff }
  rw [AmbientFs.EventStore.filter_since hcutoff hes.stored_years,
    ← hes.stored_prune hcutoff] at hperm
  refine ⟨db.set .fileEvents (eventTable (es.pruneEventsBefore cutoff)),
    es.pruneEventsBefore cutoff, sorted, ?_, Sqlite.Database.tables_set_self,
    hes.rows_prune hcutoff, hes.stored_prune hcutoff, ?_, hperm⟩
  · rw [pruneEventsStatement_of_table htable, hes.length_prune hcutoff]
  · exact (queryStatement_eq_ok htable (by simp)).2 hquery

/-- The cutoff is in the second of the earlier event, and the later event is at the cutoff. -/
theorem pruneEvents_two : ∃ db db' es' found,
    EventPruner.pruneEventsStatement db secondEvent.timestamp = .ok (1, db') ∧
      db'.tables .fileEvents = some (eventTable es') ∧ es'.stored = [secondEvent] ∧
      EventStore.queryStatement rowidOrder db { since := some secondEvent.timestamp } = .ok found ∧
      found.Perm [secondEvent] := by
  obtain ⟨db, -, htable⟩ := filled_spec [.insert secondEvent, .insert firstEvent]
  have hevents : [Insertion.insert secondEvent, .insert firstEvent].flatMap Insertion.events =
      [secondEvent, firstEvent] := rfl
  have hyears : ∀ e ∈ [secondEvent, firstEvent], e.timestamp.FourDigitYear := by decide
  rw [hevents] at htable
  obtain ⟨db', es', found, hprune, htable', -, hstored, hquery, hperm⟩ := pruneEvents_exact
    rowidOrder htable (AmbientFs.EventStore.ofYears_of hyears) secondEvent.timestamp
    (by decide)
  have hfirst : firstEvent.before secondEvent.timestamp = true := by decide
  have hsecond : secondEvent.before secondEvent.timestamp = false := by decide
  simp only [AmbientFs.EventStore.stored_of hyears, List.filter_cons, List.filter_nil, hfirst,
    hsecond, Bool.not_true, Bool.not_false, Bool.false_eq_true, if_true, if_false] at hprune hstored
  rw [hstored] at hperm
  exact ⟨db, db', es', found, hprune, htable', hstored, hquery, hperm⟩

end Sql

end AmbientFs
