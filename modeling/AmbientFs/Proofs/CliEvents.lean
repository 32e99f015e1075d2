import AmbientFs.CliEvents
import AmbientFs.Proofs.Cutoff
import AmbientFs.Proofs.EventQuery
import AmbientFs.Proofs.Prune

/-!
# What the events command leaves out

The events that are printed are those the command was asked for if what it was given is parsed. What
is not parsed makes no difference, and the command prints what it would have printed without it.
-/

namespace AmbientFs

open Sql (eventTable eventPlanner)

namespace Cli

variable {planner : Sqlite.Planner Sql.ColumnName} {db : Sql.Db} {now : DateTime} {starts : Bool}
  {args : EventsArgs} {es : EventStore} {found : List FileEvent}

/-- The filter of the query, since an instant. -/
def EventsArgs.filter (args : EventsArgs) (since : Option DateTime) : EventFilter where
  projectId := args.project
  source := sourceEnum args.source
  since := since
  limit := args.limit

theorem eventsSince_eq (now : DateTime) (since : Option (List Char)) : eventsSince now since =
    (sinceDuration since).bind fun d =>
      d.elim (some none) fun seconds => (secondsAgo now seconds).map some := by
  unfold eventsSince sinceDuration
  rcases since with _ | s
  · rfl
  · dsimp only
    rcases parseDuration s with _ | _ | seconds <;> rfl

theorem queryEvents_eq_ok {project : Option String} {d : Option ℤ} {source : Option Source}
    {limit : Option ℕ} :
    DaemonServer.queryEvents planner db now project d source limit = .ok found ↔
      ∃ since, (d.elim (some none) fun seconds => (secondsAgo now seconds).map some) = some since ∧
        openAndQuery planner db ⟨project, none, source, since, limit⟩ = .ok found := by
  have hstore : ∀ since, (openAndQuery planner db ⟨project, none, source, since, limit⟩).mapError
      QueryFailure.store = .ok found ↔
        openAndQuery planner db ⟨project, none, source, since, limit⟩ = .ok found := by
    intro since
    rcases openAndQuery planner db ⟨project, none, source, since, limit⟩ with e | events <;>
      simp [Except.mapError]
  unfold DaemonServer.queryEvents
  rcases d with _ | seconds
  · simpa using hstore none
  · rcases ht : secondsAgo now seconds with _ | t
    · simp [ht]
    · simpa [ht] using hstore (some t)

theorem cmdEvents_eq_printed (h : db.tables .fileEvents = some (eventTable es)) :
    cmdEvents planner db now starts args = .printed found ↔
      starts = true ∧ (∀ n ∈ args.limit, n < 2 ^ 63) ∧
        ∃ since, eventsSince now args.since = some since ∧
          es.query (eventPlanner planner) (args.filter since) = .ok found := by
  have hok : cmdEvents planner db now starts args = .printed found ↔
      starts = true ∧ ∃ d, sinceDuration args.since = some d ∧ DaemonServer.queryEvents planner db
        now args.project d (sourceEnum args.source) args.limit = .ok found := by
    unfold cmdEvents
    cases starts with
    | false => simp
    | true =>
      rcases sinceDuration args.since with _ | d
      · simp
      · rcases hq : DaemonServer.queryEvents planner db now args.project d
          (sourceEnum args.source) args.limit with e | events <;> simp [hq]
  have hquery : ∀ since, openAndQuery planner db
      ⟨args.project, none, sourceEnum args.source, since, args.limit⟩ = .ok found ↔
      (∀ n ∈ args.limit, n < 2 ^ 63) ∧
        es.query (eventPlanner planner) (args.filter since) = .ok found :=
    fun since => Sql.openAndQuery_eq_ok h
  simp only [hok, queryEvents_eq_ok, hquery, eventsSince_eq]
  refine and_congr_right fun _ => ?_
  rcases sinceDuration args.since with _ | d
  · simp
  · simp only [Option.some.injEq, exists_eq_left', Option.bind_some]
    constructor
    · rintro ⟨since, hsince, hlimit, hfound⟩
      exact ⟨hlimit, since, hsince, hfound⟩
    · rintro ⟨hlimit, since, hsince, hfound⟩
      exact ⟨since, hsince, hlimit, hfound⟩

/-- All that is printed is since the instant that was asked for, and of the source. -/
def EventsArgs.Restrict (args : EventsArgs) (now : DateTime) (events : List FileEvent) : Prop :=
  (∀ s ∈ args.since, ∃ seconds ∈ requestedSince s, ∀ e ∈ events,
    now.nanos - seconds * nanosPerSec ≤ e.timestamp.nanos) ∧
  ∀ s ∈ args.source, ∃ source, Source.fromStr s = .ok source ∧ ∀ e ∈ events, e.source = source

/-- Whatever is stored, what is printed is what was asked for. -/
def EventsArgs.NeverWidens (args : EventsArgs) (now : DateTime) : Prop :=
  ∀ planner db es starts events, db.tables .fileEvents = some (eventTable es) →
    cmdEvents planner db now starts args = .printed events → args.Restrict now events

theorem sourceEnum_of_ok {s : String} {source : Source} (h : Source.fromStr s = .ok source) :
    sourceEnum (some s) = some source := by
  simp [sourceEnum, h, Except.toOption]

theorem parseDuration_eq (s : List Char) : parseDuration s =
    (requestedSince s).elim (some none) fun seconds => (timeDelta seconds 1).map some := by
  unfold parseDuration requestedSince
  rcases parseI64 (s.takeWhile Char.isDigit) with _ | num
  · rfl
  · rcases unitSeconds (s.dropWhile Char.isDigit) with _ | unit
    · rfl
    · simp [timeDelta]

theorem secondsAgo_nanos {seconds : ℤ} {t : DateTime} (h : secondsAgo now seconds = some t) :
    t.nanos = now.nanos - seconds * nanosPerSec := by
  unfold secondsAgo DateTime.ofNanos at h
  split_ifs at h
  cases h
  rfl

/-- What `--since` asks for, if it is a duration. -/
theorem eventsSince_of_requested {s : List Char} {seconds : ℤ} {since : Option DateTime}
    (h : requestedSince s = some seconds) (hs : eventsSince now (some s) = some since) :
    ∃ t, since = some t ∧ t.nanos = now.nanos - seconds * nanosPerSec := by
  have hduration : parseDuration s = (timeDelta seconds 1).map some := by
    rw [parseDuration_eq, h]
    rfl
  rw [eventsSince_eq, sinceDuration, hduration, timeDelta] at hs
  split_ifs at hs
  · simp only [mul_one, Option.map_some, Option.bind_some, Option.elim_some] at hs
    obtain ⟨t, ht, rfl⟩ := Option.map_eq_some_iff.1 hs
    exact ⟨t, rfl, secondsAgo_nanos ht⟩
  · cases hs

/-- The command panics or fails on what it is given: the instant is out of the range of instants, or
the limit is none that SQLite takes. -/
def EventsArgs.Refused (args : EventsArgs) (now : DateTime) : Prop :=
  (∃ s ∈ args.since, ∃ seconds ∈ requestedSince s, ¬ now.Reaches seconds) ∨
    ∃ n ∈ args.limit, 2 ^ 63 ≤ n

/-- All that is given is parsed, and the instant can be compared with those that are stored. -/
structure EventsArgs.Heeded (args : EventsArgs) (now : DateTime) : Prop where
  since : ∀ s ∈ args.since, ∃ seconds ∈ requestedSince s,
    now.timestamp - seconds ≤ 253402300799 ∨ args.limit = some 0
  source : ∀ s ∈ args.source, (Source.fromStr s).isOk

theorem not_refused_iff : ¬ args.Refused now ↔
    (∃ since, eventsSince now args.since = some since) ∧ ∀ n ∈ args.limit, n < 2 ^ 63 := by
  have hsince : (∃ since, eventsSince now args.since = some since) ↔
      ∀ s ∈ args.since, ∀ seconds ∈ requestedSince s, now.Reaches seconds := by
    rw [← Option.isSome_iff_exists]
    rcases args.since with _ | s
    · simp [eventsSince]
    · rw [eventsSince_isSome]
      simp
  unfold EventsArgs.Refused
  rw [hsince]
  push Not
  rfl

theorem timestamp_of_nanos {t : DateTime} {seconds : ℤ}
    (h : t.nanos = now.nanos - seconds * nanosPerSec) :
    t.timestamp = now.timestamp - seconds := by
  unfold DateTime.timestamp nanosPerSec at *
  omega

theorem eq_nil_of_limit {f : EventFilter} {planner : Planner} (hlimit : f.limit = some 0)
    (hfound : es.query planner f = .ok found) : found = [] := by
  obtain ⟨-, rfl⟩ := mapM_eq_ok.1 hfound
  rw [EventStore.select_eq_upTo, hlimit]
  rfl

theorem EventsArgs.Heeded.restrict (h : args.Heeded now) {since : Option DateTime}
    (hs : eventsSince now args.since = some since)
    (hfound : es.query (eventPlanner planner) (args.filter since) = .ok found) :
    args.Restrict now found := by
  have hmem : ∀ e ∈ found, e.timestamp.FourDigitYear ∧ (args.filter since).MatchesText e :=
    fun e he => EventStore.matchesText_of_query hfound he
  refine ⟨fun s hgiven => ?_, fun s hgiven => ?_⟩
  · obtain ⟨seconds, hrequested, hdated⟩ := h.since s hgiven
    rw [hgiven] at hs
    obtain ⟨t, rfl, ht⟩ := eventsSince_of_requested hrequested hs
    refine ⟨seconds, hrequested, fun e he => ?_⟩
    rcases hdated with hdated | hzero
    · obtain ⟨hyear, hmatches⟩ := hmem e he
      rw [← timestamp_of_nanos ht] at hdated
      rw [← EventFilter.wants_eq_matchesText (by simpa [EventsArgs.filter] using hdated) hyear]
        at hmatches
      rw [← ht]
      simp only [EventFilter.Wants, EventsArgs.filter, Option.all_some, Bool.and_eq_true,
        decide_eq_true_eq] at hmatches
      exact hmatches.2
    · rw [eq_nil_of_limit hzero hfound] at he
      simp at he
  · have hok := h.source s hgiven
    rcases hsource : Source.fromStr s with e | source
    · rw [hsource] at hok
      cases hok
    · refine ⟨source, rfl, fun e he => ?_⟩
      have hmatches := (hmem e he).2
      have henum : sourceEnum args.source = some source := by
        rw [hgiven]
        exact sourceEnum_of_ok hsource
      simp only [EventFilter.matchesText_eq, EventsArgs.filter, henum, Option.all_some,
        Bool.and_eq_true, decide_eq_true_eq] at hmatches
      exact hmatches.1.2

/-- An event of 1970 that is asked for but for its instant. -/
def EventsArgs.oldEvent (args : EventsArgs) : FileEvent where
  timestamp := .epoch
  eventType := .created
  filePath := "a"
  projectId := args.project.getD "p"
  source := (sourceEnum args.source).getD .user
  sourceId := none
  machineId := "m"
  contentHash := none
  oldPath := none

theorem oldEvent_wanted (args : EventsArgs) : (args.filter none).Wants args.oldEvent := by
  unfold EventFilter.Wants EventsArgs.filter EventsArgs.oldEvent
  rcases args.project with _ | p <;> rcases sourceEnum args.source with _ | source <;> simp

theorem EventsArgs.NeverWidens.heeded (h : args.NeverWidens now) (hno : ¬ args.Refused now) :
    args.Heeded now := by
  obtain ⟨⟨since, hs⟩, hlimit⟩ := not_refused_iff.1 hno
  have hyear : ∀ e ∈ [args.oldEvent], e.timestamp.FourDigitYear := by
    simp [EventsArgs.oldEvent]
    decide
  obtain ⟨db, -, htable⟩ := Sql.ingested_spec [args.oldEvent]
  obtain ⟨sorted, hperm, -, hquery⟩ := EventStore.query_of_years (eventPlanner Sql.rowidOrder)
    (args.filter since) hyear
  have hrestrict := h Sql.rowidOrder db _ true _ htable
    ((cmdEvents_eq_printed htable).2 ⟨rfl, hlimit, since, hs, hquery⟩)
  refine ⟨fun s hgiven => ?_, fun s hgiven => ?_⟩
  · obtain ⟨seconds, hrequested, hall⟩ := hrestrict.1 s hgiven
    refine ⟨seconds, hrequested, ?_⟩
    by_contra hlate
    push Not at hlate
    rw [hgiven] at hs
    obtain ⟨t, rfl, ht⟩ := eventsSince_of_requested hrequested hs
    rw [← timestamp_of_nanos ht] at hlate
    have hmatches : (args.filter (some t)).MatchesText args.oldEvent := by
      rw [EventStore.matchesText_of_late rfl hlate.1 (hyear _ (by simp))]
      exact oldEvent_wanted args
    rw [List.filter_cons_of_pos hmatches, List.filter_nil, List.perm_singleton] at hperm
    have hmem : args.oldEvent ∈ upTo args.limit sorted := by
      rw [hperm]
      rcases hn : args.limit with _ | n
      · simp [upTo]
      · have hne : n ≠ 0 := fun hzero => hlate.2 (by rw [hn, hzero])
        obtain ⟨m, rfl⟩ := Nat.exists_eq_succ_of_ne_zero hne
        simp [upTo]
    have hle := hall _ hmem
    have hepoch : args.oldEvent.timestamp.nanos = 0 := rfl
    have htime := hlate.1
    unfold DateTime.timestamp nanosPerSec at *
    omega
  · obtain ⟨source, hsource, -⟩ := hrestrict.2 s hgiven
    rw [hsource]
    rfl

theorem neverWidens_iff (args : EventsArgs) (now : DateTime) :
    args.NeverWidens now ↔ args.Refused now ∨ args.Heeded now := by
  constructor
  · intro h
    by_cases hrefused : args.Refused now
    · exact .inl hrefused
    · exact .inr (h.heeded hrefused)
  · intro h planner db es starts events htable hprinted
    obtain ⟨-, hlimit, since, hs, hquery⟩ := (cmdEvents_eq_printed htable).1 hprinted
    rcases h with hrefused | hheeded
    · exact absurd hrefused (not_refused_iff.2 ⟨⟨since, hs⟩, hlimit⟩)
    · exact hheeded.restrict hs hquery

/-- The last example of `--since` in the command's own help. -/
def sinceDate : EventsArgs := ⟨some "2024-01-01".toList, none, none, none⟩

/-- The date is dropped, and events of 1970 are printed. -/
theorem not_neverWidens : ¬ sinceDate.NeverWidens Sql.newYear := by
  intro h
  have hno : ¬ sinceDate.Refused Sql.newYear :=
    not_refused_iff.2 ⟨⟨none, by decide⟩, by simp [sinceDate]⟩
  obtain ⟨seconds, hrequested, -⟩ := (h.heeded hno).since _ rfl
  have hnone : requestedSince "2024-01-01".toList = none := by decide
  rw [hnone] at hrequested
  cases hrequested

end Cli

end AmbientFs
