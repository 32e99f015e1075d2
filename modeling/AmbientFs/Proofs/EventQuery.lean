import AmbientFs.Proofs.DatabaseOrder
import AmbientFs.Proofs.Retrieval
import AmbientFs.Proofs.Statements

/-!
# Queries and their reference

After any calls that insert events of the years 0 to 9999, a query finds those that its filter asks
for, the latest first, up to its limit. The text of an instant after these years is less than that
of any in them, so a filter that asks for events since such an instant is answered with events
that are before it (`query_reference_iff`).
-/

namespace AmbientFs

section Lists

variable {α β : Type}

theorem filterMap_upTo {g : α → Option β} {l : List α} {limit : Option ℕ}
    (h : ∀ a ∈ upTo limit l, (g a).isSome) :
    (upTo limit l).filterMap g = upTo limit (l.filterMap g) := by
  rcases limit with _ | n
  · rfl
  simp only [upTo] at h ⊢
  induction l generalizing n with
  | nil => simp
  | cons a l ih =>
    cases n with
    | zero => simp
    | succ n =>
      rw [List.take_succ_cons, List.forall_mem_cons] at h
      obtain ⟨b, hb⟩ := Option.isSome_iff_exists.1 h.1
      simp [hb, ih n h.2]

theorem upTo_eq_nil {limit : Option ℕ} {l : List α} :
    upTo limit l = [] ↔ limit = some 0 ∨ l = [] := by
  cases limit <;> simp [upTo]

end Lists

/-! ## The store -/

/-- The latest first. -/
def LatestFirst (es : List FileEvent) : Prop :=
  es.Pairwise fun e e' => e'.timestamp.nanos ≤ e.timestamp.nanos

theorem LatestFirst.le_head {latest : FileEvent} {rest : List FileEvent}
    (h : LatestFirst (latest :: rest)) {e : FileEvent} (he : e ∈ latest :: rest) :
    e.timestamp.nanos ≤ latest.timestamp.nanos := by
  rcases List.mem_cons.1 he with rfl | hrest
  · exact le_rfl
  · exact (List.pairwise_cons.1 h).1 e hrest

/-- Events that are found are those the filter asks for, the latest first, up to the limit. -/
def EventFilter.Reference (f : EventFilter) (events found : List FileEvent) : Prop :=
  ∃ sorted : List FileEvent, sorted.Perm (events.filter f.Wants) ∧ LatestFirst sorted ∧
    found = upTo f.limit sorted

/-- The filter's instant is not after the year 9999, or nothing is found without it either. -/
def EventFilter.Dated (f : EventFilter) (events : List FileEvent) : Prop :=
  (∀ since ∈ f.since, since.timestamp ≤ 253402300799) ∨ f.limit = some 0 ∨
    ∀ e ∈ events, ¬ { f with since := none }.Wants e

/-- What the latest event of a file is looked up by. -/
def EventFilter.latest (projectId filePath : String) : EventFilter where
  projectId := some projectId
  filePath := some filePath
  limit := some 1

/-- An event of the file that none is later than, if it has one. -/
def LatestOf (events : List FileEvent) (projectId filePath : String) : Option FileEvent → Prop
  | none => ∀ e ∈ events, ¬ (e.projectId = projectId ∧ e.filePath = filePath)
  | some latest => latest ∈ events ∧ latest.projectId = projectId ∧ latest.filePath = filePath ∧
      ∀ e ∈ events, e.projectId = projectId → e.filePath = filePath →
        e.timestamp.nanos ≤ latest.timestamp.nanos

theorem filter_matchesText {events : List FileEvent} {f : EventFilter}
    (hsince : ∀ since ∈ f.since, since.timestamp ≤ 253402300799)
    (hyears : ∀ e ∈ events, e.timestamp.FourDigitYear) :
    events.filter f.MatchesText = events.filter f.Wants :=
  List.filter_congr fun e he => (EventFilter.wants_eq_matchesText hsince (hyears e he)).symm

namespace EventStore

variable {planner : Planner} {events : List FileEvent} {f : EventFilter}

/-- What is read back is sorted as the rows are. -/
theorem latestFirst_read (planner : Planner) (s : EventStore) (f : EventFilter) :
    LatestFirst ((s.sorted planner f).filterMap Row.read) := by
  refine List.pairwise_filterMap.2 (pairwise_timestamp.imp_of_mem fun {a b} ha hb hle e hread
    e' hread' => ?_)
  obtain ⟨written, hwritten⟩ := written_of_mem_sorted ha
  obtain ⟨written', hwritten'⟩ := written_of_mem_sorted hb
  rw [hwritten, hwritten'] at hle
  rw [hwritten, read_toRow] at hread
  rw [hwritten', read_toRow] at hread'
  split_ifs at hread with hyear
  split_ifs at hread' with hyear'
  obtain rfl := Option.some.inj hread
  obtain rfl := Option.some.inj hread'
  exact (DateTime.toRfc3339_le_iff hyear' hyear).1 hle

/-- What a query finds is the start of what is read back of the rows that match. -/
theorem WrittenFrom.query_ordered {s : EventStore} (h : s.WrittenFrom events) (planner : Planner)
    (f : EventFilter) : ∃ sorted : List FileEvent,
      sorted.Perm (events.filter fun e => f.MatchesText e && e.readable) ∧ LatestFirst sorted ∧
        ∀ found, s.query planner f = .ok found → found = upTo f.limit sorted := by
  refine ⟨_, h.read_sorted planner f, latestFirst_read planner s f, fun found hquery => ?_⟩
  obtain ⟨hsome, rfl⟩ := mapM_eq_ok.1 hquery
  rw [select_eq_upTo] at hsome ⊢
  exact filterMap_upTo hsome

/-- What a query finds is read back, and matches. -/
theorem matchesText_of_query {s : EventStore} {found : List FileEvent}
    (h : s.query planner f = .ok found) {e : FileEvent} (he : e ∈ found) :
    e.timestamp.FourDigitYear ∧ f.MatchesText e := by
  obtain ⟨-, rfl⟩ := mapM_eq_ok.1 h
  obtain ⟨r, hr, hread⟩ := List.mem_filterMap.1 he
  rw [select_eq_upTo] at hr
  have hsorted := (upTo_sublist _ _).subset hr
  obtain ⟨written, hwritten⟩ := written_of_mem_sorted hsorted
  have hmatches := (List.mem_filter.1 (sorted_perm.mem_iff.1 hsorted)).2
  change r.read = some e at hread
  rw [hwritten, read_toRow] at hread
  split_ifs at hread with hyear
  obtain rfl := Option.some.inj hread
  rw [hwritten] at hmatches
  exact ⟨hyear, hmatches⟩

/-- The events that are read back. -/
def stored (s : EventStore) : List FileEvent := s.rows.filterMap Row.read

/-- All rows are of events of the years 0 to 9999. -/
def OfYears (s : EventStore) : Prop :=
  ∀ r ∈ s.rows, ∃ e : FileEvent, e.timestamp.FourDigitYear ∧ r = e.toRow r.id

variable {s : EventStore}

theorem OfYears.insertBatch {es : List FileEvent} (h : s.OfYears)
    (hes : ∀ e ∈ es, e.timestamp.FourDigitYear) : (s.insertBatch es).OfYears := by
  induction es generalizing s with
  | nil => exact h
  | cons e es ih =>
    rw [List.forall_mem_cons] at hes
    refine ih (s := s.insert e) (fun r hr => ?_) hes.2
    rcases List.mem_append.1 hr with hr | hr
    · exact h r hr
    · rw [List.mem_singleton.1 hr]
      exact ⟨e, hes.1, rfl⟩

theorem ofYears_of {es : List FileEvent} (hes : ∀ e ∈ es, e.timestamp.FourDigitYear) :
    (of es).OfYears :=
  OfYears.insertBatch (fun _ hr => absurd hr List.not_mem_nil) hes

theorem OfYears.read (h : s.OfYears) {r : Row} (hr : r ∈ s.rows) :
    ∃ e : FileEvent, e.timestamp.FourDigitYear ∧ r = e.toRow r.id ∧ r.read = some e := by
  obtain ⟨e, hyear, he⟩ := h r hr
  exact ⟨e, hyear, he, by rw [he, read_toRow, if_pos hyear]⟩

/-- What is read of the rows that are kept are the events that are kept. -/
theorem OfYears.filter_read (h : s.OfYears) {p : Row → Bool} {q : FileEvent → Bool}
    (hpq : ∀ e id, e.timestamp.FourDigitYear → p (e.toRow id) = q e) :
    (s.rows.filter p).filterMap Row.read = s.stored.filter q := by
  unfold stored
  rw [List.filterMap_filter, List.filter_filterMap]
  refine List.filterMap_congr fun r hr => ?_
  obtain ⟨e, hyear, he, hread⟩ := h.read hr
  rw [hread, he, hpq e _ hyear]
  rfl

/-- If all events are read back a query finds those that match, the latest first. -/
theorem OfYears.query (h : s.OfYears) (planner : Planner) (f : EventFilter) :
    ∃ sorted : List FileEvent, sorted.Perm (s.stored.filter f.MatchesText) ∧ LatestFirst sorted ∧
      s.query planner f = .ok (upTo f.limit sorted) := by
  have hread : ∀ r ∈ s.sorted planner f, r.read.isSome := fun r hr => by
    obtain ⟨e, -, -, hr⟩ := h.read (List.mem_of_mem_filter (sorted_perm.mem_iff.1 hr))
    rw [hr]
    rfl
  have hperm : ((s.sorted planner f).filterMap Row.read).Perm (s.stored.filter f.MatchesText) := by
    have hfilter := h.filter_read (p := f.matches) (q := f.MatchesText) fun e id _ => rfl
    exact hfilter ▸ sorted_perm.filterMap Row.read
  have hupTo : ∀ r ∈ upTo f.limit (s.sorted planner f), r.read.isSome :=
    fun r hr => hread r ((upTo_sublist _ _).subset hr)
  rw [← select_eq_upTo] at hupTo
  refine ⟨_, hperm, latestFirst_read planner s f, mapM_eq_ok.2 ⟨hupTo, ?_⟩⟩
  rw [select_eq_upTo] at hupTo ⊢
  exact (filterMap_upTo hupTo).symm

theorem stored_of (hyears : ∀ e ∈ events, e.timestamp.FourDigitYear) :
    (of events).stored = events := by
  have hread := (writtenFrom_of events).read_filter (p := fun _ => true) (q := fun _ => true)
    fun e id => rfl
  simp only [List.filter_true, Bool.true_and] at hread
  rw [stored, hread]
  exact List.filter_eq_self.2 fun e he => by simp [FileEvent.readable, hyears e he]

theorem query_of_years (planner : Planner) (f : EventFilter)
    (hyears : ∀ e ∈ events, e.timestamp.FourDigitYear) :
    ∃ sorted : List FileEvent, sorted.Perm (events.filter f.MatchesText) ∧ LatestFirst sorted ∧
      (of events).query planner f = .ok (upTo f.limit sorted) := by
  have hquery := (ofYears_of hyears).query planner f
  rwa [stored_of hyears] at hquery

/-- An instant after the year 9999 makes no difference. -/
theorem matchesText_of_late {since : DateTime} (hf : f.since = some since)
    (hlate : 253402300799 < since.timestamp) {e : FileEvent} (he : e.timestamp.FourDigitYear) :
    f.MatchesText e = { f with since := none }.Wants e := by
  have htext := (since.toRfc3339_le_iff_of_year he).2 (.inl hlate)
  rw [EventFilter.matchesText_eq, EventFilter.Wants, hf]
  simp [htext]

/-- A query of events that are all read back agrees with its reference exactly if the filter's
instant allows it. -/
theorem reference_iff_dated (planner : Planner) (f : EventFilter)
    (hyears : ∀ e ∈ events, e.timestamp.FourDigitYear) :
    (∃ found, (of events).query planner f = .ok found ∧ f.Reference events found) ↔
      f.Dated events := by
  obtain ⟨sorted, hperm, hsorted, hquery⟩ := query_of_years planner f hyears
  by_cases hsince : ∀ since ∈ f.since, since.timestamp ≤ 253402300799
  · rw [filter_matchesText hsince hyears] at hperm
    exact iff_of_true ⟨_, hquery, sorted, hperm, hsorted, rfl⟩ (.inl hsince)
  push Not at hsince
  obtain ⟨since, hs, hlate⟩ := hsince
  have hnone : events.filter f.Wants = [] :=
    List.filter_eq_nil_iff.2 fun e he => by
      simp [EventFilter.wants_eq_false hs hlate (hyears e he)]
  have hreference : f.Reference events (upTo f.limit sorted) ↔ upTo f.limit sorted = [] := by
    unfold EventFilter.Reference
    rw [hnone]
    constructor
    · rintro ⟨_, hnil, -, hfound⟩
      rw [hfound, hnil.eq_nil]
      exact upTo_eq_nil.2 (.inr rfl)
    · exact fun hfound => ⟨[], .refl _, .nil, hfound.trans (upTo_eq_nil.2 (.inr rfl)).symm⟩
  have hempty : sorted = [] ↔ ∀ e ∈ events, ¬ { f with since := none }.Wants e := by
    rw [← List.length_eq_zero_iff, hperm.length_eq, List.length_eq_zero_iff,
      List.filter_eq_nil_iff]
    exact forall₂_congr fun e he => by rw [matchesText_of_late hs hlate (hyears e he)]
  have hnot : ¬ ∀ since ∈ f.since, since.timestamp ≤ 253402300799 :=
    fun h => absurd (h since hs) (not_le.2 hlate)
  rw [hquery]
  simp only [Except.ok.injEq, exists_eq_left', hreference, upTo_eq_nil, hempty,
    EventFilter.Dated, hnot, false_or]

/-- The latest event is the first that a query for one finds. -/
theorem getLatest_of_query {s : EventStore} {projectId filePath : String} {found : List FileEvent}
    (h : s.query planner (.latest projectId filePath) = .ok found) :
    s.getLatest planner projectId filePath = .ok found.head? := by
  unfold query EventFilter.latest at h
  unfold getLatest
  generalize s.select planner _ = selected at h ⊢
  rcases selected with _ | ⟨r, rows⟩
  · cases h
    rfl
  · rw [List.mapM_cons] at h
    rcases hr : r.toEvent with e | event
    · rw [hr] at h
      cases h
    · rw [hr] at h
      rcases hrows : rows.mapM Row.toEvent with e | es <;> rw [hrows] at h <;> cases h
      exact congrArg (·.map some) hr

end EventStore

/-- The first of the events that a filter asks for, if they are sorted. -/
theorem latestOf_head? {events sorted : List FileEvent} {projectId filePath : String}
    (hperm : sorted.Perm (events.filter (EventFilter.latest projectId filePath).Wants))
    (hsorted : LatestFirst sorted) : LatestOf events projectId filePath sorted.head? := by
  have hmem : ∀ e, e ∈ sorted ↔ e ∈ events ∧ e.projectId = projectId ∧ e.filePath = filePath := by
    intro e
    simp [hperm.mem_iff, EventFilter.Wants, EventFilter.latest]
  rcases sorted with _ | ⟨latest, rest⟩
  · intro e he hfile
    simpa using (hmem e).2 ⟨he, hfile⟩
  · obtain ⟨hlatest, hproject, hpath⟩ := (hmem latest).1 List.mem_cons_self
    refine ⟨hlatest, hproject, hpath, fun e he hp hf => ?_⟩
    exact hsorted.le_head ((hmem e).2 ⟨he, hp, hf⟩)

/-! ## The file -/

namespace Sql

variable {db : Db} {es : AmbientFs.EventStore}

theorem insertBatch_of_table (events : List FileEvent)
    (h : db.tables .fileEvents = some (eventTable es)) :
    ∃ ids db', EventStore.insertBatch db events = .ok (ids, db') ∧
      db'.tables .fileEvents = some (eventTable (es.insertBatch events)) := by
  induction events generalizing db es with
  | nil => exact ⟨[], db, rfl, h⟩
  | cons event events ih =>
    have hset : (db.set .fileEvents (eventTable (es.insert event))).tables .fileEvents =
        some (eventTable (es.insert event)) := Sqlite.Database.tables_set_self
    obtain ⟨ids, db', hrest, htable⟩ := ih hset
    refine ⟨(es.lastId + 1) :: ids, db', ?_, htable⟩
    rw [EventStore.insertBatch, insert_spec h]
    simp only [ok_bind, hrest]

/-- Whichever call they come by, the events are inserted one after the other. -/
theorem exec_of_table (call : Insertion) (h : db.tables .fileEvents = some (eventTable es)) :
    ∃ db', call.exec db = .ok db' ∧
      db'.tables .fileEvents = some (eventTable (es.insertBatch call.events)) := by
  cases call with
  | insert event =>
    refine ⟨db.set .fileEvents (eventTable (es.insert event)), ?_, Sqlite.Database.tables_set_self⟩
    rw [Insertion.exec, insertStatement_eq, insert_spec h]
    rfl
  | insertBatch events =>
    obtain ⟨ids, db', hok, htable⟩ := insertBatch_of_table events h
    refine ⟨db', ?_, htable⟩
    rw [Insertion.exec, insertBatchStatements_eq, hok]
    rfl

theorem insertCalls_of_table (calls : List Insertion)
    (h : db.tables .fileEvents = some (eventTable es)) :
    ∃ db', insertCalls db calls = .ok db' ∧ db'.tables .fileEvents =
      some (eventTable (es.insertBatch (calls.flatMap Insertion.events))) := by
  induction calls generalizing db es with
  | nil => exact ⟨db, rfl, h⟩
  | cons call calls ih =>
    obtain ⟨db₁, hcall, htable⟩ := exec_of_table call h
    obtain ⟨db', hrest, htable'⟩ := ih htable
    refine ⟨db', ?_, ?_⟩
    · rw [insertCalls, hcall]
      exact hrest
    · rw [htable', AmbientFs.EventStore.insertBatch, AmbientFs.EventStore.insertBatch,
        AmbientFs.EventStore.insertBatch, List.flatMap_cons, List.foldl_append]

theorem filled_spec (calls : List Insertion) : ∃ db, filled calls = .ok db ∧
    db.tables .fileEvents = some (eventTable (.of (calls.flatMap Insertion.events))) := by
  obtain ⟨db, hok, htables⟩ := new_spec known_empty.fileEvents
  have hnew : db.tables .fileEvents = some (eventTable .new) := htables .fileEvents
  obtain ⟨db', hrest, htable⟩ := insertCalls_of_table calls hnew
  refine ⟨db', ?_, htable⟩
  rw [filled, hok]
  exact hrest

variable {planner : Sqlite.Planner ColumnName} {f : EventFilter}

theorem queryStatement_eq_ok (h : db.tables .fileEvents = some (eventTable es))
    (hlimit : ∀ n ∈ f.limit, n < 2 ^ 63) {found : List FileEvent} :
    EventStore.queryStatement planner db f = .ok found ↔
      es.query (eventPlanner planner) f = .ok found := by
  rw [queryStatement_eq, query_of_limit h hlimit]
  rcases es.query (eventPlanner planner) f with e | events <;> simp [Except.mapError]

theorem openAndQuery_eq_ok (h : db.tables .fileEvents = some (eventTable es))
    {found : List FileEvent} : openAndQuery planner db f = .ok found ↔
      (∀ n ∈ f.limit, n < 2 ^ 63) ∧ es.query (eventPlanner planner) f = .ok found := by
  rw [openAndQuery_eq planner h]
  by_cases hlimit : ∀ n ∈ f.limit, n < 2 ^ 63
  · rw [query_of_limit h hlimit, and_iff_right hlimit]
    rcases es.query (eventPlanner planner) f with e | events <;> simp [Except.mapError]
  · rw [query_of_not_limit h (by simpa using hlimit)]
    exact iff_of_false (by simp) fun hboth => hlimit hboth.1

theorem latestStatement_of_years {events : List FileEvent}
    (h : db.tables .fileEvents = some (eventTable (.of events)))
    (hyears : ∀ e ∈ events, e.timestamp.FourDigitYear) (projectId filePath : String) :
    ∃ latest, EventStore.latestStatement planner db projectId filePath = .ok latest ∧
      LatestOf events projectId filePath latest := by
  obtain ⟨sorted, hperm, hsorted, hquery⟩ := AmbientFs.EventStore.query_of_years
    (eventPlanner planner) (.latest projectId filePath) hyears
  have hsince : ∀ since ∈ (EventFilter.latest projectId filePath).since,
      since.timestamp ≤ 253402300799 := by simp [EventFilter.latest]
  rw [filter_matchesText hsince hyears] at hperm
  refine ⟨sorted.head?, ?_, latestOf_head? hperm hsorted⟩
  rw [latestStatement_eq, getLatest_of_table h, AmbientFs.EventStore.getLatest_of_query hquery]
  simp [EventFilter.latest, upTo, List.head?_take, Except.mapError]

/-- After any calls that insert events of the years 0 to 9999, a query agrees with its reference
exactly if the filter's instant allows it, and the latest event of every file is found. -/
theorem query_reference_iff (planner : Sqlite.Planner ColumnName) (calls : List Insertion)
    (hyears : ∀ call ∈ calls, ∀ e ∈ call.events, e.timestamp.FourDigitYear) (f : EventFilter)
    (hlimit : ∀ n ∈ f.limit, n < 2 ^ 63) : ∃ db, filled calls = .ok db ∧
      ((∃ found, EventStore.queryStatement planner db f = .ok found ∧
          f.Reference (calls.flatMap Insertion.events) found) ↔
        f.Dated (calls.flatMap Insertion.events)) ∧
      ∀ projectId filePath, ∃ latest,
        EventStore.latestStatement planner db projectId filePath = .ok latest ∧
          LatestOf (calls.flatMap Insertion.events) projectId filePath latest := by
  obtain ⟨db, hok, htable⟩ := filled_spec calls
  have hall : ∀ e ∈ calls.flatMap Insertion.events, e.timestamp.FourDigitYear := by
    intro e he
    obtain ⟨call, hcall, he⟩ := List.mem_flatMap.1 he
    exact hyears call hcall e he
  refine ⟨db, hok, ?_, latestStatement_of_years htable hall⟩
  simp only [queryStatement_eq_ok htable hlimit]
  exact AmbientFs.EventStore.reference_iff_dated (eventPlanner planner) f hall

/-! ## A filter from the year 10000 -/

def firstEvent : FileEvent := .new .epoch .created "a" "p" "m"

def secondEvent : FileEvent := .new ⟨1, by decide⟩ .modified "a" "p" "m"

theorem query_reference_two : ∃ db,
    filled [.insert secondEvent, .insertBatch [firstEvent]] = .ok db ∧
      ((∃ found, EventStore.queryStatement rowidOrder db { limit := some 1 } = .ok found ∧
          EventFilter.Reference { limit := some 1 } [secondEvent, firstEvent] found) ↔
        EventFilter.Dated { limit := some 1 } [secondEvent, firstEvent]) ∧
      ∀ projectId filePath, ∃ latest,
        EventStore.latestStatement rowidOrder db projectId filePath = .ok latest ∧
          LatestOf [secondEvent, firstEvent] projectId filePath latest :=
  query_reference_iff rowidOrder [.insert secondEvent, .insertBatch [firstEvent]]
    (by decide) { limit := some 1 } (by decide)

def lateFilter : EventFilter where
  since := some ⟨253402300800 * nanosPerSec, by decide⟩

/-- An event of 1970 is found among those since the year 10000. -/
theorem not_query_reference : ∃ db, filled [.insert firstEvent] = .ok db ∧
    ¬ ∃ found, EventStore.queryStatement rowidOrder db lateFilter = .ok found ∧
      lateFilter.Reference [firstEvent] found := by
  obtain ⟨db, hok, htable⟩ := filled_spec [.insert firstEvent]
  refine ⟨db, hok, ?_⟩
  have hlimit : ∀ n ∈ lateFilter.limit, n < 2 ^ 63 := by simp [lateFilter]
  have hyears : ∀ e ∈ [firstEvent], e.timestamp.FourDigitYear := by decide
  have hevents : [Insertion.insert firstEvent].flatMap Insertion.events = [firstEvent] := rfl
  simp only [queryStatement_eq_ok htable hlimit, hevents]
  rw [AmbientFs.EventStore.reference_iff_dated (eventPlanner rowidOrder) lateFilter hyears]
  rintro (hsince | hzero | hnone)
  · exact absurd (hsince _ rfl) (by decide)
  · cases hzero
  · exact hnone firstEvent List.mem_cons_self rfl

end Sql

end AmbientFs
