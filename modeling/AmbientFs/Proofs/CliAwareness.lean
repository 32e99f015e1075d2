import AmbientFs.Proofs.CliEvents

/-!
# The awareness command and the latest event

The command queries for one event of the project, and does not use the path. What it reports is the
latest event of the file exactly if no other event of the project is as late, or if there is none
to report or to read back.
-/

namespace AmbientFs

open Sql (eventTable eventPlanner)

section Lists

variable {α : Type} {r : α → α → Prop} [DecidableRel r]

theorem toList_injective : Function.Injective (Option.toList (α := α)) := by
  intro o o' h
  simpa using congrArg List.head? h

/-- What is before all else in the order stays first when a list is sorted. -/
theorem head?_insertionSort {a : α} {l : List α} (h : ∀ b ∈ l, r a b) :
    ((a :: l).insertionSort r).head? = some a := by
  rw [List.insertionSort_cons]
  rcases hl : l.insertionSort r with _ | ⟨b, rest⟩
  · rfl
  · have hb : b ∈ l := (List.mem_insertionSort r).1 (hl ▸ List.mem_cons_self)
    simp [List.orderedInsert, h b hb]

theorem head?_insertionSort_filter {p : α → Bool} {l : List α} (hp : ∃ a ∈ l, p a)
    (h : ∀ a ∈ l, p a → ∀ b ∈ l, r a b) :
    ∃ a ∈ l, p a ∧ ((l.filter p ++ l.filter fun b => !p b).insertionSort r).head? = some a := by
  rcases hl : l.filter p with _ | ⟨a, rest⟩
  · obtain ⟨a, ha, hpa⟩ := hp
    rw [List.filter_eq_nil_iff] at hl
    exact absurd hpa (hl a ha)
  · have ha : a ∈ l.filter p := hl ▸ List.mem_cons_self
    rw [List.mem_filter] at ha
    refine ⟨a, ha.1, ha.2, head?_insertionSort fun b hb => h a ha.1 ha.2 b ?_⟩
    rcases List.mem_append.1 hb with hb | hb
    · exact List.mem_of_mem_filter (hl ▸ List.mem_cons_of_mem a hb)
    · exact List.mem_of_mem_filter hb

end Lists

/-! ## A query for one event -/

/-- What a query for one event of a kind may find: of those that are read back, one that none is
later than. -/
def MayFind (events : List FileEvent) (kind : FileEvent → Bool) : Option FileEvent → Prop
  | none => ∀ e ∈ events, ¬ kind e
  | some found => found ∈ events ∧ kind found ∧ found.timestamp.FourDigitYear ∧
      ∀ e ∈ events, kind e → e.timestamp.FourDigitYear →
        e.timestamp.nanos ≤ found.timestamp.nanos

/-- There is such an event unless none of the kind is read back. -/
theorem exists_mayFind_iff {events : List FileEvent} {kind : FileEvent → Bool} :
    (∃ latest, MayFind events kind latest) ↔
      (∀ e ∈ events, ¬ kind e) ∨ ∃ e ∈ events, kind e ∧ e.timestamp.FourDigitYear := by
  constructor
  · rintro ⟨_ | latest, h⟩
    · exact .inl h
    · exact .inr ⟨latest, h.1, h.2.1, h.2.2.1⟩
  · rintro (hnone | ⟨e, he, hkind, hyear⟩)
    · exact ⟨none, hnone⟩
    · have hfinite : {e | e ∈ events ∧ kind e ∧ e.timestamp.FourDigitYear}.Finite :=
        events.finite_toSet.subset fun e he => he.1
      obtain ⟨latest, ⟨hmem, hlatest⟩, hmax⟩ := Set.exists_max_image _
        (fun e : FileEvent => e.timestamp.nanos) hfinite ⟨e, he, hkind, hyear⟩
      exact ⟨some latest, hmem, hlatest.1, hlatest.2,
        fun e he hkind hyear => hmax e ⟨he, hkind, hyear⟩⟩

namespace EventStore

variable {planner : Planner} {s : EventStore} {events found : List FileEvent} {f : EventFilter}
  {latest : Option FileEvent}

theorem WrittenFrom.exists_found (h : s.WrittenFrom events) (hlimit : f.limit = some 1)
    (hquery : s.query planner f = .ok found) :
    ∃ latest, MayFind events f.MatchesText latest ∧ found = latest.toList := by
  obtain ⟨sorted, hperm, hsorted, hfound⟩ := h.query_ordered planner f
  obtain ⟨-, hlength⟩ := (h.query_spec planner f).2 found hquery
  have hmem : ∀ e, e ∈ sorted ↔ e ∈ events ∧ f.MatchesText e ∧ e.timestamp.FourDigitYear := by
    intro e
    simp [hperm.mem_iff, FileEvent.readable]
  obtain rfl := hfound found hquery
  rw [hlimit] at hlength ⊢
  rcases sorted with _ | ⟨latest, rest⟩
  · simp only [upTo, List.take_nil, List.length_nil, capped] at hlength
    have hnone : (events.filter f.MatchesText).length = 0 := by omega
    rw [List.length_eq_zero_iff, List.filter_eq_nil_iff] at hnone
    exact ⟨none, hnone, rfl⟩
  · obtain ⟨hlatest, hmatches, hyear⟩ := (hmem latest).1 List.mem_cons_self
    refine ⟨some latest, ⟨hlatest, hmatches, hyear, fun e he hkind hread => ?_⟩, rfl⟩
    exact hsorted.le_head ((hmem e).2 ⟨he, hkind, hread⟩)

theorem WrittenFrom.mayFind (h : s.WrittenFrom events) (hlimit : f.limit = some 1)
    (hquery : s.query planner f = .ok latest.toList) : MayFind events f.MatchesText latest := by
  obtain ⟨latest', hlatest, heq⟩ := h.exists_found hlimit hquery
  rwa [toList_injective heq]

theorem WrittenFrom.query_ok (h : s.WrittenFrom events) (planner : Planner)
    (hlimit : f.limit = some 1) (hlatest : MayFind events f.MatchesText latest) :
    ∃ latest', MayFind events f.MatchesText latest' ∧
      s.query planner f = .ok latest'.toList := by
  have henough : Enough events f.MatchesText f.limit := by
    rcases latest with _ | latest
    · exact .inl fun e he hkind => absurd hkind (hlatest e he)
    · obtain ⟨hmem, hkind, hyear, -⟩ := hlatest
      refine .inr ⟨1, hlimit, List.length_pos_of_mem (a := latest) ?_⟩
      simp [hmem, hkind, hyear, FileEvent.readable]
  obtain ⟨found, hquery⟩ := (h.query_spec planner f).1.1 henough
  obtain ⟨latest', hlatest', rfl⟩ := h.exists_found hlimit hquery
  exact ⟨latest', hlatest', hquery⟩

theorem WrittenFrom.timestamp_le (h : s.WrittenFrom events) {e : FileEvent}
    (hlatest : MayFind events f.MatchesText (some e)) {r : Row} (hr : r ∈ s.rows.filter f.matches) :
    r.timestamp ≤ e.timestamp.toRfc3339 := by
  obtain ⟨-, -, hyear, hmax⟩ := hlatest
  obtain ⟨written, hwritten⟩ := s.written r (List.mem_of_mem_filter hr)
  have htext : r.timestamp = written.timestamp.toRfc3339 := by
    rw [hwritten]
    rfl
  rw [htext]
  by_cases hread : written.timestamp.FourDigitYear
  · have hmem : written ∈ (s.rows.filter f.matches).filterMap Row.read :=
      List.mem_filterMap.2 ⟨r, hr, by rw [hwritten, read_toRow, if_pos hread]⟩
    rw [h.read_filter (q := f.MatchesText) fun e id => rfl, List.mem_filter,
      Bool.and_eq_true] at hmem
    exact (DateTime.toRfc3339_le_iff hread hyear).2 (hmax _ hmem.1 hmem.2.1 hread)
  · exact (DateTime.toRfc3339_lt_of_not hread hyear).le

/-- Whichever may be found is, if its rows are visited first. -/
theorem WrittenFrom.query_of_visit (h : s.WrittenFrom events) (hlimit : f.limit = some 1)
    (hlatest : MayFind events f.MatchesText latest)
    (hvisit : ∀ rows, planner.visit f rows = rows.filter (fun r => r.read = latest) ++
      rows.filter fun r => !decide (r.read = latest)) :
    s.query planner f = .ok latest.toList := by
  rcases latest with _ | e
  · obtain ⟨_ | e, hfound, hquery⟩ := h.query_ok planner hlimit hlatest
    · exact hquery
    · exact absurd hfound.2.1 (hlatest e hfound.1)
  have hpicked : ∃ r ∈ s.rows.filter f.matches, decide (r.read = some e) = true := by
    have hmem : e ∈ (s.rows.filter f.matches).filterMap Row.read := by
      rw [h.read_filter (q := f.MatchesText) fun e id => rfl]
      simp [hlatest.1, hlatest.2.1, hlatest.2.2.1, FileEvent.readable]
    simpa using hmem
  obtain ⟨r, -, hread, hhead⟩ := head?_insertionSort_filter
    (r := fun a b : Row => b.timestamp ≤ a.timestamp) hpicked fun a ha hread b hb => by
      have hle := h.timestamp_le hlatest hb
      obtain ⟨written, hwritten⟩ := s.written a (List.mem_of_mem_filter ha)
      rw [hwritten, read_toRow] at hread
      split_ifs at hread with hyear
      · obtain rfl : written = e := by simpa using hread
        rw [hwritten]
        exact hle
      · simp at hread
  have hselect : s.select planner f = [r] := by
    rw [select_eq_upTo, sorted, hvisit, hlimit]
    rcases hs : List.insertionSort _ _ with _ | ⟨a, rest⟩
    · rw [hs] at hhead
      cases hhead
    · rw [hs] at hhead
      cases hhead
      rfl
  have hevent : r.toEvent.toOption = some e := of_decide_eq_true hread
  exact mapM_eq_ok.2 (by simp [hselect, hevent])

/-- The latest event is what a query for one finds. -/
theorem getLatest_eq_ok {projectId filePath : String} :
    s.getLatest planner projectId filePath = .ok latest ↔
      s.query planner (.latest projectId filePath) = .ok latest.toList := by
  have hselect : s.select planner (.latest projectId filePath) =
      (s.sorted planner (.latest projectId filePath)).take 1 := select_eq_upTo
  unfold getLatest query
  unfold EventFilter.latest at hselect ⊢
  rw [hselect]
  rcases s.sorted planner _ with _ | ⟨r, rest⟩
  · cases latest <;> simp [pure, Except.pure]
  · rw [List.take_succ_cons, List.take_zero, List.mapM_cons, List.mapM_nil]
    rcases hr : r.toEvent with e | event <;> cases latest <;>
      simp [hr, Except.map, bind, Except.bind, pure, Except.pure]

end EventStore

/-! ## The command -/

namespace Cli

variable {planner : Sqlite.Planner Sql.ColumnName} {db : Sql.Db} {now : DateTime}
  {es : EventStore} {events : List FileEvent} {project filePath : String}
  {latest : Option FileEvent}

/-- The event that is reported is the latest of the file, in whatever order the rows of either query
are visited. -/
def AwarenessAgrees (db : Sql.Db) (now : DateTime) (project filePath : String) : Prop :=
  ∀ planner latest,
    cmdAwareness planner db now true project (.ofString filePath) = .reported latest ↔
      Sql.EventStore.getLatest planner db project filePath = .ok latest

/-- The file has an event that all others of its project are before; or the project has none, or
none that is read back although the file has some. -/
def LatestInProject (events : List FileEvent) (project filePath : String) : Prop :=
  (∀ e ∈ events, e.projectId ≠ project) ∨
    (∃ latest ∈ events, latest.projectId = project ∧ latest.filePath = filePath ∧
      latest.timestamp.FourDigitYear ∧ ∀ e ∈ events, e.projectId = project →
        e.timestamp.FourDigitYear → latest.timestamp.nanos ≤ e.timestamp.nanos → e = latest) ∨
    (∃ e ∈ events, e.projectId = project ∧ e.filePath = filePath) ∧
      ∀ e ∈ events, e.projectId = project → ¬ e.timestamp.FourDigitYear

/-- What the command queries by. -/
def projectFilter (project : String) : EventFilter where
  projectId := some project
  limit := some 1

theorem cmdAwareness_eq_reported (h : db.tables .fileEvents = some (eventTable es))
    (hwritten : es.WrittenFrom events) (path : PathBuf) :
    cmdAwareness planner db now true project path = .reported latest ↔
      es.query (eventPlanner planner) (projectFilter project) = .ok latest.toList := by
  have hquery : ∀ found,
      DaemonServer.queryEvents planner db now (some project) none none (some 1) = .ok found ↔
        es.query (eventPlanner planner) (projectFilter project) = .ok found := by
    intro found
    have hlimit : ∀ n ∈ (projectFilter project).limit, n < 2 ^ 63 := by simp [projectFilter]
    have hopen : openAndQuery planner db (projectFilter project) = .ok found ↔
        es.query (eventPlanner planner) (projectFilter project) = .ok found :=
      (Sql.openAndQuery_eq_ok h).trans (and_iff_right hlimit)
    rw [queryEvents_eq_ok, ← hopen]
    simp [projectFilter]
  unfold cmdAwareness
  simp only [Bool.true_eq_false, if_false]
  rcases hfound : DaemonServer.queryEvents planner db now (some project) none none (some 1)
    with e | found
  · simp [← hquery, hfound]
  · obtain ⟨latest', -, rfl⟩ := hwritten.exists_found rfl ((hquery found).1 hfound)
    simp [← hquery, hfound, toList_injective.eq_iff]

theorem getLatest_eq_ok (h : db.tables .fileEvents = some (eventTable es)) :
    Sql.EventStore.getLatest planner db project filePath = .ok latest ↔
      es.query (eventPlanner planner) (.latest project filePath) = .ok latest.toList := by
  rw [Sql.getLatest_of_table h, ← EventStore.getLatest_eq_ok]
  rcases es.getLatest (eventPlanner planner) project filePath with e | found <;>
    simp [Except.mapError]

theorem matchesText_project {e : FileEvent} :
    (projectFilter project).MatchesText e ↔ e.projectId = project := by
  simp [EventFilter.matchesText_eq, projectFilter]

theorem matchesText_latest {e : FileEvent} : (EventFilter.latest project filePath).MatchesText e ↔
    e.projectId = project ∧ e.filePath = filePath := by
  simp [EventFilter.matchesText_eq, EventFilter.latest]

/-- The rows of one event are visited first by the command's query, and those of another by the
other. -/
def tiePlanner (latest latest' : Option FileEvent) : Sqlite.Planner Sql.ColumnName :=
  .first fun q r =>
    (Sql.events.decode r).read = if q.conditions.length = 1 then latest else latest'

variable (project filePath) in
theorem visit_tiePlanner (latest latest' : Option FileEvent) (rows : List Row) :
    (eventPlanner (tiePlanner latest latest')).visit (projectFilter project) rows =
        rows.filter (fun r => r.read = latest) ++ rows.filter (fun r => !decide (r.read = latest)) ∧
      (eventPlanner (tiePlanner latest latest')).visit (.latest project filePath) rows =
        rows.filter (fun r => r.read = latest') ++
          rows.filter (fun r => !decide (r.read = latest')) := by
  constructor <;>
    simp [eventPlanner, tiePlanner, Sqlite.Encoding.visit_first, Sql.events.decode_encode,
      Sql.EventStore.selectEvents, Sql.EventStore.conditions, projectFilter, EventFilter.latest]

/-- Both find one of the latest, and which is not specified. -/
theorem agrees_iff_mayFind (h : db.tables .fileEvents = some (eventTable es))
    (hwritten : es.WrittenFrom events) : AwarenessAgrees db now project filePath ↔
      (∀ latest latest', MayFind events (projectFilter project).MatchesText latest →
        MayFind events (EventFilter.latest project filePath).MatchesText latest' →
          latest = latest') ∧
      ((∃ latest, MayFind events (projectFilter project).MatchesText latest) ↔
        ∃ latest, MayFind events (EventFilter.latest project filePath).MatchesText latest) := by
  simp only [AwarenessAgrees, cmdAwareness_eq_reported h hwritten, getLatest_eq_ok h]
  constructor
  · intro hagrees
    refine ⟨fun latest latest' hproject hfile => ?_, ?_, ?_⟩
    · have hvisit := visit_tiePlanner project filePath latest latest'
      have hcommand := hwritten.query_of_visit rfl hproject fun rows => (hvisit rows).1
      have hget := hwritten.query_of_visit rfl hfile fun rows => (hvisit rows).2
      have hsame := (hagrees _ latest).1 hcommand
      exact toList_injective (Except.ok.inj (hsame.symm.trans hget))
    · rintro ⟨other, hother⟩
      obtain ⟨latest, -, hcommand⟩ := hwritten.query_ok (eventPlanner Sql.rowidOrder) rfl hother
      exact ⟨latest, hwritten.mayFind rfl ((hagrees _ latest).1 hcommand)⟩
    · rintro ⟨other, hother⟩
      obtain ⟨latest, -, hget⟩ := hwritten.query_ok (eventPlanner Sql.rowidOrder) rfl hother
      exact ⟨latest, hwritten.mayFind rfl ((hagrees _ latest).2 hget)⟩
  · rintro ⟨hsame, hexists⟩ planner latest
    constructor
    · intro hcommand
      have hproject := hwritten.mayFind rfl hcommand
      obtain ⟨other, hother⟩ := hexists.1 ⟨latest, hproject⟩
      obtain ⟨latest', hfile, hget⟩ := hwritten.query_ok (eventPlanner planner) rfl hother
      rwa [hsame latest latest' hproject hfile]
    · intro hget
      have hfile := hwritten.mayFind rfl hget
      obtain ⟨other, hother⟩ := hexists.2 ⟨latest, hfile⟩
      obtain ⟨latest', hproject, hcommand⟩ := hwritten.query_ok (eventPlanner planner) rfl hother
      rwa [← hsame latest' latest hproject hfile]

theorem exists_project_iff :
    (∃ latest, MayFind events (projectFilter project).MatchesText latest) ↔
      (∀ e ∈ events, e.projectId ≠ project) ∨
        ∃ e ∈ events, e.projectId = project ∧ e.timestamp.FourDigitYear := by
  simp only [exists_mayFind_iff, matchesText_project, ne_eq]

theorem exists_file_iff :
    (∃ latest, MayFind events (EventFilter.latest project filePath).MatchesText latest) ↔
      (∀ e ∈ events, ¬ (e.projectId = project ∧ e.filePath = filePath)) ∨
        ∃ e ∈ events, (e.projectId = project ∧ e.filePath = filePath) ∧
          e.timestamp.FourDigitYear := by
  simp only [exists_mayFind_iff, matchesText_latest]

/-- The project's latest events and the file's are the same if the file has the only one. -/
theorem LatestInProject.same (h : LatestInProject events project filePath) :
    (∀ latest latest', MayFind events (projectFilter project).MatchesText latest →
      MayFind events (EventFilter.latest project filePath).MatchesText latest' →
        latest = latest') ∧
    ((∃ latest, MayFind events (projectFilter project).MatchesText latest) ↔
      ∃ latest, MayFind events (EventFilter.latest project filePath).MatchesText latest) := by
  rcases h with hnone | ⟨latest, hmem, hproject, hpath, hyear, honly⟩ | ⟨⟨e, he, hfile⟩, hunread⟩
  · refine ⟨?_, iff_of_true (exists_project_iff.2 (.inl hnone))
      (exists_file_iff.2 (.inl fun e he hfile => hnone e he hfile.1))⟩
    rintro (_ | e) (_ | e') hlatest hlatest'
    · rfl
    · exact absurd (matchesText_latest.1 hlatest'.2.1).1 (hnone e' hlatest'.1)
    · exact absurd (matchesText_project.1 hlatest.2.1) (hnone e hlatest.1)
    · exact absurd (matchesText_project.1 hlatest.2.1) (hnone e hlatest.1)
  · refine ⟨?_, iff_of_true (exists_project_iff.2 (.inr ⟨latest, hmem, hproject, hyear⟩))
      (exists_file_iff.2 (.inr ⟨latest, hmem, ⟨hproject, hpath⟩, hyear⟩))⟩
    have hkind := matchesText_project.2 hproject
    have hkind' := matchesText_latest.2 ⟨hproject, hpath⟩
    rintro (_ | e) (_ | e') hlatest hlatest'
    · rfl
    · exact absurd hkind (hlatest latest hmem)
    · exact absurd hkind' (hlatest' latest hmem)
    · obtain ⟨he, hof, hread, hmax⟩ := hlatest
      obtain ⟨he', hof', hread', hmax'⟩ := hlatest'
      rw [honly e he (matchesText_project.1 hof) hread (hmax latest hmem hkind hyear),
        honly e' he' (matchesText_latest.1 hof').1 hread' (hmax' latest hmem hkind' hyear)]
  · have hproject : ¬ ∃ latest, MayFind events (projectFilter project).MatchesText latest := by
      rw [exists_project_iff]
      rintro (hnone | ⟨e', he', hof, hread⟩)
      · exact hnone e he hfile.1
      · exact hunread e' he' hof hread
    have hnot : ¬ ∃ latest,
        MayFind events (EventFilter.latest project filePath).MatchesText latest := by
      rw [exists_file_iff]
      rintro (hnone | ⟨e', he', hof, hread⟩)
      · exact hnone e he hfile
      · exact hunread e' he' hof.1 hread
    exact ⟨fun latest _ hlatest _ => absurd ⟨latest, hlatest⟩ hproject, iff_of_false hproject hnot⟩

theorem latestInProject_of_same
    (hsame : ∀ latest latest', MayFind events (projectFilter project).MatchesText latest →
      MayFind events (EventFilter.latest project filePath).MatchesText latest' → latest = latest')
    (hexists : (∃ latest, MayFind events (projectFilter project).MatchesText latest) ↔
      ∃ latest, MayFind events (EventFilter.latest project filePath).MatchesText latest) :
    LatestInProject events project filePath := by
  by_cases hfound : ∃ latest, MayFind events (projectFilter project).MatchesText latest
  · obtain ⟨latest', hfile⟩ := hexists.1 hfound
    obtain ⟨_ | latest, hproject⟩ := hfound
    · exact .inl fun e he hof => hproject e he (matchesText_project.2 hof)
    obtain rfl := hsame _ _ hproject hfile
    obtain ⟨hmem, hkind, hyear, hmax⟩ := hproject
    obtain ⟨hof, hpath⟩ := matchesText_latest.1 hfile.2.1
    refine .inr (.inl ⟨latest, hmem, hof, hpath, hyear, fun e he hof hread hle => ?_⟩)
    -- an event that is not before the latest may be found instead of it
    have hother : MayFind events (projectFilter project).MatchesText (some e) :=
      ⟨he, matchesText_project.2 hof, hread, fun e' he' hof' hread' =>
        (hmax e' he' hof' hread').trans hle⟩
    exact Option.some.inj (hsame _ _ hother hfile)
  · have hnot : ¬ ∃ latest,
        MayFind events (EventFilter.latest project filePath).MatchesText latest :=
      fun h => hfound (hexists.2 h)
    rw [exists_project_iff] at hfound
    rw [exists_file_iff] at hnot
    push Not at hfound hnot
    obtain ⟨e, he, hof, hpath⟩ := hnot.1
    exact .inr (.inr ⟨⟨e, he, hof, hpath⟩, fun e he hof => hfound.2 e he hof⟩)

/-- The command reports what is looked up if and only if the latest event of the project is the
file's and no other is as late, or neither finds one to report. -/
theorem awareness_agrees_iff (db : Sql.Db) (now : DateTime) (project filePath : String)
    (h : db.tables .fileEvents = some (eventTable es)) (hwritten : es.WrittenFrom events) :
    AwarenessAgrees db now project filePath ↔ LatestInProject events project filePath := by
  rw [agrees_iff_mayFind h hwritten]
  exact ⟨fun hboth => latestInProject_of_same hboth.1 hboth.2, LatestInProject.same⟩

/-- Another file of the project that changed a nanosecond later. -/
def otherFile : FileEvent := { Sql.secondEvent with filePath := "b" }

/-- The file of the latest event of three. -/
theorem awareness_agrees_one :
    ∃ db, Sql.ingested [Sql.firstEvent, { otherFile with projectId := "q" }, otherFile] = .ok db ∧
      AwarenessAgrees db .epoch "p" "b" := by
  obtain ⟨db, hok, htable⟩ :=
    Sql.ingested_spec [Sql.firstEvent, { otherFile with projectId := "q" }, otherFile]
  refine ⟨db, hok, (awareness_agrees_iff db .epoch "p" "b" htable
    (EventStore.writtenFrom_of _)).2 (.inr (.inl ⟨otherFile, by simp, rfl, rfl, by decide, ?_⟩))⟩
  intro e he hof hread hle
  fin_cases he
  · exact absurd hle (by decide)
  · exact absurd hof (by decide)
  · rfl

/-- The other file's event is reported for the first. -/
theorem not_awareness_agrees : ∃ db, Sql.ingested [Sql.firstEvent, otherFile] = .ok db ∧
    ¬ AwarenessAgrees db .epoch "p" "a" := by
  obtain ⟨db, hok, htable⟩ := Sql.ingested_spec [Sql.firstEvent, otherFile]
  refine ⟨db, hok, fun hagrees => ?_⟩
  obtain ⟨hsame, hexists⟩ :=
    (agrees_iff_mayFind htable (EventStore.writtenFrom_of _)).1 hagrees
  rcases latestInProject_of_same hsame hexists with
    hnone | ⟨latest, hmem, -, hpath, -, honly⟩ | ⟨-, hunread⟩
  · exact hnone Sql.firstEvent List.mem_cons_self rfl
  · have hyear : otherFile.timestamp.FourDigitYear := by decide
    rcases List.mem_cons.1 hmem with rfl | hmem
    · have hother := honly otherFile (by simp) rfl hyear (by decide)
      exact absurd (congrArg FileEvent.filePath hother) (by decide)
    · obtain rfl := List.mem_singleton.1 hmem
      exact absurd hpath (by decide)
  · exact hunread Sql.firstEvent List.mem_cons_self rfl (by decide)

end Cli

end AmbientFs
