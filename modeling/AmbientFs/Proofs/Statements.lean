import AmbientFs.Proofs.Database
import AmbientFs.Statements

/-!
# What the statements say

However many fields a filter has, the text of its query is read as the SELECT for it, with every
value bound where its condition is (`prepare_queryText`).
-/

namespace AmbientFs

namespace Sql

open Sqlite (words words_append numbered NumberedCondition)

/-! ## Conditions -/

/-- After an AND the text is read as the condition. -/
def Says (text : String) (c : NumberedCondition ColumnName) : Prop :=
  ∃ left op right, words (" AND " ++ text).toList = ["AND", left, op, right] ∧
    Sqlite.condition names left op right = some (some c)

/-- A text before the number of a parameter. -/
structure Compares (text : String) (column : ColumnName) (comparison : Sqlite.Comparison) :
    Prop where
  words_eq : ∃ left op, words (" AND " ++ text).toList = ["AND", left, op] ∧
    Sqlite.numberOf left = none ∧ names.column left = some column ∧
      Sqlite.comparisonOf op = some comparison
  last : (" AND " ++ text).toList.getLast? = some ' '

theorem Compares.says {text : String} {column : ColumnName} {comparison : Sqlite.Comparison}
    (h : Compares text column comparison) {n : ℕ} (hn : 0 < n) :
    Says (text ++ ("?" ++ n.repr)) ⟨column, comparison, n⟩ := by
  obtain ⟨left, op, hwords, hnumber, hcolumn, hcomparison⟩ := h.words_eq
  refine ⟨left, op, "?" ++ n.repr, ?_, ?_⟩
  · rw [← String.append_assoc, String.toList_append, words_append (.inl ⟨' ', h.last, by decide⟩),
      hwords, Sqlite.words_param]
    rfl
  · simp [Sqlite.condition, hnumber, hcolumn, hcomparison, hn]

theorem compares_project : Compares "project_id = " .projectId .eq :=
  ⟨⟨"project_id", "=", by decide +kernel⟩, by decide⟩

theorem compares_path : Compares "file_path = " .filePath .eq :=
  ⟨⟨"file_path", "=", by decide +kernel⟩, by decide⟩

theorem compares_source : Compares "source = " .source .eq :=
  ⟨⟨"source", "=", by decide +kernel⟩, by decide⟩

theorem compares_since : Compares "timestamp >= " .timestamp .ge :=
  ⟨⟨"timestamp", ">=", by decide +kernel⟩, by decide⟩

/-- Texts that are joined by AND are read one after the other. -/
theorem words_join {texts : List String} (hne : texts ≠ []) :
    words (" AND " ++ " AND ".intercalate texts).toList =
      texts.flatMap fun text => words (" AND " ++ text).toList := by
  induction texts with
  | nil => exact absurd rfl hne
  | cons text texts ih =>
    rcases texts with _ | ⟨next, texts⟩
    · simp
    · have hassoc : " AND " ++ (text ++ " AND " ++ " AND ".intercalate (next :: texts)) =
          (" AND " ++ text) ++ (" AND " ++ " AND ".intercalate (next :: texts)) := by
        simp only [String.append_assoc]
      rw [String.intercalate_cons_cons, hassoc, String.toList_append,
        words_append (.inr ⟨' ', by simp, by decide⟩), ih (by simp)]
      rfl

/-! ## The parts of a query -/

/-- The conditions are in the text with their numbers, and bound in the same order. -/
structure Aligned (parts : EventStore.QueryParts) (cs : List (Sqlite.Condition ColumnName)) :
    Prop where
  conditions : List.Forall₂ Says parts.conditions (numbered cs)
  bindParams : parts.bindParams = cs.map (·.param)

/-- And the next number is that of the next parameter. -/
structure Aligning (parts : EventStore.QueryParts) (cs : List (Sqlite.Condition ColumnName)) :
    Prop extends Aligned parts cs where
  paramIdx : parts.paramIdx = cs.length + 1

variable {parts : EventStore.QueryParts} {cs : List (Sqlite.Condition ColumnName)} {text : String}
  {column : ColumnName} {comparison : Sqlite.Comparison}

theorem aligning_empty : Aligning .empty [] := ⟨⟨.nil, rfl⟩, rfl⟩

theorem Aligning.push (h : Aligning parts cs) (htext : Compares text column comparison)
    (param : Sqlite.Param) :
    Aligning (parts.push (text ++ "?") param) (cs ++ [⟨column, comparison, param⟩]) where
  conditions := by
    rw [Sqlite.numbered_concat]
    refine List.rel_append h.conditions (.cons ?_ .nil)
    rw [h.paramIdx, String.append_assoc]
    exact htext.says (Nat.succ_pos _)
  bindParams := by
    simp [EventStore.QueryParts.push, h.bindParams]
  paramIdx := by
    simp [EventStore.QueryParts.push, h.paramIdx]

/-- A field of the filter that may be missing. -/
theorem Aligning.pushOption {α : Type} (h : Aligning parts cs)
    (htext : Compares text column comparison) (o : Option α) (param : α → Sqlite.Param) :
    Aligning (o.elim parts fun a => parts.push (text ++ "?") (param a))
      (cs ++ (o.map fun a => ⟨column, comparison, param a⟩).toList) := by
  cases o with
  | none => simpa using h
  | some a => exact h.push htext (param a)

theorem aligned_queryParts (f : EventFilter) :
    Aligned (EventStore.queryParts f) (EventStore.conditions f) := by
  have hproject := aligning_empty.pushOption compares_project f.projectId fun pid =>
    .text pid.toList
  have hpath := hproject.pushOption compares_path f.filePath fun fp => .text fp.toList
  have hsource := hpath.pushOption compares_source f.source fun src => .text src.asStr.toList
  have hsince := hsource.pushOption compares_since f.since fun since => .text since.toRfc3339
  unfold EventStore.queryParts EventStore.conditions
  rcases f with ⟨_ | pid, _ | fp, _ | src, _ | since, limit⟩ <;>
    exact ⟨hsince.conditions, hsince.bindParams⟩

/-! ## The text of a query -/

def columnWords : List String :=
  ["timestamp", ",", "event_type", ",", "file_path", ",", "project_id", ",", "source", ",",
    "source_id", ",", "machine_id", ",", "content_hash", ",", "old_path"]

def selectWords : List String :=
  "SELECT" :: columnWords ++ ["FROM", "file_events", "WHERE"]

def orderWords : List String := ["ORDER", "BY", "timestamp", "DESC"]

def limitWords (limit : Option ℕ) : List String := limit.elim [] fun n => ["LIMIT", n.repr]

theorem words_columns : words (
    "SELECT timestamp, event_type, file_path, project_id, source, source_id, " ++
      "machine_id, content_hash, old_path").toList = "SELECT" :: columnWords := by
  decide +kernel

theorem words_from : words " FROM file_events WHERE 1=1".toList =
    ["FROM", "file_events", "WHERE", "1", "=", "1"] := by
  decide +kernel

theorem words_order : words " ORDER BY timestamp DESC".toList = orderWords := by
  decide +kernel

theorem words_where (query : String) (texts : List String) :
    words (if texts = [] then query else query ++ " AND " ++ " AND ".intercalate texts).toList =
      words query.toList ++ texts.flatMap fun text => words (" AND " ++ text).toList := by
  split_ifs with h
  · simp [h]
  · rw [String.append_assoc, String.toList_append, words_append (.inr ⟨' ', by simp, by decide⟩),
      words_join h]

theorem words_limit (query : String) (limit : Option ℕ) :
    words (limit.elim query fun n => query ++ " LIMIT " ++ n.repr).toList =
      words query.toList ++ limitWords limit := by
  have hlimit : words " LIMIT ".toList = ["LIMIT"] := by decide +kernel
  cases limit with
  | none => simp [limitWords]
  | some n =>
    rw [Option.elim_some, String.toList_append, words_append (.inl ⟨' ', by simp, by decide⟩),
      String.toList_append, words_append (.inr ⟨' ', by simp, by decide⟩), hlimit, Nat.toList_repr,
      Sqlite.words_toDigits, List.append_assoc]
    rfl

/-- The text of a query up to its limit. -/
def unlimitedText (f : EventFilter) : String :=
  let query := "SELECT timestamp, event_type, file_path, project_id, source, source_id, " ++
    "machine_id, content_hash, old_path" ++ " FROM file_events WHERE 1=1"
  let conditions := (EventStore.queryParts f).conditions
  (if conditions = [] then query else query ++ " AND " ++ " AND ".intercalate conditions) ++
    " ORDER BY timestamp DESC"

theorem queryText_eq (f : EventFilter) : EventStore.queryText f =
    f.limit.elim (unlimitedText f) fun n => unlimitedText f ++ " LIMIT " ++ n.repr := by
  unfold EventStore.queryText unlimitedText
  rcases f.limit with _ | n <;> rfl

theorem words_queryText (f : EventFilter) : words (EventStore.queryText f).toList =
    selectWords ++ ("1" :: "=" :: "1" :: ((EventStore.queryParts f).conditions.flatMap fun text =>
      words (" AND " ++ text).toList) ++ (orderWords ++ limitWords f.limit)) := by
  rw [queryText_eq, words_limit, unlimitedText, String.toList_append,
    words_append (.inr ⟨' ', by simp, by decide⟩), words_where, String.toList_append,
    words_append (.inr ⟨' ', by simp, by decide⟩), words_columns, words_from, words_order]
  simp [selectWords]

example : EventStore.queryText { filePath := some "a", since := some .epoch, limit := some 5 } =
    "SELECT timestamp, event_type, file_path, project_id, source, source_id, machine_id, " ++
      "content_hash, old_path FROM file_events WHERE 1=1 AND file_path = ?1 AND timestamp >= ?2 " ++
      "ORDER BY timestamp DESC LIMIT 5" := by
  decide +kernel

/-! ## What the texts are read as -/

theorem limitClause_limitWords (limit : Option ℕ) :
    Sqlite.limitClause (limitWords limit) = some limit := by
  cases limit with
  | none => rfl
  | some n => simp [limitWords, Sqlite.limitClause]

theorem statement_select (conditions : List String)
    {cs : List (NumberedCondition ColumnName)} {limit : Option ℕ}
    (h : Sqlite.conditionList names (conditions ++ (orderWords ++ limitWords limit)) =
      some (cs, orderWords ++ limitWords limit)) :
    Sqlite.statement names (selectWords ++ (conditions ++ (orderWords ++ limitWords limit))) =
      some {
        table := .fileEvents
        columns := EventStore.eventColumns
        conditions := cs
        order := some ⟨.timestamp, true⟩
        limit := limit } := by
  have hcolumns : ∀ ws, Sqlite.commaList names.column (selectWords.tail ++ ws) =
      some (EventStore.eventColumns, "FROM" :: "file_events" :: "WHERE" :: ws) := fun ws => rfl
  have htable : names.table "file_events" = some .fileEvents := rfl
  have horder : Sqlite.orderClause names (orderWords ++ limitWords limit) =
      some (some ⟨.timestamp, true⟩, limitWords limit) := rfl
  have hselect : selectWords = "SELECT" :: selectWords.tail := rfl
  rw [hselect, List.cons_append, Sqlite.statement]
  simp only [hcolumns, htable, h, horder, limitClause_limitWords, Option.bind_eq_bind,
    Option.bind_some]

/-- The statement of a query is its SELECT. -/
theorem prepare_queryText (f : EventFilter) :
    Sqlite.prepare names (EventStore.queryText f) (EventStore.queryParts f).bindParams =
      .ok (.fileEvents, EventStore.selectEvents f) := by
  obtain ⟨hread, hbound⟩ := aligned_queryParts f
  have hone : Sqlite.condition names "1" "=" "1" = some none := rfl
  have hrest : (orderWords ++ limitWords f.limit).head? ≠ some "AND" := by simp [orderWords]
  have hlist := Sqlite.conditionList_and hone
    (List.forall₂_map_left_iff.2 hread : List.Forall₂ _ ((EventStore.queryParts f).conditions.map
      fun text => words (" AND " ++ text).toList) _) hrest
  rw [← List.flatMap_def] at hlist
  have hstatement := statement_select ("1" :: "=" :: "1" ::
    (EventStore.queryParts f).conditions.flatMap fun text => words (" AND " ++ text).toList) hlist
  rw [Sqlite.prepare, words_queryText, hstatement, hbound]
  exact Sqlite.Prepared.bind_numbered _ rfl

/-- A text that goes on in a new line. -/
theorem words_line {s t : String} {ws ws' : List String} (hs : words s.toList = ws)
    (ht : words t.toList = ws') (hline : t.toList.head? = some '\n') :
    words (s ++ t).toList = ws ++ ws' := by
  rw [String.toList_append, words_append (.inr ⟨'\n', hline, by decide⟩), hs, ht]

theorem words_latestText : words EventStore.latestText.toList = "SELECT" :: columnWords ++
    ["FROM", "file_events"] ++ ["WHERE", "project_id", "=", "?1", "AND", "file_path", "=", "?2"] ++
      orderWords ++ limitWords (some 1) := by
  refine words_line (words_line (words_line (words_line words_columns ?_ ?_) ?_ ?_) ?_ ?_) ?_ ?_ <;>
    decide +kernel

theorem prepare_latestText (projectId filePath : String) :
    Sqlite.prepare names EventStore.latestText [.text projectId.toList, .text filePath.toList] =
      .ok (.fileEvents, EventStore.selectLatest projectId filePath) := by
  rw [Sqlite.prepare, words_latestText]
  rfl

theorem words_insertText : words EventStore.insertText.toList = "INSERT" :: "INTO" ::
    "file_events" :: "(" :: columnWords ++ [")"] ++ ["VALUES", "(", "?1", ",", "?2", ",", "?3", ",",
      "?4", ",", "?5", ",", "?6", ",", "?7", ",", "?8", ",", "?9", ")"] := by
  refine words_line ?_ ?_ ?_ <;> decide +kernel

/-- The statement of an insertion gives each column its own value. -/
theorem prepareRow_insertText (event : FileEvent) :
    Sqlite.prepareRow names EventStore.insertText (EventStore.insertBound event) =
      .ok (.fileEvents, EventStore.eventParams event) := by
  rw [Sqlite.prepareRow, words_insertText]
  rfl

/-- The statement of a pruning compares the time with the cutoff. -/
theorem prepareDelete_pruneEventsText (cutoff : DateTime) :
    Sqlite.prepareDelete names EventPruner.pruneEventsText [.text cutoff.toRfc3339] =
      .ok (.fileEvents, [⟨.timestamp, .lt, .text cutoff.toRfc3339⟩]) := by
  have hwords : words EventPruner.pruneEventsText.toList =
      ["DELETE", "FROM", "file_events", "WHERE", "timestamp", "<", "?1"] := by
    decide +kernel
  rw [Sqlite.prepareDelete, hwords]
  rfl

/-! ## The statements do what the operations do -/

section Run

variable (planner : Sqlite.Planner ColumnName) (db : Db)

theorem insertStatement_eq (event : FileEvent) : EventStore.insertStatement db event =
    (EventStore.insert db event).mapError .db := by
  rw [EventStore.insertStatement, prepareRow_insertText, EventStore.insert]
  simp only [Except.mapError, ok_bind]
  rcases sql (db.write .fileEvents (·.insert (EventStore.eventParams event) .abort)) with e | db
  · rfl
  · simp only [ok_bind]
    rcases sql (db.read .fileEvents fun t => .ok t.lastRowid) with e | id <;> rfl

theorem insertBatchStatements_eq (events : List FileEvent) :
    EventStore.insertBatchStatements db events =
      (EventStore.insertBatch db events).mapError .db := by
  induction events generalizing db with
  | nil => rfl
  | cons event events ih =>
    rw [EventStore.insertBatchStatements, EventStore.insertBatch, insertStatement_eq]
    rcases EventStore.insert db event with e | ⟨id, db⟩
    · rfl
    · simp only [Except.mapError, ok_bind, ih]
      rcases EventStore.insertBatch db events with e | ⟨ids, db⟩ <;> rfl

theorem queryStatement_eq (f : EventFilter) : EventStore.queryStatement planner db f =
    (EventStore.query planner db f).mapError .db := by
  have hrun : runStatement planner db (EventStore.queryText f)
      (EventStore.queryParts f).bindParams =
        (sql (db.read .fileEvents
          (·.select planner (EventStore.selectEvents f)))).mapError .db := by
    rw [runStatement, prepare_queryText]
    rfl
  rw [EventStore.queryStatement, hrun, EventStore.query]
  rcases sql (db.read .fileEvents (·.select planner (EventStore.selectEvents f))) with e | rows <;>
    rfl

theorem latestStatement_eq (projectId filePath : String) :
    EventStore.latestStatement planner db projectId filePath =
      (EventStore.getLatest planner db projectId filePath).mapError .db := by
  have hrun : runStatement planner db EventStore.latestText
      [.text projectId.toList, .text filePath.toList] = (sql (db.read .fileEvents
        (·.select planner (EventStore.selectLatest projectId filePath)))).mapError .db := by
    rw [runStatement, prepare_latestText]
    rfl
  rw [EventStore.latestStatement, hrun, EventStore.getLatest]
  rcases sql (db.read .fileEvents
    (·.select planner (EventStore.selectLatest projectId filePath))) with e | rows
  · rfl
  · rcases rows with _ | ⟨row, rows⟩
    · rfl
    · simp only [Except.mapError, ok_bind]
      rcases EventStore.toEvent row with e | event <;> rfl

theorem pruneEventsStatement_eq (cutoff : DateTime) :
    EventPruner.pruneEventsStatement db cutoff =
      (EventPruner.pruneEventsBefore db cutoff).mapError .db := by
  rw [EventPruner.pruneEventsStatement, prepareDelete_pruneEventsText,
    EventPruner.pruneEventsBefore, EventPruner.deleteBefore]
  simp only [Except.mapError, ok_bind]
  rcases sql (db.read .fileEvents fun t => .ok t.rows.length) with e | before
  · rfl
  simp only [ok_bind]
  rcases sql (db.write .fileEvents (·.delete _)) with e | db
  · rfl
  simp only [ok_bind]
  rcases sql (db.read .fileEvents fun t => .ok t.rows.length) with e | after <;> rfl

end Run

end Sql

end AmbientFs
