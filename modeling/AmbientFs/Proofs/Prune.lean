import AmbientFs.Proofs.Database

/-!
# Pruning the analyses

The cache keeps when a file was analysed as a number of seconds, and the cutoff is compared with it
as a text, which every number is less than.
-/

namespace AmbientFs

namespace Sql

variable {json : SerdeJson} {db : Db}

/-- A cache after some analyses have been put in it. -/
def putAll (json : SerdeJson) : Db → List (DateTime × FileAnalysis) → Except DbError Db
  | db, [] => .ok db
  | db, (now, analysis) :: puts => do
    let db ← FileAnalysisCache.put json db now analysis
    putAll json db puts

/-- The file that the cache makes, with some analyses in it. -/
def cached (json : SerdeJson) (puts : List (DateTime × FileAnalysis)) : Except DbError Db := do
  let db ← FileAnalysisCache.initSchema .empty
  putAll json db puts

def analysisRows (db : Db) : List SqlRow := ((db.tables .fileAnalysis).map (·.rows)).getD []

/-- A file that was analysed before the cutoff. -/
def earlier (cutoff : DateTime) (r : SqlRow) : Bool :=
  match r .analyzedAt with
  | .integer n => n * nanosPerSec < cutoff.nanos
  | _ => false

/-- The rows from before the cutoff are deleted, and counted; all others are left. -/
def PrunesExactly (db : Db) (cutoff : DateTime) : Prop :=
  ∃ db', EventPruner.pruneAnalysisBefore db cutoff =
      .ok (((analysisRows db).filter (earlier cutoff)).length, db') ∧
    analysisRows db' = (analysisRows db).filter fun r => !earlier cutoff r

theorem putAll_spec (puts : List (DateTime × FileAnalysis)) {c : FileAnalysisCache} {n : ℕ}
    (hn : db.tables .fileAnalysis = some (cacheTable json c n)) :
    ∃ db' m, putAll json db puts = .ok db' ∧ db'.tables .fileAnalysis =
      some (cacheTable json (puts.foldl (fun c p => c.put p.2 p.1.timestamp) c) m) := by
  induction puts generalizing db c n with
  | nil => exact ⟨db, n, rfl, hn⟩
  | cons p puts ih =>
    obtain ⟨m, hput⟩ := put_spec hn p.1 p.2
    have hset : (db.set .fileAnalysis (cacheTable json (c.put p.2 p.1.timestamp) m)).tables
        .fileAnalysis = some (cacheTable json (c.put p.2 p.1.timestamp) m) :=
      Sqlite.Database.tables_set_self
    obtain ⟨db', m', hrest, htable⟩ := ih hset
    refine ⟨db', m', ?_, htable⟩
    rw [putAll, hput]
    exact hrest

theorem cached_spec (json : SerdeJson) (puts : List (DateTime × FileAnalysis)) :
    ∃ db n, cached json puts = .ok db ∧ db.tables .fileAnalysis =
      some (cacheTable json (puts.foldl (fun c p => c.put p.2 p.1.timestamp) .empty) n) := by
  obtain ⟨db, hok, htables⟩ := initSchema_spec known_empty
  obtain ⟨db', n, hrest, htable⟩ := putAll_spec puts (c := .empty) (n := 0)
    (htables .fileAnalysis)
  refine ⟨db', n, ?_, htable⟩
  rw [cached, hok]
  exact hrest

/-- All rows go, so those that should are all there are. -/
theorem prunesExactly_of_table {c : FileAnalysisCache} {n : ℕ}
    (hn : db.tables .fileAnalysis = some (cacheTable json c n)) (cutoff : DateTime) :
    PrunesExactly db cutoff ↔ ∀ r ∈ analysisRows db, earlier cutoff r := by
  have hlength : (analysisRows db).length = c.rows.length := by
    simp [analysisRows, hn, cacheTable, Sqlite.Encoding.table]
  have hempty : analysisRows (db.set .fileAnalysis (cacheTable json .empty n)) = [] := by
    simp [analysisRows, cacheTable, Sqlite.Encoding.table, AmbientFs.FileAnalysisCache.empty]
  rw [PrunesExactly, pruneAnalysisBefore_spec hn]
  constructor
  · rintro ⟨db', hok, hrows⟩ r hr
    obtain ⟨-, rfl⟩ := Prod.mk.inj (Except.ok.inj hok)
    rw [hempty, eq_comm, List.filter_eq_nil_iff] at hrows
    simpa using hrows r hr
  · intro h
    refine ⟨db.set .fileAnalysis (cacheTable json .empty n), ?_, hempty.trans ?_⟩
    · rw [List.filter_eq_self.2 h, hlength]
    · rw [eq_comm, List.filter_eq_nil_iff]
      simpa using h

/-- Pruning deletes exactly what expired if and only if everything has. -/
theorem prunesExactly_iff (json : SerdeJson) (puts : List (DateTime × FileAnalysis))
    (cutoff : DateTime) : ∃ db, cached json puts = .ok db ∧
      (PrunesExactly db cutoff ↔ ∀ r ∈ analysisRows db, earlier cutoff r) := by
  obtain ⟨db, n, hok, hn⟩ := cached_spec json puts
  exact ⟨db, hok, prunesExactly_of_table hn cutoff⟩

/-- The first second of 2026, and of the day 90 days before. -/
def newYear : DateTime := ⟨1767225600 * nanosPerSec, by decide⟩

@[inherit_doc newYear]
def ninetyDaysBefore : DateTime := ⟨1759449600 * nanosPerSec, by decide⟩

def oneLine : FileAnalysis where
  filePath := "a"
  projectId := "p"
  contentHash := "h"
  exports := []
  imports := []
  todoCount := 0
  lintHints := []
  lineCount := 1

/-- An analysis of today is deleted with a retention of 90 days. -/
theorem not_prunesExactly : ¬ ∀ (json : SerdeJson) (puts : List (DateTime × FileAnalysis))
    (cutoff : DateTime), ∃ db, cached json puts = .ok db ∧ PrunesExactly db cutoff := by
  intro h
  obtain ⟨db, hok, hexact⟩ := h blankJson [(newYear, oneLine)] ninetyDaysBefore
  obtain ⟨db', n, hok', hn⟩ := cached_spec blankJson [(newYear, oneLine)]
  rw [Except.ok.inj (hok.symm.trans hok')] at hexact
  have hrow : (analyses blankJson).encode ⟨oneLine, newYear.timestamp⟩ ∈ analysisRows db' := by
    simp only [analysisRows, hn]
    exact List.mem_singleton_self _
  have hearlier := (prunesExactly_of_table hn ninetyDaysBefore).1 hexact _ hrow
  simp [earlier, analyses, analysisRow, newYear, ninetyDaysBefore, DateTime.timestamp,
    nanosPerSec] at hearlier

end Sql

end AmbientFs
