import AmbientFs.Proofs.DatabaseOrder

/-!
# The cache is a map

What is cached is a map from projects and paths to analyses. The rows of the table have different
keys, so they are its entries: a write changes the map at one key, and each reader looks there or
among the entries of a project.
-/

namespace AmbientFs

/-- The cached analyses, by project and path. -/
abbrev AnalysisMap := String × String → Option FileAnalysis

inductive CacheWrite
  | put (analysis : FileAnalysis)
  | invalidate (projectId filePath : String)

/-- What a write does to the map. -/
def CacheWrite.apply (m : AnalysisMap) : CacheWrite → AnalysisMap
  | put analysis => Function.update m (analysis.projectId, analysis.filePath) (some analysis)
  | invalidate projectId filePath => Function.update m (projectId, filePath) none

/-- The map after some writes to an empty one. -/
def mapAfter (ws : List (DateTime × CacheWrite)) : AnalysisMap :=
  ws.foldl (fun m w => w.2.apply m) fun _ => none

/-! ## Rows as entries -/

namespace FileAnalysisCache

variable (c : FileAnalysisCache) {visit : List CacheRow → List CacheRow}
  {projectId contentHash : String}

def toMap : AnalysisMap := fun key => c.get key.1 key.2

def write (now : ℤ) : CacheWrite → FileAnalysisCache
  | .put analysis => c.put analysis now
  | .invalidate projectId filePath => c.invalidate projectId filePath

theorem get_invalidate (key : String × String) (projectId filePath : String) :
    (c.invalidate projectId filePath).get key.1 key.2 =
      if key = (projectId, filePath) then none else c.get key.1 key.2 := by
  unfold get row invalidate
  rw [List.find?_filter]
  split_ifs with hkey
  · rw [List.find?_eq_none.2]
    · rfl
    · intro r _
      simp [hkey]
  · refine congrArg _ (List.find?_congr fun r _ => ?_)
    by_cases hr : r.key = key
    · simp [hr, hkey]
    · simp [hr]

/-- A write changes the map at the key it names. -/
theorem toMap_write (now : ℤ) (w : CacheWrite) : (c.write now w).toMap = w.apply c.toMap := by
  funext key
  cases w with
  | put analysis =>
    simp only [toMap, write, CacheWrite.apply]
    by_cases hkey : key = (analysis.projectId, analysis.filePath)
    · rw [hkey, Function.update_self]
      exact c.get_put_self analysis now
    · rw [Function.update_of_ne hkey]
      exact c.get_put_of_ne now (Ne.symm hkey)
  | invalidate projectId filePath =>
    simp only [toMap, write, CacheWrite.apply, Function.update_apply]
    exact c.get_invalidate key projectId filePath

theorem toMap_key {r : CacheRow} (hr : r ∈ c.rows) : c.toMap r.key = some r.analysis := by
  rcases hf : c.rows.find? (·.key = r.key) with _ | r'
  · have := List.find?_eq_none.1 hf r hr
    simp at this
  · have hkey : r'.key = r.key := of_decide_eq_true (List.find?_some hf :)
    have heq := List.inj_on_of_nodup_map c.nodup (List.mem_of_find?_eq_some hf) hr hkey
    rw [toMap, get, row, hf, heq]
    rfl

theorem exists_row {key : String × String} {analysis : FileAnalysis}
    (h : c.toMap key = some analysis) : ∃ r ∈ c.rows, r.key = key ∧ r.analysis = analysis := by
  obtain ⟨r, hr, rfl⟩ := Option.map_eq_some_iff.1 h
  exact ⟨r, List.mem_of_find?_eq_some hr, of_decide_eq_true (List.find?_some hr :), rfl⟩

/-- Whichever row is visited first, an entry with the hash is found if there is one. -/
theorem getByHash_some (hvisit : ∀ rows, (visit rows).Perm rows) {analysis : FileAnalysis}
    (h : c.getByHash visit projectId contentHash = some analysis) :
    analysis.contentHash = contentHash ∧ ∃ filePath, c.toMap (projectId, filePath) =
      some analysis := by
  obtain ⟨r, hr, rfl⟩ := Option.map_eq_some_iff.1 h
  have hmem := (hvisit _).mem_iff.1 (List.mem_of_mem_head? hr)
  obtain ⟨hrow, hproject, hhash⟩ := by simpa using hmem
  refine ⟨hhash, r.analysis.filePath, ?_⟩
  rw [← hproject]
  exact c.toMap_key hrow

theorem getByHash_none (hvisit : ∀ rows, (visit rows).Perm rows) :
    c.getByHash visit projectId contentHash = none ↔ ∀ filePath analysis,
      c.toMap (projectId, filePath) = some analysis → analysis.contentHash ≠ contentHash := by
  have hnil : c.getByHash visit projectId contentHash = none ↔ (c.rows.filter fun r =>
      r.analysis.projectId = projectId ∧ r.analysis.contentHash = contentHash) = [] := by
    rw [getByHash, Option.map_eq_none_iff, List.head?_eq_none_iff, ← List.length_eq_zero_iff,
      (hvisit _).length_eq, List.length_eq_zero_iff]
  rw [hnil, List.filter_eq_nil_iff]
  constructor
  · intro h filePath analysis hentry hhash
    obtain ⟨r, hr, hkey, rfl⟩ := c.exists_row hentry
    exact h r hr (by simpa using ⟨congrArg Prod.fst hkey, hhash⟩)
  · intro h r hr hboth
    obtain ⟨hproject, hhash⟩ := by simpa using hboth
    refine h r.analysis.filePath r.analysis ?_ hhash
    rw [← hproject]
    exact c.toMap_key hr

end FileAnalysisCache

/-! ## The statements -/

namespace Sql

variable {json : SerdeJson} {planner : Sqlite.Planner ColumnName} {db : Db} {c : FileAnalysisCache}
  {n : ℕ}

def write (json : SerdeJson) (db : Db) (now : DateTime) : CacheWrite → Except DbError Db
  | .put analysis => FileAnalysisCache.put json db now analysis
  | .invalidate projectId filePath => FileAnalysisCache.invalidate db projectId filePath

/-- A file after some writes, each with the clock's reading. -/
def writeAll (json : SerdeJson) : Db → List (DateTime × CacheWrite) → Except DbError Db
  | db, [] => .ok db
  | db, (now, w) :: ws => do
    let db ← write json db now w
    writeAll json db ws

/-- What the readers of a file answer is what is in the map. -/
structure ReadsMap (json : SerdeJson) (planner : Sqlite.Planner ColumnName) (db : Db)
    (m : AnalysisMap) : Prop where
  get : ∀ projectId filePath, FileAnalysisCache.get json planner db projectId filePath =
    .ok (m (projectId, filePath))
  getIfFresh : ∀ projectId filePath hash,
    FileAnalysisCache.getIfFresh json planner db projectId filePath hash =
      .ok ((m (projectId, filePath)).filter (·.contentHash = hash))
  isFresh : ∀ projectId filePath hash,
    FileAnalysisCache.isFresh planner db projectId filePath hash =
      .ok ((m (projectId, filePath)).any (·.contentHash = hash))
  getByHash : ∀ projectId hash, ∃ found,
    FileAnalysisCache.getByHash json planner db projectId hash = .ok found ∧
      (∀ analysis, found = some analysis → analysis.contentHash = hash ∧
        ∃ filePath, m (projectId, filePath) = some analysis) ∧
      (found = none ↔ ∀ filePath analysis, m (projectId, filePath) = some analysis →
        analysis.contentHash ≠ hash)

theorem write_spec (hn : db.tables .fileAnalysis = some (cacheTable json c n)) (now : DateTime)
    (w : CacheWrite) : ∃ m, write json db now w =
      .ok (db.set .fileAnalysis (cacheTable json (c.write now.timestamp w) m)) := by
  cases w with
  | put analysis => exact put_spec hn now analysis
  | invalidate projectId filePath => exact ⟨n, invalidate_of_table hn projectId filePath⟩

theorem writeAll_spec (ws : List (DateTime × CacheWrite))
    (hn : db.tables .fileAnalysis = some (cacheTable json c n)) :
    ∃ db' c' m, writeAll json db ws = .ok db' ∧
      db'.tables .fileAnalysis = some (cacheTable json c' m) ∧
      c'.toMap = ws.foldl (fun m w => w.2.apply m) c.toMap := by
  induction ws generalizing db c n with
  | nil => exact ⟨db, c, n, rfl, hn, rfl⟩
  | cons w ws ih =>
    obtain ⟨m, hwrite⟩ := write_spec hn w.1 w.2
    obtain ⟨db', c', m', hrest, htable, hmap⟩ := ih Sqlite.Database.tables_set_self
    refine ⟨db', c', m', ?_, htable, ?_⟩
    · rw [writeAll, hwrite]
      exact hrest
    · rw [hmap, c.toMap_write]
      rfl

theorem readsMap_of_table (hn : db.tables .fileAnalysis = some (cacheTable json c n)) :
    ReadsMap json planner db c.toMap where
  get := get_of_table hn
  getIfFresh := getIfFresh_of_table hn
  isFresh projectId filePath hash := by
    rw [isFresh_of_table hn, AmbientFs.FileAnalysisCache.isFresh,
      AmbientFs.FileAnalysisCache.getIfFresh, Option.isSome_filter]
    rfl
  getByHash projectId hash := by
    refine ⟨_, getByHash_of_table hn projectId hash, fun analysis h => ?_, ?_⟩
    · exact c.getByHash_some ((analyses json).visit_perm planner _) h
    · exact c.getByHash_none ((analyses json).visit_perm planner _)

/-- The table is there, and nothing is cached. -/
def NothingCached (db : Db) : Prop :=
  ∃ n, db.tables .fileAnalysis = some ⟨FileAnalysisCache.fileAnalysis, [], n⟩

theorem cache_refines_map (json : SerdeJson) {db : Db} (h : NothingCached db)
    (ws : List (DateTime × CacheWrite)) : ∃ db', writeAll json db ws = .ok db' ∧
      ∀ planner, ReadsMap json planner db' (mapAfter ws) := by
  obtain ⟨n, hn⟩ := h
  have hempty : db.tables .fileAnalysis = some (cacheTable json .empty n) := hn
  obtain ⟨db', c, m, hok, htable, hmap⟩ := writeAll_spec ws hempty
  refine ⟨db', hok, fun planner => ?_⟩
  have hreads : ReadsMap json planner db' c.toMap := readsMap_of_table htable
  rwa [hmap] at hreads

/-- The file that the cache makes. -/
def cacheFile : Db where
  tables := Function.update (fun _ => none) .fileAnalysis
    (some FileAnalysisCache.fileAnalysis.table)
  indexes := [.analysisHash]

def sampleAnalysis (hash : String) : FileAnalysis := ⟨"a.rs", "p", hash, [], [], 0, [], 1⟩

/-- An analysis, another in its place, and none for another file. -/
def sampleWrites : List (DateTime × CacheWrite) := [(.epoch, .put (sampleAnalysis "old")),
  (.epoch, .put (sampleAnalysis "new")), (.epoch, .invalidate "p" "b.rs")]

theorem cache_refines_map_three : FileAnalysisCache.initSchema .empty = .ok cacheFile ∧
    ∃ db', writeAll blankJson cacheFile sampleWrites = .ok db' ∧
      ∀ planner, ReadsMap blankJson planner db' (mapAfter sampleWrites) :=
  ⟨rfl, cache_refines_map blankJson ⟨0, by simp [cacheFile, Sqlite.Definition.table]⟩ sampleWrites⟩

end Sql

end AmbientFs
