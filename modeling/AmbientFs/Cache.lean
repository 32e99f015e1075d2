import Mathlib

/-!
# The analysis cache

The results of analysing files, one for each file of a project.
-/

namespace AmbientFs

/-- A reference to an imported module or symbol. -/
structure ImportRef where
  path : String
  symbols : List String
  line : UInt32
  deriving DecidableEq

inductive LintSeverity
  | info
  | warning
  | error
  deriving DecidableEq

/-- A lint-level hint from static analysis. -/
structure LintHint where
  line : UInt32
  column : UInt32
  severity : LintSeverity
  message : String
  rule : Option String
  deriving DecidableEq

/-- Analysis results for a single file. -/
structure FileAnalysis where
  filePath : String
  projectId : String
  contentHash : String
  exports : List String
  imports : List ImportRef
  todoCount : UInt32
  lintHints : List LintHint
  lineCount : UInt32
  deriving DecidableEq

/-- A row of `file_analysis`. -/
structure CacheRow where
  analysis : FileAnalysis
  /-- In seconds. -/
  analyzedAt : ℤ
  deriving DecidableEq

def CacheRow.key (r : CacheRow) : String × String := (r.analysis.projectId, r.analysis.filePath)

/-- The project and the path are the primary key. -/
structure FileAnalysisCache where
  rows : List CacheRow
  nodup : (rows.map CacheRow.key).Nodup

namespace FileAnalysisCache

def empty : FileAnalysisCache := ⟨[], List.nodup_nil⟩

/-- The rows with one put in place of that with its key. -/
def upsert (rows : List CacheRow) (row : CacheRow) : List CacheRow :=
  if row.key ∈ rows.map CacheRow.key then rows.map fun r => if r.key = row.key then row else r
  else rows ++ [row]

theorem keys_replace (rows : List CacheRow) (row : CacheRow) :
    (rows.map fun r => if r.key = row.key then row else r).map CacheRow.key =
      rows.map CacheRow.key := by
  rw [List.map_map]
  refine List.map_congr_left fun r _ => ?_
  simp only [Function.comp_apply]
  split_ifs with h
  · exact h.symm
  · rfl

theorem nodup_upsert {rows : List CacheRow} (h : (rows.map CacheRow.key).Nodup) (row : CacheRow) :
    ((upsert rows row).map CacheRow.key).Nodup := by
  unfold upsert
  split_ifs with hmem
  · rw [keys_replace]
    exact h
  · rw [List.map_append, List.nodup_append]
    refine ⟨h, List.nodup_singleton _, fun k hk k' hk' heq => hmem ?_⟩
    rw [← List.mem_singleton.1 hk', ← heq]
    exact hk

variable (c : FileAnalysisCache)

/-- `now` is the time in seconds. -/
def put (analysis : FileAnalysis) (now : ℤ) : FileAnalysisCache :=
  ⟨upsert c.rows ⟨analysis, now⟩, nodup_upsert c.nodup _⟩

def row (projectId filePath : String) : Option CacheRow :=
  c.rows.find? (·.key = (projectId, filePath))

/-- The cached analysis of a file. -/
def get (projectId filePath : String) : Option FileAnalysis :=
  (c.row projectId filePath).map (·.analysis)

/-- The cached analysis, if the hash matches. -/
def getIfFresh (projectId filePath currentHash : String) : Option FileAnalysis :=
  (c.get projectId filePath).filter (·.contentHash = currentHash)

def isFresh (projectId filePath hash : String) : Bool :=
  (c.getIfFresh projectId filePath hash).isSome

def invalidate (projectId filePath : String) : FileAnalysisCache where
  rows := c.rows.filter (·.key ≠ (projectId, filePath))
  nodup := c.nodup.sublist (List.filter_sublist.map _)

/-- Any file of the project with the hash: the first in the order the rows are visited. -/
def getByHash (visit : List CacheRow → List CacheRow) (projectId contentHash : String) :
    Option FileAnalysis :=
  ((visit (c.rows.filter fun r =>
    r.analysis.projectId = projectId ∧ r.analysis.contentHash = contentHash)).head?).map
      (·.analysis)

/-! ## What is found -/

theorem find?_upsert_self (rows : List CacheRow) (row : CacheRow) :
    (upsert rows row).find? (·.key = row.key) = some row := by
  unfold upsert
  split_ifs with hmem
  · induction rows with
    | nil => simp at hmem
    | cons r rows ih =>
      rw [List.map_cons, List.find?_cons]
      by_cases h : r.key = row.key
      · simp [h]
      · have hrest := ih (by simpa [Ne.symm h] using hmem)
        simpa [h] using hrest
  · rw [List.find?_append, List.find?_eq_none.2]
    · simp
    · intro r hr
      simp only [decide_eq_true_eq]
      exact fun h => hmem (h ▸ List.mem_map_of_mem hr)

theorem find?_upsert_of_ne {key : String × String} (rows : List CacheRow) {row : CacheRow}
    (h : row.key ≠ key) :
    (upsert rows row).find? (·.key = key) = rows.find? (·.key = key) := by
  unfold upsert
  split_ifs with hmem
  · clear hmem
    induction rows with
    | nil => rfl
    | cons r rows ih =>
      rw [List.map_cons, List.find?_cons, List.find?_cons, ih]
      by_cases hr : r.key = row.key
      · simp [hr, h]
      · simp [hr]
  · rw [List.find?_append]
    simp [h]

theorem row_put_self (analysis : FileAnalysis) (now : ℤ) :
    (c.put analysis now).row analysis.projectId analysis.filePath = some ⟨analysis, now⟩ :=
  find?_upsert_self c.rows ⟨analysis, now⟩

theorem row_put_of_ne {analysis : FileAnalysis} {projectId filePath : String} (now : ℤ)
    (h : (analysis.projectId, analysis.filePath) ≠ (projectId, filePath)) :
    (c.put analysis now).row projectId filePath = c.row projectId filePath :=
  find?_upsert_of_ne c.rows h

@[simp] theorem get_put_self (analysis : FileAnalysis) (now : ℤ) :
    (c.put analysis now).get analysis.projectId analysis.filePath = some analysis := by
  rw [get, row_put_self]
  rfl

theorem get_put_of_ne {analysis : FileAnalysis} {projectId filePath : String} (now : ℤ)
    (h : (analysis.projectId, analysis.filePath) ≠ (projectId, filePath)) :
    (c.put analysis now).get projectId filePath = c.get projectId filePath := by
  rw [get, row_put_of_ne c now h, get]

theorem isFresh_iff {projectId filePath hash : String} : c.isFresh projectId filePath hash = true ↔
    ∃ analysis, c.get projectId filePath = some analysis ∧ analysis.contentHash = hash := by
  rw [isFresh, getIfFresh]
  rcases c.get projectId filePath with _ | analysis
  · simp
  · simp only [Option.filter_some, Option.some.injEq, exists_eq_left']
    split_ifs with h <;> simpa using h

theorem mem_rows_of_get {projectId filePath : String} {analysis : FileAnalysis}
    (h : c.get projectId filePath = some analysis) : ∃ r ∈ c.rows, r.analysis = analysis := by
  obtain ⟨r, hr, heq⟩ := Option.map_eq_some_iff.1 h
  exact ⟨r, List.mem_of_find?_eq_some hr, heq⟩

theorem mem_rows_put {analysis : FileAnalysis} {now : ℤ} {r : CacheRow}
    (h : r ∈ (c.put analysis now).rows) : r ∈ c.rows ∨ r = ⟨analysis, now⟩ := by
  simp only [put, upsert] at h
  split_ifs at h
  · obtain ⟨r', hr', rfl⟩ := List.mem_map.1 h
    split_ifs
    · exact .inr rfl
    · exact .inl hr'
  · simpa using h

end FileAnalysisCache

end AmbientFs
