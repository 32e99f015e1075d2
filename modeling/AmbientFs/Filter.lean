import Mathlib

/-!
# Path filter

`PathFilter` drops a path when one of its components matches one of its patterns.
-/

namespace AmbientFs

/-- The components of a path: a root, or a leading dot, then the names between slashes, without
empty ones and further dots. -/
def pathComponents (s : String) : List String :=
  let raw := s.toList.splitOn '/'
  let body := (raw.filter fun cs => cs ≠ [] ∧ cs ≠ ['.']).map String.ofList
  match s.toList with
  | '/' :: _ => "/" :: body
  | _ => if raw.head? = some ['.'] then "." :: body else body

/-- `str::trim_end_matches`, for one character. -/
def trimEndMatches (c : Char) (s : List Char) : List Char :=
  (s.reverse.dropWhile (· == c)).reverse

structure PathFilter where
  /-- Patterns that cause a path to be ignored. -/
  ignorePatterns : List String
  deriving DecidableEq

namespace PathFilter

/-- Supports a `*` at one end and exact match; slashes at a pattern's end do not count. -/
def matchesComponent (component pattern : String) : Bool :=
  let pattern := trimEndMatches '/' pattern.toList
  if pattern.head? = some '*' ∧ 1 < pattern.length then
    (pattern.drop 1).isSuffixOf component.toList
  else if pattern.getLast? = some '*' ∧ 1 < pattern.length then
    pattern.dropLast.isPrefixOf component.toList
  else component.toList = pattern

/-- Whether some component of the path matches some pattern. -/
def shouldIgnore (f : PathFilter) (path : String) : Bool :=
  (pathComponents path).any fun c => f.ignorePatterns.any fun p => matchesComponent c p

def default : PathFilter where
  ignorePatterns := [".git", "node_modules", "target", "dist", ".next", "__pycache__",
    ".DS_Store", "*.swp", "*.tmp", "*.pyc"]

example : default.shouldIgnore "src/node_modules/a.js" = true := by decide

end PathFilter

end AmbientFs
