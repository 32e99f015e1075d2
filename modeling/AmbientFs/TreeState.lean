import AmbientFs.Event
import AmbientFs.Filter
import AmbientFs.Tree

/-!
# Project tree state

A `ProjectTree` is filled once by walking the project directory and then follows file events,
each of which returns the patch that clients are sent. The walk is over `ReadDir`, what
`read_dir` answers for each path below the project; its recursion is on the levels left, of
which the cap on the depth leaves `maxDepth` at the root.
-/

namespace AmbientFs

/-- Incremental tree patch operation. -/
inductive TreePatch
  | add (path : String) (isDir : Bool)
  | remove (path : String)
  | rename (oldPath newPath : String) (isDir : Bool)
  deriving DecidableEq

structure ProjectTree where
  root : TreeNode
  projectId : String

/-- What an entry is, by its own type and not that of what a link leads to. -/
inductive FileType
  | file
  | dir
  | symlink
  deriving DecidableEq

/-- An entry of a directory listing, its name and type missing where reading them fails. -/
structure DirEntry where
  fileName : Option String
  fileType : Option FileType

/-- The listing of each directory, by its path below the project; `none` if it cannot be read,
and `none` for each entry that cannot. -/
abbrev ReadDir := String → Option (List (Option DirEntry))

/-- The tree under construction and the entries counted into it. -/
structure ScanState where
  root : TreeNode
  entryCount : ℕ

namespace ProjectTree

def maxDepth : ℕ := 20

def maxEntries : ℕ := 10000

def new (projectId : String) : ProjectTree := ⟨TreeNode.dir "" "", projectId⟩

section Scan

variable [Lowercase] (readDir : ReadDir) (filter : PathFilter)

def childRelative (relativePath name : String) : String :=
  if relativePath = "" then name else relativePath ++ "/" ++ name

/-- The loop over a listing; `recurse` scans a directory found in it. -/
def scanEntries (relativePath : String) (recurse : String → ScanState → ScanState) :
    List (Option DirEntry) → ScanState → ScanState
  | [], st => st
  | none :: entries, st => scanEntries relativePath recurse entries st
  | some ⟨none, _⟩ :: entries, st => scanEntries relativePath recurse entries st
  | some ⟨some name, fileType⟩ :: entries, st =>
    let child := childRelative relativePath name
    if filter.shouldIgnore child then scanEntries relativePath recurse entries st
    else
      match fileType with
      | none => scanEntries relativePath recurse entries st
      | some .symlink => scanEntries relativePath recurse entries st
      | some type =>
        if maxEntries ≤ st.entryCount then st
        else
          let st := ⟨(addNode st.root child (type = .dir)).1, st.entryCount + 1⟩
          let st := if type = .dir then recurse child st else st
          scanEntries relativePath recurse entries st

/-- Scans a directory with `levels` levels left above the cap on the depth. -/
def scanDirectory : (levels : ℕ) → String → ScanState → ScanState
  | 0, _, st => st
  | levels + 1, relativePath, st =>
    match readDir relativePath with
    | none => st
    | some entries => scanEntries filter relativePath (scanDirectory levels) entries st

/-- Scans the project whose directory has the name `dirName`, if it has one. -/
def fromDirectory (dirName : Option String) : ProjectTree :=
  let tree := new (dirName.getD "unknown")
  { tree with root := (scanDirectory readDir filter maxDepth "" ⟨tree.root, 0⟩).root }

end Scan

section Events

variable [Lowercase]

/-- A rename where both old and new paths are known. -/
def applyRename (t : ProjectTree) (oldPath newPath : String) (isDir : Bool) :
    ProjectTree × Option TreePatch :=
  let r := renameNode t.root oldPath newPath isDir
  ({ t with root := r.1 }, if r.2 then some (.rename oldPath newPath isDir) else none)

/-- Applies a file event, returning a patch if the structure changed. -/
def applyEvent (t : ProjectTree) (event : FileEvent) : ProjectTree × Option TreePatch :=
  match event.eventType with
  | .created =>
    let r := addNode t.root event.filePath false
    ({ t with root := r.1 }, if r.2 then some (.add event.filePath false) else none)
  | .deleted =>
    let r := removeNode t.root event.filePath
    ({ t with root := r.1 }, if r.2 then some (.remove event.filePath) else none)
  | .renamed =>
    match event.oldPath with
    | some oldPath => t.applyRename oldPath event.filePath false
    | none => (t, none)
  | .modified => (t, none)

/-- The tree after some events, and the patches they return, in order. -/
def applyEvents (t : ProjectTree) : List FileEvent → ProjectTree × List TreePatch
  | [] => (t, [])
  | e :: es =>
    let r := t.applyEvent e
    let rs := applyEvents r.1 es
    (rs.1, r.2.toList ++ rs.2)

end Events

end ProjectTree

/-- The tree operation a patch stands for, as a client that mirrors the tree carries it out. -/
def TreePatch.operation [Lowercase] (root : TreeNode) : TreePatch → TreeNode × Bool
  | add path isDir => addNode root path isDir
  | remove path => removeNode root path
  | rename oldPath newPath isDir => renameNode root oldPath newPath isDir

def TreePatch.applyTo [Lowercase] (root : TreeNode) (p : TreePatch) : TreeNode :=
  (p.operation root).1

end AmbientFs
