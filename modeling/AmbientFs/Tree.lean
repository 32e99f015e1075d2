import AmbientFs.Lib.ListSearch

/-!
# The file tree

`TreeNode` and the operations on it by path. A path is cut at its slashes and empty components
are dropped; children are kept directories first, then by lower-cased name, and a new child is
put where a binary search over those keys says. Each operation returns the tree it leaves and
what the source's function returns.
-/

namespace AmbientFs

open ListSearch

/-- `str::to_lowercase`, whose full Unicode mapping the results do not depend on. -/
class Lowercase where
  toLowercase : String → String

/-- `to_lowercase` on ASCII text. -/
@[reducible]
def asciiLowercase : Lowercase where
  toLowercase s := String.ofList (s.toList.map Char.toLower)

/-- A node in the file tree. -/
structure TreeNode where
  name : String
  path : String
  isDir : Bool
  children : List TreeNode

/-- The nonempty components of a path. -/
def splitPath (s : String) : List String :=
  ((s.toList.splitOn '/').filter fun cs => !cs.isEmpty).map String.ofList

/-- Components put together with slashes. -/
def joinPath (parts : List String) : String := "/".intercalate parts

namespace TreeNode

def file (name path : String) : TreeNode := ⟨name, path, false, []⟩

def dir (name path : String) : TreeNode := ⟨name, path, true, []⟩

def withChildren (n : TreeNode) (children : List TreeNode) : TreeNode :=
  ⟨n.name, n.path, n.isDir, children⟩

/-- Sort order: directories first, then alphabetical, ignoring case. -/
def sortKey [Lowercase] (n : TreeNode) : Bool ×ₗ String :=
  toLex (!n.isDir, Lowercase.toLowercase n.name)

/-- Sort children recursively. -/
def sortRecursive [Lowercase] (t : TreeNode) : TreeNode :=
  t.withChildren ((t.children.mergeSort fun a b => (compare a.sortKey b.sortKey).isLE).attach.map
    fun c => sortRecursive c.1)
termination_by sizeOf t
decreasing_by
  have hlt := List.sizeOf_lt_of_mem (List.mem_mergeSort.1 c.2)
  cases t
  simp only [TreeNode.mk.sizeOf_spec] at hlt ⊢
  omega

end TreeNode

/-- Insert a node in sorted position (dirs first, then alphabetical). -/
def insertSorted [Lowercase] (children : List TreeNode) (node : TreeNode) : List TreeNode :=
  children.insertIdx
    (position (binarySearchBy (fun c => compare c.sortKey node.sortKey) children)) node

/-- A partial path: the first components of `fullPath`, up to the first of the
`remainingParts` left. -/
def buildPath (fullPath : String) (remainingParts : ℕ) : String :=
  let allParts := splitPath fullPath
  joinPath (allParts.take (allParts.length - remainingParts + 1))

def addNodeRecursive [Lowercase] (fullPath : String) (isDir : Bool) :
    List String → TreeNode → TreeNode × Bool
  | [], parent => (parent, false)
  | name :: rest, parent =>
    match updateFirst (fun c => c.name == name)
        (fun c => if rest.isEmpty then (c, false) else addNodeRecursive fullPath isDir rest c)
        parent.children with
    | some (children, added) => (parent.withChildren children, added)
    | none =>
      if rest.isEmpty then
        let node := if isDir then TreeNode.dir name fullPath else TreeNode.file name fullPath
        (parent.withChildren (insertSorted parent.children node), true)
      else
        let dirNode := TreeNode.dir name (buildPath fullPath (rest.length + 1))
        let r := addNodeRecursive fullPath isDir rest dirNode
        (parent.withChildren (insertSorted parent.children r.1), r.2)

/-- Adds a node, with the directories missing on the way to it; `false` if it was there. -/
def addNode [Lowercase] (root : TreeNode) (filePath : String) (isDir : Bool) : TreeNode × Bool :=
  addNodeRecursive filePath isDir (splitPath filePath) root

def removeNodeRecursive : List String → TreeNode → TreeNode × Bool
  | [], parent => (parent, false)
  | name :: rest, parent =>
    if rest.isEmpty then
      let children := parent.children.filter fun c => c.name != name
      (parent.withChildren children, children.length < parent.children.length)
    else
      match updateFirst (fun c => c.name == name) (removeNodeRecursive rest) parent.children with
      | some (children, removed) => (parent.withChildren children, removed)
      | none => (parent, false)

/-- Removes a node and all below it; `false` if it was not there. -/
def removeNode (root : TreeNode) (filePath : String) : TreeNode × Bool :=
  removeNodeRecursive (splitPath filePath) root

/-- Removes the node at `oldPath` and adds one at `newPath`. -/
def renameNode [Lowercase] (root : TreeNode) (oldPath newPath : String) (isDir : Bool) :
    TreeNode × Bool :=
  let r := removeNode root oldPath
  if r.2 then addNode r.1 newPath isDir else (r.1, false)

def findNodeRecursive : List String → TreeNode → Option TreeNode
  | [], parent => some parent
  | name :: rest, parent =>
    (parent.children.find? fun c => c.name == name).bind fun child =>
      if rest.isEmpty then some child else findNodeRecursive rest child

/-- Finds a node by path. -/
def findNode (root : TreeNode) (filePath : String) : Option TreeNode :=
  findNodeRecursive (splitPath filePath) root

end AmbientFs
