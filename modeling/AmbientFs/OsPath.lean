import AmbientFs.Filter

/-!
# Paths of the operating system

A path is a sequence of characters, in which there may be bytes that are none in UTF-8. Two paths
are the same if their components are, which is how maps keyed by paths compare them.
-/

namespace AmbientFs

/-- A character of a path, or bytes where UTF-8 has none. -/
inductive OsChar
  | char (c : Char)
  | invalid (bytes : List UInt8)
  deriving DecidableEq

abbrev OsString := List OsChar

namespace OsChar

def toChar : OsChar → Option Char
  | char c => some c
  | invalid _ => none

/-- What `to_string_lossy` makes of it. -/
def lossy : OsChar → Char
  | char c => c
  | invalid _ => '\uFFFD'

end OsChar

namespace OsString

def ofString (s : String) : OsString := s.toList.map .char

def toStr (s : OsString) : Option String := (s.mapM OsChar.toChar).map String.ofList

def toStringLossy (s : OsString) : String := String.ofList (s.map OsChar.lossy)

end OsString

structure PathBuf where
  text : OsString
  deriving DecidableEq

namespace PathBuf

def ofString (s : String) : PathBuf := ⟨.ofString s⟩

variable (p : PathBuf)

/-- The components as they are printed: a root, or a leading dot, then the names. -/
def components : List OsString :=
  let raw := p.text.splitOn (.char '/')
  let body := raw.filter fun cs => cs ≠ [] ∧ cs ≠ [.char '.']
  match p.text with
  | .char '/' :: _ => [.char '/'] :: body
  | _ => if raw.head? = some [.char '.'] then [.char '.'] :: body else body

/-- Equality of paths. -/
def Same (q : PathBuf) : Prop := p.components = q.components

instance (q : PathBuf) : Decidable (p.Same q) := inferInstanceAs (Decidable (_ = _))

def isAbsolute : Bool := p.components.head? = some [.char '/']

/-- The last component, if it is a name. -/
def fileName : Option OsString :=
  p.components.getLast?.filter fun cs =>
    cs ≠ [.char '/'] ∧ cs ≠ [.char '.'] ∧ cs ≠ [.char '.', .char '.']

def toStr : Option String := p.text.toStr

def toStringLossy : String := p.text.toStringLossy

def display : String := p.text.toStringLossy

/-- `Path::join`: a path that starts at the root replaces the one it is joined to. -/
def join (q : PathBuf) : PathBuf :=
  if q.text.head? = some (.char '/') then q
  else if p.text = [] ∨ p.text.getLast? = some (.char '/') then ⟨p.text ++ q.text⟩
  else ⟨p.text ++ .char '/' :: q.text⟩

/-- `Path::parent` as a text, of a path that has a file name: what is before the last component,
with separators and dots at its end left out. -/
def parentText : OsString :=
  let raw := p.text.splitOn (.char '/')
  let trim (parts : List OsString) : List OsString :=
    (parts.reverse.dropWhile fun cs => cs = [] ∨ cs = [.char '.']).reverse
  let between (parts : List OsString) : OsString :=
    [.char '/'].intercalate (trim (trim parts).dropLast)
  match p.text with
  | .char '/' :: _ => .char '/' :: between raw.tail
  | _ =>
    if raw.head? = some [.char '.'] then
      match between raw.tail with
      | [] => [.char '.']
      | text => .char '.' :: .char '/' :: text
    else between raw

/-- `Path::with_file_name`. -/
def withFileName (name : PathBuf) : PathBuf :=
  if p.fileName = none then p.join name else (⟨p.parentText⟩ : PathBuf).join name

/-- A project is named after its directory, here and by the handlers that do the same. -/
def generateProjectId : String := (p.fileName.bind OsString.toStr).getD "unknown"

variable {p : PathBuf} {q r : PathBuf}

theorem Same.refl (p : PathBuf) : p.Same p := rfl

theorem Same.symm (h : p.Same q) : q.Same p := Eq.symm h

theorem Same.trans (h : p.Same q) (h' : q.Same r) : p.Same r := Eq.trans h h'

theorem Same.generateProjectId_eq (h : p.Same q) :
    p.generateProjectId = q.generateProjectId := by
  unfold generateProjectId fileName
  rw [h]

example : (ofString "/w/./app/").components = (ofString "/w/app").components := by decide

example : (ofString "/w/app").generateProjectId = "app" := by decide

example : (ofString "/w").join (ofString "src/a") = ofString "/w/src/a" := by decide

example : (ofString "/d//x/./events.db/").withFileName (ofString "analysis.db") =
    ofString "/d//x/analysis.db" := by decide

end PathBuf

end AmbientFs
