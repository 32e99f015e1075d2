import AmbientFs.Lib.Utf8
import AmbientFs.OsPath

/-!
# Configuration

Each process loads its configuration from a file. One that finds no file makes a default, with a new
machine id, and writes it there. Other processes go on between its look whether there is a file,
the opening, which empties the file, and the write. Nobody else changes the file, and a write that
fails writes nothing. Processes are numbered in the order in which they begin.
-/

namespace AmbientFs

/-- Daemon configuration persisted to toml file. -/
structure DaemonConfig where
  machineId : String
  dbPath : PathBuf
  socketPath : PathBuf
  debounceMs : UInt64
  maxFileSizeBytes : UInt64
  logLevel : String
  deriving DecidableEq

/-- `dataDir` is the local data directory of the user. -/
def defaultDbPath (dataDir : Option PathBuf) : PathBuf :=
  ((dataDir.getD (.ofString "/tmp")).join (.ofString "ambient-fs")).join (.ofString "events.db")

/-- The machine id is a new uuid. -/
def DaemonConfig.default (dataDir : Option PathBuf) (machineId : String) : DaemonConfig where
  machineId := machineId
  dbPath := defaultDbPath dataDir
  socketPath := .ofString "/tmp/ambient-fs.sock"
  debounceMs := 100
  maxFileSizeBytes := 10 * 1024 * 1024
  logLevel := "info"

/-- `toml`, which has no text for some configurations. -/
structure Toml where
  toStringPretty : DaemonConfig → Option (List Char)
  fromStr : List Char → Option DaemonConfig

/-- What a process that loads its configuration does next. -/
inductive LoadPoint
  /-- It looks whether there is a file. -/
  | looking
  | reading
  /-- It has found no file. It makes the directory and the text, and opens the file. -/
  | opening (config : DaemonConfig)
  | writing (config : DaemonConfig) (text : List Char)
  /-- What `load` has returned, but for the error. -/
  | returned (result : Option DaemonConfig)
  /-- The process has come to its end before that. -/
  | ended
  deriving DecidableEq

structure ConfigFile where
  content : Option (List UInt8)
  loads : List LoadPoint

inductive LoadAction
  | begin
  /-- The id is for the default, if one is made. -/
  | look (n : ℕ) (machineId : String)
  | read (n : ℕ) (ok : Bool)
  | openFile (n : ℕ) (ok : Bool)
  | write (n : ℕ) (ok : Bool)
  | exit (n : ℕ)

namespace ConfigFile

def new (content : Option (List UInt8)) : ConfigFile := ⟨content, []⟩

/-- What is read from a file with the content. -/
def parse (toml : Toml) (content : List UInt8) : Option DaemonConfig :=
  (Utf8.decode? content).bind toml.fromStr

variable (toml : Toml) (dataDir : Option PathBuf) (s : ConfigFile)

def setPoint (n : ℕ) (point : LoadPoint) : ConfigFile := { s with loads := s.loads.set n point }

def look (n : ℕ) (machineId : String) : ConfigFile :=
  match s.loads[n]?, s.content with
  | some .looking, some _ => s.setPoint n .reading
  | some .looking, none => s.setPoint n (.opening (.default dataDir machineId))
  | _, _ => s

def read (n : ℕ) (ok : Bool) : ConfigFile :=
  match s.loads[n]?, s.content with
  | some .reading, some content =>
    s.setPoint n (.returned (if ok then parse toml content else none))
  | some .reading, none => s.setPoint n (.returned none)
  | _, _ => s

def openFile (n : ℕ) (ok : Bool) : ConfigFile :=
  match s.loads[n]? with
  | some (.opening config) =>
    match ok, toml.toStringPretty config with
    | true, some text => { s with content := some [] }.setPoint n (.writing config text)
    | _, _ => s.setPoint n (.returned none)
  | _ => s

/-- The text is written over the start of what is there. -/
def write (n : ℕ) (ok : Bool) : ConfigFile :=
  match s.loads[n]? with
  | some (.writing config text) =>
    if ok then
      let bytes := Utf8.encode text
      let content := s.content.map fun (old : List UInt8) => bytes ++ old.drop bytes.length
      { s with content := content }.setPoint n (.returned (some config))
    else s.setPoint n (.returned none)
  | _ => s

/-- A process that has returned goes on elsewhere. -/
def exit (n : ℕ) : ConfigFile :=
  match s.loads[n]? with
  | none | some (.returned _) => s
  | some _ => s.setPoint n .ended

def step (s : ConfigFile) : LoadAction → ConfigFile
  | .begin => { s with loads := s.loads ++ [.looking] }
  | .look n machineId => s.look dataDir n machineId
  | .read n ok => s.read toml n ok
  | .openFile n ok => s.openFile toml n ok
  | .write n ok => s.write n ok
  | .exit n => s.exit n

end ConfigFile

end AmbientFs
