import AmbientFs.OsPath

/-!
# Languages

Which language a file is in, by its extension. Languages that are registered come before those that
are built in.
-/

namespace AmbientFs

/-- Which analysis features to enable for a language. -/
structure LanguageFeatures where
  extractExports : Bool
  extractImports : Bool
  countTodos : Bool
  countLines : Bool
  deriving DecidableEq

def LanguageFeatures.all : LanguageFeatures := ⟨true, true, true, true⟩

structure LanguageConfig where
  name : String
  extensions : List String
  features : LanguageFeatures
  deriving DecidableEq

def builtinConfigs : List LanguageConfig := [
  ⟨"TypeScript", ["ts", "tsx"], .all⟩,
  ⟨"JavaScript", ["js", "jsx", "mjs", "cjs"], .all⟩,
  ⟨"Rust", ["rs"], .all⟩,
  ⟨"Python", ["py", "pyi"], .all⟩,
  ⟨"Vue", ["vue"], .all⟩,
  ⟨"Markdown", ["md", "markdown"], ⟨false, false, true, true⟩⟩]

/-- `Path::extension`: what is after the last dot of the name, unless the name only starts with
it. -/
def PathBuf.extension (p : PathBuf) : Option OsString :=
  p.fileName.bind fun name =>
    let parts := name.splitOn (.char '.')
    if parts.length ≤ 1 ∨ parts.dropLast = [[]] then none else parts.getLast?

/-- The languages that are registered, by extension. -/
structure LanguageRegistry where
  custom : String → Option LanguageConfig

namespace LanguageRegistry

def new : LanguageRegistry := ⟨fun _ => none⟩

/-- The languages that are built in, by extension. -/
def byExtension : String → Option LanguageConfig :=
  builtinConfigs.foldl (fun m config => config.extensions.foldl
    (fun m ext => Function.update m ext (some config)) m) fun _ => none

/-- Registered languages are left out while they are written to. What is found of them has a name
of its own. -/
def getForPath (r : LanguageRegistry) (locked : Bool) (path : PathBuf) : Option LanguageConfig :=
  match path.extension.bind OsString.toStr with
  | none => none
  | some ext =>
    match if locked then none else r.custom ext with
    | some owned => some ⟨"custom", [], owned.features⟩
    | none => byExtension ext

def register (r : LanguageRegistry) (config : LanguageConfig) : LanguageRegistry where
  custom := config.extensions.foldl (fun m ext => Function.update m ext (some config)) r.custom

end LanguageRegistry

end AmbientFs
