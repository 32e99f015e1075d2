import AmbientFs.Analyzer
import AmbientFs.Codec
import AmbientFs.Lib.Lines
import AmbientFs.Rpc

/-!
# Analyses by a language model

What the model is asked about a file, and how its answer is read and merged into the analysis of
the file. In the answer an import is an object or, in short, a string.
-/

namespace AmbientFs

open Json.Value (asStr asOption)

/-- A field with a default, which stands for it where it is missing. -/
def orDefault {α : Type} (default : α) (read : JsonValue → Option α) :
    Option JsonValue → Option α
  | none => some default
  | some v => read v

def asStrings (v : JsonValue) : Option (List String) := v.asArray.bind (·.mapM asStr)

/-- The fields of a struct of which some may be missing at the end of an array. -/
def JsonValue.fieldsUpTo (names : List String) (v : JsonValue) :
    Option (String → Option JsonValue) :=
  match v with
  | .array items =>
    if items.length ≤ names.length then some fun name => (names.zip items).lookup name else none
  | v => v.fieldsOnce names

structure LlmImport where
  path : String
  symbols : List String
  line : UInt32
  deriving DecidableEq

structure LlmLintHint where
  line : UInt32
  column : UInt32
  severity : String
  message : String
  rule : Option String
  deriving DecidableEq

structure LlmAnalysisResponse where
  imports : List LlmImport
  exports : List String
  lintHints : List LlmLintHint
  deriving DecidableEq

namespace LlmImport

def fromMembers (members : List (String × JsonValue)) : Option LlmImport := do
  let path ← (members.lookup "path").bind asStr
  let symbols ← orDefault [] asStrings (members.lookup "symbols")
  let line ← orDefault 0 JsonValue.asU32 (members.lookup "line")
  return ⟨path, symbols, line⟩

/-- An item of the imports. What is neither a string nor an object is passed over. -/
def fromItem : JsonValue → Option (Option LlmImport)
  | .string s => some (some ⟨s, [], 0⟩)
  | .object members => (fromMembers (lastMembers members)).map some
  | _ => some none

end LlmImport

/-- Accepts both string and object formats. -/
def deserializeImports (v : JsonValue) : Option (List LlmImport) :=
  (v.asArray.bind (·.mapM LlmImport.fromItem)).map List.reduceOption

def LlmLintHint.fromText (v : JsonValue) : Option LlmLintHint := do
  let fields ← JsonValue.fieldsUpTo ["line", "column", "severity", "message", "rule"] v
  let line ← (fields "line").bind JsonValue.asU32
  let column ← orDefault 0 JsonValue.asU32 (fields "column")
  let severity ← (fields "severity").bind asStr
  let message ← (fields "message").bind asStr
  let rule ← asOption asStr (fields "rule")
  return ⟨line, column, severity, message, rule⟩

def LlmAnalysisResponse.fromText (v : JsonValue) : Option LlmAnalysisResponse := do
  let fields ← JsonValue.fieldsUpTo ["imports", "exports", "lint_hints"] v
  let imports ← orDefault [] deserializeImports (fields "imports")
  let exports ← orDefault [] asStrings (fields "exports")
  let lintHints ← orDefault [] (fun v => v.asArray.bind (·.mapM LlmLintHint.fromText))
    (fields "lint_hints")
  return ⟨imports, exports, lintHints⟩

inductive LlmAnalyzerError
  | parseError
  | emptyResponse
  deriving DecidableEq

namespace LlmFileAnalyzer

/-- The system and the user prompt. -/
def buildPrompt (filePath content language : String) : String × String :=
  ("you analyze source code files. extract imports, exports, and lint hints. respond with JSON only. "
    ++ "be concise. only report clear issues for lint.",
    "language: " ++ language ++ "\nfile: " ++ filePath ++ "\n---\n" ++ content)

def parseResponse (serde : SerdeJson) (response : List Char) :
    Except LlmAnalyzerError LlmAnalysisResponse :=
  if Lines.trim Lines.whiteSpace response = [] then .error .emptyResponse
  else
    match (serde.fromStr response).bind LlmAnalysisResponse.fromText with
    | none => .error .parseError
    | some parsed => .ok parsed

def severity : String → LintSeverity
  | "info" => .info
  | "warning" => .warning
  | "error" => .error
  | _ => .warning

/-- Merges the answer into the base analysis. -/
def toFileAnalysis (response : LlmAnalysisResponse) (base : FileAnalysis) : FileAnalysis :=
  { base with
    imports := response.imports.map fun i => ⟨i.path, i.symbols, i.line⟩
    exports := response.exports
    lintHints := response.lintHints.map fun h =>
      ⟨h.line, h.column, severity h.severity, h.message, h.rule⟩ }

def enhanceWithLlmResponse (serde : SerdeJson) (base : FileAnalysis) (response : List Char) :
    Except LlmAnalyzerError FileAnalysis :=
  (parseResponse serde response).map fun parsed => toFileAnalysis parsed base

end LlmFileAnalyzer

end AmbientFs
