import AmbientFs.Database
import AmbientFs.Proofs.Rfc3339

/-!
# The rows of the database file

A row of each table stands for what the stores keep: it is written as the values that an insertion
binds, passes the constraints of its table, and is read back.
-/

namespace AmbientFs

open Sqlite (Value Encoding)

namespace Sql

/-! ## Rows -/

def textOf : Value → List Char
  | .text s => s
  | _ => []

def stringOf (v : Value) : String := String.ofList (textOf v)

def optionOf : Value → Option String
  | .text s => some (String.ofList s)
  | _ => none

def integerOf : Value → ℤ
  | .integer n => n
  | _ => 0

def optionValue : Option String → Value
  | none => .null
  | some s => .text s.toList

@[simp] theorem stringOf_text (s : String) : stringOf (.text s.toList) = s := String.ofList_toList

@[simp] theorem optionOf_optionValue (s : Option String) : optionOf (optionValue s) = s := by
  cases s <;> simp [optionValue, optionOf]

@[simp] theorem convert_optionText (s : Option String) :
    Sqlite.Affinity.text.convert (optionText s) = optionValue s := by
  cases s <;> rfl

@[simp] theorem eq_text (s s' : List Char) : (Value.text s).eq (.text s') = decide (s = s') := by
  simp [Value.eq]

def eventRow (r : Row) : SqlRow
  | .id => .integer r.id
  | .timestamp => .text r.timestamp
  | .eventType => .text r.eventType.toList
  | .filePath => .text r.filePath.toList
  | .projectId => .text r.projectId.toList
  | .source => .text r.source.toList
  | .sourceId => optionValue r.sourceId
  | .machineId => .text r.machineId.toList
  | .contentHash => optionValue r.contentHash
  | .oldPath => optionValue r.oldPath
  | _ => .null

def events : Encoding ColumnName Row where
  encode := eventRow
  decode v := {
    id := (integerOf (v .id)).toNat
    timestamp := textOf (v .timestamp)
    eventType := stringOf (v .eventType)
    filePath := stringOf (v .filePath)
    projectId := stringOf (v .projectId)
    source := stringOf (v .source)
    sourceId := optionOf (v .sourceId)
    machineId := stringOf (v .machineId)
    contentHash := optionOf (v .contentHash)
    oldPath := optionOf (v .oldPath) }
  decode_encode r := by simp [eventRow, integerOf, textOf]

def projectRow (r : ProjectRow) : SqlRow
  | .projectId => .text r.projectId.toList
  | .path => .text r.path.toList
  | .createdAt => .text r.createdAt
  | _ => .null

def projects : Encoding ColumnName ProjectRow where
  encode := projectRow
  decode v := {
    projectId := stringOf (v .projectId)
    path := stringOf (v .path)
    createdAt := textOf (v .createdAt) }
  decode_encode r := by simp [projectRow, textOf]

variable (json : SerdeJson)

def analysisRow (r : CacheRow) : SqlRow
  | .filePath => .text r.analysis.filePath.toList
  | .projectId => .text r.analysis.projectId.toList
  | .contentHash => .text r.analysis.contentHash.toList
  | .analyzedAt => .integer r.analyzedAt
  | .exports => .text (json.exports.toString r.analysis.exports)
  | .imports => .text (json.imports.toString r.analysis.imports)
  | .todoCount => .integer r.analysis.todoCount.toNat
  | .lintHints => .text (json.lintHints.toString r.analysis.lintHints)
  | .lineCount => .integer r.analysis.lineCount.toNat
  | _ => .null

def analyses : Encoding ColumnName CacheRow where
  encode := analysisRow json
  decode v := {
    analysis := {
      filePath := stringOf (v .filePath)
      projectId := stringOf (v .projectId)
      contentHash := stringOf (v .contentHash)
      exports := (json.exports.fromStr (textOf (v .exports))).getD []
      imports := (json.imports.fromStr (textOf (v .imports))).getD []
      todoCount := .ofNat (integerOf (v .todoCount)).toNat
      lintHints := (json.lintHints.fromStr (textOf (v .lintHints))).getD []
      lineCount := .ofNat (integerOf (v .lineCount)).toNat }
    analyzedAt := integerOf (v .analyzedAt) }
  decode_encode r := by
    simp [analysisRow, integerOf, textOf, Codec.fromStr_toString]

/-! ## What a row reads as -/

variable {json}

@[simp] theorem ok_bind {ε α β : Type} (a : α) (f : α → Except ε β) :
    (Except.ok a >>= f) = f a := rfl

theorem getTextOption_eq {v : SqlRow} {c : ColumnName} {s : Option String}
    (h : v c = optionValue s) : getTextOption v c = .ok s := by
  cases s <;> simp [getTextOption, h, optionValue]

theorem getU32_eq {v : SqlRow} {c : ColumnName} {n : UInt32} (h : v c = .integer n.toNat) :
    getU32 v c = .ok n := by
  have hn : n.toNat < 4294967296 := n.toNat_lt
  simp only [getU32, h]
  rw [if_pos (by omega)]
  simp

theorem toEvent_encode (r : Row) :
    EventStore.toEvent (events.encode r) = r.toEvent.mapError .store := by
  have hsourceId : getTextOption (eventRow r) .sourceId = .ok r.sourceId := getTextOption_eq rfl
  have hhash : getTextOption (eventRow r) .contentHash = .ok r.contentHash := getTextOption_eq rfl
  have hold : getTextOption (eventRow r) .oldPath = .ok r.oldPath := getTextOption_eq rfl
  simp only [EventStore.toEvent, Row.toEvent, events, hsourceId, hhash, hold, getText, eventRow,
    ok_bind, String.ofList_toList, String.toList_ofList]
  rcases DateTime.parseFromRfc3339 r.timestamp with _ | timestamp
  · rfl
  · rcases EventType.fromStr r.eventType with e | eventType
    · rfl
    · rcases Source.fromStr r.source with e | source <;> rfl

theorem toAnalysis_encode (r : CacheRow) :
    FileAnalysisCache.toAnalysis json ((analyses json).encode r) = .ok r.analysis := by
  have htodo : getU32 (analysisRow json r) .todoCount = .ok r.analysis.todoCount := getU32_eq rfl
  have hline : getU32 (analysisRow json r) .lineCount = .ok r.analysis.lineCount := getU32_eq rfl
  simp only [FileAnalysisCache.toAnalysis, analyses, htodo, hline, getText, analysisRow, ok_bind,
    String.ofList_toList, String.toList_ofList, Codec.fromStr_toString, Option.getD_some]

/-! ## What a row is written as -/

theorem row_eventParams (event : FileEvent) (n : ℕ) :
    EventStore.fileEvents.row (EventStore.eventParams event) n =
      events.encode (event.toRow n) := by
  funext c
  cases c with
  | sourceId => exact convert_optionText event.sourceId
  | contentHash => exact convert_optionText event.contentHash
  | oldPath => exact convert_optionText event.oldPath
  | _ => rfl

theorem allows_text (s : List Char) : textNotNull.allows (.text s) = true := by
  simp [Sqlite.Column.allows, textNotNull]

theorem allows_textIn {texts : List String} {s : String} (h : s ∈ texts) :
    (textIn texts).allows (.text s.toList) = true := by
  simp only [Sqlite.Column.allows, textIn]
  simpa [String.toList_inj] using h

theorem allows_nullable (v : Value) (column : Sqlite.Column) (hnull : column.notNull = false)
    (hcheck : column.check = none) : column.allows v = true := by
  simp [Sqlite.Column.allows, hnull, hcheck]

/-- The CHECKs of the table allow what the enumerations are written as. -/
theorem allows_event (event : FileEvent) (n : ℕ) :
    EventStore.fileEvents.allows (events.encode (event.toRow n)) = true := by
  have htype : event.eventType.asStr ∈ ["created", "modified", "deleted", "renamed"] := by
    cases event.eventType <;> simp [EventType.asStr]
  have hsource : event.source.asStr ∈ ["user", "ai_agent", "git", "build", "voice"] := by
    cases event.source <;> simp [Source.asStr]
  have hnull : ∀ v, text.allows v = true := fun v => allows_nullable v text rfl rfl
  have hid : ∀ v, integer.allows v = true := fun v => allows_nullable v integer rfl rfl
  simp [Sqlite.Definition.allows, EventStore.fileEvents, events, eventRow, FileEvent.toRow,
    allows_text, hnull, hid, allows_textIn htype, allows_textIn hsource]

theorem row_projectParams (now : DateTime) (projectId path : String) (n : ℕ) :
    EventStore.projects.row (EventStore.projectParams now projectId path) n =
      projects.encode ⟨projectId, path, now.toRfc3339⟩ := by
  funext c
  cases c <;> rfl

theorem allows_project (r : ProjectRow) :
    EventStore.projects.allows (projects.encode r) = true := by
  simp [Sqlite.Definition.allows, EventStore.projects, projects, projectRow, allows_text,
    allows_nullable _ text rfl rfl]

theorem row_analysisParams (now : DateTime) (analysis : FileAnalysis) (n : ℕ) :
    FileAnalysisCache.fileAnalysis.row (FileAnalysisCache.analysisParams json now analysis) n =
      (analyses json).encode ⟨analysis, now.timestamp⟩ := by
  funext c
  cases c <;> rfl

theorem allows_analysis (r : CacheRow) :
    FileAnalysisCache.fileAnalysis.allows ((analyses json).encode r) = true := by
  have hat : integerNotNull.allows (.integer r.analyzedAt) = true := by
    simp [Sqlite.Column.allows, integerNotNull]
  simp [Sqlite.Definition.allows, FileAnalysisCache.fileAnalysis, analyses, analysisRow,
    allows_text, hat, allows_nullable _ text rfl rfl, allows_nullable _ count rfl rfl]

/-! ## Instants are no numerals -/

theorem isDigit_of_mem_padded {w n : ℕ} {c : Char} (h : c ∈ Decimal.padded w n) : c.isDigit := by
  have hdigit := Decimal.isSome_digitVal_of_mem_padded h
  unfold Decimal.digitVal at hdigit
  split_ifs at hdigit with hc
  · simpa [Char.isDigit, Char.le_def] using hc
  · simp at hdigit

theorem isDigit_of_mem_leftpad {n : ℕ} {c : Char}
    (h : c ∈ (Nat.toDigits 10 n).leftpad 4 '0') : c.isDigit := by
  rw [List.leftpad, List.mem_append] at h
  rcases h with h | h
  · rw [List.eq_of_mem_replicate h]
    rfl
  · exact Nat.isDigit_of_mem_toDigits (by omega) (by omega) h

/-- The dash after the year is in no numeral. -/
theorem numeral_toRfc3339 (t : DateTime) : Sqlite.numeral t.toRfc3339 = none := by
  have hne : (Nat.toDigits 10 t.date.year.natAbs).leftpad 4 '0' ≠ [] := by
    intro hnil
    have hlength := congrArg List.length hnil
    simp at hlength
  unfold DateTime.toRfc3339 rfc3339Text yearText
  split_ifs with hyear
  · exact Sqlite.numeral_eq_none (fun c hc => isDigit_of_mem_padded hc) (by simp [Decimal.padded])
      rfl rfl (by simp)
  · exact Sqlite.numeral_sign_eq_none (.inl rfl) (fun c hc => isDigit_of_mem_leftpad hc) hne
      rfl rfl (by simp)
  · exact Sqlite.numeral_sign_eq_none (.inr rfl) (fun c hc => isDigit_of_mem_leftpad hc) hne
      rfl rfl (by simp)

/-! ## Lists as text -/

instance charEncodable : Encodable Char :=
  Encodable.ofLeftInverse Char.toNat Char.ofNat Char.ofNat_toNat

instance stringEncodable : Encodable String :=
  Encodable.ofLeftInverse String.toList String.ofList fun _ => String.ofList_toList

instance u32Encodable : Encodable UInt32 :=
  Encodable.ofLeftInverse UInt32.toNat UInt32.ofNat fun _ => UInt32.ofNat_toNat

deriving instance Encodable for ImportRef

deriving instance Encodable for LintSeverity

deriving instance Encodable for LintHint

/-- Lists are told apart by the blanks between their brackets. -/
def blanks (α : Type) [Encodable α] : Codec (List α) where
  toString l := '[' :: (List.replicate (Encodable.encode l) ' ' ++ [']'])
  fromStr s := Encodable.decode (s.length - 2)
  fromStr_toString l := by simp

def blankJson : SerdeJson := ⟨blanks String, blanks ImportRef, blanks LintHint⟩

end Sql

end AmbientFs
