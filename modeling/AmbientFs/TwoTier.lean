import AmbientFs.Languages
import AmbientFs.LlmAnalyzer
import AmbientFs.Pipeline
import AmbientFs.Subscriptions

/-!
# Analysis in two tiers

What a scheduled analysis does after `analyze_file` has come to a result: where there is a language
model, the file is read again, the model is asked about it and its answer is merged into the result,
which is put in the cache once more. In the end the counts are sent to the subscribers. The permit
of the analysis has been given back by then. How an answer is merged is a parameter of the steps.
-/

namespace AmbientFs

inductive TierStage
  /-- `analyze_file` has not come to a result, or has come to none. -/
  | first
  | reading (analysis : FileAnalysis) (language : String)
  | asking (analysis : FileAnalysis) (prompt : String × String)
  | storing (analysis : FileAnalysis)
  | publishing (analysis : FileAnalysis)
  | done
  deriving DecidableEq

structure TwoTier where
  pipeline : AnalysisPipeline
  languages : LanguageRegistry
  /-- How far each of the tasks of the pipeline has come after its analysis. -/
  stages : ℕ → TierStage
  /-- What has been sent, with its task. -/
  published : List (ℕ × Notification)

inductive TierAction
  | first (a : PipelineAction)
  | register (config : LanguageConfig)
  /-- A task looks up the language of its file. -/
  | lookUp (n : ℕ) (locked : Bool)
  | readAgain (n : ℕ)
  /-- The model answers, unless the call fails. -/
  | respond (n : ℕ) (response : Option (List Char))
  /-- A task puts the new result in the cache, if it can be written. -/
  | store (n : ℕ) (stored : Bool) (now : ℤ)
  | publish (n : ℕ)

namespace TwoTier

def new (files : Files) : TwoTier := ⟨.new files, .new, fun _ => .first, []⟩

section Steps

variable (s : TwoTier)

def setStage (n : ℕ) (stage : TierStage) : TwoTier :=
  { s with stages := Function.update s.stages n stage }

/-- The result of the task's analysis, with its event and its file, before anything is done with
it. -/
def result (n : ℕ) : Option (AnalysisTask × FileAnalysis) :=
  match s.stages n, s.pipeline.tasks[n]? with
  | .first, some t =>
    match t.stage with
    | .finished (some analysis) => some (t, analysis)
    | _ => none
  | _, _ => none

/-- `llm` is whether there is a model. -/
def lookUp (llm : Bool) (n : ℕ) (locked : Bool) : TwoTier :=
  match s.result n with
  | none => s
  | some (t, analysis) =>
    match if llm then s.languages.getForPath locked t.file else none with
    | some language => s.setStage n (.reading analysis language.name)
    | none => s.setStage n (.publishing analysis)

def readAgain (n : ℕ) : TwoTier :=
  match s.stages n, s.pipeline.tasks[n]? with
  | .reading analysis language, some t =>
    match (s.pipeline.files t.file).bind Utf8.decode? with
    | none => s.setStage n (.publishing analysis)
    | some content => s.setStage n (.asking analysis
        (LlmFileAnalyzer.buildPrompt t.event.filePath (String.ofList content) language))
  | _, _ => s

/-- A call that fails, or an answer that cannot be merged, leaves the result as it is. -/
def respond (merge : FileAnalysis → List Char → Option FileAnalysis) (n : ℕ)
    (response : Option (List Char)) : TwoTier :=
  match s.stages n with
  | .asking analysis _ =>
    match response.bind (merge analysis) with
    | none => s.setStage n (.publishing analysis)
    | some enhanced => s.setStage n (.storing enhanced)
  | _ => s

def store (n : ℕ) (stored : Bool) (now : ℤ) : TwoTier :=
  match s.stages n with
  | .storing enhanced =>
    let s := s.setStage n (.publishing enhanced)
    if stored then
      { s with pipeline := { s.pipeline with cache := s.pipeline.cache.put enhanced now } }
    else s
  | _ => s

def publish (n : ℕ) : TwoTier :=
  match s.stages n, s.pipeline.tasks[n]? with
  | .publishing analysis, some t => { s with
      published := s.published ++ [(n, Notification.analysisComplete t.event.projectId t.event.filePath
        analysis.lineCount analysis.todoCount)] }.setStage n .done
  | _, _ => s

end Steps

variable [Letters] (config : PipelineConfig) (dedup : ContentDedup) (llm : Bool)
  (merge : FileAnalysis → List Char → Option FileAnalysis)

def step (s : TwoTier) : TierAction → TwoTier
  | .first a => { s with pipeline := s.pipeline.step config dedup a }
  | .register language => { s with languages := s.languages.register language }
  | .lookUp n locked => s.lookUp llm n locked
  | .readAgain n => s.readAgain n
  | .respond n response => s.respond merge n response
  | .store n stored now => s.store n stored now
  | .publish n => s.publish n

end TwoTier

/-- The pipeline merges with what reads the answers. -/
def SerdeJson.merge (serde : SerdeJson) (analysis : FileAnalysis) (response : List Char) :
    Option FileAnalysis :=
  (LlmFileAnalyzer.enhanceWithLlmResponse serde analysis response).toOption

end AmbientFs
