import Maeglagi.Ontology
import Maeglagi.Provider.Calls

/-!
# The extraction pipeline

`ExtractionPipeline` runs five stages, each as one structured call or up to two chat
calls of its adapter, and turns the exceptions it is prepared for into an
`ExtractionError` that names the stage. What pydantic makes of a model's output is a
parameter of each stage.
-/

namespace Maeglagi.Provider

open Core

/-- A stage's output model: `model_validate` and the strict `model_validate_json`, which
return or refuse with a number of errors. -/
structure OutputType (Output : Type) where
  validate : Json → Except Nat Output
  validateJson : Text → Except Nat Output

/-- The output models of the five stages. -/
structure OutputTypes where
  classification : OutputType ClassificationOutput
  entity : OutputType (List ExtractedEntity)
  event : OutputType (List ExtractedEvent)
  relation : OutputType (List ExtractedRelation)
  context : OutputType (List ExtractedContext)

/-- The outcomes of the calls that one stage may make. -/
structure StageExchanges where
  structured : Exchanges
  first : Exchanges
  second : Exchanges

/-- `ExtractionPipeline` -/
structure ExtractionPipeline where
  adapter : Adapter
  apiKey : Text
  model : Text

/-- The name of a stage. -/
def Stage.value : Stage → Text
  | .classification => "classification".toList
  | .entity => "entity".toList
  | .event => "event".toList
  | .relation => "relation".toList
  | .context => "context".toList

/-- The message for an output that does not match its schema. -/
def schemaMessage (errorCount : Nat) : Text :=
  "출력이 스키마와 맞지 않습니다: ".toList ++ Nat.toDigits 10 errorCount ++ "건".toList

/-- `except ProviderError` and `except ValidationError` of a stage. -/
def stageError (stage : Stage) : PyException → PyException
  | .providerError _ message _ => .extractionError stage message
  | .validationError errorCount => .extractionError stage (schemaMessage errorCount)
  | e => e

/-- `_record_usage` -/
def recordUsage (total : Dict Text Int) (usage : List (Text × Int)) : Dict Text Int :=
  usage.foldl (fun d e => d.set e.1 (d.getD e.1 0 + e.2)) total

/-- The value can be a member of a set. -/
def hashed (v : Json) : Except PyException Unit :=
  match v with
  | .arr _ | .obj _ => throw .typeError
  | _ => return ()

/-- The output of a model, or the number of errors with which it is refused. -/
abbrev Outcome (Output : Type) : Type := Except Nat Output × Dict Text Int

namespace ExtractionPipeline

variable (lib : Decoder) {Output : Type}

/-- One attempt of `_chat_stage`. -/
def chatAttempt (p : ExtractionPipeline) (stage : Stage) (type : OutputType Output)
    (w : Exchanges) (total : Dict Text Int) : Except PyException (Outcome Output) := do
  let response ← p.adapter.chat lib p.model p.apiKey w
  let total := recordUsage total response.usage
  let finish := metadataField response.providerMetadata "finish_reason"
  hashed finish
  if finish.isText "length" || finish.isText "max_tokens" then
    throw (.extractionError stage "모델 응답이 토큰 한도에서 잘렸습니다.".toList)
  else if (metadataField response.providerMetadata "refusal").truthy ||
      (finish.isText "refusal" || finish.isText "content_filter") then
    throw (.extractionError stage "모델이 추출 요청을 거절했습니다.".toList)
  else return (type.validateJson response.text, total)

/-- `_chat_stage`: an output that is refused is asked for once more. -/
def chatStage (p : ExtractionPipeline) (stage : Stage) (type : OutputType Output)
    (w : StageExchanges) (total : Dict Text Int) :
    Except PyException (Output × Dict Text Int) := do
  let (output, total) ← p.chatAttempt lib stage type w.first total
  match output with
  | .ok output => return (output, total)
  | .error _ =>
    let (output, total) ← p.chatAttempt lib stage type w.second total
    match output with
    | .ok output => return (output, total)
    | .error errorCount => throw (.extractionError stage (schemaMessage errorCount))

/-- The structured call of a stage, or its chat calls when the model refuses the format. -/
def structuredStage (p : ExtractionPipeline) (stage : Stage) (type : OutputType Output)
    (w : StageExchanges) (total : Dict Text Int) :
    Except PyException (Output × Dict Text Int) :=
  match p.adapter.structuredOutput lib p.model p.apiKey w.structured with
  | .ok response =>
    match type.validate response.data with
    | .ok output => return (output, recordUsage total response.usage)
    | .error errorCount => throw (.validationError errorCount)
  | .error e =>
    match e with
    | .providerError .unsupportedStructuredFormatError .. =>
      if "chat" ∈ p.adapter.capabilities then p.chatStage lib stage type w total else throw e
    | _ => throw e

/-- `run_stage` -/
def runStage (p : ExtractionPipeline) (stage : Stage) (type : OutputType Output)
    (w : StageExchanges) (total : Dict Text Int) :
    Except PyException (Output × Dict Text Int) :=
  handling (fun _ => true) (stageError stage)
    (if "structuredOutput" ∈ p.adapter.capabilities then p.structuredStage lib stage type w total
    else p.chatStage lib stage type w total)

/-- `_with_refs`: the items that carry a source reference, and a warning for each other. -/
def withRefs {α : Type} (items : List α) (stage : Stage) (refs : α → List Text)
    (label : α → Text) (warnings : List Text) : List α × List Text :=
  let carries := fun item => (refs item).any fun ref => !(strip ref).isEmpty
  (items.filter carries, warnings ++ (items.filter fun item => !carries item).map fun item =>
    stage.value ++ ": source_ref 없는 항목을 버렸습니다: ".toList ++ label item)

/-- The relations between known names, and a warning for each other. -/
def knownRelations (known : List Text) (relations : List ExtractedRelation)
    (warnings : List Text) : List ExtractedRelation × List Text :=
  let valid := fun r : ExtractedRelation => decide (r.source ∈ known ∧ r.target ∈ known)
  (relations.filter valid, warnings ++ (relations.filter fun r => !valid r).map fun r =>
    "알 수 없는 개체를 가리키는 관계를 버렸습니다: ".toList ++ r.source ++ " -".toList ++
      r.kind.value ++ "-> ".toList ++ r.target)

/-- `extract` -/
def extract (p : ExtractionPipeline) (types : OutputTypes) (w : Stage → StageExchanges) :
    Except PyException AnalysisResult := do
  let (classification, usage) ←
    p.runStage lib .classification types.classification (w .classification) Dict.empty
  let (entities, usage) ← p.runStage lib .entity types.entity (w .entity) usage
  let (entities, warnings) := withRefs entities .entity (·.sourceRefs) (·.name) []
  let (events, usage) ← p.runStage lib .event types.event (w .event) usage
  let (events, warnings) := withRefs events .event (·.sourceRefs) (·.name) warnings
  let (relations, usage) ← p.runStage lib .relation types.relation (w .relation) usage
  let (relations, warnings) := withRefs relations .relation (·.sourceRefs)
    (fun r => r.source ++ "->".toList ++ r.target) warnings
  let (relations, warnings) :=
    knownRelations (entities.map (·.name) ++ events.map (·.name)) relations warnings
  let (contexts, usage) ← p.runStage lib .context types.context (w .context) usage
  let (contexts, warnings) := withRefs contexts .context (·.sourceRefs) (·.title) warnings
  return ⟨⟨entities, events, relations⟩, classification, contexts, warnings, usage.entries⟩

end ExtractionPipeline

variable {lib : Decoder} {Output : Type}

namespace ExtractionPipeline

variable {p : ExtractionPipeline} {stage : Stage} {type : OutputType Output}

end ExtractionPipeline

end Maeglagi.Provider
