import Maeglagi.Sources.Review

/-!
# New sources

The operations that create a source: uploads and transcripts over the web, and uploads and
texts from an agent. File contents are checked before they get here.
-/

namespace Maeglagi

open Core

variable {Id H : Type} [DecidableEq Id] [DecidableEq H]

/-- The ids a new source gets. -/
structure SourceIds (Id : Type) where
  id : Id
  workspaceId : Id
  ownerId : Id

/-- A row with the column defaults of `Source`. -/
def Source.new (ids : SourceIds Id) (kind : SourceKind) (title objectPath : Text)
    (sizeBytes : Int) : Source Id H where
  id := ids.id
  workspaceId := ids.workspaceId
  ownerId := ids.ownerId
  kind := kind
  title := title
  objectPath := objectPath
  sizeBytes := sizeBytes
  analysisMode := .server
  transcriptSource := none
  durationSeconds := none
  transcriptText := none
  rawTranscriptText := none
  rawUtterances := []
  reviewUtterances := []
  reviewState := none
  reviewRevision := 0
  projectId := none
  projects := []
  people := []
  associationRevision := 0
  confirmedAt := none
  confirmedSnapshot := none
  contentText := none
  analysisCheckpoint := none
  status := .queued
  processingStage := .uploaded
  progress := 0
  errorMessage := none

/-- A file that passed the upload's validation. -/
structure Upload where
  filename : Text
  sizeBytes : Nat

/-- `SourceUploadService.upload` -/
def uploadSource (rt : Runtime Id) (settings : Settings) (ids : SourceIds Id) (kind : SourceKind)
    (file : Upload) : Except ApiError (Source Id H) := do
  require (decide (0 < file.sizeBytes)) (.http 400 "Empty file")
  require (decide (file.sizeBytes ≤ settings.maxUploadBytes)) (.http 413 "File is too large")
  require (decide (file.filename.length ≤ 255)) (.http 422 "Invalid filename")
  return Source.new ids kind file.filename
    (storedPrefix rt ids.ownerId ids.workspaceId ids.id ++ file.filename) file.sizeBytes

/-- `_persist_and_enqueue_source`; with Celery a refused message fails the source. -/
def persistAndEnqueue (executor : Executor) (brokerUp : Bool) (source : Source Id H) :
    Source Id H × Scheduling :=
  match executor with
  | .postgres => (source, .enqueue false)
  | .celery =>
    if brokerUp then (source, .none)
    else ({ source with
      status := .failed
      errorMessage := some "Processing queue unavailable".toList }, .none)

/-- `upload_document` -/
def uploadDocument (rt : Runtime Id) (settings : Settings) (brokerUp : Bool) (ids : SourceIds Id)
    (file : Upload) : Except ApiError (Source Id H × Scheduling) := do
  let source ← uploadSource rt settings ids .document file
  return persistAndEnqueue settings.processingExecutor brokerUp { source with
    status := .queued
    processingStage := .uploaded }

/-- `LiveDraft.model_validate_json` and `validate_unique_utterances` -/
def checkedDraft (utterances : List (Utterance Id)) : Except ApiError (List (Utterance Id)) := do
  require (decide (utterances.length ≤ 1000)) (.http 422 "Invalid live draft")
  match utterances.mapM reviewUtterance with
  | .ok checked => do
    validateUniqueUtterances checked
    return checked
  | .error _ => throw (.http 422 "Invalid live draft")

/-- `upload_recording` -/
def uploadRecording (rt : Runtime Id) (settings : Settings) (brokerUp : Bool) (dir : Directory Id)
    (ids : SourceIds Id) (file : Upload) (liveDraft : Option (List (Utterance Id)))
    (projects : List Id) : Except ApiError (Source Id H × Scheduling) := do
  let draft ← checkedDraft (liveDraft.getD [])
  let source ← uploadSource rt settings ids .meeting file
  let replaced ← replaceProjects dir { source with
    transcriptSource := some .server
    reviewState := some .transcribing
    reviewUtterances := draft
    status := .queued
    processingStage := .uploaded
    progress := 0 } projects
  return persistAndEnqueue settings.processingExecutor brokerUp replaced

/-- The first utterance of a transcript that comes as plain text. -/
def initialUtterance (text : Text) : Utterance Id :=
  ⟨"initial".toList, none, "화자 1".toList, text, none, none⟩

/-- `TranscriptSourceRequest` -/
structure TranscriptSourceRequest (Id : Type) where
  text : Text
  title : Text
  durationSeconds : Option Rat
  projectIds : List Id
  utterances : Option (List (Utterance Id))

/-- `create_transcript_source`; a missing title is the current date. -/
def createTranscriptSource (rt : Runtime Id) (dir : Directory Id) (ids : SourceIds Id)
    (body : TranscriptSourceRequest Id) : Except ApiError (Source Id H) := do
  require (body.durationSeconds.all fun d => decide (0 ≤ d)) .validation
  let text := strip body.text
  require (decide (text ≠ [])) (.http 422 "Transcript text is required")
  let utterances ←
    match (body.utterances.getD [initialUtterance text]).mapM reviewUtterance with
    | .ok checked => .ok checked
    | .error _ => .error (.http 422 "Invalid transcript draft")
  validateUniqueUtterances utterances
  let source := Source.new ids .meeting body.title
    (storedPrefix rt ids.ownerId ids.workspaceId ids.id ++ "transcript.txt".toList)
    (utf8Length text)
  replaceProjects dir { source with
    transcriptSource := some .browser
    durationSeconds := body.durationSeconds
    transcriptText := some text
    reviewUtterances := utterances
    reviewState := some .awaitingReview
    status := .awaitingReview
    processingStage := .awaitingReview
    progress := 9 / 20 } body.projectIds

/-- `upload_agent_media` -/
def uploadAgentMedia (rt : Runtime Id) (settings : Settings) (ids : SourceIds Id)
    (kind : SourceKind) (file : Upload) : Except ApiError (Source Id H) := do
  let source ← uploadSource rt settings ids kind file
  return { source with
    analysisMode := .agent
    status := .awaitingAgent
    processingStage := .awaitingAgent
    reviewState := if kind = .meeting then some .awaitingReview else none
    transcriptSource := if kind = .meeting then some .agent else none }

/-- `create_text_source` with `_create_source` -/
def createTextSource (rt : Runtime Id) (settings : Settings) (dir : Directory Id)
    (ids : SourceIds Id) (title text : Text) (kind : SourceKind) (projectIds : List Id) :
    Except ApiError (Source Id H) := do
  require (decide (strip text ≠ []) && decide (utf8Length text ≤ settings.maxUploadBytes))
    (.workflow "invalid_text" "Source text is empty or too large" 422)
  require (decide (strip title ≠ []) && decide ((strip title).length ≤ 255))
    (.workflow "invalid_source" "Source title or size is invalid" 422)
  let projects := projectIds.eraseDups
  require (projects.all fun id => (dir.activeProject id).isSome)
    (.workflow "invalid_project" "Project is outside workspace" 422)
  let source := Source.new ids kind (strip title) ("inline:".toList ++ rt.str ids.id)
    (utf8Length text)
  match kind with
  | .meeting => do
    let initial ← agentUtterance (initialUtterance text)
    return { source with
      analysisMode := .agent
      transcriptSource := some .agent
      rawTranscriptText := some text
      reviewState := some .awaitingReview
      status := .awaitingReview
      processingStage := .awaitingReview
      progress := 9 / 20
      projectId := projects.head?
      projects
      reviewUtterances := [initial] }
  | .document =>
    return { source with
      analysisMode := .agent
      contentText := some text
      status := .awaitingAgent
      processingStage := .awaitingAgent
      projectId := projects.head?
      projects }

end Maeglagi
