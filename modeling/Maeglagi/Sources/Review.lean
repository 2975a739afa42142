import Mathlib.Algebra.GroupWithZero.Nat
import Maeglagi.Jobs.Row
import Maeglagi.Sources.Row

/-!
# The review of a meeting

`review.py`, `associations.py` and `transcript_recovery.py` as functions from the locked
row of a source to the row they commit. Access checks are left to the callers: each
operation gets a row of the caller's workspace and that workspace's directory.
-/

namespace Maeglagi

section

open Core Jobs

variable {Id H : Type} [DecidableEq Id] [DecidableEq H]

/-- Raise unless the condition holds. -/
def require (condition : Bool) (error : ApiError) : Except ApiError Unit :=
  if condition then .ok () else .error error

@[simp] theorem require_eq_ok {condition : Bool} {error : ApiError} {u : Unit} :
    require condition error = .ok u ↔ condition = true := by
  unfold require
  split_ifs with h <;> simp [h]

theorem require_eq_error {condition : Bool} {error error' : ApiError} :
    require condition error = .error error' ↔ condition = false ∧ error = error' := by
  unfold require
  split_ifs with h <;> simp [h]

theorem require_pos {condition : Bool} (h : condition = true) (error : ApiError) :
    require condition error = .ok () := if_pos h

theorem require_neg {condition : Bool} (h : ¬condition = true) (error : ApiError) :
    require condition error = .error error := if_neg h

/-- `project_ids` -/
def Source.projectIds (source : Source Id H) : List Id :=
  if source.projects = [] then source.projectId.toList else source.projects

/-- The people an utterance list names, each looked up once in order of first mention. -/
def referencedPeople (dir : Directory Id) (utterances : List (Utterance Id)) :
    Except ApiError (List (WorkspacePerson Id)) :=
  (utterances.filterMap Utterance.personId).eraseDups.mapM fun id =>
    match dir.activePerson id with
    | some person => .ok person
    | none => .error (.http 422 "Invalid person reference")

/-- The projects under ids, all of them active. -/
def referencedProjects (dir : Directory Id) (ids : List Id) :
    Except ApiError (List (WorkspaceProject Id)) :=
  ids.mapM fun id =>
    match dir.activeProject id with
    | some project => .ok project
    | none => .error (.http 422 "Invalid project reference")

/-- `replace_projects` -/
def replaceProjects (dir : Directory Id) (source : Source Id H) (ids : List Id) :
    Except ApiError (Source Id H) := do
  require (decide ids.Nodup) (.http 422 "Duplicate project ID")
  let _ ← referencedProjects dir ids
  return { source with projects := ids, projectId := ids.head? }

/-- `ReviewPatch` -/
structure ReviewPatch (Id : Type) where
  revision : Nat
  projectId : Option Id
  projectIds : Option (List Id)
  utterances : List (Utterance Id)

/-- `ReviewPatch.model_validate` -/
def ReviewPatch.modelValidate (body : ReviewPatch Id) : Except ApiError (ReviewPatch Id) := do
  require (decide (body.utterances.length ≤ 1000)) .validation
  let utterances ← body.utterances.mapM reviewUtterance
  return { body with utterances }

/-- The fields of `ReviewResponse` that a client edits or that describe the review. -/
structure ReviewResponse (Id : Type) where
  title : Text
  transcriptSource : Option TranscriptSource
  reviewState : ReviewState
  status : SourceStatus
  analysisMode : AnalysisMode
  stage : ProcessingStage
  errorMessage : Option Text
  revision : Nat
  projectId : Option Id
  projectIds : List Id
  utterances : List (Utterance Id)
  rawTranscriptText : Option Text
  rawUtterances : List (Utterance Id)
  confirmedAt : Option Instant
  confirmedSnapshot : Option (Snapshot Id)

/-- `review_payload` -/
def reviewPayload (source : Source Id H) (selectedProjects : List Id) :
    Except ApiError (ReviewResponse Id) := do
  let utterances ← source.reviewUtterances.mapM reviewUtterance
  let rawUtterances ← source.rawUtterances.mapM reviewUtterance
  return {
    title := source.title
    transcriptSource := source.transcriptSource
    reviewState := source.reviewState.getD
      (if source.status = .succeeded then .confirmed else .awaitingReview)
    status := source.status
    analysisMode := source.analysisMode
    stage := source.processingStage
    errorMessage := source.errorMessage
    revision := source.reviewRevision
    projectId := source.projectId
    projectIds := selectedProjects
    utterances
    rawTranscriptText := source.rawTranscriptText
    rawUtterances
    confirmedAt := source.confirmedAt
    confirmedSnapshot := source.confirmedSnapshot }

/-- `get_review` -/
def getReview (source : Source Id H) : Except ApiError (ReviewResponse Id) := do
  require (decide (source.kind = .meeting)) (.http 404 "Meeting not found")
  reviewPayload source source.projectIds

/-- `save_review` -/
def saveReview (dir : Directory Id) (source : Source Id H) (request : ReviewPatch Id) :
    Except ApiError (Source Id H) := do
  let body ← request.modelValidate
  require (decide (source.kind = .meeting)) (.http 404 "Meeting not found")
  require (decide (source.reviewState = some .awaitingReview))
    (.http 409 "Meeting is not awaiting review")
  require (decide (source.reviewRevision = body.revision)) (.http 409 "Stale review revision")
  validateUniqueUtterances body.utterances
  let ids := body.projectIds.getD body.projectId.toList
  require (body.projectIds.isNone || body.projectId.isNone || decide (ids.head? = body.projectId))
    (.http 422 "projectId must be primary")
  let _ ← referencedPeople dir body.utterances
  let replaced ← replaceProjects dir source ids
  return { replaced with
    associationRevision :=
      if source.projectIds = ids then source.associationRevision
      else source.associationRevision + 1
    reviewUtterances := body.utterances
    reviewRevision := source.reviewRevision + 1 }

/-- `settings.processing_executor` -/
inductive Executor where
  | celery | postgres
  deriving DecidableEq, Repr

/-- What an operation does about the job of the row it commits. -/
inductive Scheduling where
  | none
  | enqueue (supersedeExisting : Bool)
  deriving DecidableEq, Repr

/-- The end of `confirm_review` and `retry_transcription`: the row goes back to the executor.
With Celery the broker may refuse the message, and the refusal is committed. -/
def resubmit (executor : Executor) (brokerUp : Bool) (source : Source Id H) :
    Source Id H × Scheduling :=
  match executor with
  | .postgres => ({ source with status := .queued }, .enqueue true)
  | .celery =>
    if brokerUp then ({ source with status := .queued }, .none)
    else ({ source with
      status := .failed
      errorMessage := some "Processing queue unavailable".toList }, .none)

/-- A transcript, one paragraph an utterance. -/
def transcriptOf (utterances : List (Utterance Id)) : Text :=
  ("\n\n".toList).intercalate (utterances.map fun u => u.speakerName ++ ": ".toList ++ u.text)

/-- The owners of projects, each looked up once. -/
def projectOwners (dir : Directory Id) (projects : List (WorkspaceProject Id)) :
    Except ApiError (List (WorkspacePerson Id)) :=
  (projects.filterMap WorkspaceProject.ownerPersonId).eraseDups.mapM fun id =>
    match dir.person id with
    | some person => .ok person
    | none => .error (.http 422 "Invalid project owner")

/-- The active members of projects, each once. -/
def projectRoster (dir : Directory Id) (projects : List (WorkspaceProject Id)) :
    List (WorkspacePerson Id) :=
  ((dir.members.filter fun m => projects.any fun p => decide (p.id = m.projectId)).map
    ProjectMember.personId).eraseDups.filterMap dir.activePerson

/-- The utterance under the directory name of the person it is assigned to. -/
def Utterance.named (people : List (WorkspacePerson Id)) (u : Utterance Id) : Utterance Id :=
  match u.personId.bind fun id => people.find? fun p => decide (p.id = id) with
  | some person => { u with speakerName := person.name }
  | none => u

/-- The branch of `confirm_review` for a meeting that awaits review. -/
def confirmDraft (dir : Directory Id) (now : Instant) (source : Source Id H) :
    Except ApiError (Source Id H) := do
  let utterances ← source.reviewUtterances.mapM reviewUtterance
  validateUniqueUtterances utterances
  let usable := utterances.filter fun u => decide (u.text ≠ [])
  require (decide (usable ≠ [])) (.http 422 "Transcript text is required")
  let people ← referencedPeople dir usable
  let projects ← referencedProjects dir source.projectIds
  let owners ← projectOwners dir projects
  let confirmed := usable.map (Utterance.named people)
  return { source with
    reviewUtterances := confirmed
    transcriptText := some (transcriptOf confirmed)
    confirmedSnapshot := some (snapshot projects people owners (projectRoster dir projects))
    people := source.people.filter (fun p => decide (p.2 ≠ .participant)) ++
      people.map fun person => (person.id, .participant)
    confirmedAt := some now
    associationRevision := source.associationRevision + 1
    reviewState := some .confirmed }

/-- The end of `confirm_review` after the review state is settled. -/
def submitConfirmed (executor : Executor) (brokerUp : Bool) (source : Source Id H) :
    Source Id H × Scheduling :=
  match source.analysisMode with
  | .agent => ({ source with
      status := .awaitingAgent
      processingStage := .awaitingAgent
      errorMessage := none }, .none)
  | .server => resubmit executor brokerUp { source with
      status := .enqueuePending
      processingStage := .confirmed
      errorMessage := none }

/-- `confirm_review`; without a result the current job is returned and nothing is written. -/
def confirmReview (executor : Executor) (brokerUp : Bool) (dir : Directory Id) (now : Instant)
    (source : Source Id H) (revision : Nat) :
    Except ApiError (Option (Source Id H × Scheduling)) := do
  require (decide (source.kind = .meeting)) (.http 404 "Meeting not found")
  require (decide (source.reviewRevision = revision)) (.http 409 "Stale review revision")
  match source.reviewState with
  | some .confirmed =>
    if source.status = .failed ∨ source.status = .enqueuePending then
      return some (submitConfirmed executor brokerUp source)
    else return none
  | some .awaitingReview =>
    let confirmed ← confirmDraft dir now source
    return some (submitConfirmed executor brokerUp confirmed)
  | _ => throw (.http 409 "Meeting is not awaiting review")

/-- `retry_transcription`; without a result the current job is returned. -/
def retryTranscription (executor : Executor) (brokerUp : Bool) (source : Source Id H) :
    Except ApiError (Option (Source Id H × Scheduling)) := do
  require (decide (source.kind = .meeting)) (.http 404 "Meeting not found")
  require (decide (source.transcriptSource = some .server) &&
    decide (source.reviewState = some .transcribing)) (.http 409 "Meeting cannot be retranscribed")
  if source.status = .queued ∨ source.status = .enqueuePending ∨ source.status = .processing then
    return none
  require (decide (source.status = .failed)) (.http 409 "Transcription has not failed")
  return some (resubmit executor brokerUp { source with
    status := .enqueuePending
    processingStage := .transcribing
    errorMessage := none })

/-- `AssociationsPatch` -/
structure AssociationsPatch (Id : Type) where
  revision : Nat
  projectIds : List Id
  people : List (Id × PersonRole)

/-- `patch_associations` -/
def patchAssociations (dir : Directory Id) (source : Source Id H) (body : AssociationsPatch Id) :
    Except ApiError (Source Id H) := do
  require (decide (source.associationRevision = body.revision))
    (.http 409 "Stale association revision")
  require (decide body.people.Nodup) (.http 422 "Duplicate person association")
  require (body.people.all fun p => (dir.activePerson p.1).isSome)
    (.http 422 "Invalid person reference")
  let replaced ← replaceProjects dir source body.projectIds
  return { replaced with
    people := body.people
    associationRevision := source.associationRevision + 1
    reviewRevision :=
      if source.kind = .meeting ∧ source.reviewState ≠ some .confirmed then
        source.reviewRevision + 1
      else source.reviewRevision }

/-- The path under which the recording of a source is stored. -/
def storedPrefix (rt : Runtime Id) (ownerId workspaceId sourceId : Id) : Text :=
  rt.str ownerId ++ '/' :: rt.str workspaceId ++ '/' :: rt.str sourceId ++ ['/']

/-- `recover_browser_transcript` on utterances that passed the request's model. -/
def recoverBrowserTranscript (rt : Runtime Id) (dir : Directory Id) (actor : Id)
    (job : Option (Job Id)) (source : Source Id H) (revision : Nat)
    (request : List (Utterance Id)) : Except ApiError (Source Id H) := do
  let utterances ← request.mapM agentUtterance
  require (decide (source.kind = .meeting) && decide (source.status = .failed) &&
      decide (source.reviewState = some .transcribing) && decide (source.analysisMode = .server))
    (.workflow "recovery_unavailable" "Failed transcription required" 409)
  require (decide (source.reviewRevision = revision))
    (.workflow "stale_revision" "Transcript revision changed" 409)
  require (decide (0 < source.sizeBytes) &&
      (storedPrefix rt actor source.workspaceId source.id).isPrefixOf source.objectPath)
    (.workflow "recording_missing" "Stored recording not found" 409)
  require (job.all fun job => !job.live)
    (.workflow "processing_active" "Transcription is still running" 409)
  require (decide (utterances ≠ []) && decide (utterances.length ≤ 1000) &&
      utterances.any fun u => decide (u.text ≠ []))
    (.workflow "invalid_transcript" "Transcript text is required" 422)
  require (decide (utterances.map Utterance.id).Nodup)
    (.workflow "invalid_transcript" "Duplicate utterance ID" 422)
  require ((utterances.filterMap Utterance.personId).all fun id => (dir.activePerson id).isSome)
    (.workflow "invalid_person" "Active workspace participant required" 422)
  let kept := (source.rawTranscriptText.getD []).isEmpty = false
  return { source with
    reviewUtterances := utterances
    rawTranscriptText :=
      if kept then source.rawTranscriptText
      else some (transcriptOf (utterances.filter fun u => decide (u.text ≠ [])))
    rawUtterances := if kept then source.rawUtterances else utterances
    transcriptSource := some .browser
    reviewRevision := source.reviewRevision + 1
    reviewState := some .awaitingReview
    status := .awaitingReview
    processingStage := .awaitingReview
    progress := 9 / 20
    errorMessage := none }

end

/-!
## Keyless agent work on sources

The operations of `AgentWorkflowService` on text and transcripts, and the directory
snapshot of its repository.
-/

section

open Core

variable {Id H : Type} [DecidableEq Id] [DecidableEq H]

/-- `len(text.encode())` -/
def utf8Length (t : Text) : Nat := (t.map Char.utf8Size).sum

/-- The settings the modelled operations read. -/
structure Settings where
  processingExecutor : Executor
  maxUploadBytes : Nat
  neo4jEnabled : Bool
  deriving DecidableEq, Repr

/-- People in the order of their ids. -/
def sortedPeople (rt : Runtime Id) (people : List (WorkspacePerson Id)) :
    List (WorkspacePerson Id) :=
  people.insertionSort fun a b => rt.str a.id ≤ rt.str b.id

/-- The ids of the projects of a source, its primary one first if it has no row. -/
def Source.snapshotProjects (source : Source Id H) : List Id :=
  match source.projectId with
  | none => source.projects
  | some id => if id ∈ source.projects then source.projects else id :: source.projects

/-- The active people under ids. -/
def Directory.activePeople (dir : Directory Id) (ids : List Id) : List (WorkspacePerson Id) :=
  dir.people.filter fun p => !p.archived && decide (p.id ∈ ids)

/-- The active projects under ids. -/
def Directory.activeProjects (dir : Directory Id) (ids : List Id) : List (WorkspaceProject Id) :=
  dir.projects.filter fun p => !p.archived && decide (p.id ∈ ids)

/-- The ids of the members of projects. -/
def Directory.memberIds (dir : Directory Id) (projectIds : List Id) : List Id :=
  (dir.members.filter fun m => decide (m.projectId ∈ projectIds)).map ProjectMember.personId

/-- `directory_snapshot` -/
def directorySnapshot (rt : Runtime Id) (dir : Directory Id) (source : Source Id H) :
    Except ApiError (Snapshot Id) := do
  let personIds :=
    (source.reviewUtterances.filterMap Utterance.personId ++ source.people.map Prod.fst).eraseDups
  let people := dir.activePeople personIds
  require (decide (people.length = personIds.length))
    (.workflow "invalid_participant" "Participant is outside workspace" 422)
  let projectIds := source.snapshotProjects
  let projects := dir.activeProjects projectIds
  require (decide (projects.length = projectIds.length))
    (.workflow "invalid_project" "Project is outside workspace" 422)
  let ownerIds := (projects.filterMap WorkspaceProject.ownerPersonId).eraseDups
  let owners := dir.activePeople ownerIds
  require (decide (owners.length = ownerIds.length))
    (.workflow "invalid_project" "Project owner is outside workspace" 422)
  let rows := projectIds.filterMap fun id =>
    (projects.find? fun p => decide (p.id = id)).map (WorkspaceProject.row owners)
  let roster := dir.activePeople (dir.memberIds projectIds)
  return ⟨rows.head?, rows, (sortedPeople rt people).map WorkspacePerson.row,
    (sortedPeople rt roster).map WorkspacePerson.row⟩

/-- `save_document_text` -/
def saveDocumentText (settings : Settings) (source : Source Id H) (expectedRevision : Nat)
    (text : Text) : Except ApiError (Source Id H) := do
  require (decide (source.analysisMode = .agent) && decide (source.kind = .document))
    (.workflow "invalid_source" "Agent document required" 409)
  require source.analysisCheckpoint.isNone
    (.workflow "already_analyzed" "Analysis already started" 409)
  require (decide (source.reviewRevision = expectedRevision))
    (.workflow "stale_revision" "Source revision changed" 409)
  require (decide (strip text ≠ []) && decide (utf8Length text ≤ settings.maxUploadBytes))
    (.workflow "invalid_text" "Document text is empty or too large" 422)
  return { source with
    contentText := some (strip text)
    reviewRevision := source.reviewRevision + 1
    status := .awaitingAgent
    processingStage := .awaitingAgent }

/-- The guard that `save_transcript` and `confirm_transcript` share. -/
def requireAgentReview (source : Source Id H) (expectedRevision : Nat) : Except ApiError Unit := do
  require (decide (source.analysisMode = .agent) && decide (source.kind = .meeting) &&
      decide (source.reviewState = some .awaitingReview))
    (.workflow "review_closed" "Meeting is not awaiting review" 409)
  require (decide (source.reviewRevision = expectedRevision))
    (.workflow "stale_revision" "Transcript revision changed" 409)

/-- Check utterances, with the workflow's error for an invalid one. -/
def checkedTranscript (utterances : List (Utterance Id)) :
    Except ApiError (List (Utterance Id)) :=
  match utterances.mapM agentUtterance with
  | .ok checked => .ok checked
  | .error _ => .error (.workflow "invalid_transcript" "Invalid transcript" 422)

/-- `save_transcript` -/
def saveTranscript (source : Source Id H) (expectedRevision : Nat)
    (utterances : List (Utterance Id)) : Except ApiError (Source Id H) := do
  requireAgentReview source expectedRevision
  require (decide (utterances.length ≤ 1000))
    (.workflow "invalid_transcript" "Too many utterances" 422)
  let checked ← checkedTranscript utterances
  require (decide (checked.map Utterance.id).Nodup)
    (.workflow "invalid_transcript" "Duplicate utterance ID" 422)
  let texts := checked.filterMap fun u => if u.text = [] then none else some u.text
  return { source with
    reviewUtterances := checked
    rawTranscriptText :=
      if source.rawTranscriptText = none then some (("\n\n".toList).intercalate texts)
      else source.rawTranscriptText
    rawUtterances := if source.rawTranscriptText = none then checked else source.rawUtterances
    reviewRevision := source.reviewRevision + 1 }

/-- `confirm_transcript` -/
def confirmTranscript (rt : Runtime Id) (dir : Directory Id) (now : Instant)
    (source : Source Id H) (expectedRevision : Nat) : Except ApiError (Source Id H) := do
  requireAgentReview source expectedRevision
  let utterances ← (source.reviewUtterances.filter fun u => decide (strip u.text ≠ [])).mapM
    agentUtterance
  require (decide (utterances ≠ []))
    (.workflow "text_required" "Transcript text is required" 422)
  let kept ← directorySnapshot rt dir source
  return { source with
    transcriptText := some (transcriptOf utterances)
    reviewUtterances := utterances
    confirmedSnapshot := some kept
    confirmedAt := some now
    associationRevision := source.associationRevision + 1
    reviewState := some .confirmed
    status := .awaitingAgent
    processingStage := .awaitingAgent
    people := source.people.filter (fun p => decide (p.2 ≠ .participant)) ++
      ((utterances.filterMap Utterance.personId).eraseDups.map fun id => (id, .participant)) }

end

end Maeglagi
