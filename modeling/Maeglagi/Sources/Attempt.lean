import Maeglagi.Agent.Validation
import Maeglagi.Analysis.Directory
import Maeglagi.Sources.Creation
import Maeglagi.Sources.Row

/-!
# Attempts on a source
-/

/-!
## Digests

The SHA-256 digests by which the program recognises what it has already analysed. Each is a
function of the data it is taken of; no two results are taken to share theirs.
-/

namespace Maeglagi

section

open Core

/-- The digests of a source's text, its directory, its decisions and its result. -/
structure Digests (Id H : Type) where
  /-- `_decision_fingerprint` of sorted decisions -/
  decisions : List Text → H
  /-- the fingerprint of `SourceAnalysisService.run` -/
  analysis : (title text : Text) → (reviewRevision : Nat) → Option (Snapshot Id) → H
  /-- `source_fingerprint` -/
  source : (title text : Text) → (reviewRevision associationRevision : Nat) → Snapshot Id → H
  /-- `context_fingerprint` of a source's fingerprint and sorted decisions -/
  context : H → List Text → H
  /-- `result_fingerprint` -/
  result : AnalysisResult → H
  result_injective : Function.Injective result

/-- `sorted(decisions)` -/
def sortedDecisions (decisions : List Text) : List Text := decisions.insertionSort (· ≤ ·)

end

/-!
## Attempts on a source

`_process_source`, `SourceAnalysisService.run`, `_submit_analysis_locked` and
`analyze_source`, cut at their commits and at their calls to the graph store. An attempt
works on the row its session holds; a commit sends the columns it changed.
-/

section

open Core Jobs Resolution

variable {Id H : Type} [DecidableEq Id] [DecidableEq H]

/-- What the modelled operations are configured with. -/
structure Env (Id H : Type) where
  rt : Runtime Id
  digests : Digests Id H
  settings : Settings

/-- Who runs an attempt of `process_source`: a worker under its claim, or a task message. -/
inductive Runner (Id : Type) where
  | worker (owner : Id) (claim : Claim)
  | message (final : Bool)
  deriving DecidableEq

/-- `final_attempt` -/
def Runner.final : Runner Id → Bool
  | .worker _ claim => decide (3 ≤ claim.attempts)
  | .message final => final

/-- What an agent's submission carries once it is admitted. -/
structure Submission (Id H : Type) where
  fingerprint : H
  contextFingerprint : H
  resultHash : H
  directory : Snapshot Id
  result : AnalysisResult

/-- Who analyses a source. -/
inductive Analyst (Id H : Type) where
  | server (runner : Runner Id) (resumed : Bool)
  | agent (submission : Submission Id H)

/-- The analysis mode of the sources an analyst works on. -/
def Analyst.mode : Analyst Id H → AnalysisMode
  | .server .. => .server
  | .agent _ => .agent

/-- Where an attempt stands: what it does next. -/
inductive Point where
  | parsing | transcribing | indexing | analyzing | extracting | merging (fresh : Bool)
  | graphing | broken | finishing | concluding | completing
  deriving DecidableEq, Repr

/-- The points that a submission passes, too. -/
def Point.shared : Point → Bool
  | .extracting | .merging _ | .graphing | .broken | .finishing => true
  | _ => false

/-- A write outside the row of the source. -/
inductive Sink (Id : Type) where
  | chunks
  | context (result : AnalysisResult)
  | graph (graph : ResolvedGraph Id) (complete : Bool)
  deriving DecidableEq

/-- What one commit or call of an attempt leaves: the row, where the attempt goes on, unless
it returns, and the other writes. -/
structure Turn (Id H : Type) where
  row : Source Id H
  next : Option (Source Id H × Point)
  sinks : List (Sink Id)

/-- A segment of a provider's answer; its times may be missing. -/
structure SegmentBody where
  text : Text
  start : Option Rat
  finish : Option Rat
  deriving DecidableEq

/-- A provider's answer to a transcription request. -/
structure TranscriptionBody where
  text : Text
  duration : Option Rat
  segments : List SegmentBody
  deriving DecidableEq

/-- `TranscriptionSegment` -/
structure TranscriptionSegment where
  text : Text
  startSeconds : Rat
  endSeconds : Rat
  speaker : Option Text

/-- The fields of `TranscriptionResponse` that are stored. -/
structure TranscriptionResponse where
  text : Text
  durationSeconds : Option Rat
  segments : List TranscriptionSegment

/-- The choices of the environment in one turn of an attempt. -/
inductive Action (Id : Type) where
  | parse (text : Text)
  | transcribe (body : TranscriptionBody)
  | index
  | dispatch (provider : Bool) (known : List Text)
  | extract (result : AnalysisResult) (known : List Text)
  | merge (warnings : List Text)
  | writeGraph (complete : Bool)
  | finish
  | conclude
  | complete

/-- The text under analysis. -/
def Source.analyzed (source : Source Id H) : Text :=
  ((if source.kind = .document then source.contentText else source.transcriptText)).getD []

/-- The normalizer and the chunker find something to index. -/
def Source.indexable (source : Source Id H) : Bool :=
  match source.kind with
  | .document => decide (strip source.analyzed ≠ [])
  | .meeting => source.reviewUtterances.any fun u => decide (strip u.text ≠ [])

/-- The fingerprint that `SourceAnalysisService.run` takes. -/
def Source.analysisFingerprint (digests : Digests Id H) (source : Source Id H) : H :=
  digests.analysis source.title source.analyzed source.reviewRevision source.confirmedSnapshot

/-- The speaker of a segment that names none. -/
def defaultSpeaker : Text := "화자 1".toList

/-- `OpenAICompatibleAdapter.transcribe` on a successful answer; an empty text raises. -/
def TranscriptionBody.response (body : TranscriptionBody) : Option TranscriptionResponse :=
  if strip body.text = [] then none
  else some {
    text := strip body.text
    durationSeconds := body.duration
    segments := (body.segments.filter fun item => decide (strip item.text ≠ [])).map fun item => {
      text := strip item.text
      startSeconds := item.start.getD 0
      endSeconds := item.finish.getD (item.start.getD 0)
      speaker := none } }

/-- `raw_utterances` as a transcription is stored. -/
def TranscriptionResponse.utterances (response : TranscriptionResponse) : List (Utterance Id) :=
  match response.segments with
  | [] => [⟨"server-0".toList, none, defaultSpeaker, response.text, some 0,
      some (response.durationSeconds.getD 0)⟩]
  | segments => segments.mapIdx fun i item => {
      id := "server-".toList ++ Nat.toDigits 10 i
      personId := none
      speakerName := if item.speaker.getD [] = [] then defaultSpeaker else item.speaker.getD []
      text := item.text
      startSeconds := some item.startSeconds
      endSeconds := some item.endSeconds }

/-- The first transaction of `_process_source`: the row and where the attempt goes on, unless
it returns. -/
def beginProcessing (source : Source Id H) : Source Id H × Option Point :=
  if source.analysisMode = .agent then (source, none)
  else if source.status = .succeeded ∨ source.status = .awaitingReview then (source, none)
  else if source.kind = .meeting ∧ source.reviewState ≠ some .transcribing ∧
      source.reviewState ≠ some .confirmed then (source, none)
  else
    let opened := { source with status := .processing, errorMessage := none }
    if source.analysisCheckpoint ≠ none then
      ({ opened with processingStage := .graphing, progress := 7 / 10 }, some .analyzing)
    else if source.kind = .document then
      ({ opened with processingStage := .uploaded, progress := 1 / 5 }, some .parsing)
    else if source.reviewState = some .transcribing then
      ({ opened with processingStage := .transcribing, progress := 1 / 5 }, some .transcribing)
    else ({ opened with processingStage := .analyzing, progress := 1 / 2 }, some .indexing)

/-- `_update_source` -/
def updateSource (source : Source Id H) (status : SourceStatus) (stage : ProcessingStage)
    (progress : Rat) (errorMessage : Option Text) : Source Id H :=
  if source.status = .succeeded ∨ source.reviewState = some .awaitingReview then source
  else { source with
    status
    processingStage :=
      if source.reviewState = some .confirmed then .confirmed
      else if source.reviewState = some .transcribing then .transcribing
      else stage
    progress
    errorMessage }

/-- How `process_source_attempt` records an exception on the source. -/
def recordFailure (final : Bool) (error : AttemptError) (source : Source Id H) : Source Id H :=
  updateSource source (if final = true ∨ error.terminal = true then .failed else .queued)
    .uploaded 0 (some error.message)

/-- A commit after which the attempt goes on. -/
def commit (row loaded assigned : Source Id H) (point : Point) (sinks : List (Sink Id)) :
    Turn Id H :=
  ⟨loaded.flush assigned row, some (assigned, point), sinks⟩

/-- The last commit of an attempt. -/
def commitLast (row loaded assigned : Source Id H) (sinks : List (Sink Id)) : Turn Id H :=
  ⟨loaded.flush assigned row, none, sinks⟩

/-- The directory that the analyst resolves names against. -/
def Analyst.directory (analyst : Analyst Id H) (source : Source Id H) : Option (Snapshot Id) :=
  match analyst with
  | .server .. => source.confirmedSnapshot
  | .agent submission => some submission.directory

/-- The checkpoint that `save_extraction` writes. -/
def Analyst.checkpoint (env : Env Id H) (analyst : Analyst Id H) (source : Source Id H)
    (result : AnalysisResult) (graph : ResolvedGraph Id) (known : List Text) :
    Checkpoint Id H :=
  let decisionFingerprint := env.digests.decisions (sortedDecisions known)
  match analyst with
  | .server .. =>
    ⟨none, source.analysisFingerprint env.digests, none, decisionFingerprint, none, .extracted,
      result, graph, []⟩
  | .agent submission =>
    ⟨some .agent, submission.fingerprint, some submission.contextFingerprint,
      decisionFingerprint, some submission.resultHash, .extracted, result, graph, []⟩

/-- The point after the analysis of a server's attempt. -/
def afterAnalysis (resumed : Bool) : Point := if resumed then .completing else .concluding

/-- `SourceAnalysisService.run` up to its first call: what a checkpoint leaves to do. A
changed source or a missing provider raises. -/
def dispatchCheckpoint (env : Env Id H) (row session : Source Id H) (resumed provider : Bool)
    (known : List Text) : Option (Turn Id H) :=
  let stay := fun point => some ⟨row, some (session, point), []⟩
  if session.kind = .meeting ∧ (session.reviewState = some .transcribing ∨
      session.reviewState = some .awaitingReview) then stay (afterAnalysis resumed)
  else match session.analysisCheckpoint with
  | none => stay (if provider then .extracting else afterAnalysis resumed)
  | some c =>
    if c.fingerprint ≠ session.analysisFingerprint env.digests then none
    else match c.phase with
    | .done => stay (afterAnalysis resumed)
    | .contextApplied => stay .graphing
    | .extracted =>
      if provider = false then none
      else if c.decisionFingerprint = env.digests.decisions (sortedDecisions known) then
        stay (.merging false)
      else some (commit row session { session with analysisCheckpoint := none } .extracting [])

/-- `analyze_source` up to `on_extracted`: a supplied result takes the place of the model's. -/
def extractAnalysis (env : Env Id H) (analyst : Analyst Id H) (row session : Source Id H)
    (produced : AnalysisResult) (known : List Text) : Option (Turn Id H) :=
  let result := match analyst with
    | .server .. => produced
    | .agent submission => submission.result
  let canonical := canonicalizeDirectoryEntities env.rt result (analyst.directory session)
    session.analyzed
  match resolveExtraction env.rt canonical.1.toExtractionResult
      ⟨session.workspaceId, session.id, none, none, canonical.2⟩ with
  | .error _ => none
  | .ok graph =>
    let assigned := { session with
      analysisCheckpoint := some (analyst.checkpoint env session canonical.1 graph known) }
    some (commit row session
      (match analyst with
      | .server .. => assigned
      | .agent _ => { assigned with processingStage := .analyzing })
      (.merging true) [])

/-- `context_store.apply` and `save_context`, in one transaction. -/
def applyContext (env : Env Id H) (analyst : Analyst Id H) (row session : Source Id H)
    (fresh : Bool) (warnings : List Text) : Option (Turn Id H) :=
  session.analysisCheckpoint.map fun c =>
    let result := if fresh then c.result
      else (canonicalizeDirectoryEntities env.rt c.result (analyst.directory session)
        session.analyzed).1
    let assigned := { session with
      analysisCheckpoint := some { c with phase := .contextApplied, contextWarnings := warnings } }
    commit row session
      (match analyst with
      | .server .. => assigned
      | .agent _ => { assigned with processingStage := .graphing })
      .graphing [.context result]

/-- `GraphWriter(graph_store).write`, if a graph store is configured; it may fail halfway. -/
def writeCheckpoint (env : Env Id H) (row session : Source Id H) (complete : Bool) :
    Option (Turn Id H) :=
  session.analysisCheckpoint.map fun c =>
    if env.settings.neo4jEnabled then
      ⟨row, some (session, if complete then .finishing else .broken), [.graph c.graph complete]⟩
    else ⟨row, some (session, .finishing), []⟩

/-- The last transaction of the analysis. -/
def finishAnalysis (analyst : Analyst Id H) (row session : Source Id H) : Option (Turn Id H) :=
  session.analysisCheckpoint.map fun c =>
    let assigned := { session with analysisCheckpoint := some { c with phase := .done } }
    match analyst with
    | .server _ resumed => commit row session assigned (afterAnalysis resumed) []
    | .agent _ => commitLast row session
        { assigned with status := .succeeded, processingStage := .completed, progress := 1 } []

/-- The turn of an attempt at a point. -/
def turn (env : Env Id H) (analyst : Analyst Id H) (row session : Source Id H) :
    Point → Action Id → Option (Turn Id H)
  | .parsing, .parse text =>
    some (commit row session { session with
      contentText := some text
      processingStage := .analyzing
      progress := 1 / 2 } .indexing [])
  | .transcribing, .transcribe body =>
    match body.response with
    | none => none
    | some response =>
      -- the table checks that a duration is not negative
      if response.durationSeconds.any (fun d => decide (d < 0)) = true then none
      else some (commitLast row session { session with
        rawTranscriptText := some response.text
        durationSeconds := response.durationSeconds
        rawUtterances := response.utterances
        reviewUtterances :=
          if session.reviewUtterances = [] then response.utterances else session.reviewUtterances
        reviewState := some .awaitingReview
        status := .awaitingReview
        processingStage := .awaitingReview
        progress := 9 / 20 } [])
  | .indexing, .index =>
    if session.indexable then
      some (commit row session { session with processingStage := .graphing, progress := 7 / 10 }
        .analyzing [.chunks])
    else none
  | .analyzing, .dispatch provider known =>
    match analyst with
    | .server _ resumed => dispatchCheckpoint env row session resumed provider known
    | .agent _ => none
  | .extracting, .extract produced known => extractAnalysis env analyst row session produced known
  | .merging fresh, .merge warnings => applyContext env analyst row session fresh warnings
  | .graphing, .writeGraph complete => writeCheckpoint env row session complete
  | .finishing, .finish => finishAnalysis analyst row session
  | .concluding, .conclude =>
    some (commit row session { session with
      status := .processing
      processingStage := .graphing
      progress := 9 / 10 } .completing [])
  | .completing, .complete =>
    some (commitLast row session { session with
      status := .succeeded
      processingStage := .completed
      progress := 1 } [])
  | _, _ => none

end

end Maeglagi
