import Maeglagi.Sources.System

/-!
# What an edit does

One lemma for each operation that edits a source: the guards it passed and the row it commits.
-/

namespace Maeglagi.Sources

open Core Jobs

variable {Id H : Type} [DecidableEq Id]

theorem replaceProjects_eq_ok {dir : Directory Id} {source source' : Source Id H} {ids : List Id}
    (h : replaceProjects dir source ids = .ok source') :
    ids.Nodup ∧ source' = { source with projects := ids, projectId := ids.head? } := by
  simp only [replaceProjects, bind_eq_ok, require_eq_ok, decide_eq_true_eq, pure_eq_ok] at h
  obtain ⟨-, hnodup, -, -, rfl⟩ := h
  exact ⟨hnodup, rfl⟩

/-- A save replaces the utterances and the projects of a meeting that awaits review. -/
theorem saveReview_eq_ok {dir : Directory Id} {source source' : Source Id H}
    {request : ReviewPatch Id} (h : saveReview dir source request = .ok source') :
    source.kind = .meeting ∧ source.reviewState = some .awaitingReview ∧
      request.revision = source.reviewRevision ∧ request.utterances.length ≤ 1000 ∧
      ∃ utterances ids associationRevision,
        request.utterances.mapM reviewUtterance = .ok utterances ∧
        (utterances.map Utterance.id).Nodup ∧ ids.Nodup ∧
        source' = { source with
          projects := ids
          projectId := ids.head?
          associationRevision
          reviewUtterances := utterances
          reviewRevision := source.reviewRevision + 1 } := by
  simp only [saveReview, ReviewPatch.modelValidate, bind_eq_ok, require_eq_ok, pure_eq_ok,
    decide_eq_true_eq, validateUniqueUtterances_eq_ok] at h
  obtain ⟨body, ⟨-, hlen, utterances, hmap, rfl⟩, -, hkind, -, hstate, -, hrevision, -, hnodup, -,
    -, people, -, replaced, hreplaced, rfl⟩ := h
  obtain ⟨hids, rfl⟩ := replaceProjects_eq_ok hreplaced
  exact ⟨hkind, hstate, hrevision.symm, hlen, utterances, _, _, hmap, hnodup, hids, rfl⟩

/-- The status and the schedule of a row that goes back to the executor. -/
inductive Resubmitted : Executor → SourceStatus → Scheduling → Prop
  | postgres : Resubmitted .postgres .queued (.enqueue true)
  | celery : Resubmitted .celery .queued .none
  | refused : Resubmitted .celery .failed .none

omit [DecidableEq Id] in
theorem resubmitted {executor : Executor} {brokerUp : Bool} {source source' : Source Id H}
    {scheduling : Scheduling} (h : resubmit executor brokerUp source = (source', scheduling)) :
    ∃ status message, Resubmitted executor status scheduling ∧
      source' = { source with status, errorMessage := message } := by
  unfold resubmit at h
  split at h
  · cases h
    exact ⟨_, _, .postgres, rfl⟩
  · split_ifs at h <;> cases h
    · exact ⟨_, _, .celery, rfl⟩
    · exact ⟨_, _, .refused, rfl⟩

/-- The status, the stage and the schedule of a confirmed row that is submitted. -/
inductive Submitted (executor : Executor) :
    AnalysisMode → SourceStatus → ProcessingStage → Scheduling → Prop
  | agent : Submitted executor .agent .awaitingAgent .awaitingAgent .none
  | server {status : SourceStatus} {scheduling : Scheduling}
      (h : Resubmitted executor status scheduling) :
      Submitted executor .server status .confirmed scheduling

theorem Resubmitted.status {executor : Executor} {status : SourceStatus} {scheduling : Scheduling}
    (h : Resubmitted executor status scheduling) : status = .queued ∨ status = .failed := by
  cases h
  · exact .inl rfl
  · exact .inl rfl
  · exact .inr rfl

theorem Submitted.modes {executor : Executor} {mode : AnalysisMode} {status : SourceStatus}
    {stage : ProcessingStage} {scheduling : Scheduling}
    (h : Submitted executor mode status stage scheduling) :
    (mode = .agent ∧ status = .awaitingAgent ∧ stage = .awaitingAgent ∧ scheduling = .none) ∨
      (mode = .server ∧ stage = .confirmed ∧ Resubmitted executor status scheduling) := by
  cases h with
  | agent => exact .inl ⟨rfl, rfl, rfl, rfl⟩
  | server h => exact .inr ⟨rfl, rfl, h⟩

omit [DecidableEq Id] in
theorem submitted {executor : Executor} {brokerUp : Bool} {source source' : Source Id H}
    {scheduling : Scheduling}
    (h : submitConfirmed executor brokerUp source = (source', scheduling)) :
    ∃ status stage message, Submitted executor source.analysisMode status stage scheduling ∧
      source' = { source with status, processingStage := stage, errorMessage := message } := by
  unfold submitConfirmed at h
  split at h
  · next hmode =>
    cases h
    exact ⟨_, _, _, hmode ▸ .agent, rfl⟩
  · next hmode =>
    obtain ⟨status, message, hstatus, rfl⟩ := resubmitted h
    exact ⟨_, _, _, hmode ▸ .server hstatus, rfl⟩

/-- The branch of a meeting that awaits review writes the fields of a confirmation. -/
theorem confirmDraft_eq_ok {dir : Directory Id} {now : Instant} {source source' : Source Id H}
    (h : confirmDraft dir now source = .ok source') :
    ∃ utterances snapshot people,
      source' = { source with
        reviewUtterances := utterances
        transcriptText := some (transcriptOf utterances)
        confirmedSnapshot := some snapshot
        people
        confirmedAt := some now
        associationRevision := source.associationRevision + 1
        reviewState := some .confirmed } := by
  simp only [confirmDraft, bind_eq_ok, pure_eq_ok] at h
  obtain ⟨utterances, -, -, -, -, -, people, -, projects, -, owners, -, rfl⟩ := h
  exact ⟨_, _, _, rfl⟩

/-- A confirmation confirms the draft that awaits review, or submits a confirmed meeting whose
processing failed once more. -/
theorem confirmReview_eq_ok {executor : Executor} {brokerUp : Bool} {dir : Directory Id}
    {now : Instant} {source : Source Id H} {revision : Nat}
    {submitted : Source Id H × Scheduling}
    (h : confirmReview executor brokerUp dir now source revision = .ok (some submitted)) :
    source.kind = .meeting ∧ revision = source.reviewRevision ∧
      ((source.reviewState = some .confirmed ∧
          (source.status = .failed ∨ source.status = .enqueuePending) ∧
          submitted = submitConfirmed executor brokerUp source) ∨
        (source.reviewState = some .awaitingReview ∧ ∃ confirmed,
          confirmDraft dir now source = .ok confirmed ∧
          submitted = submitConfirmed executor brokerUp confirmed)) := by
  simp only [confirmReview, bind_eq_ok, require_eq_ok, decide_eq_true_eq] at h
  obtain ⟨-, hkind, -, hrevision, h⟩ := h
  refine ⟨hkind, hrevision.symm, ?_⟩
  split at h
  · next hstate =>
    split_ifs at h with hstatus
    · rw [pure_eq_ok, Option.some.injEq] at h
      exact .inl ⟨hstate, hstatus, h.symm⟩
    · rw [pure_eq_ok] at h
      cases h
  · next hstate =>
    simp only [bind_eq_ok, pure_eq_ok, Option.some.injEq] at h
    obtain ⟨confirmed, hconfirmed, rfl⟩ := h
    exact .inr ⟨hstate, confirmed, hconfirmed, rfl⟩
  · cases h

omit [DecidableEq Id] in
/-- A retry goes back to the executor with a transcription that failed. -/
theorem retryTranscription_eq_ok {executor : Executor} {brokerUp : Bool} {source : Source Id H}
    {submitted : Source Id H × Scheduling}
    (h : retryTranscription executor brokerUp source = .ok (some submitted)) :
    source.kind = .meeting ∧ source.transcriptSource = some .server ∧
      source.reviewState = some .transcribing ∧ source.status = .failed ∧
      submitted = resubmit executor brokerUp { source with
        status := .enqueuePending
        processingStage := .transcribing
        errorMessage := none } := by
  simp only [retryTranscription, bind_eq_ok, require_eq_ok, decide_eq_true_eq,
    Bool.and_eq_true] at h
  obtain ⟨-, hkind, -, ⟨htranscript, hstate⟩, h⟩ := h
  split_ifs at h
  · rw [pure_eq_ok] at h
    cases h
  · simp only [bind_eq_ok, require_eq_ok, decide_eq_true_eq, pure_eq_ok, Option.some.injEq] at h
    obtain ⟨-, hstatus, rfl⟩ := h
    exact ⟨hkind, htranscript, hstate, hstatus, rfl⟩

/-- A recovery puts reviewed utterances in the place of a failed transcription. -/
theorem recoverBrowserTranscript_eq_ok {rt : Runtime Id} {dir : Directory Id} {actor : Id}
    {job : Option (Job Id)} {source source' : Source Id H} {revision : Nat}
    {request : List (Utterance Id)}
    (h : recoverBrowserTranscript rt dir actor job source revision request = .ok source') :
    source.kind = .meeting ∧ source.status = .failed ∧ source.reviewState = some .transcribing ∧
      source.analysisMode = .server ∧ ∃ utterances rawText rawUtterances,
        request.mapM agentUtterance = .ok utterances ∧ utterances.length ≤ 1000 ∧
        (utterances.map Utterance.id).Nodup ∧
        (rawUtterances = source.rawUtterances ∨ rawUtterances = utterances) ∧
        source' = { source with
          reviewUtterances := utterances
          rawTranscriptText := rawText
          rawUtterances
          transcriptSource := some .browser
          reviewRevision := source.reviewRevision + 1
          reviewState := some .awaitingReview
          status := .awaitingReview
          processingStage := .awaitingReview
          progress := 9 / 20
          errorMessage := none } := by
  simp only [recoverBrowserTranscript, bind_eq_ok, require_eq_ok, pure_eq_ok, decide_eq_true_eq,
    Bool.and_eq_true] at h
  obtain ⟨utterances, hmap, -, ⟨⟨⟨hkind, hstatus⟩, hstate⟩, hmode⟩, -, -, -, -, -, -, -,
    ⟨⟨-, hlen⟩, -⟩, -, hnodup, -, -, rfl⟩ := h
  refine ⟨hkind, hstatus, hstate, hmode, utterances, _, _, hmap, hlen, hnodup, ?_, rfl⟩
  split_ifs
  · exact .inl rfl
  · exact .inr rfl

/-- New associations leave everything but projects, people and revisions alone. -/
theorem patchAssociations_eq_ok {dir : Directory Id} {source source' : Source Id H}
    {body : AssociationsPatch Id} (h : patchAssociations dir source body = .ok source') :
    body.projectIds.Nodup ∧ source' = { source with
      projects := body.projectIds
      projectId := body.projectIds.head?
      people := body.people
      associationRevision := source.associationRevision + 1
      reviewRevision :=
        if source.kind = .meeting ∧ source.reviewState ≠ some .confirmed then
          source.reviewRevision + 1
        else source.reviewRevision } := by
  simp only [patchAssociations, bind_eq_ok, require_eq_ok, pure_eq_ok] at h
  obtain ⟨-, -, -, -, -, -, replaced, hreplaced, rfl⟩ := h
  obtain ⟨hids, rfl⟩ := replaceProjects_eq_ok hreplaced
  exact ⟨hids, rfl⟩

omit [DecidableEq Id] in
/-- The text of an agent's document changes until its analysis is checkpointed. -/
theorem saveDocumentText_eq_ok {settings : Settings} {source source' : Source Id H}
    {revision : Nat} {text : Text}
    (h : saveDocumentText settings source revision text = .ok source') :
    source.analysisMode = .agent ∧ source.kind = .document ∧ source.analysisCheckpoint = none ∧
      source' = { source with
        contentText := some (strip text)
        reviewRevision := source.reviewRevision + 1
        status := .awaitingAgent
        processingStage := .awaitingAgent } := by
  simp only [saveDocumentText, bind_eq_ok, require_eq_ok, pure_eq_ok, decide_eq_true_eq,
    Bool.and_eq_true, Option.isNone_iff_eq_none] at h
  obtain ⟨-, ⟨hmode, hkind⟩, -, hcheckpoint, -, -, -, -, rfl⟩ := h
  exact ⟨hmode, hkind, hcheckpoint, rfl⟩

omit [DecidableEq Id] in
theorem checkedTranscript_eq_ok {utterances checked : List (Utterance Id)} :
    checkedTranscript utterances = .ok checked ↔ utterances.mapM agentUtterance = .ok checked := by
  unfold checkedTranscript
  cases utterances.mapM agentUtterance <;> simp

omit [DecidableEq Id] in
/-- An agent's transcript takes the place of the utterances under review. -/
theorem saveTranscript_eq_ok {source source' : Source Id H} {revision : Nat}
    {utterances : List (Utterance Id)}
    (h : Maeglagi.saveTranscript source revision utterances = .ok source') :
    source.analysisMode = .agent ∧ source.kind = .meeting ∧
      source.reviewState = some .awaitingReview ∧ utterances.length ≤ 1000 ∧
      ∃ checked rawText rawUtterances,
        utterances.mapM agentUtterance = .ok checked ∧ (checked.map Utterance.id).Nodup ∧
        (rawUtterances = source.rawUtterances ∨ rawUtterances = checked) ∧
        source' = { source with
          reviewUtterances := checked
          rawTranscriptText := rawText
          rawUtterances
          reviewRevision := source.reviewRevision + 1 } := by
  simp only [Maeglagi.saveTranscript, requireAgentReview, bind_eq_ok, require_eq_ok, pure_eq_ok,
    decide_eq_true_eq, Bool.and_eq_true, checkedTranscript_eq_ok] at h
  obtain ⟨-, ⟨-, ⟨⟨hmode, hkind⟩, hstate⟩, hrevision⟩, -, hlen, checked, hmap, -, hnodup, rfl⟩ := h
  refine ⟨hmode, hkind, hstate, hlen, checked, _, _, hmap, hnodup, ?_, rfl⟩
  split_ifs
  · exact .inr rfl
  · exact .inl rfl

/-- An agent's confirmation keeps the utterances with text. -/
theorem confirmTranscript_eq_ok {rt : Runtime Id} {dir : Directory Id} {now : Instant}
    {source source' : Source Id H} {revision : Nat}
    (h : Maeglagi.confirmTranscript rt dir now source revision = .ok source') :
    source.analysisMode = .agent ∧ source.kind = .meeting ∧
      source.reviewState = some .awaitingReview ∧ ∃ utterances snapshot people,
        source' = { source with
          transcriptText := some (transcriptOf utterances)
          reviewUtterances := utterances
          confirmedSnapshot := some snapshot
          confirmedAt := some now
          associationRevision := source.associationRevision + 1
          reviewState := some .confirmed
          status := .awaitingAgent
          processingStage := .awaitingAgent
          people } := by
  simp only [Maeglagi.confirmTranscript, requireAgentReview, bind_eq_ok, require_eq_ok, pure_eq_ok,
    decide_eq_true_eq, Bool.and_eq_true] at h
  obtain ⟨-, ⟨-, ⟨⟨hmode, hkind⟩, hstate⟩, -⟩, utterances, -, -, -, kept, -, rfl⟩ := h
  exact ⟨hmode, hkind, hstate, _, _, _, rfl⟩

omit [DecidableEq Id] in
theorem unscheduled_eq_ok {edited : Except ApiError (Source Id H)} {source : Source Id H}
    {scheduling : Scheduling} :
    unscheduled edited = .ok (some (source, scheduling)) ↔
      edited = .ok source ∧ scheduling = .none := by
  unfold unscheduled
  cases edited <;> simp [Except.map, eq_comm]

/-- What the operations make of a row, with what they do about its job. -/
inductive Edited (env : Env Id H) (source source' : Source Id H) : Scheduling → Edit Id → Prop
  | saved {dir : Directory Id} {request : ReviewPatch Id} {utterances : List (Utterance Id)}
      {ids : List Id} {associationRevision : Nat} (hkind : source.kind = .meeting)
      (hstate : source.reviewState = some .awaitingReview)
      (hlen : request.utterances.length ≤ 1000)
      (hmap : request.utterances.mapM reviewUtterance = .ok utterances)
      (hnodup : (utterances.map Utterance.id).Nodup) (hids : ids.Nodup)
      (hrow : source' = { source with
        projects := ids
        projectId := ids.head?
        associationRevision
        reviewUtterances := utterances
        reviewRevision := source.reviewRevision + 1 }) :
      Edited env source source' .none (.save dir request)
  | confirmed {brokerUp : Bool} {dir : Directory Id} {now : Instant} {revision : Nat}
      {scheduling : Scheduling} {status : SourceStatus} {stage : ProcessingStage}
      {message : Option Text} {utterances : List (Utterance Id)} {snapshot : Snapshot Id}
      {people : List (Id × PersonRole)} (hkind : source.kind = .meeting)
      (hstate : source.reviewState = some .awaitingReview)
      (hsubmitted : Submitted env.settings.processingExecutor source.analysisMode status stage
        scheduling)
      (hrow : source' = { source with
        reviewUtterances := utterances
        transcriptText := some (transcriptOf utterances)
        confirmedSnapshot := some snapshot
        people
        confirmedAt := some now
        associationRevision := source.associationRevision + 1
        reviewState := some .confirmed
        status
        processingStage := stage
        errorMessage := message }) :
      Edited env source source' scheduling (.confirm brokerUp dir now revision)
  | submittedAgain {brokerUp : Bool} {dir : Directory Id} {now : Instant} {revision : Nat}
      {scheduling : Scheduling} {status : SourceStatus} {stage : ProcessingStage}
      {message : Option Text} (hkind : source.kind = .meeting)
      (hstate : source.reviewState = some .confirmed)
      (hstatus : source.status = .failed ∨ source.status = .enqueuePending)
      (hsubmitted : Submitted env.settings.processingExecutor source.analysisMode status stage
        scheduling)
      (hrow : source' = { source with status, processingStage := stage, errorMessage := message }) :
      Edited env source source' scheduling (.confirm brokerUp dir now revision)
  | retried {brokerUp : Bool} {scheduling : Scheduling} {status : SourceStatus}
      {message : Option Text} (hkind : source.kind = .meeting)
      (hstate : source.reviewState = some .transcribing) (hstatus : source.status = .failed)
      (hresubmitted : Resubmitted env.settings.processingExecutor status scheduling)
      (hrow : source' = { source with
        status
        processingStage := .transcribing
        errorMessage := message }) :
      Edited env source source' scheduling (.retry brokerUp)
  | recovered {dir : Directory Id} {actor : Id} {revision : Nat} {request : List (Utterance Id)}
      {utterances rawUtterances : List (Utterance Id)} {rawText : Option Text}
      (hkind : source.kind = .meeting) (hmode : source.analysisMode = .server)
      (hstatus : source.status = .failed) (hstate : source.reviewState = some .transcribing)
      (hmap : request.mapM agentUtterance = .ok utterances) (hlen : utterances.length ≤ 1000)
      (hnodup : (utterances.map Utterance.id).Nodup)
      (hraw : rawUtterances = source.rawUtterances ∨ rawUtterances = utterances)
      (hrow : source' = { source with
        reviewUtterances := utterances
        rawTranscriptText := rawText
        rawUtterances
        transcriptSource := some .browser
        reviewRevision := source.reviewRevision + 1
        reviewState := some .awaitingReview
        status := .awaitingReview
        processingStage := .awaitingReview
        progress := 9 / 20
        errorMessage := none }) :
      Edited env source source' .none (.recover dir actor revision request)
  | associated {dir : Directory Id} {body : AssociationsPatch Id} (hids : body.projectIds.Nodup)
      (hrow : source' = { source with
        projects := body.projectIds
        projectId := body.projectIds.head?
        people := body.people
        associationRevision := source.associationRevision + 1
        reviewRevision :=
          if source.kind = .meeting ∧ source.reviewState ≠ some .confirmed then
            source.reviewRevision + 1
          else source.reviewRevision }) :
      Edited env source source' .none (.associate dir body)
  | texted {revision : Nat} {text : Text} (hmode : source.analysisMode = .agent)
      (hkind : source.kind = .document) (hcheckpoint : source.analysisCheckpoint = none)
      (hrow : source' = { source with
        contentText := some (strip text)
        reviewRevision := source.reviewRevision + 1
        status := .awaitingAgent
        processingStage := .awaitingAgent }) :
      Edited env source source' .none (.saveText revision text)
  | transcribed {revision : Nat} {request checked rawUtterances : List (Utterance Id)}
      {rawText : Option Text} (hmode : source.analysisMode = .agent)
      (hkind : source.kind = .meeting) (hstate : source.reviewState = some .awaitingReview)
      (hlen : request.length ≤ 1000) (hmap : request.mapM agentUtterance = .ok checked)
      (hnodup : (checked.map Utterance.id).Nodup)
      (hraw : rawUtterances = source.rawUtterances ∨ rawUtterances = checked)
      (hrow : source' = { source with
        reviewUtterances := checked
        rawTranscriptText := rawText
        rawUtterances
        reviewRevision := source.reviewRevision + 1 }) :
      Edited env source source' .none (.saveTranscript revision request)
  | confirmedByAgent {dir : Directory Id} {now : Instant} {revision : Nat}
      {utterances : List (Utterance Id)} {snapshot : Snapshot Id}
      {people : List (Id × PersonRole)} (hmode : source.analysisMode = .agent)
      (hkind : source.kind = .meeting) (hstate : source.reviewState = some .awaitingReview)
      (hrow : source' = { source with
        transcriptText := some (transcriptOf utterances)
        reviewUtterances := utterances
        confirmedSnapshot := some snapshot
        confirmedAt := some now
        associationRevision := source.associationRevision + 1
        reviewState := some .confirmed
        status := .awaitingAgent
        processingStage := .awaitingAgent
        people }) :
      Edited env source source' .none (.confirmTranscript dir now revision)

/-- Every edit that writes is one of these. -/
theorem edited_of_applyEdit {env : Env Id H} {job : Option (Job Id)} {source source' : Source Id H}
    {scheduling : Scheduling} {edit : Edit Id}
    (h : applyEdit env job source edit = .ok (some (source', scheduling))) :
    Edited env source source' scheduling edit := by
  cases edit with
  | save dir request =>
    obtain ⟨hedit, rfl⟩ := unscheduled_eq_ok.mp h
    obtain ⟨hkind, hstate, -, hlen, _, _, _, hmap, hnodup, hids, hrow⟩ := saveReview_eq_ok hedit
    exact .saved hkind hstate hlen hmap hnodup hids hrow
  | confirm brokerUp dir now revision =>
    obtain ⟨hkind, -, h⟩ := confirmReview_eq_ok h
    rcases h with ⟨hstate, hstatus, h⟩ | ⟨hstate, confirmed, hdraft, h⟩
    · obtain ⟨_, _, _, hsubmitted, hrow⟩ := submitted h.symm
      exact .submittedAgain hkind hstate hstatus hsubmitted hrow
    · obtain ⟨_, _, _, rfl⟩ := confirmDraft_eq_ok hdraft
      obtain ⟨_, _, _, hsubmitted, hrow⟩ := submitted h.symm
      exact .confirmed hkind hstate hsubmitted hrow
  | retry brokerUp =>
    obtain ⟨hkind, -, hstate, hstatus, h⟩ := retryTranscription_eq_ok h
    obtain ⟨_, _, hresubmitted, hrow⟩ := resubmitted h.symm
    exact .retried hkind hstate hstatus hresubmitted hrow
  | recover dir actor revision utterances =>
    obtain ⟨hedit, rfl⟩ := unscheduled_eq_ok.mp h
    obtain ⟨hkind, hstatus, hstate, hmode, _, _, _, hmap, hlen, hnodup, hraw, hrow⟩ :=
      recoverBrowserTranscript_eq_ok hedit
    exact .recovered hkind hmode hstatus hstate hmap hlen hnodup hraw hrow
  | associate dir body =>
    obtain ⟨hedit, rfl⟩ := unscheduled_eq_ok.mp h
    obtain ⟨hids, hrow⟩ := patchAssociations_eq_ok hedit
    exact .associated hids hrow
  | saveText revision text =>
    obtain ⟨hedit, rfl⟩ := unscheduled_eq_ok.mp h
    obtain ⟨hmode, hkind, hcheckpoint, hrow⟩ := saveDocumentText_eq_ok hedit
    exact .texted hmode hkind hcheckpoint hrow
  | saveTranscript revision utterances =>
    obtain ⟨hedit, rfl⟩ := unscheduled_eq_ok.mp h
    obtain ⟨hmode, hkind, hstate, hlen, _, _, _, hmap, hnodup, hraw, hrow⟩ :=
      saveTranscript_eq_ok hedit
    exact .transcribed hmode hkind hstate hlen hmap hnodup hraw hrow
  | confirmTranscript dir now revision =>
    obtain ⟨hedit, rfl⟩ := unscheduled_eq_ok.mp h
    obtain ⟨hmode, hkind, hstate, _, _, _, hrow⟩ := confirmTranscript_eq_ok hedit
    exact .confirmedByAgent hmode hkind hstate hrow

end Maeglagi.Sources
