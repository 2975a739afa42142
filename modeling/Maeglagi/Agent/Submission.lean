import Maeglagi.Sources.Attempt

/-!
# Submissions of an analysis

The first transaction of `_submit_analysis_locked`: a result is checked and admitted, or it
replays the one whose checkpoint exists.
-/

namespace Maeglagi

open Core

variable {Id H : Type} [DecidableEq Id] [DecidableEq H]

/-- The arguments of `submit_analysis` after the ids. -/
structure SubmissionRequest (H : Type) where
  expectedRevision : Nat
  expectedFingerprint : H
  supplied : Supplied

/-- What becomes of a submission that raises no error. -/
inductive Admission (Id H : Type) where
  | alreadyApplied
  | started (submission : Submission Id H) (turn : Turn Id H)

/-- `_source_text` -/
def sourceText (source : Source Id H) : Except ApiError Text := do
  require (decide (source.kind ≠ .meeting) || decide (source.reviewState = some .confirmed))
    (.workflow "review_required" "Transcript must be confirmed" 409)
  require (decide (strip source.analyzed ≠ []))
    (.workflow "text_required" "Source text is required" 409)
  return source.analyzed

/-- The directory a submission is resolved against. -/
def submissionDirectory (env : Env Id H) (dir : Directory Id) (source : Source Id H) :
    Except ApiError (Snapshot Id) :=
  match source.confirmedSnapshot with
  | some kept => .ok kept
  | none => directorySnapshot env.rt dir source

/-- `source_fingerprint` of a row. -/
def Source.fingerprint (digests : Digests Id H) (source : Source Id H) (text : Text)
    (directory : Snapshot Id) : H :=
  digests.source source.title text source.reviewRevision source.associationRevision directory

/-- The branch for a source that has a checkpoint. -/
def replaySubmission (env : Env Id H) (row : Source Id H) (directory : Snapshot Id)
    (fingerprint : H) (c : Checkpoint Id H) (request : SubmissionRequest H) :
    Except ApiError (Admission Id H) := do
  require (decide (c.mode = some .agent) && decide (c.fingerprint = fingerprint) &&
      decide (c.contextFingerprint = some request.expectedFingerprint))
    (.workflow "analysis_conflict" "Source analysis differs" 409)
  match request.supplied.parsed with
  | none => throw (.workflow "invalid_analysis" "Invalid extraction result" 422)
  | some replay => do
    let hash := env.digests.result replay.undiagnosed
    require (decide (c.resultHash = some hash))
      (.workflow "analysis_conflict" "A different analysis already exists" 409)
    let submission := ⟨fingerprint, request.expectedFingerprint, hash, directory, c.result⟩
    match c.phase with
    | .done => return .alreadyApplied
    | .extracted => return .started submission ⟨row, some (row, .merging false), []⟩
    | .contextApplied => return .started submission ⟨row, some (row, .graphing), []⟩

/-- The branch for a source without a checkpoint. -/
def admitSubmission (env : Env Id H) (known : List Text) (row : Source Id H) (text : Text)
    (directory : Snapshot Id) (fingerprint : H) (request : SubmissionRequest H) :
    Except ApiError (Admission Id H) := do
  require (decide (request.expectedFingerprint =
      env.digests.context fingerprint (sortedDecisions known)))
    (.workflow "stale_context" "Analysis context changed" 409)
  let validated ← validateExtraction env.rt request.supplied row.kind text known
  require row.indexable (.workflow "text_required" "No indexable text" 422)
  let assigned := { row with status := .processing, processingStage := .analyzing }
  return .started
    ⟨fingerprint, request.expectedFingerprint, env.digests.result validated, directory, validated⟩
    ⟨assigned, some (assigned, .extracting), [.chunks]⟩

/-- `_submit_analysis_locked` up to its first commit. -/
def submitAnalysis (env : Env Id H) (dir : Directory Id) (known : List Text) (row : Source Id H)
    (request : SubmissionRequest H) : Except ApiError (Admission Id H) := do
  require (decide (row.analysisMode = .agent))
    (.workflow "invalid_source" "Agent source required" 409)
  require (decide (row.reviewRevision = request.expectedRevision))
    (.workflow "stale_revision" "Source revision changed" 409)
  let text ← sourceText row
  let directory ← submissionDirectory env dir row
  let fingerprint := row.fingerprint env.digests text directory
  match row.analysisCheckpoint with
  | some c => replaySubmission env row directory fingerprint c request
  | none => admitSubmission env known row text directory fingerprint request

omit [DecidableEq Id] [DecidableEq H] in
/-- A source with a text to analyse is a document or has a confirmed review. -/
theorem sourceText_eq_ok {source : Source Id H} {text : Text} (h : sourceText source = .ok text) :
    (source.kind = .document ∨ source.reviewState = some .confirmed) ∧
      text = source.analyzed := by
  simp only [sourceText, bind_eq_ok, require_eq_ok, Bool.or_eq_true, decide_eq_true_eq,
    pure_eq_ok] at h
  obtain ⟨-, hreview, -, -, rfl⟩ := h
  refine ⟨?_, rfl⟩
  cases hkind : source.kind with
  | document => exact .inl rfl
  | meeting => exact .inr (hreview.resolve_left fun hne => hne hkind)

omit [DecidableEq Id] in
/-- A replay goes on with the checkpoint's result, where the checkpoint's phase left it. -/
theorem replaySubmission_started {env : Env Id H} {row : Source Id H} {directory : Snapshot Id}
    {fingerprint : H} {c : Checkpoint Id H} {request : SubmissionRequest H}
    {submission : Submission Id H} {t : Turn Id H}
    (h : replaySubmission env row directory fingerprint c request = .ok (.started submission t)) :
    c.resultHash = some submission.resultHash ∧
      ((c.phase = .extracted ∧ t = ⟨row, some (row, .merging false), []⟩) ∨
        (c.phase = .contextApplied ∧ t = ⟨row, some (row, .graphing), []⟩)) := by
  simp only [replaySubmission, bind_eq_ok, require_eq_ok] at h
  obtain ⟨-, -, h⟩ := h
  split at h
  · cases h
  · simp only [bind_eq_ok, require_eq_ok, decide_eq_true_eq] at h
    obtain ⟨-, hhash, h⟩ := h
    split at h
    · cases h
    · next hphase =>
      cases h
      exact ⟨hhash, .inl ⟨hphase, rfl⟩⟩
    · next hphase =>
      cases h
      exact ⟨hhash, .inr ⟨hphase, rfl⟩⟩

omit [DecidableEq Id] in
/-- A fresh submission carries the validated result and opens the row. -/
theorem admitSubmission_started {env : Env Id H} {known : List Text} {row : Source Id H}
    {text : Text} {directory : Snapshot Id} {fingerprint : H} {request : SubmissionRequest H}
    {submission : Submission Id H} {t : Turn Id H}
    (h : admitSubmission env known row text directory fingerprint request =
      .ok (.started submission t)) :
    ∃ validated, validateExtraction env.rt request.supplied row.kind text known = .ok validated ∧
      submission = ⟨fingerprint, request.expectedFingerprint, env.digests.result validated,
        directory, validated⟩ ∧
      t = ⟨{ row with status := .processing, processingStage := .analyzing },
        some ({ row with status := .processing, processingStage := .analyzing }, .extracting),
        [.chunks]⟩ := by
  simp only [admitSubmission, bind_eq_ok, require_eq_ok, pure_eq_ok] at h
  obtain ⟨-, -, validated, hvalidated, -, -, h⟩ := h
  cases h
  exact ⟨validated, hvalidated, rfl, rfl⟩

/-- A submission that starts works on an agent's source whose text may leave it. -/
theorem submitAnalysis_started {env : Env Id H} {dir : Directory Id} {known : List Text}
    {row : Source Id H} {request : SubmissionRequest H} {submission : Submission Id H}
    {t : Turn Id H}
    (h : submitAnalysis env dir known row request = .ok (.started submission t)) :
    row.analysisMode = .agent ∧
      (row.kind = .document ∨ row.reviewState = some .confirmed) ∧
      ∃ directory, submissionDirectory env dir row = .ok directory ∧
        ((∃ c, row.analysisCheckpoint = some c ∧
            replaySubmission env row directory
              (row.fingerprint env.digests row.analyzed directory) c request =
                .ok (.started submission t)) ∨
          (row.analysisCheckpoint = none ∧
            admitSubmission env known row row.analyzed directory
              (row.fingerprint env.digests row.analyzed directory) request =
                .ok (.started submission t))) := by
  simp only [submitAnalysis, bind_eq_ok, require_eq_ok, decide_eq_true_eq] at h
  obtain ⟨-, hmode, -, -, text, htext, directory, hdirectory, h⟩ := h
  obtain ⟨hgated, rfl⟩ := sourceText_eq_ok htext
  refine ⟨hmode, hgated, directory, hdirectory, ?_⟩
  split at h
  · next c hcheckpoint => exact .inl ⟨c, hcheckpoint, h⟩
  · next hcheckpoint => exact .inr ⟨hcheckpoint, h⟩

end Maeglagi
