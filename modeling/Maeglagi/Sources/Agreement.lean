import Maeglagi.Sources.Change

/-!
# Sessions and rows

While an attempt is at work the row keeps the columns of its session, up to those that an edit
may still change. A commit of the session then leaves its own values and those edits.
-/

namespace Maeglagi.Sources

open Core Jobs

variable {Id H : Type} [DecidableEq Id] [DecidableEq H]

/-- The session with the row's revisions, projects and people. -/
def reassociated (session row : Source Id H) : Source Id H :=
  { session with
    reviewRevision := row.reviewRevision
    associationRevision := row.associationRevision
    projectId := row.projectId
    projects := row.projects
    people := row.people }

/-- The session with the row's revisions, projects and people, text and status: what an edit
may have left of the row of an agent's session. -/
def retexted (session row : Source Id H) : Source Id H :=
  { reassociated session row with
    contentText := row.contentText
    status := row.status
    processingStage := row.processingStage }

/-- The row is the session's up to what an edit may change. -/
def Agrees (session row : Source Id H) : Prop := row = retexted session row

/-- The row is the session's up to its revisions, projects and people. -/
def AgreesFully (session row : Source Id H) : Prop := row = reassociated session row

/-- The session with the columns that a session sends taken from another row. -/
def overlaid (session assigned : Source Id H) : Source Id H :=
  { session with
    durationSeconds := assigned.durationSeconds
    rawTranscriptText := assigned.rawTranscriptText
    rawUtterances := assigned.rawUtterances
    reviewUtterances := assigned.reviewUtterances
    reviewState := assigned.reviewState
    contentText := assigned.contentText
    analysisCheckpoint := assigned.analysisCheckpoint
    status := assigned.status
    processingStage := assigned.processingStage
    progress := assigned.progress
    errorMessage := assigned.errorMessage }

section
omit [DecidableEq Id] [DecidableEq H]
variable {session row : Source Id H}

theorem Agrees.kind (h : Agrees session row) : session.kind = row.kind :=
  (congrArg Source.kind h).symm

theorem Agrees.analysisMode (h : Agrees session row) : session.analysisMode = row.analysisMode :=
  (congrArg Source.analysisMode h).symm

theorem Agrees.reviewState (h : Agrees session row) : session.reviewState = row.reviewState :=
  (congrArg Source.reviewState h).symm

theorem Agrees.reviewUtterances (h : Agrees session row) :
    session.reviewUtterances = row.reviewUtterances := (congrArg Source.reviewUtterances h).symm

theorem Agrees.analysisCheckpoint (h : Agrees session row) :
    session.analysisCheckpoint = row.analysisCheckpoint :=
  (congrArg Source.analysisCheckpoint h).symm

theorem Agrees.progress (h : Agrees session row) : session.progress = row.progress :=
  (congrArg Source.progress h).symm

theorem AgreesFully.status (h : AgreesFully session row) : session.status = row.status :=
  (congrArg Source.status h).symm

theorem AgreesFully.processingStage (h : AgreesFully session row) :
    session.processingStage = row.processingStage := (congrArg Source.processingStage h).symm

theorem AgreesFully.contentText (h : AgreesFully session row) :
    session.contentText = row.contentText := (congrArg Source.contentText h).symm

theorem AgreesFully.agrees (h : AgreesFully session row) :
    Agrees session row := by
  unfold Agrees retexted
  rw [← h.contentText, ← h.status, ← h.processingStage]
  exact h

end

/-- A commit under agreement: what the session assigned, over the edits. -/
theorem flush_of_agrees {session assigned row : Source Id H} (h : Agrees session row)
    (hkept : overlaid session assigned = assigned) :
    session.flush assigned row =
      { reassociated assigned row with
        contentText := written session.contentText assigned.contentText row.contentText
        status := written session.status assigned.status row.status
        processingStage :=
          written session.processingStage assigned.processingStage row.processingStage } := by
  have hduration : session.durationSeconds = row.durationSeconds :=
    (congrArg Source.durationSeconds h).symm
  have hraw : session.rawTranscriptText = row.rawTranscriptText :=
    (congrArg Source.rawTranscriptText h).symm
  have hrows : session.rawUtterances = row.rawUtterances := (congrArg Source.rawUtterances h).symm
  have hmessage : session.errorMessage = row.errorMessage := (congrArg Source.errorMessage h).symm
  unfold Source.flush
  rw [written_of_eq hduration, written_of_eq hraw, written_of_eq hrows,
    written_of_eq h.reviewUtterances, written_of_eq h.reviewState,
    written_of_eq h.analysisCheckpoint, written_of_eq h.progress, written_of_eq hmessage]
  -- the columns no session sends are the session's on both sides
  obtain ⟨⟩ := row
  obtain ⟨⟩ := session
  obtain ⟨⟩ := assigned
  simp only [Agrees, retexted, reassociated, overlaid, Source.mk.injEq] at h hkept ⊢
  simp_all

/-- A commit under full agreement leaves the session's values in every column it sends. -/
theorem flush_of_agreesFully {session assigned row : Source Id H} (h : AgreesFully session row)
    (hkept : overlaid session assigned = assigned) :
    session.flush assigned row = reassociated assigned row := by
  rw [flush_of_agrees h.agrees hkept, written_of_eq h.contentText, written_of_eq h.status,
    written_of_eq h.processingStage]
  rfl

/-- The session assigned nothing but the columns that an analysis works on. -/
def Worked (session assigned : Source Id H) : Prop :=
  assigned = { session with
    contentText := assigned.contentText
    analysisCheckpoint := assigned.analysisCheckpoint
    status := assigned.status
    processingStage := assigned.processingStage
    progress := assigned.progress }

/-- Such a commit writes nothing but those columns. -/
theorem worked_flush {session assigned : Source Id H} (h : Worked session assigned)
    (row : Source Id H) : Worked row (session.flush assigned row) := by
  have hduration := congrArg Source.durationSeconds h
  have hraw := congrArg Source.rawTranscriptText h
  have hrows := congrArg Source.rawUtterances h
  have hreview := congrArg Source.reviewUtterances h
  have hstate := congrArg Source.reviewState h
  have hmessage := congrArg Source.errorMessage h
  unfold Worked Source.flush
  simp only [hduration, hraw, hrows, hreview, hstate, hmessage, written_self]

theorem flush_checkpoint {session assigned row : Source Id H} (h : Agrees session row) :
    (session.flush assigned row).analysisCheckpoint = assigned.analysisCheckpoint :=
  written_of_eq h.analysisCheckpoint _

omit [DecidableEq Id] [DecidableEq H] in
theorem Agrees.trans {session row row' : Source Id H} (h : Agrees session row)
    (h' : Agrees row row') : Agrees session row' := by
  unfold Agrees at h h' ⊢
  rw [h] at h'
  exact h'

omit [DecidableEq Id] [DecidableEq H] in
theorem AgreesFully.trans {session row row' : Source Id H} (h : AgreesFully session row)
    (h' : AgreesFully row row') : AgreesFully session row' := by
  unfold AgreesFully at h h' ⊢
  rw [h] at h'
  exact h'

omit [DecidableEq Id] [DecidableEq H] in
/-- The row a full commit leaves agrees with the session again. -/
theorem agreesFully_reassociated (assigned row : Source Id H) :
    AgreesFully assigned (reassociated assigned row) := rfl

end Maeglagi.Sources
