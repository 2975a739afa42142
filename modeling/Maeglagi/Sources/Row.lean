import Mathlib.Data.Rat.Defs
import Maeglagi.Core.Fallible
import Maeglagi.Ontology
import Maeglagi.Sources.Directory

/-!
# Source rows

The row of a source in `sources`, its workflow values, and the analysis checkpoint it
carries. Digests stand for the hex digests of `hashlib.sha256`.
-/

namespace Maeglagi

open Core

section

/-- `Source.kind` -/
inductive SourceKind where
  | document | meeting
  deriving DecidableEq, Repr

/-- `Source.analysis_mode` -/
inductive AnalysisMode where
  | server | agent
  deriving DecidableEq, Repr

/-- `Source.transcript_source` -/
inductive TranscriptSource where
  | server | browser | agent
  deriving DecidableEq, Repr

/-- `SourceStatus` -/
inductive SourceStatus where
  | queued | enqueuePending | processing | awaitingReview | awaitingAgent | succeeded | failed
  deriving DecidableEq, Repr

/-- `ReviewState` -/
inductive ReviewState where
  | transcribing | awaitingReview | confirmed
  deriving DecidableEq, Repr

/-- `ProcessingStage` -/
inductive ProcessingStage where
  | uploaded | transcribing | awaitingReview | awaitingAgent | confirmed | analyzing
  | graphing | completed
  deriving DecidableEq, Repr

/-- `SourcePerson.role` -/
inductive PersonRole where
  | participant | author
  deriving DecidableEq, Repr

/-- A stored utterance of a transcript; times are in seconds. -/
structure Utterance (Id : Type) where
  id : Text
  personId : Option Id
  speakerName : Text
  text : Text
  startSeconds : Option Rat
  endSeconds : Option Rat
  deriving DecidableEq

/-- `checkpoint["phase"]` -/
inductive Phase where
  | extracted | contextApplied | done
  deriving DecidableEq, Repr

/-- `Source.analysis_checkpoint`; the fields an agent's submission adds are optional. -/
structure Checkpoint (Id H : Type) where
  mode : Option AnalysisMode
  fingerprint : H
  contextFingerprint : Option H
  decisionFingerprint : H
  resultHash : Option H
  phase : Phase
  result : AnalysisResult
  graph : ResolvedGraph Id
  contextWarnings : List Text
  deriving DecidableEq

/-- A row of `sources`, with the ids of its rows in `source_projects` in their order and its
rows in `source_people`. -/
structure Source (Id H : Type) where
  id : Id
  workspaceId : Id
  ownerId : Id
  kind : SourceKind
  title : Text
  objectPath : Text
  sizeBytes : Int
  analysisMode : AnalysisMode
  transcriptSource : Option TranscriptSource
  durationSeconds : Option Rat
  transcriptText : Option Text
  rawTranscriptText : Option Text
  rawUtterances : List (Utterance Id)
  reviewUtterances : List (Utterance Id)
  reviewState : Option ReviewState
  reviewRevision : Nat
  projectId : Option Id
  projects : List Id
  people : List (Id × PersonRole)
  associationRevision : Nat
  confirmedAt : Option Instant
  confirmedSnapshot : Option (Snapshot Id)
  contentText : Option Text
  analysisCheckpoint : Option (Checkpoint Id H)
  status : SourceStatus
  processingStage : ProcessingStage
  progress : Rat
  errorMessage : Option Text
  deriving DecidableEq

variable {Id H : Type} [DecidableEq Id] [DecidableEq H]

/-- The value a session leaves in a column: its own where it changed it, else the row's. -/
def written {α : Type} [DecidableEq α] (loaded assigned current : α) : α :=
  if assigned = loaded then current else assigned

/-- The row after a session that loaded one row and assigned another one commits: only the
columns it changed are sent. -/
def Source.flush (loaded assigned current : Source Id H) : Source Id H :=
  { current with
    durationSeconds :=
      written loaded.durationSeconds assigned.durationSeconds current.durationSeconds
    rawTranscriptText :=
      written loaded.rawTranscriptText assigned.rawTranscriptText current.rawTranscriptText
    rawUtterances := written loaded.rawUtterances assigned.rawUtterances current.rawUtterances
    reviewUtterances :=
      written loaded.reviewUtterances assigned.reviewUtterances current.reviewUtterances
    reviewState := written loaded.reviewState assigned.reviewState current.reviewState
    contentText := written loaded.contentText assigned.contentText current.contentText
    analysisCheckpoint :=
      written loaded.analysisCheckpoint assigned.analysisCheckpoint current.analysisCheckpoint
    status := written loaded.status assigned.status current.status
    processingStage :=
      written loaded.processingStage assigned.processingStage current.processingStage
    progress := written loaded.progress assigned.progress current.progress
    errorMessage := written loaded.errorMessage assigned.errorMessage current.errorMessage }

/-- A column that the session finds as it left it takes the session's value. -/
theorem written_of_eq {α : Type} [DecidableEq α] {loaded current : α} (h : loaded = current)
    (assigned : α) : written loaded assigned current = assigned := by
  unfold written
  split
  · next heq => rw [heq, h]
  · rfl

@[simp] theorem written_self {α : Type} [DecidableEq α] (loaded current : α) :
    written loaded loaded current = current := if_pos rfl

theorem written_of_ne {α : Type} [DecidableEq α] {loaded assigned : α} (h : assigned ≠ loaded)
    (current : α) : written loaded assigned current = assigned := if_neg h

end

/-!
## Checking utterances

`ReviewUtterance` and `AgentUtterance` put the same limits on an utterance and clean it the
same way. A checked utterance passes the check again and is left as it is.
-/

section

variable {Id H : Type} [DecidableEq Id] [DecidableEq H]

/-- How an operation fails; whatever it changed in its session is rolled back. -/
inductive ApiError where
  | http (status : Nat) (detail : String)
  | workflow (code detail : String) (status : Nat)
  | validation
  deriving DecidableEq, Repr

/-- The field limits of `ReviewUtterance` and `AgentUtterance`. -/
def Utterance.withinLimits (u : Utterance Id) : Bool :=
  decide (1 ≤ u.id.length) && decide (u.id.length ≤ 80) &&
    decide (1 ≤ u.speakerName.length) && decide (u.speakerName.length ≤ 120) &&
    decide (u.text.length ≤ 10000) && u.startSeconds.all (fun s => decide (0 ≤ s)) &&
    u.endSeconds.all (fun s => decide (0 ≤ s))

/-- The utterance with its texts stripped. -/
def Utterance.stripped (u : Utterance Id) : Utterance Id :=
  { u with id := strip u.id, speakerName := strip u.speakerName, text := strip u.text }

/-- The utterance ends before it starts. -/
def Utterance.reversed (u : Utterance Id) : Bool :=
  u.startSeconds.any fun start => u.endSeconds.any fun finish => decide (finish < start)

/-- `model_validate`: the limits, and then `clean`. -/
def Utterance.modelValidate (u : Utterance Id) : Except ApiError (Utterance Id) :=
  if u.withinLimits then
    if u.stripped.id = [] ∨ u.stripped.speakerName = [] ∨ u.reversed = true then
      .error .validation
    else .ok u.stripped
  else .error .validation

/-- `ReviewUtterance.model_validate` -/
def reviewUtterance (u : Utterance Id) : Except ApiError (Utterance Id) := u.modelValidate

/-- `AgentUtterance.model_validate`; a stored utterance has no field it forbids. -/
def agentUtterance (u : Utterance Id) : Except ApiError (Utterance Id) := u.modelValidate

/-- `validate_unique_utterances` -/
def validateUniqueUtterances (utterances : List (Utterance Id)) : Except ApiError Unit :=
  if (utterances.map Utterance.id).Nodup then .ok ()
  else .error (.http 422 "Duplicate utterance ID")

omit [DecidableEq Id] in
@[simp] theorem validateUniqueUtterances_eq_ok {utterances : List (Utterance Id)} {u : Unit} :
    validateUniqueUtterances utterances = .ok u ↔ (utterances.map Utterance.id).Nodup := by
  unfold validateUniqueUtterances
  split_ifs with h <;> simp [h]

omit [DecidableEq Id] in
theorem modelValidate_eq_ok {u v : Utterance Id} : u.modelValidate = .ok v ↔
    u.withinLimits = true ∧ u.stripped.id ≠ [] ∧ u.stripped.speakerName ≠ [] ∧
      u.reversed = false ∧ u.stripped = v := by
  unfold Utterance.modelValidate
  split_ifs with hlimits hclean
  · simp only [false_iff]
    rintro ⟨-, hid, hname, hrev, -⟩
    rcases hclean with h | h | h
    · exact hid h
    · exact hname h
    · rw [hrev] at h
      cases h
  · simp only [not_or, Bool.not_eq_true] at hclean
    simp [hlimits, hclean]
  · simp [hlimits]

/-- The utterance passes the check and stays as it is. -/
def Utterance.Clean (u : Utterance Id) : Prop := u.modelValidate = .ok u

instance (u : Utterance Id) : Decidable u.Clean :=
  inferInstanceAs (Decidable (u.modelValidate = .ok u))

omit [DecidableEq Id] in
theorem stripped_withinLimits {u : Utterance Id} (h : u.withinLimits = true)
    (hid : u.stripped.id ≠ []) (hname : u.stripped.speakerName ≠ []) :
    u.stripped.withinLimits = true := by
  simp only [Utterance.withinLimits, Bool.and_eq_true, decide_eq_true_eq] at h ⊢
  obtain ⟨⟨⟨⟨⟨⟨_, hid'⟩, _⟩, hname'⟩, htext⟩, hstart⟩, hend⟩ := h
  have hi := List.length_pos_iff.mpr hid
  have hn := List.length_pos_iff.mpr hname
  have hlen : u.stripped.id.length ≤ 80 := (length_strip_le u.id).trans hid'
  have hlen' : u.stripped.speakerName.length ≤ 120 := (length_strip_le u.speakerName).trans hname'
  have hlen'' : u.stripped.text.length ≤ 10000 := (length_strip_le u.text).trans htext
  exact ⟨⟨⟨⟨⟨⟨hi, hlen⟩, hn⟩, hlen'⟩, hlen''⟩, hstart⟩, hend⟩

omit [DecidableEq Id] in
/-- What the check lets through passes it again, unchanged. -/
theorem clean_of_modelValidate {u v : Utterance Id} (h : u.modelValidate = .ok v) : v.Clean := by
  obtain ⟨hlimits, hid, hname, hrev, rfl⟩ := modelValidate_eq_ok.mp h
  have htwice : u.stripped.stripped = u.stripped := by simp [Utterance.stripped]
  refine modelValidate_eq_ok.mpr ⟨stripped_withinLimits hlimits hid hname, ?_, ?_, hrev, htwice⟩
  · rwa [htwice]
  · rwa [htwice]

omit [DecidableEq Id] in
theorem mapM_modelValidate_of_clean {l : List (Utterance Id)} (h : ∀ u ∈ l, u.Clean) :
    l.mapM Utterance.modelValidate = .ok l := by
  induction l with
  | nil => rfl
  | cons u l ih =>
    have hu : u.modelValidate = .ok u := h u (List.mem_cons_self ..)
    rw [List.mapM_cons, hu, ih fun v hv => h v (List.mem_cons_of_mem _ hv)]
    rfl

omit [DecidableEq Id] in
theorem clean_of_mapM {l checked : List (Utterance Id)}
    (h : l.mapM Utterance.modelValidate = .ok checked) :
    checked.length = l.length ∧ ∀ u ∈ checked, u.Clean := by
  induction l generalizing checked with
  | nil =>
    rw [List.mapM_nil, pure_eq_ok] at h
    subst h
    simp
  | cons u l ih =>
    rw [List.mapM_cons, bind_eq_ok] at h
    obtain ⟨v, hv, h⟩ := h
    obtain ⟨rest, hrest, h⟩ := bind_eq_ok.mp h
    rw [pure_eq_ok] at h
    subst h
    obtain ⟨hlen, hclean⟩ := ih hrest
    refine ⟨by simp [hlen], ?_⟩
    intro w hw
    rcases List.mem_cons.mp hw with rfl | hw
    · exact clean_of_modelValidate hv
    · exact hclean w hw

omit [DecidableEq Id] in
/-- What the check makes of a list are the utterances with their texts stripped. -/
theorem eq_map_stripped_of_mapM {l checked : List (Utterance Id)}
    (h : l.mapM Utterance.modelValidate = .ok checked) : checked = l.map Utterance.stripped := by
  induction l generalizing checked with
  | nil =>
    rw [List.mapM_nil, pure_eq_ok] at h
    exact h.symm
  | cons u l ih =>
    rw [List.mapM_cons, bind_eq_ok] at h
    obtain ⟨v, hv, h⟩ := h
    obtain ⟨rest, hrest, h⟩ := bind_eq_ok.mp h
    rw [pure_eq_ok] at h
    rw [← h, ih hrest, List.map_cons, (modelValidate_eq_ok.mp hv).2.2.2.2]

end

end Maeglagi
