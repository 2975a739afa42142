import Maeglagi.Sources.Invariant

/-!
# How sources begin

The rows that the creating operations commit, and the coherence of every reachable state.
-/

namespace Maeglagi.Sources

open Core Jobs

variable {Id H : Type} [DecidableEq Id]

/-- The status and the schedule of a new row that goes to the executor. -/
inductive Persisted : Executor → SourceStatus → Scheduling → Prop
  | postgres : Persisted .postgres .queued (.enqueue false)
  | celery : Persisted .celery .queued .none
  | refused : Persisted .celery .failed .none

theorem Persisted.status {executor : Executor} {status : SourceStatus} {scheduling : Scheduling}
    (h : Persisted executor status scheduling) : status = .queued ∨ status = .failed := by
  cases h
  · exact .inl rfl
  · exact .inl rfl
  · exact .inr rfl

omit [DecidableEq Id] in
theorem persisted {executor : Executor} {brokerUp : Bool} {source source' : Source Id H}
    {scheduling : Scheduling} (hqueued : source.status = .queued)
    (h : persistAndEnqueue executor brokerUp source = (source', scheduling)) :
    ∃ status message, Persisted executor status scheduling ∧
      source' = { source with status, errorMessage := message } := by
  unfold persistAndEnqueue at h
  have hself : source = { source with status := .queued, errorMessage := source.errorMessage } := by
    rw [← hqueued]
  split at h
  · cases h
    exact ⟨_, _, .postgres, hself⟩
  · split_ifs at h <;> cases h
    · exact ⟨_, _, .celery, hself⟩
    · exact ⟨_, _, .refused, rfl⟩

/-- The rows that the operations create, with what they do about its job. -/
inductive Created (env : Env Id H) (ids : SourceIds Id) (source : Source Id H) :
    Scheduling → Creation Id → Prop
  | document {brokerUp : Bool} {file : Upload} {path : Text} {status : SourceStatus}
      {message : Option Text} {scheduling : Scheduling}
      (hpersisted : Persisted env.settings.processingExecutor status scheduling)
      (hrow : source = { Source.new ids .document file.filename path file.sizeBytes with
        status
        processingStage := .uploaded
        errorMessage := message }) :
      Created env ids source scheduling (.document brokerUp file)
  | recording {brokerUp : Bool} {dir : Directory Id} {file : Upload} {path : Text}
      {liveDraft : Option (List (Utterance Id))} {draft : List (Utterance Id)}
      {projects : List Id} {status : SourceStatus} {message : Option Text}
      {scheduling : Scheduling} (hdraft : checkedDraft (liveDraft.getD []) = .ok draft)
      (hprojects : projects.Nodup)
      (hpersisted : Persisted env.settings.processingExecutor status scheduling)
      (hrow : source = { Source.new ids .meeting file.filename path file.sizeBytes with
        transcriptSource := some .server
        reviewState := some .transcribing
        reviewUtterances := draft
        processingStage := .uploaded
        progress := 0
        projects
        projectId := projects.head?
        status
        errorMessage := message }) :
      Created env ids source scheduling (.recording brokerUp dir file liveDraft projects)
  | transcript {dir : Directory Id} {body : TranscriptSourceRequest Id} {path text : Text}
      {size : Int} {utterances : List (Utterance Id)} (htext : text ≠ [])
      (hmap : (body.utterances.getD [initialUtterance text]).mapM reviewUtterance =
        .ok utterances)
      (hnodup : (utterances.map Utterance.id).Nodup) (hprojects : body.projectIds.Nodup)
      (hrow : source = { Source.new ids .meeting body.title path size with
        transcriptSource := some .browser
        durationSeconds := body.durationSeconds
        transcriptText := some text
        reviewUtterances := utterances
        reviewState := some .awaitingReview
        status := .awaitingReview
        processingStage := .awaitingReview
        progress := 9 / 20
        projects := body.projectIds
        projectId := body.projectIds.head? }) :
      Created env ids source .none (.transcript dir body)
  | agentMedia {kind : SourceKind} {file : Upload} {path : Text}
      (hrow : source = { Source.new ids kind file.filename path file.sizeBytes with
        analysisMode := .agent
        status := .awaitingAgent
        processingStage := .awaitingAgent
        reviewState := if kind = .meeting then some .awaitingReview else none
        transcriptSource := if kind = .meeting then some .agent else none }) :
      Created env ids source .none (.agentMedia kind file)
  | agentMeeting {dir : Directory Id} {title text path : Text} {size : Int} {projects : List Id}
      {initial : Utterance Id} (hinitial : agentUtterance (initialUtterance text) = .ok initial)
      (hrow : source = { Source.new ids .meeting (strip title) path size with
        analysisMode := .agent
        transcriptSource := some .agent
        rawTranscriptText := some text
        reviewState := some .awaitingReview
        status := .awaitingReview
        processingStage := .awaitingReview
        progress := 9 / 20
        projectId := projects.eraseDups.head?
        projects := projects.eraseDups
        reviewUtterances := [initial] }) :
      Created env ids source .none (.agentText dir title text .meeting projects)
  | agentDocument {dir : Directory Id} {title text path : Text} {size : Int} {projects : List Id}
      (hrow : source = { Source.new ids .document (strip title) path size with
        analysisMode := .agent
        contentText := some text
        status := .awaitingAgent
        processingStage := .awaitingAgent
        projectId := projects.eraseDups.head?
        projects := projects.eraseDups }) :
      Created env ids source .none (.agentText dir title text .document projects)

omit [DecidableEq Id] in
theorem uploadSource_eq_ok {rt : Runtime Id} {settings : Settings} {ids : SourceIds Id}
    {kind : SourceKind} {file : Upload} {source : Source Id H}
    (h : uploadSource rt settings ids kind file = .ok source) :
    ∃ path, source = Source.new ids kind file.filename path file.sizeBytes := by
  simp only [uploadSource, bind_eq_ok, require_eq_ok, pure_eq_ok] at h
  obtain ⟨-, -, -, -, -, -, rfl⟩ := h
  exact ⟨_, rfl⟩

/-- Every new row is one of these. -/
theorem created_of_create {env : Env Id H} {ids : SourceIds Id} {creation : Creation Id}
    {source : Source Id H} {scheduling : Scheduling}
    (h : create env ids creation = .ok (source, scheduling)) :
    Created env ids source scheduling creation := by
  cases creation with
  | document brokerUp file =>
    simp only [create, uploadDocument, bind_eq_ok, pure_eq_ok] at h
    obtain ⟨uploaded, hupload, h⟩ := h
    obtain ⟨path, rfl⟩ := uploadSource_eq_ok hupload
    obtain ⟨status, message, hpersisted, hrow⟩ := persisted rfl h
    exact .document hpersisted hrow
  | recording brokerUp dir file liveDraft projects =>
    simp only [create, uploadRecording, bind_eq_ok, pure_eq_ok] at h
    obtain ⟨draft, hdraft, uploaded, hupload, replaced, hreplaced, h⟩ := h
    obtain ⟨path, rfl⟩ := uploadSource_eq_ok hupload
    obtain ⟨hprojects, rfl⟩ := replaceProjects_eq_ok hreplaced
    obtain ⟨status, message, hpersisted, hrow⟩ := persisted rfl h
    exact .recording hdraft hprojects hpersisted hrow
  | transcript dir body =>
    simp only [create, bind_eq_ok, pure_eq_ok, Prod.mk.injEq] at h
    obtain ⟨made, h, rfl, rfl⟩ := h
    simp only [createTranscriptSource, bind_eq_ok, require_eq_ok, decide_eq_true_eq] at h
    obtain ⟨-, -, -, htext, h⟩ := h
    split at h
    · next checked hchecked =>
      simp only [bind_eq_ok, validateUniqueUtterances_eq_ok] at h
      obtain ⟨_, ⟨⟩, -, hnodup, hreplaced⟩ := h
      obtain ⟨hprojects, rfl⟩ := replaceProjects_eq_ok hreplaced
      exact .transcript htext hchecked hnodup hprojects rfl
    · cases h
  | agentMedia kind file =>
    simp only [create, uploadAgentMedia, bind_eq_ok, pure_eq_ok, Prod.mk.injEq] at h
    obtain ⟨made, ⟨uploaded, hupload, rfl⟩, rfl, rfl⟩ := h
    obtain ⟨path, rfl⟩ := uploadSource_eq_ok hupload
    exact .agentMedia rfl
  | agentText dir title text kind projects =>
    simp only [create, createTextSource, bind_eq_ok, require_eq_ok, pure_eq_ok,
      Prod.mk.injEq] at h
    obtain ⟨made, ⟨-, -, -, -, -, -, h⟩, rfl, rfl⟩ := h
    cases kind with
    | meeting =>
      simp only [bind_eq_ok, pure_eq_ok] at h
      obtain ⟨initial, hinitial, rfl⟩ := h
      exact .agentMeeting hinitial rfl
    | document =>
      simp only [pure_eq_ok] at h
      exact .agentDocument h.symm

/-- The source is a recording that an agent uploaded. -/
def Creation.IsMedia (creation : Creation Id) : Prop :=
  ∃ file, creation = .agentMedia .meeting file

/-- A new row is coherent and has no checkpoint, and an agent's row schedules nothing. -/
theorem Created.lifecycle {env : Env Id H} {ids : SourceIds Id} {creation : Creation Id}
    {source : Source Id H} {scheduling : Scheduling}
    (h : Created env ids source scheduling creation) :
    Lifecycle creation.IsMedia source ∧ source.analysisCheckpoint = none ∧
      (source.analysisMode = .agent → scheduling = .none) := by
  cases h with
  | document hpersisted hrow =>
    subst hrow
    refine ⟨lifecycle_open rfl (fun _ => rfl) (fun hs => by cases hs) (.inr hpersisted.status)
      (fun hs => by cases hs) (fun hne => absurd rfl hne), rfl, fun hagent => by cases hagent⟩
  | recording _ _ hpersisted hrow =>
    subst hrow
    refine ⟨lifecycle_open rfl (fun hd => by cases hd) (fun hs => by cases hs)
      (.inr hpersisted.status)
      (fun hs => by cases hs) (fun hne => absurd rfl hne), rfl,
      fun hagent => by cases hagent⟩
  | transcript _ _ _ _ hrow =>
    subst hrow
    refine ⟨⟨?_, fun _ => rfl, fun _ => .inl rfl, ?_, ?_, ?_, ?_, ?_⟩, rfl, fun _ => rfl⟩
    · rintro ⟨⟩
    · rintro ⟨⟩
    · rintro ⟨⟩
    · intro hne
      exact absurd rfl hne
    · rintro - ⟨⟩
    · rintro ⟨⟩
  | @agentMedia kind file path hrow =>
    subst hrow
    refine ⟨⟨?_, ?_, ?_, ?_, ?_, ?_, ?_, ?_⟩, rfl, fun _ => rfl⟩
    · rintro ⟨⟩
      rfl
    · rintro ⟨⟩
    · intro hawaiting
      cases kind with
      | document => cases hawaiting
      | meeting => exact .inr ⟨⟨file, rfl⟩, rfl⟩
    · rintro ⟨⟩
    · rintro ⟨⟩
    · intro hne
      exact absurd rfl hne
    · rintro ⟨⟩
    · intro _
      refine ⟨?_, .inl rfl⟩
      cases kind <;> rintro ⟨⟩
  | agentMeeting _ hrow =>
    subst hrow
    refine ⟨⟨?_, fun _ => rfl, fun _ => .inl rfl, ?_, ?_, ?_, ?_, ?_⟩, rfl, fun _ => rfl⟩
    · rintro ⟨⟩
    · rintro ⟨⟩
    · rintro ⟨⟩
    · intro hne
      exact absurd rfl hne
    · rintro - ⟨⟩
    · exact fun _ => ⟨(by rintro ⟨⟩), .inr (.inl rfl)⟩
  | agentDocument hrow =>
    subst hrow
    refine ⟨⟨fun _ => rfl, ?_, ?_, ?_, ?_, ?_, ?_, ?_⟩, rfl, fun _ => rfl⟩
    · rintro ⟨⟩
    · rintro ⟨⟩
    · rintro ⟨⟩
    · rintro ⟨⟩
    · intro hne
      exact absurd rfl hne
    · rintro ⟨⟩
    · exact fun _ => ⟨(by rintro ⟨⟩), .inl rfl⟩

variable [DecidableEq H]

/-- A run from a creation: every state that the source may reach. -/
def ReachedFrom (env : Env Id H) (creation : Creation Id) (s : State Id H) : Prop :=
  ∃ ids source scheduling now, create env ids creation = .ok (source, scheduling) ∧
    RunOf (step env) anyEvent (State.created source scheduling now) s

theorem reachable_iff {env : Env Id H} {s : State Id H} :
    Reachable env s ↔ ∃ creation, ReachedFrom env creation s := by
  constructor
  · rintro ⟨_, ⟨ids, creation, source, scheduling, now, hcreate, rfl⟩, hrun⟩
    exact ⟨creation, ids, source, scheduling, now, hcreate, hrun⟩
  · rintro ⟨creation, ids, source, scheduling, now, hcreate, hrun⟩
    exact ⟨_, ⟨ids, creation, source, scheduling, now, hcreate, rfl⟩, hrun⟩

omit [DecidableEq H] in
/-- The state right after a creation is coherent. -/
theorem coherent_created {env : Env Id H} {ids : SourceIds Id} {creation : Creation Id}
    {source : Source Id H} {scheduling : Scheduling} {now : Nat}
    (h : create env ids creation = .ok (source, scheduling)) :
    Coherent creation.IsMedia (State.created source scheduling now) := by
  obtain ⟨hlife, -, hagent⟩ := (created_of_create h).lifecycle
  refine ⟨?_, ?_, ?_⟩
  · unfold State.created
    rw [scheduled_source]
    exact hlife
  · intro analyst session point hworking
    unfold State.created at hworking
    rw [scheduled_active] at hworking
    cases hworking
  · intro hmode
    unfold State.created at hmode ⊢
    rw [scheduled_source] at hmode
    rw [hagent hmode]
    exact ⟨rfl, fun _ => rfl, rfl⟩

/-- Every reachable state is coherent. -/
theorem ReachedFrom.coherent {env : Env Id H} {creation : Creation Id} {s : State Id H}
    (h : ReachedFrom env creation s) : Coherent creation.IsMedia s := by
  obtain ⟨ids, source, scheduling, now, hcreate, hrun⟩ := h
  exact RunOf.invariant (fun _ _ _ hs _ hstep => Coherent.step hs hstep) hrun
    (coherent_created hcreate)

end Maeglagi.Sources
