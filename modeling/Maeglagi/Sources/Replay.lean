import Maeglagi.Agent.Validation
import Maeglagi.PlainSystem

/-!
# Submissions that are sent again

Once a submission has its checkpoint, its request is recognised by what the checkpoint recorded
of it. The recorded digest is of the result after promotion, the replayed one of the result as
it was sent.
-/

namespace Maeglagi

open Core

/-- What a checkpoint records of the submission that it belongs to. -/
def Checkpoint.signature {Id H : Type} (c : Checkpoint Id H) :
    Option AnalysisMode × H × Option H × Option H :=
  (c.mode, c.fingerprint, c.contextFingerprint, c.resultHash)

/-- What the checkpoint of a submission records of it. -/
def Submission.signature {Id H : Type} (submission : Submission Id H) :
    Option AnalysisMode × H × Option H × Option H :=
  (some .agent, submission.fingerprint, some submission.contextFingerprint,
    some submission.resultHash)

namespace Sources

variable {Id H : Type} [DecidableEq Id] [DecidableEq H]

/-- The columns that a submission reads, apart from the checkpoint. -/
def presented (source : Source Id H) : AnalysisMode × SourceKind × Text × Option Text ×
    Option Text × Option ReviewState × Nat × Nat :=
  (source.analysisMode, source.kind, source.title, source.contentText, source.transcriptText,
    source.reviewState, source.reviewRevision, source.associationRevision)

/-- No edit, and no other submission before the one at work has its checkpoint. -/
def Undisturbed (s : State Id H) (e : Event Id H) : Prop :=
  (∀ edit now, e ≠ .edit edit now) ∧
    ∀ dir known, e = .receive dir known → s.source.analysisCheckpoint ≠ none

/-- The submission is at work, or has left its checkpoint. -/
structure Standing (submission : Submission Id H) (row : Source Id H) (s : State Id H) :
    Prop where
  same : presented s.source = presented row
  recorded : ∀ c, s.source.analysisCheckpoint = some c → c.signature = submission.signature
  alone : s.source.analysisCheckpoint = none → ∀ analyst session point,
    s.active = some (.working analyst session point) → analyst = .agent submission

section
variable {env : Env Id H} {media : Prop} {session row assigned : Source Id H} {s s' : State Id H}
  {submission : Submission Id H}

theorem presented_flush (h : Worked session assigned)
    (hcontent : assigned.contentText = session.contentText) :
    presented (session.flush assigned row) = presented row := by
  have hkept : (session.flush assigned row).contentText = row.contentText := by
    change written session.contentText assigned.contentText row.contentText = row.contentText
    rw [hcontent, written_self]
  have hrow := worked_flush h row
  rw [Worked, hkept] at hrow
  rw [hrow]
  rfl

/-- A turn of a submission leaves what it read, and records the submission in the checkpoint
or keeps what is recorded there. -/
theorem agent_turn {point : Point} {action : Action Id} {t : Turn Id H}
    (hengaged : Engaged (.agent submission) session row point)
    (h : turn env (.agent submission) row session point action = some t) :
    presented t.row = presented row ∧ ∃ c', t.row.analysisCheckpoint = some c' ∧
      ((row.analysisCheckpoint = none ∧ c'.signature = submission.signature) ∨
        ∃ c, row.analysisCheckpoint = some c ∧ c'.signature = c.signature) := by
  have hshared := hengaged.shared rfl
  have hcheckpoint := hengaged.agrees.analysisCheckpoint
  have hfacts := hengaged.facts
  unfold turn at h
  split at h
  · cases hshared
  · cases hshared
  · cases hshared
  · cases hshared
  · -- extracting
    unfold extractAnalysis at h
    dsimp only at h
    split at h
    · cases h
    cases h
    have hnone : row.analysisCheckpoint = none := by
      rw [← hcheckpoint]
      exact Option.map_eq_none_iff.mp hfacts.2
    refine ⟨presented_flush rfl rfl, ?_⟩
    dsimp only [commit]
    rw [flush_checkpoint hengaged.agrees]
    exact ⟨_, rfl, .inl ⟨hnone, rfl⟩⟩
  · -- merging
    obtain ⟨c, hc, rfl⟩ := Option.map_eq_some_iff.mp h
    refine ⟨presented_flush rfl rfl, ?_⟩
    dsimp only [commit]
    rw [flush_checkpoint hengaged.agrees]
    exact ⟨_, rfl, .inr ⟨c, hcheckpoint ▸ hc, rfl⟩⟩
  · -- graphing
    obtain ⟨c, hc, rfl⟩ := Option.map_eq_some_iff.mp h
    split_ifs <;> exact ⟨rfl, c, hcheckpoint ▸ hc, .inr ⟨c, hcheckpoint ▸ hc, rfl⟩⟩
  · -- finishing
    obtain ⟨c, hc, rfl⟩ := Option.map_eq_some_iff.mp h
    refine ⟨presented_flush rfl rfl, ?_⟩
    dsimp only [commitLast]
    rw [flush_checkpoint hengaged.agrees]
    exact ⟨_, rfl, .inr ⟨c, hcheckpoint ▸ hc, rfl⟩⟩
  · cases hshared
  · cases hshared
  · cases h

/-- A submission that starts where a checkpoint is leaves the row as it is. -/
theorem started_replay {dir : Directory Id} {known : List Text} {request : SubmissionRequest H}
    {t : Turn Id H}
    (h : submitAnalysis env dir known row request = .ok (.started submission t))
    (hcheckpoint : row.analysisCheckpoint ≠ none) : t.row = row := by
  obtain ⟨-, -, directory, -, ⟨c, -, hreplay⟩ | ⟨hnone, -⟩⟩ := submitAnalysis_started h
  · obtain ⟨-, ⟨-, rfl⟩ | ⟨-, rfl⟩⟩ := replaySubmission_started hreplay <;> rfl
  · exact absurd hnone hcheckpoint

/-- Undisturbed steps leave the submission at work, or its checkpoint. -/
theorem Standing.step {e : Event Id H} (h : Standing submission row s) (hs : Coherent media s)
    (hmode : s.source.analysisMode = .agent) (hundisturbed : Undisturbed s e)
    (hstep : Sources.step env s e = some s') : Standing submission row s' := by
  have hidle := (hs.unstaffed hmode).active
  cases change_of_step hstep with
  | idle _ hrow _ hactive =>
    refine ⟨hrow ▸ h.same, hrow ▸ h.recorded, ?_⟩
    intro hnone analyst session point hworking
    exact h.alone (hrow ▸ hnone) analyst session point (hactive _ _ _ hworking)
  | edited edit now => exact absurd rfl (hundisturbed.1 edit now)
  | entered runner hentering =>
    rw [hentering] at hidle
    cases hidle
  | failed runner error hrunner =>
    rw [hidle] at hrunner
    cases hrunner
  | admitted dir known request other t _ hadmitted hrow =>
    have hne := hundisturbed.2 dir known rfl
    rw [started_replay hadmitted hne] at hrow
    exact ⟨hrow ▸ h.same, hrow ▸ h.recorded, fun hnone => absurd (hrow ▸ hnone) hne⟩
  | acted action analyst session point t hworking hturn hrow =>
    have hengaged := hs.engaged _ _ _ hworking
    cases analyst with
    | server runner resumed => exact absurd (hengaged.mode.symm.trans hmode) (by rintro ⟨⟩)
    | agent other =>
      obtain ⟨hsame, c', hsome, hsignature⟩ := agent_turn hengaged hturn
      refine ⟨hrow ▸ hsame.trans h.same, ?_, ?_⟩
      · intro c hc
        rw [hrow, hsome, Option.some.injEq] at hc
        subst hc
        rcases hsignature with ⟨hnone, heq⟩ | ⟨c, hc, heq⟩
        · have halone := h.alone hnone _ _ _ hworking
          cases halone
          exact heq
        · exact heq.trans (h.recorded c hc)
      · intro hnone
        rw [hrow, hsome] at hnone
        cases hnone

/-- The submission goes on from the checkpoint: it was already applied, or the phases that are
left go on with the checkpoint's result. -/
def Resumes (row : Source Id H) (outcome : Except ApiError (Admission Id H)) : Prop :=
  ∃ c, row.analysisCheckpoint = some c ∧
    match c.phase with
    | .done => outcome = .ok .alreadyApplied
    | .extracted => ∃ submission : Submission Id H, submission.result = c.result ∧
        outcome = .ok (.started submission ⟨row, some (row, .merging false), []⟩)
    | .contextApplied => ∃ submission : Submission Id H, submission.result = c.result ∧
        outcome = .ok (.started submission ⟨row, some (row, .graphing), []⟩)

omit [DecidableEq Id] [DecidableEq H] in
/-- A validated result is the promoted one, without its diagnostics. -/
theorem validateExtraction_eq_ok {rt : Runtime Id} {supplied : Supplied} {kind : SourceKind}
    {text : Text} {known : List Text} {validated : AnalysisResult}
    (h : validateExtraction rt supplied kind text known = .ok validated) :
    ∃ result, supplied.parsed = some result ∧
      validated = (promoteStructuredContexts rt result).undiagnosed := by
  simp only [validateExtraction, bind_eq_ok] at h
  obtain ⟨-, -, h⟩ := h
  split at h
  · cases h
  · next result hparsed =>
    simp only [bind_eq_ok, pure_eq_ok] at h
    obtain ⟨-, -, rfl⟩ := h
    exact ⟨result, hparsed, rfl⟩

omit [DecidableEq Id] [DecidableEq H] in
theorem sourceText_congr {source source' : Source Id H}
    (h : presented source' = presented source) : sourceText source' = sourceText source := by
  simp only [presented, Prod.mk.injEq] at h
  obtain ⟨-, hkind, -, hcontent, htranscript, hstate, -⟩ := h
  have hanalyzed : source'.analyzed = source.analyzed := by
    unfold Source.analyzed
    rw [hkind, hcontent, htranscript]
  unfold sourceText
  rw [hkind, hstate, hanalyzed]

/-- A submission that was admitted is sent again: its digests are compared. -/
theorem submitAnalysis_again {dir dir' : Directory Id} {known known' : List Text}
    {request : SubmissionRequest H} {result : AnalysisResult} {row' : Source Id H}
    {c : Checkpoint Id H} {t : Turn Id H}
    (hadmitted : submitAnalysis env dir known row request = .ok (.started submission t))
    (hfresh : row.analysisCheckpoint = none) (hparsed : request.supplied.parsed = some result)
    (hsame : presented row' = presented row)
    (hdirectory : submissionDirectory env dir' row' = submissionDirectory env dir row)
    (hc : row'.analysisCheckpoint = some c) (hsignature : c.signature = submission.signature) :
    Resumes row' (submitAnalysis env dir' known' row' request) ↔ result.Matched env.rt := by
  have htext' := sourceText_congr hsame
  simp only [presented, Prod.mk.injEq] at hsame
  obtain ⟨hmode', -, htitle, -, -, -, hrevision', hassociations⟩ := hsame
  simp only [submitAnalysis, bind_eq_ok, require_eq_ok, decide_eq_true_eq, hfresh] at hadmitted
  obtain ⟨-, hmode, -, hrevision, text, htext, directory, hdir, hadmitted⟩ := hadmitted
  obtain ⟨_, hvalidated, rfl, -⟩ := admitSubmission_started hadmitted
  obtain ⟨_, hparsed', rfl⟩ := validateExtraction_eq_ok hvalidated
  rw [hparsed, Option.some.injEq] at hparsed'
  subst hparsed'
  simp only [Checkpoint.signature, Submission.signature, Prod.mk.injEq] at hsignature
  obtain ⟨hagent, hfingerprint, hcontext, hhash⟩ := hsignature
  have hfingerprint' : row'.fingerprint env.digests text directory =
      row.fingerprint env.digests text directory := by
    unfold Source.fingerprint
    rw [htitle, hrevision', hassociations]
  have hreplay : submitAnalysis env dir' known' row' request =
      replaySubmission env row' directory (row.fingerprint env.digests text directory) c request := by
    unfold submitAnalysis
    rw [hmode', hmode, hrevision', hrevision, htext', htext, hdirectory, hdir, hc,
      require_pos (by simp), require_pos (by simp)]
    exact congrArg (replaySubmission env row' directory · c request) hfingerprint'
  rw [hreplay]
  unfold replaySubmission
  rw [require_pos (by simp [hagent, hfingerprint, hcontext]), hparsed]
  change Resumes row' (require _ _ >>= fun _ => _) ↔ _
  rw [hhash, ← promoteStructuredContexts_eq_iff]
  constructor
  · rintro ⟨c, -, hresumes⟩
    by_contra hpromoted
    rw [require_neg (by simpa using fun h => hpromoted (env.digests.result_injective h))]
      at hresumes
    split at hresumes
    · cases hresumes
    · obtain ⟨_, -, heq⟩ := hresumes
      cases heq
    · obtain ⟨_, -, heq⟩ := hresumes
      cases heq
  · intro hpromoted
    rw [require_pos (by simp [hpromoted])]
    refine ⟨c, hc, ?_⟩
    cases c.phase with
    | done => rfl
    | extracted => exact ⟨_, rfl, rfl⟩
    | contextApplied => exact ⟨_, rfl, rfl⟩

/-- An admitted submission is at work. -/
theorem standing_admitted {dir : Directory Id} {known : List Text} {request : SubmissionRequest H}
    {t : Turn Id H} (hopening : s.active = some (.opening request))
    (hadmitted : submitAnalysis env dir known s.source request = .ok (.started submission t))
    (hfresh : s.source.analysisCheckpoint = none)
    (hstep : step env s (.receive dir known) = some s') : Standing submission s.source s' := by
  have hs' : s' = s.turned (.agent submission) t := by
    simpa [step, schedulerStep, attemptStep, hopening, hadmitted] using hstep.symm
  obtain ⟨_, _, hrow⟩ := started_row hadmitted
  subst hs'
  refine ⟨?_, ?_, ?_⟩
  · rw [turned_source, hrow]
    rfl
  · intro c hc
    rw [turned_source, hrow] at hc
    exact absurd (hfresh.symm.trans hc) (by rintro ⟨⟩)
  · intro _ analyst session point hworking
    rw [turned_active] at hworking
    obtain ⟨next, -, heq⟩ := Option.map_eq_some_iff.mp hworking
    cases heq
    rfl

end

/-- In every state that undisturbed steps lead to from the admission of a submission, once its
checkpoint exists, the same request goes on from there exactly when every structured context
of its result has its event in it. -/
theorem resumes_iff_matched {env : Env Id H} {s s₁ s₂ : State Id H} {dir dir' : Directory Id}
    {known known' : List Text} {request : SubmissionRequest H} {result : AnalysisResult}
    {submission : Submission Id H} {t : Turn Id H} (h : Reachable env s)
    (hopening : s.active = some (.opening request)) (hfresh : s.source.analysisCheckpoint = none)
    (hparsed : request.supplied.parsed = some result)
    (haccepted : submitAnalysis env dir known s.source request = .ok (.started submission t))
    (hadmitted : step env s (.receive dir known) = some s₁)
    (hrun : RunOf (step env) Undisturbed s₁ s₂)
    (hcheckpoint : s₂.source.analysisCheckpoint ≠ none)
    (hdirectory :
      submissionDirectory env dir' s₂.source = submissionDirectory env dir s.source) :
    Resumes s₂.source (submitAnalysis env dir' known' s₂.source request) ↔
      result.Matched env.rt := by
  obtain ⟨creation, hreached⟩ := reachable_iff.mp h
  have hmode : s.source.analysisMode = .agent := (submitAnalysis_started haccepted).1
  have hstanding : Standing submission s.source s₂ := by
    have hall := RunOf.invariant (P := fun mid => Coherent creation.IsMedia mid ∧
      mid.source.analysisMode = .agent ∧ Standing submission s.source mid) ?_ hrun
      ⟨hreached.coherent.step hadmitted, (change_of_step hadmitted).same.2.trans hmode,
        standing_admitted hopening haccepted hfresh hadmitted⟩
    · exact hall.2.2
    · rintro mid e next ⟨hcoherent, hmode, hstanding⟩ hundisturbed hstep
      exact ⟨hcoherent.step hstep, (change_of_step hstep).same.2.trans hmode,
        hstanding.step hcoherent hmode hundisturbed hstep⟩
  obtain ⟨c, hc⟩ := Option.ne_none_iff_exists'.mp hcheckpoint
  exact submitAnalysis_again haccepted hfresh hparsed hstanding.same hdirectory hc
    (hstanding.recorded c hc)

/-- A decision without an event of its own. -/
def plainDecision : ExtractedContext :=
  ⟨.decision, "Ship".toList, "We ship.".toList, none, ["We ship on Friday.".toList]⟩

/-- The submission of a result for the short document is accepted and leaves its checkpoint;
afterwards the same request is answered or refused. -/
def plainResubmission (result : AnalysisResult) (answered : Bool)
    (s : State Text PlainDigest) : Bool :=
  let env := plainEnv .postgres true
  let request := plainRequest result
  s.active.isNone && decide (s.source.analysisCheckpoint = none) &&
    decide ((submissionDirectory env emptyDirectory s.source).toOption = some ⟨none, [], [], []⟩) &&
    (submitAnalysis env emptyDirectory [] s.source request).toOption.any (fun admission =>
      match admission with
      | .started .. => true
      | .alreadyApplied => false) &&
    (replay (step env) { s with active := some (.opening request) }
      [.receive emptyDirectory [], .act (.extract result [])]).any fun s' =>
        decide (s'.source.analysisCheckpoint ≠ none) &&
        decide ((submissionDirectory env emptyDirectory s'.source).toOption =
          some ⟨none, [], [], []⟩) &&
        (submitAnalysis env emptyDirectory [] s'.source request).isOk == answered

/-- An accepted submission, its checkpoint and what becomes of the same request after it. -/
theorem exists_plainResubmission (result : AnalysisResult) (answered : Bool)
    (h : (plainRun (plainEnv .postgres true) plainDocument []).any
      (plainResubmission result answered) = true) :
    ∃ (s s₁ s₂ : State Text PlainDigest) (submission : Submission Text PlainDigest)
      (t : Turn Text PlainDigest), Reachable (plainEnv .postgres true) s ∧
      s.active = some (.opening (plainRequest result)) ∧ s.source.analysisCheckpoint = none ∧
      submitAnalysis (plainEnv .postgres true) emptyDirectory [] s.source (plainRequest result) =
        .ok (.started submission t) ∧
      step (plainEnv .postgres true) s (.receive emptyDirectory []) = some s₁ ∧
      RunOf (step (plainEnv .postgres true)) Undisturbed s₁ s₂ ∧
      s₂.source.analysisCheckpoint ≠ none ∧
      submissionDirectory (plainEnv .postgres true) emptyDirectory s₂.source =
        submissionDirectory (plainEnv .postgres true) emptyDirectory s.source ∧
      (submitAnalysis (plainEnv .postgres true) emptyDirectory [] s₂.source
        (plainRequest result)).isOk = answered := by
  obtain ⟨s, -, hreached, hall⟩ := exists_plainRun (plainEnv .postgres true) plainDocument []
    (fun s => plainResubmission result answered s = true) (by simpa using h)
  simp only [plainResubmission, Bool.and_eq_true, decide_eq_true_eq, Option.isNone_iff_eq_none,
    Option.any_eq_true, beq_iff_eq] at hall
  obtain ⟨⟨⟨⟨hidle, hfresh⟩, hdirectory⟩, admission, hadmission, hstarted⟩, s₂, hreplay,
    ⟨hcheckpoint, hdirectory'⟩, hanswered⟩ := hall
  have hok : ∀ {α : Type} {x : Except ApiError α} {a : α}, x.toOption = some a → x = .ok a := by
    intro α x a hx
    cases x <;> cases hx
    rfl
  split at hstarted
  · next submission t =>
    have hsubmit : step (plainEnv .postgres true) s (.submit (plainRequest result)) =
        some { s with active := some (.opening (plainRequest result)) } := by
      simp [step, schedulerStep, attemptStep, hidle]
    unfold replay at hreplay
    split at hreplay
    · cases hreplay
    · next s₁ hadmit =>
      refine ⟨{ s with active := some (.opening (plainRequest result)) }, s₁, s₂, submission, t, ?_,
        rfl, hfresh, hok hadmission, hadmit, ?_, hcheckpoint,
        (hok hdirectory').trans (hok hdirectory).symm, hanswered⟩
      · obtain ⟨ids, source, scheduling, now, hcreate, hrun⟩ := hreached
        exact reachable_iff.mpr ⟨_, ids, source, scheduling, now, hcreate,
          hrun.tail ⟨_, trivial, hsubmit⟩⟩
      · refine runOf_replay ?_ hreplay
        intro mid e he
        rw [List.mem_singleton] at he
        subst he
        exact ⟨(by rintro _ _ ⟨⟩), (by rintro _ _ ⟨⟩)⟩
  · cases hstarted

/-- A result without contexts can be sent again. -/
theorem resumes_iff_matched_plain : ∃ row : Source Text PlainDigest,
    row.analysisCheckpoint ≠ none ∧ Resumes row (submitAnalysis (plainEnv .postgres true)
      emptyDirectory [] row (plainRequest (plainResult []))) := by
  obtain ⟨s, s₁, s₂, submission, t, hreachable, hopening, hfresh, haccepted, hadmitted, hrun,
    hcheckpoint, hdirectory, -⟩ := exists_plainResubmission (plainResult []) true (by decide +kernel)
  refine ⟨s₂.source, hcheckpoint, (resumes_iff_matched hreachable hopening hfresh rfl haccepted
    hadmitted hrun hcheckpoint hdirectory).mpr ?_⟩
  rintro _ ⟨⟩

omit [DecidableEq Id] [DecidableEq H] in
theorem isOk_of_resumes {row : Source Id H} {outcome : Except ApiError (Admission Id H)}
    (h : Resumes row outcome) : outcome.isOk = true := by
  obtain ⟨c, -, h⟩ := h
  split at h
  · rw [h]
    rfl
  · obtain ⟨_, -, rfl⟩ := h
    rfl
  · obtain ⟨_, -, rfl⟩ := h
    rfl

/-- The request with an unmatched decision ends in a conflict when it is sent again. -/
theorem not_resumes_unmatched : ¬ ∀ (s s₁ s₂ : State Text PlainDigest)
    (request : SubmissionRequest PlainDigest) (submission : Submission Text PlainDigest)
    (t : Turn Text PlainDigest), Reachable (plainEnv .postgres true) s →
    s.active = some (.opening request) → s.source.analysisCheckpoint = none →
    submitAnalysis (plainEnv .postgres true) emptyDirectory [] s.source request =
      .ok (.started submission t) →
    step (plainEnv .postgres true) s (.receive emptyDirectory []) = some s₁ →
    RunOf (step (plainEnv .postgres true)) Undisturbed s₁ s₂ →
    s₂.source.analysisCheckpoint ≠ none →
    submissionDirectory (plainEnv .postgres true) emptyDirectory s₂.source =
      submissionDirectory (plainEnv .postgres true) emptyDirectory s.source →
    Resumes s₂.source
      (submitAnalysis (plainEnv .postgres true) emptyDirectory [] s₂.source request) := by
  intro hall
  obtain ⟨s, s₁, s₂, submission, t, hreachable, hopening, hfresh, haccepted, hadmitted, hrun,
    hcheckpoint, hdirectory, hrefused⟩ :=
    exists_plainResubmission (plainResult [plainDecision]) false (by decide +kernel)
  have hresumes := hall s s₁ s₂ _ submission t hreachable hopening hfresh haccepted hadmitted hrun
    hcheckpoint hdirectory
  rw [isOk_of_resumes hresumes] at hrefused
  cases hrefused

end Sources

end Maeglagi
