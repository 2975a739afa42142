import Maeglagi.Sources.Coherence

/-!
# Coherence over whole runs

Creations establish the coherence of a row, and edits, the start of an attempt, a recorded
failure and an admitted submission keep it; with the turns of an attempt that covers every
step.
-/

namespace Maeglagi.Sources

open Core Jobs

variable {Id H : Type} [DecidableEq Id] [DecidableEq H]

section
variable {env : Env Id H} {media : Prop} {source source' : Source Id H}

omit [DecidableEq Id] [DecidableEq H] in
/-- A row that goes to an agent or to the executor with its review confirmed. -/
theorem lifecycle_submitted {executor : Executor} {status : SourceStatus} {stage : ProcessingStage}
    {scheduling : Scheduling} (hmeeting : source.kind = .meeting)
    (hstate : source.reviewState = some .confirmed)
    (h : Submitted executor source.analysisMode status stage scheduling)
    (hstatus : source.status = status) (hstage : source.processingStage = stage) :
    Lifecycle media source := by
  subst hstatus hstage
  have hopen : source.status ≠ .awaitingReview ∧ source.status ≠ .succeeded ∧
      source.processingStage ≠ .completed := by
    rcases h.modes with ⟨-, hs, hp, -⟩ | ⟨-, hp, hr⟩
    · rw [hs, hp]
      decide
    · rcases hr.status with hs | hs <;> rw [hs, hp] <;> decide
  refine ⟨?_, fun hs => absurd hs hopen.1, ?_, fun hs => absurd hs hopen.2.1,
    fun hs => absurd hs hopen.2.2, fun _ => .inr hstate, ?_, ?_⟩
  · intro hdocument
    exact absurd (hmeeting.symm.trans hdocument) (by decide)
  · rw [hstate]
    rintro ⟨⟩
  · intro hserver hagent
    rcases h.modes with ⟨hmode, -⟩ | ⟨-, -, hr⟩
    · exact absurd (hmode.symm.trans hserver) (by decide)
    · rcases hr.status with hs | hs <;> rw [hs] at hagent <;> cases hagent
  · intro hagent
    rcases h.modes with ⟨-, hs, -⟩ | ⟨hmode, -⟩
    · exact ⟨by simp [hstate], .inl hs⟩
    · exact absurd (hmode.symm.trans hagent) (by decide)

omit [DecidableEq Id] [DecidableEq H] in
/-- An edit keeps the row coherent. -/
theorem Lifecycle.edited {scheduling : Scheduling} {edit : Edit Id} (h : Lifecycle media source)
    (hedit : Edited env source source' scheduling edit) : Lifecycle media source' := by
  cases hedit with
  | saved _ _ _ _ _ _ hrow =>
    subst hrow
    exact ⟨h.document, h.shown, h.awaiting, h.succeeded, h.completed, h.checkpointed, h.server,
      h.agent⟩
  | confirmed hkind _ hsubmitted hrow =>
    subst hrow
    exact lifecycle_submitted hkind rfl hsubmitted rfl rfl
  | submittedAgain hkind hstate _ hsubmitted hrow =>
    subst hrow
    exact lifecycle_submitted hkind hstate hsubmitted rfl rfl
  | retried hkind hstate _ hresubmitted hrow =>
    subst hrow
    have hopen := hresubmitted.status
    refine ⟨fun hd => absurd (hkind.symm.trans hd) (by decide), ?_, ?_, ?_, ?_, h.checkpointed, ?_,
      fun hagent => absurd hstate (h.agent hagent).1⟩
    · rintro ⟨⟩
      rcases hopen with hs | hs <;> cases hs
    · intro hawaiting
      exact absurd (hstate.symm.trans hawaiting) (by decide)
    · rintro ⟨⟩
      rcases hopen with hs | hs <;> cases hs
    · rintro ⟨⟩
    · rintro - ⟨⟩
      rcases hopen with hs | hs <;> cases hs
  | recovered hkind hmode _ hstate _ _ _ _ hrow =>
    subst hrow
    refine ⟨fun hd => absurd (hkind.symm.trans hd) (by decide), fun _ => rfl, fun _ => .inl rfl, ?_,
      ?_, ?_, ?_, fun hagent => absurd (hmode.symm.trans hagent) (by decide)⟩
    · rintro ⟨⟩
    · rintro ⟨⟩
    · intro hne
      rcases h.checkpointed hne with hdocument | hconfirmed
      · exact .inl hdocument
      · exact absurd (hstate.symm.trans hconfirmed) (by decide)
    · rintro - ⟨⟩
  | associated _ hrow =>
    subst hrow
    exact ⟨h.document, h.shown, h.awaiting, h.succeeded, h.completed, h.checkpointed, h.server,
      h.agent⟩
  | texted hmode hkind hcheckpoint hrow =>
    subst hrow
    refine ⟨h.document, ?_, ?_, ?_, ?_, h.checkpointed, ?_, ?_⟩
    · rintro ⟨⟩
    · intro hawaiting
      exact absurd ((h.document hkind).symm.trans hawaiting) (by decide)
    · rintro ⟨⟩
    · rintro ⟨⟩
    · intro hserver
      exact absurd (hmode.symm.trans hserver) (by decide)
    · intro _
      exact ⟨(h.agent hmode).1, .inl rfl⟩
  | transcribed _ _ _ _ _ _ _ hrow =>
    subst hrow
    exact ⟨h.document, h.shown, h.awaiting, h.succeeded, h.completed, h.checkpointed, h.server,
      h.agent⟩
  | confirmedByAgent hmode hkind _ hrow =>
    subst hrow
    have hsubmitted : Submitted .postgres source.analysisMode .awaitingAgent .awaitingAgent .none := by
      rw [hmode]
      exact .agent
    exact lifecycle_submitted hkind rfl hsubmitted rfl rfl

omit [DecidableEq Id] [DecidableEq H] in
/-- A server's row that is neither shown for review nor done. -/
theorem lifecycle_open (hmode : source.analysisMode = .server)
    (hdocument : source.kind = .document → source.reviewState = none)
    (hstate : source.reviewState ≠ some .awaitingReview)
    (hstatus : source.status = .processing ∨ source.status = .queued ∨ source.status = .failed)
    (hstage : source.processingStage ≠ .completed)
    (hgated : source.analysisCheckpoint ≠ none → Gated source) : Lifecycle media source := by
  refine ⟨hdocument, ?_, fun hs => absurd hs hstate, ?_, fun hs => absurd hs hstage, hgated, ?_,
    fun hagent => absurd (hmode.symm.trans hagent) (by decide)⟩
  · intro hshown
    rcases hstatus with hs | hs | hs <;> exact absurd (hs.symm.trans hshown) (by decide)
  · intro hdone
    rcases hstatus with hs | hs | hs <;> exact absurd (hs.symm.trans hdone) (by decide)
  · intro _ hagent
    rcases hstatus with hs | hs | hs <;> exact absurd (hs.symm.trans hagent) (by decide)

/-- What the first transaction of an attempt finds when the attempt goes on. -/
structure Admissible (source : Source Id H) : Prop where
  server : source.analysisMode = .server
  unsettled : source.status ≠ .succeeded ∧ source.status ≠ .awaitingReview
  readable : source.kind = .document ∨ source.reviewState = some .transcribing ∨
    source.reviewState = some .confirmed

omit [DecidableEq Id] [DecidableEq H] in
/-- The first transaction of an attempt leaves the row, or opens it at a point. -/
theorem beginProcessing_cases (source : Source Id H) :
    beginProcessing source = (source, none) ∨
      ∃ stage progress point, Admissible source ∧ stage ≠ .completed ∧
        beginProcessing source = ({ source with
          status := .processing
          errorMessage := none
          processingStage := stage
          progress }, some point) ∧
        ((point = .analyzing ∧ source.analysisCheckpoint ≠ none) ∨
          (source.analysisCheckpoint = none ∧
            ((point = .parsing ∧ source.kind = .document) ∨
              (point = .transcribing ∧ source.kind = .meeting ∧
                source.reviewState = some .transcribing) ∨
              (point = .indexing ∧ source.reviewState = some .confirmed)))) := by
  unfold beginProcessing
  split_ifs with hagent hsettled hmeeting hcheckpoint hdocument htranscribing
  · exact .inl rfl
  · exact .inl rfl
  · exact .inl rfl
  all_goals
    have hserver : source.analysisMode = .server := by
      cases hmode : source.analysisMode
      · rfl
      · exact absurd hmode hagent
    have hunsettled := not_or.mp hsettled
    have hreadable : source.kind = .document ∨ source.reviewState = some .transcribing ∨
        source.reviewState = some .confirmed := by
      cases hkind : source.kind
      · exact .inl rfl
      · by_contra hnone
        simp only [not_or] at hnone
        exact hmeeting ⟨hkind, hnone.2⟩
  · exact .inr ⟨_, _, _, ⟨hserver, hunsettled, hreadable⟩, by decide, rfl, .inl ⟨rfl, hcheckpoint⟩⟩
  · exact .inr ⟨_, _, _, ⟨hserver, hunsettled, hreadable⟩, by decide, rfl,
      .inr ⟨not_not.mp hcheckpoint, .inl ⟨rfl, hdocument⟩⟩⟩
  · have hkind : source.kind = .meeting := by
      cases hkind : source.kind
      · exact absurd hkind hdocument
      · rfl
    exact .inr ⟨_, _, _, ⟨hserver, hunsettled, hreadable⟩, by decide, rfl,
      .inr ⟨not_not.mp hcheckpoint, .inr (.inl ⟨rfl, hkind, htranscribing⟩)⟩⟩
  · have hconfirmed : source.reviewState = some .confirmed := by
      rcases hreadable with hd | ht | hc
      · exact absurd hd hdocument
      · exact absurd ht htranscribing
      · exact hc
    exact .inr ⟨_, _, _, ⟨hserver, hunsettled, hreadable⟩, by decide, rfl,
      .inr ⟨not_not.mp hcheckpoint, .inr (.inr ⟨rfl, hconfirmed⟩)⟩⟩

omit [DecidableEq Id] [DecidableEq H] in
/-- The start of an attempt keeps the row coherent, and the attempt starts in step with it. -/
theorem Lifecycle.begun (h : Lifecycle media source) :
    Lifecycle media (beginProcessing source).1 ∧
      ∀ runner point, (beginProcessing source).2 = some point →
        Engaged (.server runner (decide (point = .analyzing))) (beginProcessing source).1
          (beginProcessing source).1 point := by
  rcases beginProcessing_cases source with heq | ⟨stage, progress, point, hadmissible, hstage, heq,
    hpoint⟩
  · rw [heq]
    exact ⟨h, fun _ _ hnone => by cases hnone⟩
  · rw [heq]
    have hstate : source.reviewState ≠ some .awaitingReview := by
      intro hawaiting
      rcases hadmissible.readable with hd | ht | hc
      · exact absurd ((h.document hd).symm.trans hawaiting) (by decide)
      · exact absurd (ht.symm.trans hawaiting) (by decide)
      · exact absurd (hc.symm.trans hawaiting) (by decide)
    refine ⟨lifecycle_open hadmissible.server h.document hstate (.inl rfl) hstage h.checkpointed,
      ?_⟩
    rintro runner _ ⟨⟩
    refine ⟨hadmissible.server, rfl, fun _ => ⟨rfl, rfl⟩, (fun hagent => by cases hagent),
      ⟨(by rintro ⟨⟩), hstage⟩, ?_⟩
    rcases hpoint with ⟨rfl, hne⟩ | ⟨hnone, ⟨rfl, hd⟩ | ⟨rfl, hk, ht⟩ | ⟨rfl, hc⟩⟩
    · exact h.checkpointed hne
    · exact ⟨hd, by simp [phase, hnone]⟩
    · exact ⟨hk, ht, by simp [phase, hnone]⟩
    · exact ⟨.inr hc, by simp [phase, hnone]⟩

omit [DecidableEq Id] [DecidableEq H] in
/-- A recorded failure keeps the row of a server's source coherent. -/
theorem Lifecycle.failed (h : Lifecycle media source) (hmode : source.analysisMode = .server)
    (final : Bool) (error : AttemptError) : Lifecycle media (recordFailure final error source) := by
  unfold recordFailure updateSource
  split
  · exact h
  · next hopen =>
    rw [not_or] at hopen
    refine lifecycle_open hmode h.document hopen.2 ?_ ?_ h.checkpointed
    · dsimp only
      split_ifs <;> simp
    · dsimp only
      split_ifs <;> decide

/-- An admitted submission keeps the row coherent, and starts in step with it. -/
theorem Lifecycle.admitted {dir : Directory Id} {known : List Text}
    {request : SubmissionRequest H} {submission : Submission Id H} {t : Turn Id H}
    (h : Lifecycle media source)
    (hadmitted : submitAnalysis env dir known source request = .ok (.started submission t)) :
    Settled media (.agent submission) t := by
  obtain ⟨hmode, hgated, directory, -, hbranch⟩ := submitAnalysis_started hadmitted
  have hagent := h.agent hmode
  rcases hbranch with ⟨c, hcheckpoint, hreplay⟩ | ⟨hcheckpoint, hfresh⟩
  · obtain ⟨-, hphase⟩ := replaySubmission_started hreplay
    have hsome : phase source = some c.phase := by simp [phase, hcheckpoint]
    -- a source whose analysis is not done has not succeeded
    have hunfinished : c.phase ≠ .done → source.status ≠ .succeeded := by
      intro hne hsucceeded
      rcases hagent.2 with hs | hs | hs | ⟨-, hdone⟩
      · exact absurd (hs.symm.trans hsucceeded) (by decide)
      · exact absurd (hs.symm.trans hsucceeded) (by decide)
      · exact absurd (hs.symm.trans hsucceeded) (by decide)
      · rw [hsome, Option.some.injEq] at hdone
        exact hne hdone
    have hengaged : ∀ point, point.shared = true → Facts source point → c.phase ≠ .done →
        Engaged (.agent submission) source source point := by
      intro point hshared hfacts hne
      refine ⟨hmode, rfl, (fun hserver => by cases hserver), fun _ => hshared,
        ⟨hunfinished hne, fun hcompleted => hunfinished hne (h.completed hcompleted)⟩, hfacts⟩
    rcases hphase with ⟨hextracted, rfl⟩ | ⟨happlied, rfl⟩
    · refine ⟨h, ?_⟩
      rintro _ _ ⟨⟩
      exact hengaged _ rfl ⟨hgated, hsome.trans (congrArg some hextracted)⟩ (by rw [hextracted]; decide)
    · refine ⟨h, ?_⟩
      rintro _ _ ⟨⟩
      exact hengaged _ rfl ⟨hgated, hsome.trans (congrArg some happlied)⟩ (by rw [happlied]; decide)
  · obtain ⟨validated, -, -, rfl⟩ := admitSubmission_started hfresh
    refine ⟨⟨h.document, ?_, ?_, ?_, ?_, h.checkpointed, ?_, ?_⟩, ?_⟩
    · rintro ⟨⟩
    · intro hawaiting
      rcases hgated with hd | hc
      · exact absurd ((h.document hd).symm.trans hawaiting) (by decide)
      · exact absurd (hc.symm.trans hawaiting) (by decide)
    · rintro ⟨⟩
    · rintro ⟨⟩
    · rintro - ⟨⟩
    · exact fun _ => ⟨hagent.1, .inr (.inr (.inl rfl))⟩
    · rintro _ _ ⟨⟩
      refine ⟨hmode, rfl, (fun hserver => by cases hserver), fun _ => rfl, ⟨?_, ?_⟩, hgated, ?_⟩
      · rintro ⟨⟩
      · rintro ⟨⟩
      · simp [phase, hcheckpoint]

end

/-- The columns that no step changes. -/
def Same (source source' : Source Id H) : Prop :=
  source'.kind = source.kind ∧ source'.analysisMode = source.analysisMode

section
variable {env : Env Id H} {s s' : State Id H} {source source' row session assigned : Source Id H}

omit [DecidableEq Id] [DecidableEq H] in
theorem Edited.same {scheduling : Scheduling} {edit : Edit Id}
    (h : Edited env source source' scheduling edit) : Same source source' := by
  cases h with
  | saved _ _ _ _ _ _ hrow => exact hrow ▸ ⟨rfl, rfl⟩
  | confirmed _ _ _ hrow => exact hrow ▸ ⟨rfl, rfl⟩
  | submittedAgain _ _ _ _ hrow => exact hrow ▸ ⟨rfl, rfl⟩
  | retried _ _ _ _ hrow => exact hrow ▸ ⟨rfl, rfl⟩
  | recovered _ _ _ _ _ _ _ _ hrow => exact hrow ▸ ⟨rfl, rfl⟩
  | associated _ hrow => exact hrow ▸ ⟨rfl, rfl⟩
  | texted _ _ _ hrow => exact hrow ▸ ⟨rfl, rfl⟩
  | transcribed _ _ _ _ _ _ _ hrow => exact hrow ▸ ⟨rfl, rfl⟩
  | confirmedByAgent _ _ _ hrow => exact hrow ▸ ⟨rfl, rfl⟩

omit [DecidableEq Id] [DecidableEq H] in
theorem same_begun (source : Source Id H) : Same source (beginProcessing source).1 := by
  rcases beginProcessing_cases source with heq | ⟨_, _, _, -, -, heq, -⟩ <;> rw [heq] <;>
    exact ⟨rfl, rfl⟩

omit [DecidableEq Id] [DecidableEq H] in
theorem same_failed (final : Bool) (error : AttemptError) (source : Source Id H) :
    Same source (recordFailure final error source) := by
  unfold recordFailure updateSource
  split_ifs <;> exact ⟨rfl, rfl⟩

/-- A turn leaves the row it finds, or commits its session over it; only the end of a
transcription assigns more than an analysis works on. -/
theorem turn_row {analyst : Analyst Id H} {point : Point} {action : Action Id} {t : Turn Id H}
    (h : turn env analyst row session point action = some t) :
    t.row = row ∨ ∃ assigned, t.row = session.flush assigned row ∧
      (point = .transcribing ∨ Worked session assigned) := by
  unfold turn at h
  split at h
  · cases h
    exact .inr ⟨_, rfl, .inr rfl⟩
  · split at h
    · cases h
    split at h <;> cases h
    exact .inr ⟨_, rfl, .inl rfl⟩
  · split_ifs at h
    cases h
    exact .inr ⟨_, rfl, .inr rfl⟩
  · split at h
    · unfold dispatchCheckpoint at h
      dsimp only at h
      split at h
      · cases h
        exact .inl rfl
      · split at h
        · cases h
          exact .inl rfl
        · split at h
          · cases h
          split at h
          · cases h
            exact .inl rfl
          · cases h
            exact .inl rfl
          · split_ifs at h <;> cases h
            · exact .inl rfl
            · exact .inr ⟨_, rfl, .inr rfl⟩
    · cases h
  · unfold extractAnalysis at h
    dsimp only at h
    split at h <;> cases h
    refine .inr ⟨_, rfl, .inr ?_⟩
    cases analyst <;> rfl
  · obtain ⟨c, -, rfl⟩ := Option.map_eq_some_iff.mp h
    refine .inr ⟨_, rfl, .inr ?_⟩
    cases analyst <;> rfl
  · obtain ⟨c, -, rfl⟩ := Option.map_eq_some_iff.mp h
    split_ifs <;> exact .inl rfl
  · obtain ⟨c, -, rfl⟩ := Option.map_eq_some_iff.mp h
    cases analyst <;> exact .inr ⟨_, rfl, .inr rfl⟩
  · cases h
    exact .inr ⟨_, rfl, .inr rfl⟩
  · cases h
    exact .inr ⟨_, rfl, .inr rfl⟩
  · cases h

/-- The row a started submission leaves, up to its status and stage. -/
theorem started_row {dir : Directory Id} {known : List Text} {request : SubmissionRequest H}
    {submission : Submission Id H} {t : Turn Id H}
    (h : submitAnalysis env dir known source request = .ok (.started submission t)) :
    ∃ status stage, t.row = { source with status, processingStage := stage } := by
  obtain ⟨-, -, directory, -, ⟨c, -, hreplay⟩ | ⟨-, hfresh⟩⟩ := submitAnalysis_started h
  · obtain ⟨-, ⟨-, rfl⟩ | ⟨-, rfl⟩⟩ := replaySubmission_started hreplay <;> exact ⟨_, _, rfl⟩
  · obtain ⟨_, -, -, rfl⟩ := admitSubmission_started hfresh
    exact ⟨_, _, rfl⟩

theorem Change.same {e : Event Id H} (h : Change env s s' e) : Same s.source s'.source := by
  cases h with
  | idle _ hrow => exact hrow ▸ ⟨rfl, rfl⟩
  | edited edit now scheduling hedit => exact (edited_of_applyEdit hedit).same
  | entered runner _ hrow => exact hrow ▸ same_begun s.source
  | failed runner error _ hrow => exact hrow ▸ same_failed ..
  | admitted dir known request submission t _ hadmitted hrow =>
    obtain ⟨_, _, heq⟩ := started_row hadmitted
    exact hrow ▸ heq ▸ ⟨rfl, rfl⟩
  | acted action analyst session point t _ hturn hrow =>
    rcases turn_row hturn with heq | ⟨_, heq, -⟩
    · exact hrow ▸ heq ▸ ⟨rfl, rfl⟩
    · exact hrow ▸ heq ▸ ⟨rfl, rfl⟩

/-- A source that no server works on: without a job, workers or an attempt of theirs. -/
structure Unstaffed (s : State Id H) : Prop where
  job : s.job = none
  workers : ∀ owner, s.workers owner = .idle
  active : s.active.bind Active.runner? = none

omit [DecidableEq H] in
theorem Unstaffed.scheduler {e : Event Id H} (h : Unstaffed s)
    (hmode : s.source.analysisMode = .agent) (hstep : schedulerStep env s e = some s') :
    Unstaffed s' := by
  unfold schedulerStep at hstep
  split at hstep
  · rw [h.job] at hstep
    split at hstep <;> first | cases hstep | simp_all
  · rw [h.workers] at hstep
    cases hstep
  · rw [h.workers] at hstep
    cases hstep
  · rw [h.workers] at hstep
    cases hstep
  · rw [h.workers] at hstep
    cases hstep
  · rw [h.workers] at hstep
    cases hstep
  · next owner =>
    cases hstep
    refine ⟨h.job, ?_, ?_⟩
    · intro other
      simp [State.moved, State.dropped, Function.update_apply, h.workers]
    · have hnone : ∀ active, s.active = some active → active.runner? = none := by
        intro active hactive
        simpa [hactive] using h.active
      rw [Option.bind_eq_none_iff]
      intro active hactive
      exact hnone active (active_of_dropped hactive)
  · split_ifs at hstep with hmissing
    simp [missesJob, hmode] at hmissing
  · split_ifs at hstep with hserver
    rw [hmode] at hserver
    exact absurd hserver.2 (by decide)
  · split at hstep <;> cases hstep <;> exact ⟨h.job, h.workers, rfl⟩
  · cases hstep

theorem Unstaffed.attempt {e : Event Id H} (h : Unstaffed s)
    (hstep : attemptStep env s e = some s') : Unstaffed s' := by
  have hrunner : ∀ active, s.active = some active → active.runner? = none := by
    intro active hactive
    simpa [hactive] using h.active
  have hturned : ∀ (analyst : Analyst Id H) (t : Turn Id H), analyst.mode = .agent →
      Unstaffed (s.turned analyst t) := by
    intro analyst t hagent
    cases analyst with
    | server runner resumed => cases hagent
    | agent submission =>
      unfold State.turned
      split <;> exact ⟨h.job, h.workers, rfl⟩
  unfold attemptStep at hstep
  split at hstep
  · split at hstep
    · next runner hentering => exact absurd (hrunner _ hentering) (by simp [Active.runner?])
    · cases hstep
  · split at hstep
    · next analyst session point hworking =>
      obtain ⟨t, -, rfl⟩ := Option.map_eq_some_iff.mp hstep
      apply hturned
      cases analyst with
      | server runner resumed => exact absurd (hrunner _ hworking) (by simp [Active.runner?])
      | agent submission => rfl
    · cases hstep
  · obtain ⟨active, hactive, rfl⟩ := Option.map_eq_some_iff.mp hstep
    rw [hrunner active hactive]
    exact ⟨h.job, h.workers, rfl⟩
  · obtain ⟨active, hactive, rfl⟩ := Option.map_eq_some_iff.mp hstep
    rw [hrunner active hactive]
    exact ⟨h.job, h.workers, rfl⟩
  · split at hstep <;> cases hstep
    exact ⟨h.job, h.workers, rfl⟩
  · split at hstep
    · split at hstep <;> cases hstep
      · exact hturned _ _ rfl
      · exact ⟨h.job, h.workers, rfl⟩
    · cases hstep
  · cases hstep

/-- The row is coherent, the attempt at work is in step with it, and nobody of the server works
on an agent's source. -/
structure Coherent (media : Prop) (s : State Id H) : Prop where
  row : Lifecycle media s.source
  engaged : ∀ analyst session point, s.active = some (.working analyst session point) →
    Engaged analyst session s.source point
  unstaffed : s.source.analysisMode = .agent → Unstaffed s

omit [DecidableEq Id] [DecidableEq H] in
/-- A runner works for a source of the server. -/
theorem Coherent.server {media : Prop} {runner : Runner Id} (h : Coherent media s)
    (hrunner : s.active.bind Active.runner? = some runner) : s.source.analysisMode = .server := by
  cases hmode : s.source.analysisMode with
  | server => rfl
  | agent =>
    rw [(h.unstaffed hmode).active] at hrunner
    cases hrunner

omit [DecidableEq Id] [DecidableEq H] in
/-- While an attempt is at work its source is neither under review nor failed. -/
theorem Engaged.unfailed {media : Prop} {analyst : Analyst Id H} {point : Point}
    (h : Engaged analyst session row point) (hrow : Lifecycle media row) :
    row.reviewState ≠ some .awaitingReview ∧ row.status ≠ .failed ∧
      row.status ≠ .enqueuePending := by
  cases hwho : analyst.mode with
  | server =>
    have hprocessing : row.status = .processing := by
      obtain ⟨hfully, hstatus⟩ := h.fully hwho
      exact hfully.status.symm.trans hstatus
    refine ⟨?_, by simp [hprocessing], by simp [hprocessing]⟩
    intro hawaiting
    rcases hrow.awaiting hawaiting with hs | ⟨-, hs⟩ <;>
      exact absurd (hprocessing.symm.trans hs) (by decide)
  | agent =>
    have hgated : Gated session := by
      have hshared := h.shared hwho
      have hfacts := h.facts
      cases point <;> first | exact hfacts.1 | cases hshared
    refine ⟨?_, ?_, ?_⟩
    · intro hawaiting
      rcases hgated with hd | hc
      · exact absurd ((hrow.document (h.agrees.kind.symm.trans hd)).symm.trans hawaiting) (by decide)
      · exact absurd (hc.symm.trans (h.agrees.reviewState.trans hawaiting)) (by decide)
    · intro hfailed
      rcases (hrow.agent (h.mode.trans hwho)).2 with hs | hs | hs | ⟨hs, -⟩ <;>
        exact absurd (hs.symm.trans hfailed) (by decide)
    · intro hpending
      rcases (hrow.agent (h.mode.trans hwho)).2 with hs | hs | hs | ⟨hs, -⟩ <;>
        exact absurd (hs.symm.trans hpending) (by decide)

omit [DecidableEq Id] [DecidableEq H] in
/-- An edit leaves the attempt at work in step with the row. -/
theorem Engaged.edited {media : Prop} {analyst : Analyst Id H} {point : Point}
    {scheduling : Scheduling} {edit : Edit Id} (h : Engaged analyst session row point)
    (hrow : Lifecycle media row) (hedit : Edited env row source' scheduling edit) :
    Engaged analyst session source' point := by
  obtain ⟨hreview, hfailed, hpending⟩ := h.unfailed hrow
  have hsame := hedit.same
  cases hedit with
  | saved _ hstate => exact absurd hstate hreview
  | confirmed _ hstate => exact absurd hstate hreview
  | submittedAgain _ _ hstatus => exact (hstatus.elim hfailed hpending).elim
  | retried _ _ hstatus => exact absurd hstatus hfailed
  | recovered _ _ hstatus => exact absurd hstatus hfailed
  | associated _ heq =>
    have hfully : AgreesFully row source' := by rw [heq]; rfl
    exact ⟨hsame.2.trans h.mode, h.agrees.trans hfully.agrees,
      fun hserver => ⟨(h.fully hserver).1.trans hfully, (h.fully hserver).2⟩, h.shared,
      h.unfinished, h.facts⟩
  | texted hmode _ _ heq =>
    have hagrees : Agrees row source' := by rw [heq]; rfl
    refine ⟨hsame.2.trans h.mode, h.agrees.trans hagrees, ?_, h.shared, h.unfinished, h.facts⟩
    intro hserver
    exact absurd (hserver.symm.trans (h.mode.symm.trans hmode)) (by decide)
  | transcribed _ _ hstate => exact absurd hstate hreview
  | confirmedByAgent _ _ hstate => exact absurd hstate hreview

omit [DecidableEq Id] [DecidableEq H] in
/-- An edit of an agent's source schedules nothing. -/
theorem Edited.unscheduled {media : Prop} {scheduling : Scheduling} {edit : Edit Id}
    (h : Edited env source source' scheduling edit) (hrow : Lifecycle media source)
    (hmode : source.analysisMode = .agent) : scheduling = .none := by
  cases h with
  | confirmed _ _ hsubmitted =>
    rcases hsubmitted.modes with ⟨-, -, -, hnone⟩ | ⟨hserver, -⟩
    · exact hnone
    · exact absurd (hmode.symm.trans hserver) (by decide)
  | submittedAgain _ _ _ hsubmitted =>
    rcases hsubmitted.modes with ⟨-, -, -, hnone⟩ | ⟨hserver, -⟩
    · exact hnone
    · exact absurd (hmode.symm.trans hserver) (by decide)
  | retried _ hstate => exact absurd hstate (hrow.agent hmode).1
  | saved => rfl
  | recovered => rfl
  | associated => rfl
  | texted => rfl
  | transcribed => rfl
  | confirmedByAgent => rfl

/-- Every step keeps coherence. -/
theorem Coherent.step {media : Prop} {e : Event Id H} (h : Coherent media s)
    (hstep : step env s e = some s') : Coherent media s' := by
  have hchange := change_of_step hstep
  have hunstaffed : s'.source.analysisMode = .agent → Unstaffed s' := by
    intro hmode
    rw [hchange.same.2] at hmode
    have hfree := h.unstaffed hmode
    unfold Sources.step at hstep
    split at hstep
    · split at hstep
      · next source scheduling hedit =>
        cases hstep
        rw [(edited_of_applyEdit hedit).unscheduled h.row hmode]
        exact ⟨hfree.job, hfree.workers, hfree.active⟩
      · cases hstep
    · rcases Option.or_eq_some_iff.mp (by simpa using hstep) with hstep | ⟨-, hstep⟩
      · exact hfree.scheduler hmode hstep
      · exact hfree.attempt hstep
  cases hchange with
  | idle _ hrow _ hactive =>
    refine ⟨hrow ▸ h.row, ?_, hunstaffed⟩
    intro analyst session point hworking
    rw [hrow]
    exact h.engaged _ _ _ (hactive _ _ _ hworking)
  | edited edit now scheduling hedit _ hactive =>
    have hedited := edited_of_applyEdit hedit
    refine ⟨h.row.edited hedited, ?_, hunstaffed⟩
    intro analyst session point hworking
    exact (h.engaged _ _ _ (hactive ▸ hworking)).edited h.row hedited
  | entered runner _ hrow _ hactive =>
    obtain ⟨hlife, hengaged⟩ := h.row.begun
    refine ⟨hrow ▸ hlife, ?_, hunstaffed⟩
    intro analyst session point hworking
    rw [hactive] at hworking
    obtain ⟨begun, hbegun, heq⟩ := Option.map_eq_some_iff.mp hworking
    cases heq
    rw [hrow]
    exact hengaged runner point hbegun
  | failed runner error hrunner hrow _ hactive =>
    refine ⟨hrow ▸ h.row.failed (h.server hrunner) .., ?_, hunstaffed⟩
    intro analyst session point hworking
    rw [hactive] at hworking
    cases hworking
  | admitted dir known request submission t _ hadmitted hrow _ hactive =>
    obtain ⟨hlife, hengaged⟩ := h.row.admitted hadmitted
    refine ⟨hrow ▸ hlife, ?_, hunstaffed⟩
    intro analyst session point hworking
    rw [hactive] at hworking
    obtain ⟨next, hnext, heq⟩ := Option.map_eq_some_iff.mp hworking
    cases heq
    rw [hrow]
    exact hengaged _ _ hnext
  | acted action analyst session point t hworking hturn hrow _ hactive =>
    obtain ⟨hlife, hengaged⟩ := (h.engaged _ _ _ hworking).turned h.row hturn
    refine ⟨hrow ▸ hlife, ?_, hunstaffed⟩
    intro analyst' session' point' hworking'
    rw [hactive] at hworking'
    obtain ⟨next, hnext, heq⟩ := Option.map_eq_some_iff.mp hworking'
    cases heq
    rw [hrow]
    exact hengaged _ _ hnext

end

end Maeglagi.Sources
