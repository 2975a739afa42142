import Maeglagi.PlainSystem

/-!
# The life cycle of a source

Status, review state, stage, progress and checkpoint fit together in every state that a source
reaches, and a source that has succeeded keeps its status.
-/

namespace Maeglagi.Sources

open Core Jobs

variable {Id H : Type} [DecidableEq Id] [DecidableEq H]

section
variable {env : Env Id H} {media : Prop} {source source' : Source Id H} {s s' : State Id H}

omit [DecidableEq Id] [DecidableEq H] in
/-- A source that has succeeded does not await review. -/
theorem Lifecycle.unshown (h : Lifecycle media source) (hdone : source.status = .succeeded) :
    source.reviewState ≠ some .awaitingReview := by
  intro hawaiting
  rcases h.awaiting hawaiting with hs | ⟨-, hs⟩ <;> exact absurd (hdone.symm.trans hs) (by decide)

omit [DecidableEq Id] [DecidableEq H] in
/-- An edit leaves the status of a source that has succeeded. -/
theorem Lifecycle.edited_succeeded {scheduling : Scheduling} {edit : Edit Id}
    (h : Lifecycle media source) (hdone : source.status = .succeeded)
    (hedit : Edited env source source' scheduling edit) : source'.status = .succeeded := by
  have hreview := h.unshown hdone
  cases hedit with
  | saved _ hstate => exact absurd hstate hreview
  | confirmed _ hstate => exact absurd hstate hreview
  | submittedAgain _ _ hstatus =>
    rcases hstatus with hs | hs <;> exact absurd (hdone.symm.trans hs) (by decide)
  | retried _ _ hstatus => exact absurd (hdone.symm.trans hstatus) (by decide)
  | recovered _ _ hstatus => exact absurd (hdone.symm.trans hstatus) (by decide)
  | associated _ hrow => exact hrow ▸ hdone
  | texted hmode _ hcheckpoint =>
    -- an agent's source has succeeded only with a checkpoint
    rcases (h.agent hmode).2 with hs | hs | hs | ⟨-, hphase⟩
    · exact absurd (hdone.symm.trans hs) (by decide)
    · exact absurd (hdone.symm.trans hs) (by decide)
    · exact absurd (hdone.symm.trans hs) (by decide)
    · simp [phase, hcheckpoint] at hphase
  | transcribed _ _ hstate => exact absurd hstate hreview
  | confirmedByAgent _ _ hstate => exact absurd hstate hreview

/-- No submission starts on a source that has succeeded. -/
theorem Lifecycle.unstarted {dir : Directory Id}
    {known : List Text} {request : SubmissionRequest H} {submission : Submission Id H}
    {t : Turn Id H} (h : Lifecycle media source) (hdone : source.status = .succeeded) :
    submitAnalysis env dir known source request ≠ .ok (.started submission t) := by
  intro hstarted
  obtain ⟨hmode, -, directory, -, hbranch⟩ := submitAnalysis_started hstarted
  have hphase : phase source = some .done := by
    rcases (h.agent hmode).2 with hs | hs | hs | ⟨-, hphase⟩
    · exact absurd (hdone.symm.trans hs) (by decide)
    · exact absurd (hdone.symm.trans hs) (by decide)
    · exact absurd (hdone.symm.trans hs) (by decide)
    · exact hphase
  rcases hbranch with ⟨c, hcheckpoint, hreplay⟩ | ⟨hcheckpoint, -⟩
  · have hdonePhase : c.phase = .done := by simpa [phase, hcheckpoint] using hphase
    rcases (replaySubmission_started hreplay).2 with ⟨hp, -⟩ | ⟨hp, -⟩ <;>
      exact absurd (hdonePhase.symm.trans hp) (by decide)
  · simp [phase, hcheckpoint] at hphase

/-- No step changes the status of a source that has succeeded. -/
theorem Coherent.succeeded_step {e : Event Id H} (h : Coherent media s)
    (hdone : s.source.status = .succeeded) (hstep : Sources.step env s e = some s') :
    s'.source.status = .succeeded := by
  cases change_of_step hstep with
  | idle _ hrow => exact hrow ▸ hdone
  | edited edit now scheduling hedit =>
    exact h.row.edited_succeeded hdone (edited_of_applyEdit hedit)
  | entered runner _ hrow =>
    rcases beginProcessing_cases s.source with heq | ⟨_, _, _, hadmissible, -⟩
    · rw [hrow, heq]
      exact hdone
    · exact absurd hdone hadmissible.unsettled.1
  | failed runner error _ hrow =>
    rw [hrow, recordFailure, updateSource, if_pos (.inl hdone)]
    exact hdone
  | admitted dir known request submission t _ hadmitted =>
    exact absurd hadmitted (h.row.unstarted hdone)
  | acted action analyst session point t hworking =>
    exact absurd hdone ((h.engaged _ _ _ hworking).row_unfinished h.row)

theorem Coherent.succeeded_run (h : Coherent media s) (hdone : s.source.status = .succeeded)
    (hrun : RunOf (Sources.step env) anyEvent s s') : s'.source.status = .succeeded := by
  have hboth : Coherent media s' ∧ s'.source.status = .succeeded :=
    RunOf.invariant (P := fun s => Coherent media s ∧ s.source.status = .succeeded)
      (fun _ _ _ hs _ hstep => ⟨hs.1.step hstep, hs.1.succeeded_step hs.2 hstep⟩) hrun ⟨h, hdone⟩
  exact hboth.2

end

/-- The columns that describe where a source stands fit together in every state it reaches. A
meeting that awaits review is shown as such, unless it is a recording that an agent
uploaded. -/
theorem lifeCycle_coherent {env : Env Id H} {creation : Creation Id} {s : State Id H}
    (h : ReachedFrom env creation s) :
    (s.source.status = .awaitingReview → s.source.reviewState = some .awaitingReview) ∧
      (s.source.reviewState = some .awaitingReview → s.source.status = .awaitingReview ∨
        ((∃ file, creation = .agentMedia .meeting file) ∧ s.source.status = .awaitingAgent)) ∧
      (s.source.status = .succeeded → s.source.processingStage = .completed ∧
        s.source.progress = 1 ∧
        (s.source.kind = .meeting → s.source.reviewState = some .confirmed)) ∧
      (s.source.status = .succeeded → ∀ s', RunOf (step env) anyEvent s s' →
        s'.source.status = .succeeded) ∧
      (s.source.analysisCheckpoint ≠ none →
        s.source.kind = .document ∨ s.source.reviewState = some .confirmed) := by
  have hcoherent := h.coherent
  refine ⟨hcoherent.row.shown, hcoherent.row.awaiting, ?_, ?_, hcoherent.row.checkpointed⟩
  · intro hdone
    obtain ⟨hstage, hprogress, hgated⟩ := hcoherent.row.succeeded hdone
    refine ⟨hstage, hprogress, fun hmeeting => ?_⟩
    rcases hgated with hd | hc
    · exact absurd (hmeeting.symm.trans hd) (by decide)
    · exact hc
  · exact fun hdone s' hrun => hcoherent.succeeded_run hdone hrun

/-- The recording of an agent awaits review from the start. -/
theorem lifeCycle_coherent_media :
    ∃ s, ReachedFrom (plainEnv .postgres true) plainMedia s ∧
      s.source.status = .awaitingAgent ∧
      (s.source.reviewState = some .awaitingReview → s.source.status = .awaitingReview ∨
        ((∃ file, plainMedia = .agentMedia .meeting file) ∧ s.source.status = .awaitingAgent)) := by
  obtain ⟨s, hs, hstatus⟩ : ∃ s, plainRun (plainEnv .postgres true) plainMedia [] = some s ∧
      s.source.status = .awaitingAgent := ⟨_, rfl, rfl⟩
  have hreached := reachedFrom_plainRun hs
  exact ⟨s, hreached, hstatus, (lifeCycle_coherent hreached).2.1⟩

/-- Such a recording awaits review under a status that does not say so. -/
theorem not_shown_media :
    ¬ ∀ s, Reachable (plainEnv .postgres true) s →
      (s.source.reviewState = some .awaitingReview ↔ s.source.status = .awaitingReview) := by
  intro h
  obtain ⟨s, hs, hstate, hstatus⟩ :
      ∃ s, plainRun (plainEnv .postgres true) plainMedia [] = some s ∧
        s.source.reviewState = some .awaitingReview ∧ s.source.status = .awaitingAgent :=
    ⟨_, rfl, rfl, rfl⟩
  have hshown := (h s (reachable_iff.mpr ⟨_, reachedFrom_plainRun hs⟩)).mp hstate
  exact absurd (hstatus.symm.trans hshown) (by decide)

end Maeglagi.Sources
