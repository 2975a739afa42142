import Maeglagi.PlainSystem

/-!
# The review gate

A meeting leaves no trace outside its row before its review is confirmed, and a confirmed
review is final.
-/

namespace Maeglagi.Sources

open Core Jobs

variable {Id H : Type} [DecidableEq Id] [DecidableEq H]

/-- What a confirmation fixes: the state, the transcript, its utterances, the directory
snapshot and the time. -/
def publication (source : Source Id H) : Option ReviewState × Option Text × List (Utterance Id) ×
    Option (Snapshot Id) × Option Instant :=
  (source.reviewState, source.transcriptText, source.reviewUtterances, source.confirmedSnapshot,
    source.confirmedAt)

section
variable {env : Env Id H} {media : Prop} {source source' row session : Source Id H}
  {s s' : State Id H}

omit [DecidableEq Id] [DecidableEq H] in
theorem publication_worked {row' : Source Id H} (h : Worked row row') :
    publication row' = publication row := by
  rw [h]
  rfl

omit [DecidableEq Id] [DecidableEq H] in
/-- No edit applies to the review of a confirmed meeting. -/
theorem Edited.publication {scheduling : Scheduling} {edit : Edit Id}
    (h : Edited env source source' scheduling edit)
    (hconfirmed : source.reviewState = some .confirmed) :
    Sources.publication source' = Sources.publication source := by
  have hopen : ∀ state, source.reviewState = some state → state = .confirmed := by
    intro state hstate
    rw [hconfirmed] at hstate
    exact (Option.some.inj hstate).symm
  cases h with
  | saved _ hstate => cases hopen _ hstate
  | confirmed _ hstate => cases hopen _ hstate
  | submittedAgain _ _ _ _ hrow => exact hrow ▸ rfl
  | retried _ hstate => cases hopen _ hstate
  | recovered _ _ _ hstate => cases hopen _ hstate
  | associated _ hrow => exact hrow ▸ rfl
  | texted _ _ _ hrow => exact hrow ▸ rfl
  | transcribed _ _ hstate => cases hopen _ hstate
  | confirmedByAgent _ _ hstate => cases hopen _ hstate

/-- No step changes what a confirmation fixed. -/
theorem Coherent.publication_step {e : Event Id H} (h : Coherent media s)
    (hconfirmed : s.source.reviewState = some .confirmed)
    (hstep : Sources.step env s e = some s') : publication s'.source = publication s.source := by
  cases change_of_step hstep with
  | idle _ hrow => exact congrArg publication hrow
  | edited edit now scheduling hedit => exact (edited_of_applyEdit hedit).publication hconfirmed
  | entered runner _ hrow =>
    rw [hrow]
    rcases beginProcessing_cases s.source with heq | ⟨_, _, _, -, -, heq, -⟩
    · rw [heq]
    · rw [heq]
      rfl
  | failed runner error _ hrow =>
    rw [hrow]
    unfold recordFailure updateSource
    split_ifs <;> rfl
  | admitted dir known request submission t _ hadmitted hrow =>
    obtain ⟨_, _, heq⟩ := started_row hadmitted
    rw [hrow, heq]
    rfl
  | acted action analyst session point t hworking hturn hrow =>
    have hengaged := h.engaged _ _ _ hworking
    rw [hrow]
    rcases turn_row hturn with heq | ⟨assigned, heq, rfl | hworked⟩
    · rw [heq]
    · -- a transcription is only at work before the review
      have htranscribing : session.reviewState = some .transcribing := hengaged.facts.2.1
      rw [hengaged.agrees.reviewState, hconfirmed] at htranscribing
      cases htranscribing
    · rw [heq]
      exact publication_worked (worked_flush hworked _)

/-- Only a source whose text may leave it writes outside its row. -/
theorem turn_gated {analyst : Analyst Id H} {point : Point} {action : Action Id} {t : Turn Id H}
    (h : Engaged analyst session row point)
    (ht : turn env analyst row session point action = some t) (hsinks : t.sinks ≠ []) :
    Gated row := by
  have hgated : point ≠ .parsing → point ≠ .transcribing → Gated row := by
    intro hparsing htranscribing
    have hfacts := h.facts
    have hsession : Gated session := by
      cases point with
      | parsing => exact absurd rfl hparsing
      | transcribing => exact absurd rfl htranscribing
      | analyzing => exact hfacts
      | _ => exact hfacts.1
    unfold Gated at hsession ⊢
    rwa [← h.agrees.kind, ← h.agrees.reviewState]
  unfold turn at ht
  split at ht
  · cases ht
    exact absurd rfl hsinks
  · split at ht
    · cases ht
    split at ht <;> cases ht
    exact absurd rfl hsinks
  · exact hgated (by decide) (by decide)
  · exact hgated (by decide) (by decide)
  · exact hgated (by decide) (by decide)
  · exact hgated (by rintro ⟨⟩) (by rintro ⟨⟩)
  · exact hgated (by decide) (by decide)
  · exact hgated (by decide) (by decide)
  · exact hgated (by decide) (by decide)
  · exact hgated (by decide) (by decide)
  · cases ht

/-- A step that writes outside the row starts from a source whose text may leave it. -/
theorem Coherent.gated_step {e : Event Id H} (h : Coherent media s)
    (hstep : Sources.step env s e = some s') (hsinks : s'.sinks ≠ s.sinks) : Gated s.source := by
  cases change_of_step hstep with
  | idle _ _ heq => exact absurd heq hsinks
  | edited edit now scheduling _ heq => exact absurd heq hsinks
  | entered runner _ _ heq => exact absurd heq hsinks
  | failed runner error _ _ heq => exact absurd heq hsinks
  | admitted dir known request submission t _ hadmitted =>
    exact (submitAnalysis_started hadmitted).2.1
  | acted action analyst session point t hworking hturn _ heq =>
    apply turn_gated (h.engaged _ _ _ hworking) hturn
    intro hnil
    rw [hnil, List.append_nil] at heq
    exact hsinks heq

end

/-- A confirmed review is final, and nothing of a meeting is written outside its row in a state
in which its review is not confirmed. -/
theorem reviewGate {env : Env Id H} {s : State Id H} (h : Reachable env s)
    (hmeeting : s.source.kind = .meeting) :
    (s.source.reviewState = some .confirmed → ∀ s', RunOf (step env) anyEvent s s' →
        publication s'.source = publication s.source) ∧
      ∀ e s', step env s e = some s' → s'.sinks ≠ s.sinks →
        s.source.reviewState = some .confirmed := by
  obtain ⟨creation, hreached⟩ := reachable_iff.mp h
  have hcoherent := hreached.coherent
  constructor
  · intro hconfirmed s' hrun
    have hboth : Coherent creation.IsMedia s' ∧
        publication s'.source = publication s.source := by
      refine RunOf.invariant (P := fun mid => Coherent creation.IsMedia mid ∧
        publication mid.source = publication s.source) ?_ hrun ⟨hcoherent, rfl⟩
      intro mid e next hmid _ hstep
      have hstate : mid.source.reviewState = some .confirmed :=
        (congrArg Prod.fst hmid.2).trans hconfirmed
      exact ⟨hmid.1.step hstep, (hmid.1.publication_step hstate hstep).trans hmid.2⟩
    exact hboth.2
  · intro e s' hstep hsinks
    rcases hcoherent.gated_step hstep hsinks with hd | hc
    · exact absurd (hmeeting.symm.trans hd) (by decide)
    · exact hc

/-- The notes of a meeting, from an agent. -/
def plainNotes : Creation Text :=
  .agentText emptyDirectory "Sync".toList "We ship on Friday.".toList .meeting []

/-- The notes are confirmed as they are. -/
theorem reviewGate_notes : ∃ s, plainRun (plainEnv .postgres true) plainNotes
      [.edit (.confirmTranscript emptyDirectory 0 0) 0] = some s ∧
    s.source.reviewState = some .confirmed ∧
    (∀ s', RunOf (step (plainEnv .postgres true)) anyEvent s s' →
        publication s'.source = publication s.source) := by
  obtain ⟨s, hs, hreached, hmeeting, hconfirmed⟩ :=
    exists_plainRun (plainEnv .postgres true) plainNotes
      [.edit (.confirmTranscript emptyDirectory 0 0) 0]
      (fun s => s.source.kind = .meeting ∧ s.source.reviewState = some .confirmed)
      (by decide +kernel)
  exact ⟨s, hs, hconfirmed,
    (reviewGate (reachable_iff.mpr ⟨_, hreached⟩) hmeeting).1 hconfirmed⟩

end Maeglagi.Sources
