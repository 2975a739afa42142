import Maeglagi.Sources.ReviewGate

/-!
# The revision of a review

Every writer of the utterances under review bumps the revision that clients check, except the
end of a transcription that finds no draft. Without that one, a revision names one content.
-/

namespace Maeglagi.Sources

open Core Jobs

variable {Id H : Type} [DecidableEq Id] [DecidableEq H]

/-- A transcription ends only where a draft of the utterances exists. -/
def Drafted (s : State Id H) (e : Event Id H) : Prop :=
  ∀ body, e = .act (.transcribe body) → s.source.reviewUtterances ≠ []

/-- The later row has the later revision, and the same content under the same one. -/
def Revised (source source' : Source Id H) : Prop :=
  source.reviewRevision ≤ source'.reviewRevision ∧
    (source'.reviewState ≠ some .confirmed → source.reviewState ≠ some .confirmed ∧
      (source'.reviewRevision = source.reviewRevision →
        source'.reviewUtterances = source.reviewUtterances))

section
variable {env : Env Id H} {media : Prop} {source source' source'' row session : Source Id H}
  {s s' : State Id H}

omit [DecidableEq Id] [DecidableEq H] in
theorem Revised.refl (source : Source Id H) : Revised source source :=
  ⟨le_rfl, fun h => ⟨h, fun _ => rfl⟩⟩

omit [DecidableEq Id] [DecidableEq H] in
theorem Revised.trans (h : Revised source source') (h' : Revised source' source'') :
    Revised source source'' := by
  refine ⟨h.1.trans h'.1, fun hopen => ?_⟩
  obtain ⟨hopen', hsame'⟩ := h'.2 hopen
  obtain ⟨hopen'', hsame⟩ := h.2 hopen'
  refine ⟨hopen'', fun heq => ?_⟩
  -- equal ends leave no room for a revision in between
  have hle := h.1
  have hle' := h'.1
  exact (hsame' (by omega)).trans (hsame (by omega))

omit [DecidableEq Id] [DecidableEq H] in
/-- A writer that bumps the revision of an open review may write any content. -/
theorem revised_bump (hopen : source.reviewState ≠ some .confirmed)
    (hbump : source'.reviewRevision = source.reviewRevision + 1) : Revised source source' := by
  refine ⟨by omega, fun _ => ⟨hopen, fun heq => ?_⟩⟩
  omega

omit [DecidableEq Id] [DecidableEq H] in
/-- A writer of other columns. -/
theorem revised_same (hstate : source'.reviewState = source.reviewState)
    (hrevision : source'.reviewRevision = source.reviewRevision)
    (hutterances : source'.reviewUtterances = source.reviewUtterances) :
    Revised source source' :=
  ⟨hrevision.ge, fun hopen => ⟨hstate ▸ hopen, fun _ => hutterances⟩⟩

omit [DecidableEq Id] [DecidableEq H] in
/-- Every edit bumps the revision, confirms the review or leaves its content alone. -/
theorem Edited.revised {scheduling : Scheduling} {edit : Edit Id}
    (h : Edited env source source' scheduling edit) (hmeeting : source.kind = .meeting) :
    Revised source source' := by
  have hopen : ∀ state, source.reviewState = some state → state ≠ .confirmed →
      source.reviewState ≠ some .confirmed := by
    intro state hstate hne hconfirmed
    rw [hstate] at hconfirmed
    exact hne (Option.some.inj hconfirmed)
  have hconfirmed : source'.reviewState = some .confirmed →
      source'.reviewRevision = source.reviewRevision → Revised source source' :=
    fun hstate hrevision => ⟨hrevision.ge, fun hne => absurd hstate hne⟩
  cases h with
  | saved _ hstate _ _ _ _ hrow =>
    exact revised_bump (hopen _ hstate (by decide)) (by rw [hrow])
  | confirmed _ _ _ hrow => exact hconfirmed (by rw [hrow]) (by rw [hrow])
  | submittedAgain _ _ _ _ hrow => exact revised_same (by rw [hrow]) (by rw [hrow]) (by rw [hrow])
  | retried _ _ _ _ hrow => exact revised_same (by rw [hrow]) (by rw [hrow]) (by rw [hrow])
  | recovered _ _ _ hstate _ _ _ _ hrow =>
    exact revised_bump (hopen _ hstate (by decide)) (by rw [hrow])
  | associated _ hrow =>
    by_cases hstate : source.reviewState = some .confirmed
    · exact revised_same (by rw [hrow]) (by rw [hrow]; simp [hstate]) (by rw [hrow])
    · exact revised_bump hstate (by rw [hrow]; simp [hmeeting, hstate])
  | texted _ hkind => exact absurd (hmeeting.symm.trans hkind) (by decide)
  | transcribed _ _ hstate _ _ _ _ hrow =>
    exact revised_bump (hopen _ hstate (by decide)) (by rw [hrow])
  | confirmedByAgent _ _ _ hrow => exact hconfirmed (by rw [hrow]) (by rw [hrow])

/-- The end of a transcription over a draft keeps the draft. -/
theorem transcribed_utterances {analyst : Analyst Id H} {action : Action Id} {t : Turn Id H}
    (hagrees : Agrees session row)
    (h : turn env analyst row session .transcribing action = some t) :
    (∃ body, action = .transcribe body) ∧ t.row.reviewRevision = row.reviewRevision ∧
      (row.reviewUtterances ≠ [] → t.row.reviewUtterances = row.reviewUtterances) := by
  cases action with
  | transcribe body =>
    refine ⟨⟨body, rfl⟩, ?_⟩
    simp only [turn] at h
    split at h
    · cases h
    split at h <;> cases h
    refine ⟨rfl, fun hdraft => ?_⟩
    change written session.reviewUtterances _ row.reviewUtterances = row.reviewUtterances
    rw [hagrees.reviewUtterances, if_neg hdraft, written_self]
  | _ => cases h

/-- Every step but the end of a transcription without a draft keeps revisions and contents in
step. -/
theorem Coherent.revised_step {e : Event Id H} (h : Coherent media s)
    (hmeeting : s.source.kind = .meeting) (hdrafted : Drafted s e)
    (hstep : Sources.step env s e = some s') : Revised s.source s'.source := by
  cases change_of_step hstep with
  | idle _ hrow => exact hrow ▸ .refl _
  | edited edit now scheduling hedit => exact (edited_of_applyEdit hedit).revised hmeeting
  | entered runner _ hrow =>
    rw [hrow]
    rcases beginProcessing_cases s.source with heq | ⟨_, _, _, -, -, heq, -⟩ <;> rw [heq] <;>
      exact revised_same rfl rfl rfl
  | failed runner error _ hrow =>
    rw [hrow]
    unfold recordFailure updateSource
    split_ifs <;> exact revised_same rfl rfl rfl
  | admitted dir known request submission t _ hadmitted hrow =>
    obtain ⟨_, _, heq⟩ := started_row hadmitted
    rw [hrow, heq]
    exact revised_same rfl rfl rfl
  | acted action analyst session point t hworking hturn hrow =>
    have hengaged := h.engaged _ _ _ hworking
    rw [hrow]
    rcases turn_row hturn with heq | ⟨assigned, heq, rfl | hworked⟩
    · rw [heq]
      exact .refl _
    · obtain ⟨⟨body, rfl⟩, hrevision, hsame⟩ := transcribed_utterances hengaged.agrees hturn
      have hopen : s.source.reviewState ≠ some .confirmed := by
        rw [← hengaged.agrees.reviewState, hengaged.facts.2.1]
        decide
      exact ⟨hrevision.ge, fun _ => ⟨hopen, fun _ => hsame (hdrafted body rfl)⟩⟩
    · have hrest := worked_flush hworked s.source
      rw [heq, hrest]
      exact revised_same rfl rfl rfl

end

/-- While every transcription that ends finds a draft, two states of an open review with the
same revision have the same utterances, and a save that is accepted replaces the content that
its client read. -/
theorem sameRevision_sameUtterances {env : Env Id H} {s s' : State Id H} (h : Reachable env s)
    (hmeeting : s.source.kind = .meeting) (hrun : RunOf (step env) Drafted s s') :
    (s'.source.reviewState ≠ some .confirmed →
        s'.source.reviewRevision = s.source.reviewRevision →
        s'.source.reviewUtterances = s.source.reviewUtterances) ∧
      ∀ dir request saved, saveReview dir s'.source request = .ok saved →
        request.revision = s.source.reviewRevision →
        s'.source.reviewUtterances = s.source.reviewUtterances := by
  obtain ⟨creation, hreached⟩ := reachable_iff.mp h
  have hrevised : Revised s.source s'.source := by
    refine RunOf.lift (P := fun mid => Coherent creation.IsMedia mid ∧ mid.source.kind = .meeting)
      (R := fun mid next => Revised mid.source next.source) (fun mid => .refl _)
      (fun h h' => h.trans h') ?_ ?_ hrun ⟨hreached.coherent, hmeeting⟩
    · intro mid e next hmid _ hstep
      exact ⟨hmid.1.step hstep, (change_of_step hstep).same.1.trans hmid.2⟩
    · intro mid e next hmid hdrafted hstep
      exact hmid.1.revised_step hmid.2 hdrafted hstep
  refine ⟨fun hopen => (hrevised.2 hopen).2, ?_⟩
  intro dir request saved hsave hread
  obtain ⟨-, hstate, hrevision, -⟩ := saveReview_eq_ok hsave
  refine (hrevised.2 ?_).2 (hrevision.symm.trans hread)
  rw [hstate]
  decide

/-- A worker that starts on a recording leaves its draft and its revision. -/
theorem sameRevision_sameUtterances_started : ∃ s s',
    RunOf (step (plainEnv .celery true)) Drafted s s' ∧
      s'.source.reviewUtterances = s.source.reviewUtterances := by
  obtain ⟨s, s', hreached, hlater, hmeeting, hopen, hrevision⟩ :=
    exists_plainRuns (plainEnv .celery true) (plainRecording none) [] [.deliver false, .enter]
      (fun s s' => s.source.kind = .meeting ∧ s'.source.reviewState ≠ some .confirmed ∧
        s'.source.reviewRevision = s.source.reviewRevision) (by decide +kernel)
  have hrun : RunOf (step (plainEnv .celery true)) Drafted s s' := by
    refine runOf_replay ?_ hlater
    rintro mid e he body rfl
    simp at he
  exact ⟨s, s', hrun, (sameRevision_sameUtterances (reachable_iff.mpr ⟨_, hreached⟩) hmeeting
    hrun).1 hopen hrevision⟩

/-- A transcription fills in the utterances of a recording under the revision that a client
has already read without them. -/
theorem not_sameUtterances_undrafted :
    ¬ ∀ s s' : State Text PlainDigest, Reachable (plainEnv .celery true) s →
      s.source.kind = .meeting → RunOf (step (plainEnv .celery true)) anyEvent s s' →
      s'.source.reviewState ≠ some .confirmed →
      s'.source.reviewRevision = s.source.reviewRevision →
      s'.source.reviewUtterances = s.source.reviewUtterances := by
  intro h
  obtain ⟨s, s', hreached, hlater, hmeeting, hopen, hrevision, hdiffer⟩ :=
    exists_plainRuns (plainEnv .celery true) (plainRecording none) []
      [.deliver false, .enter, .act (.transcribe plainSpeech)]
      (fun s s' => s.source.kind = .meeting ∧ s'.source.reviewState ≠ some .confirmed ∧
        s'.source.reviewRevision = s.source.reviewRevision ∧
        s'.source.reviewUtterances ≠ s.source.reviewUtterances) (by decide +kernel)
  exact hdiffer (h s s' (reachable_iff.mpr ⟨_, hreached⟩) hmeeting
    (runOf_replay (fun _ _ _ => trivial) hlater) hopen hrevision)

end Maeglagi.Sources
