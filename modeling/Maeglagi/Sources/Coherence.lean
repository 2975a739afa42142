import Maeglagi.Sources.Agreement
import Maeglagi.Sources.Edits

/-!
# Coherent sources

The columns of a row that describe where its source stands fit together, and an attempt at
work agrees with the row about what it has left to do. Both hold in every state of every run.
-/

namespace Maeglagi.Sources

open Core Jobs

variable {Id H : Type} [DecidableEq Id] [DecidableEq H]

/-- The phase of the checkpoint, if there is one. -/
def phase (source : Source Id H) : Option Phase := source.analysisCheckpoint.map Checkpoint.phase

/-- The text may leave the source: it is a document's, or its review is confirmed. -/
def Gated (source : Source Id H) : Prop :=
  source.kind = .document ∨ source.reviewState = some .confirmed

/-- The columns of a row that describe where it stands fit together; `media` says that it is a
recording that an agent uploaded. -/
structure Lifecycle (media : Prop) (source : Source Id H) : Prop where
  document : source.kind = .document → source.reviewState = none
  shown : source.status = .awaitingReview → source.reviewState = some .awaitingReview
  awaiting : source.reviewState = some .awaitingReview →
    source.status = .awaitingReview ∨ (media ∧ source.status = .awaitingAgent)
  succeeded : source.status = .succeeded →
    source.processingStage = .completed ∧ source.progress = 1 ∧ Gated source
  completed : source.processingStage = .completed → source.status = .succeeded
  checkpointed : source.analysisCheckpoint ≠ none → Gated source
  server : source.analysisMode = .server → source.status ≠ .awaitingAgent
  agent : source.analysisMode = .agent → source.reviewState ≠ some .transcribing ∧
    (source.status = .awaitingAgent ∨ source.status = .awaitingReview ∨
      source.status = .processing ∨ (source.status = .succeeded ∧ phase source = some .done))

/-- What an attempt at a point knows of its session. -/
def Facts (session : Source Id H) : Point → Prop
  | .parsing => session.kind = .document ∧ phase session = none
  | .transcribing => session.kind = .meeting ∧ session.reviewState = some .transcribing ∧
      phase session = none
  | .indexing | .extracting => Gated session ∧ phase session = none
  | .analyzing => Gated session
  | .merging _ => Gated session ∧ phase session = some .extracted
  | .graphing | .broken | .finishing => Gated session ∧ phase session = some .contextApplied
  | .concluding | .completing =>
    Gated session ∧ (phase session = none ∨ phase session = some .done)

/-- The attempt agrees with the row and knows what its point says. -/
structure Engaged (analyst : Analyst Id H) (session row : Source Id H) (point : Point) : Prop where
  mode : row.analysisMode = analyst.mode
  agrees : Agrees session row
  fully : analyst.mode = .server → AgreesFully session row ∧ session.status = .processing
  shared : analyst.mode = .agent → point.shared = true
  unfinished : session.status ≠ .succeeded ∧ session.processingStage ≠ .completed
  facts : Facts session point

section
variable {media : Prop} {analyst : Analyst Id H} {session row assigned : Source Id H}
  {point point' : Point}

omit [DecidableEq Id] [DecidableEq H] in
theorem phase_congr (h : Agrees session row) : phase row = phase session :=
  congrArg (fun source => source.analysisCheckpoint.map Checkpoint.phase) h

omit [DecidableEq Id] [DecidableEq H] in
/-- While an attempt is at work its source has not succeeded. -/
theorem Engaged.row_unfinished (h : Engaged analyst session row point)
    (hrow : Lifecycle media row) : row.status ≠ .succeeded := by
  intro hsucceeded
  cases analyst with
  | server runner resumed =>
    obtain ⟨hagrees, hprocessing⟩ := h.fully rfl
    rw [← hagrees.status, hprocessing] at hsucceeded
    cases hsucceeded
  | agent submission =>
    have hdone : phase row = some .done := by
      rcases (hrow.agent h.mode).2 with hstatus | hstatus | hstatus | ⟨-, hdone⟩
      · rw [hstatus] at hsucceeded
        cases hsucceeded
      · rw [hstatus] at hsucceeded
        cases hsucceeded
      · rw [hstatus] at hsucceeded
        cases hsucceeded
      · exact hdone
    rw [phase_congr h.agrees] at hdone
    have hshared := h.shared rfl
    have hfacts := h.facts
    cases point <;> simp_all [Facts, Point.shared]

/-- What a commit in the middle of an attempt assigns. -/
structure Midway (analyst : Analyst Id H) (session assigned : Source Id H) (point' : Point) :
    Prop where
  kept : overlaid session assigned = assigned
  review : assigned.reviewState = session.reviewState
  unfinished : assigned.status ≠ .succeeded ∧ assigned.processingStage ≠ .completed
  server : analyst.mode = .server → assigned.status = .processing
  agent : analyst.mode = .agent → point'.shared = true ∧ assigned.status = session.status ∧
    assigned.contentText = session.contentText
  gated : assigned.analysisCheckpoint ≠ none → Gated session
  facts : Facts assigned point'

/-- A commit in the middle of an attempt keeps the row coherent and the attempt in step. -/
theorem Engaged.committed (h : Engaged analyst session row point) (hrow : Lifecycle media row)
    (hmid : Midway analyst session assigned point') :
    Lifecycle media (session.flush assigned row) ∧
      Engaged analyst assigned (session.flush assigned row) point' := by
  have hreview : assigned.reviewState = row.reviewState :=
    hmid.review.trans h.agrees.reviewState
  have hkind : assigned.kind = row.kind := by
    rw [← hmid.kept]
    exact h.agrees.kind
  have hmoderow : assigned.analysisMode = row.analysisMode := by
    rw [← hmid.kept]
    exact h.agrees.analysisMode
  have hgated : assigned.analysisCheckpoint ≠ none → Gated assigned := by
    intro hne
    have hsession := hmid.gated hne
    unfold Gated at hsession ⊢
    rw [hmid.review, ← hmid.kept]
    exact hsession
  have hdocument : assigned.kind = .document → assigned.reviewState = none := by
    rw [hkind, hreview]
    exact hrow.document
  have hnot := h.row_unfinished hrow
  cases hwho : analyst.mode with
  | server =>
    obtain ⟨hfully, hprocessing⟩ := h.fully hwho
    have hstatus := hmid.server hwho
    rw [flush_of_agreesFully hfully hmid.kept]
    refine ⟨⟨hdocument, ?_, ?_, ?_, ?_, hgated, ?_, ?_⟩,
      ⟨?_, (agreesFully_reassociated assigned row).agrees,
        fun _ => ⟨agreesFully_reassociated assigned row, hstatus⟩, ?_, hmid.unfinished,
        hmid.facts⟩⟩
    · intro hshown
      exact absurd (hstatus.symm.trans hshown) (by decide)
    · intro hawaiting
      rw [show (reassociated assigned row).reviewState = row.reviewState from hreview] at hawaiting
      rcases hrow.awaiting hawaiting with hshown | ⟨-, hshown⟩ <;>
        exact absurd (hprocessing.symm.trans (hfully.status.trans hshown)) (by decide)
    · intro hsucceeded
      exact absurd hsucceeded hmid.unfinished.1
    · intro hcompleted
      exact absurd hcompleted hmid.unfinished.2
    · intro _ hagent
      exact absurd (hstatus.symm.trans hagent) (by decide)
    · intro hagent
      rw [show (reassociated assigned row).analysisMode = row.analysisMode from hmoderow, h.mode,
        hwho] at hagent
      cases hagent
    · exact hmoderow.trans h.mode
    · intro hagent
      rw [hwho] at hagent
      cases hagent
  | agent =>
    obtain ⟨hshared, hstatus, hcontent⟩ := hmid.agent hwho
    have hkeep : written session.status assigned.status row.status = row.status := by
      rw [hstatus, written_self]
    rw [flush_of_agrees h.agrees hmid.kept, hcontent, written_self, hkeep]
    refine ⟨⟨hdocument, ?_, ?_, fun hs => absurd hs hnot, ?_, hgated, ?_, ?_⟩,
      ⟨hmoderow.trans h.mode, rfl, ?_, fun _ => hshared, hmid.unfinished, hmid.facts⟩⟩
    · intro hshown
      exact hreview.trans (hrow.shown hshown)
    · intro hawaiting
      exact hrow.awaiting (hreview.symm.trans hawaiting)
    · intro hcompleted
      have hstage : written session.processingStage assigned.processingStage row.processingStage =
          .completed := hcompleted
      unfold written at hstage
      split_ifs at hstage
      · exact hrow.completed hstage
      · exact absurd hstage hmid.unfinished.2
    · intro hserver
      have hmode : assigned.analysisMode = .server := hserver
      rw [hmoderow, h.mode, hwho] at hmode
      cases hmode
    · intro _
      have hagent := hrow.agent (h.mode.trans hwho)
      refine ⟨?_, ?_⟩
      · intro htranscribing
        exact hagent.1 (hreview.symm.trans htranscribing)
      · rcases hagent.2 with hs | hs | hs | ⟨hs, -⟩
        · exact .inl hs
        · exact .inr (.inl hs)
        · exact .inr (.inr (.inl hs))
        · exact absurd hs hnot
    · intro hserver
      rw [hwho] at hserver
      cases hserver

omit [DecidableEq Id] [DecidableEq H] in
/-- Only a server's attempt stands at the other points. -/
theorem Engaged.server (h : Engaged analyst session row point) (hpoint : point.shared = false) :
    analyst.mode = .server := by
  cases hwho : analyst.mode with
  | server => rfl
  | agent =>
    rw [h.shared hwho] at hpoint
    cases hpoint

omit [DecidableEq Id] [DecidableEq H] in
theorem Engaged.gated (h : Engaged analyst session row point) (hrow : Lifecycle media row)
    (hne : session.analysisCheckpoint ≠ none) : Gated session := by
  rw [h.agrees.analysisCheckpoint] at hne
  have hgated := hrow.checkpointed hne
  unfold Gated at hgated ⊢
  rwa [h.agrees.kind, h.agrees.reviewState]

omit [DecidableEq Id] [DecidableEq H] in
/-- An attempt that writes nothing moves to a point whose facts it knows. -/
theorem Engaged.stay (h : Engaged analyst session row point)
    (hshared : analyst.mode = .agent → point'.shared = true) (hfacts : Facts session point') :
    Engaged analyst session row point' :=
  ⟨h.mode, h.agrees, h.fully, hshared, h.unfinished, hfacts⟩

omit [DecidableEq Id] [DecidableEq H] in
/-- The part of a commit's conditions that holds while the status and the text stay. -/
theorem Engaged.midway (h : Engaged analyst session row point) (hrow : Lifecycle media row)
    (hkept : overlaid session assigned = assigned)
    (hsame : assigned.reviewState = session.reviewState ∧ assigned.status = session.status)
    (hstage : assigned.processingStage ≠ .completed)
    (hshared : analyst.mode = .agent → point'.shared = true ∧
      assigned.contentText = session.contentText)
    (hgated : Gated session ∨ assigned.analysisCheckpoint = session.analysisCheckpoint)
    (hfacts : Facts assigned point') : Midway analyst session assigned point' := by
  refine ⟨hkept, hsame.1, ⟨?_, hstage⟩, ?_, ?_, ?_, hfacts⟩
  · rw [hsame.2]
    exact h.unfinished.1
  · intro hserver
    exact hsame.2.trans (h.fully hserver).2
  · intro hagent
    exact ⟨(hshared hagent).1, hsame.2, (hshared hagent).2⟩
  · intro hne
    rcases hgated with hgated | heq
    · exact hgated
    · exact h.gated hrow (heq ▸ hne)

/-- The coherence that a turn leaves. -/
def Settled (media : Prop) (analyst : Analyst Id H) (t : Turn Id H) : Prop :=
  Lifecycle media t.row ∧
    ∀ session point, t.next = some (session, point) → Engaged analyst session t.row point

theorem Engaged.settled_commit (h : Engaged analyst session row point) (hrow : Lifecycle media row)
    (hmid : Midway analyst session assigned point') (sinks : List (Sink Id)) :
    Settled media analyst (commit row session assigned point' sinks) := by
  obtain ⟨hlife, hengaged⟩ := h.committed hrow hmid
  refine ⟨hlife, ?_⟩
  rintro _ _ ⟨⟩
  exact hengaged

omit [DecidableEq Id] [DecidableEq H] in
theorem Engaged.settled_stay (h : Engaged analyst session row point) (hrow : Lifecycle media row)
    (hshared : analyst.mode = .agent → point'.shared = true) (hfacts : Facts session point')
    (sinks : List (Sink Id)) :
    Settled media analyst ⟨row, some (session, point'), sinks⟩ := by
  refine ⟨hrow, ?_⟩
  rintro _ _ ⟨⟩
  exact h.stay hshared hfacts

theorem Engaged.dispatched {env : Env Id H} {runner : Runner Id} {resumed provider : Bool}
    {known : List Text} {t : Turn Id H}
    (h : Engaged (.server runner resumed) session row .analyzing) (hrow : Lifecycle media row)
    (ht : dispatchCheckpoint env row session resumed provider known = some t) :
    Settled media (.server runner resumed) t := by
  have hgated : Gated session := h.facts
  have hafter : ∀ sinks, phase session = none ∨ phase session = some .done →
      Settled media (.server runner resumed)
        ⟨row, some (session, afterAnalysis resumed), sinks⟩ := by
    intro sinks hphase
    refine h.settled_stay hrow (fun hagent => by cases hagent) ?_ sinks
    cases resumed <;> exact ⟨hgated, hphase⟩
  have hstay : ∀ point' sinks, Facts session point' →
      Settled media (.server runner resumed) ⟨row, some (session, point'), sinks⟩ :=
    fun point' sinks hfacts => h.settled_stay hrow (fun hagent => by cases hagent) hfacts sinks
  unfold dispatchCheckpoint at ht
  dsimp only at ht
  split at ht
  · next hreview =>
    -- a meeting under review is neither a document nor confirmed
    obtain ⟨hmeeting, hstate⟩ := hreview
    rcases hgated with hdocument | hconfirmed
    · rw [hmeeting] at hdocument
      cases hdocument
    · rw [hconfirmed] at hstate
      rcases hstate with hstate | hstate <;> cases hstate
  · split at ht
    · next hnone =>
      have hphase : phase session = none := by rw [phase, hnone]; rfl
      cases ht
      cases provider
      · exact hafter _ (.inl hphase)
      · exact hstay _ _ ⟨hgated, hphase⟩
    · next c hsome =>
      have hphase : phase session = some c.phase := by rw [phase, hsome]; rfl
      split at ht
      · cases ht
      split at ht
      · next hdone =>
        cases ht
        exact hafter _ (.inr (by rw [hphase, hdone]))
      · next happlied =>
        cases ht
        exact hstay _ _ ⟨hgated, by rw [hphase, happlied]⟩
      · next hextracted =>
        split_ifs at ht <;> cases ht
        · exact hstay _ _ ⟨hgated, by rw [hphase, hextracted]⟩
        · refine h.settled_commit hrow ?_ _
          exact h.midway hrow rfl ⟨rfl, rfl⟩ h.unfinished.2 (fun hagent => by cases hagent)
            (.inl hgated) ⟨hgated, rfl⟩

theorem Engaged.extracted {env : Env Id H} {produced : AnalysisResult} {known : List Text}
    {t : Turn Id H} (h : Engaged analyst session row .extracting) (hrow : Lifecycle media row)
    (ht : extractAnalysis env analyst row session produced known = some t) :
    Settled media analyst t := by
  obtain ⟨hgated, -⟩ : Gated session ∧ phase session = none := h.facts
  unfold extractAnalysis at ht
  dsimp only at ht
  split at ht
  · cases ht
  · cases ht
    cases analyst with
    | server runner resumed =>
      refine h.settled_commit hrow ?_ _
      exact h.midway hrow rfl ⟨rfl, rfl⟩ h.unfinished.2 (fun hagent => by cases hagent)
        (.inl hgated) ⟨hgated, rfl⟩
    | agent submission =>
      refine h.settled_commit hrow ?_ _
      refine h.midway hrow rfl ⟨rfl, rfl⟩ ?_ (fun _ => ⟨rfl, rfl⟩) (.inl hgated) ⟨hgated, rfl⟩
      intro hcompleted
      cases hcompleted

theorem Engaged.applied {env : Env Id H} {fresh : Bool} {warnings : List Text} {t : Turn Id H}
    (h : Engaged analyst session row (.merging fresh)) (hrow : Lifecycle media row)
    (ht : applyContext env analyst row session fresh warnings = some t) :
    Settled media analyst t := by
  obtain ⟨hgated, -⟩ : Gated session ∧ phase session = some .extracted := h.facts
  obtain ⟨c, -, rfl⟩ := Option.map_eq_some_iff.mp ht
  cases analyst with
  | server runner resumed =>
    refine h.settled_commit hrow ?_ _
    exact h.midway hrow rfl ⟨rfl, rfl⟩ h.unfinished.2 (fun hagent => by cases hagent)
      (.inl hgated) ⟨hgated, rfl⟩
  | agent submission =>
    refine h.settled_commit hrow ?_ _
    refine h.midway hrow rfl ⟨rfl, rfl⟩ ?_ (fun _ => ⟨rfl, rfl⟩) (.inl hgated) ⟨hgated, rfl⟩
    intro hcompleted
    cases hcompleted

omit [DecidableEq Id] [DecidableEq H] in
theorem Engaged.written {env : Env Id H} {complete : Bool} {t : Turn Id H}
    (h : Engaged analyst session row .graphing) (hrow : Lifecycle media row)
    (ht : writeCheckpoint env row session complete = some t) : Settled media analyst t := by
  have hfacts : Gated session ∧ phase session = some .contextApplied := h.facts
  obtain ⟨c, -, rfl⟩ := Option.map_eq_some_iff.mp ht
  split_ifs
  all_goals
    refine h.settled_stay hrow (fun _ => rfl) ?_ _
    exact hfacts

theorem Engaged.finished {t : Turn Id H} (h : Engaged analyst session row .finishing)
    (hrow : Lifecycle media row) (ht : finishAnalysis analyst row session = some t) :
    Settled media analyst t := by
  obtain ⟨hgated, -⟩ : Gated session ∧ phase session = some .contextApplied := h.facts
  obtain ⟨c, -, rfl⟩ := Option.map_eq_some_iff.mp ht
  cases analyst with
  | server runner resumed =>
    refine h.settled_commit hrow ?_ _
    refine h.midway hrow rfl ⟨rfl, rfl⟩ h.unfinished.2 (fun hagent => by cases hagent)
      (.inl hgated) ?_
    cases resumed <;> exact ⟨hgated, .inr rfl⟩
  | agent submission =>
    have hnot := h.row_unfinished hrow
    have hgatedRow : Gated row := by
      unfold Gated at hgated ⊢
      rwa [← h.agrees.kind, ← h.agrees.reviewState]
    refine ⟨?_, fun _ _ hnext => by cases hnext⟩
    dsimp only [commitLast]
    rw [flush_of_agrees h.agrees rfl, Maeglagi.written_self,
      written_of_ne (Ne.symm h.unfinished.1), written_of_ne (Ne.symm h.unfinished.2)]
    have hreview := h.agrees.reviewState
    have hkind := h.agrees.kind
    have hmode := h.agrees.analysisMode
    refine ⟨?_, ?_, ?_, ?_, fun _ => rfl, fun _ => hgated, ?_, ?_⟩
    · intro hdocument
      exact hreview.trans (hrow.document (hkind.symm.trans hdocument))
    · rintro ⟨⟩
    · intro hawaiting
      have hawait : row.reviewState = some .awaitingReview := hreview.symm.trans hawaiting
      rcases hgatedRow with hdocument | hconfirmed
      · rw [hrow.document hdocument] at hawait
        cases hawait
      · rw [hconfirmed] at hawait
        cases hawait
    · exact fun _ => ⟨rfl, rfl, hgated⟩
    · rintro - ⟨⟩
    · intro _
      have hagent := hrow.agent h.mode
      exact ⟨fun htranscribing => hagent.1 (hreview.symm.trans htranscribing),
        .inr (.inr (.inr ⟨rfl, rfl⟩))⟩

/-- A turn of an attempt keeps the row coherent and the attempt in step. -/
theorem Engaged.turned {env : Env Id H} {action : Action Id} {t : Turn Id H}
    (h : Engaged analyst session row point) (hrow : Lifecycle media row)
    (ht : turn env analyst row session point action = some t) : Settled media analyst t := by
  unfold turn at ht
  split at ht
  · -- parsing
    have hserver := h.server rfl
    obtain ⟨hdocument, hnone⟩ : session.kind = .document ∧ phase session = none := h.facts
    cases ht
    refine h.settled_commit hrow ?_ _
    refine h.midway hrow rfl ⟨rfl, rfl⟩ (fun hcompleted => by cases hcompleted) ?_ (.inr rfl)
      ⟨.inl hdocument, hnone⟩
    intro hagent
    rw [hserver] at hagent
    cases hagent
  · -- transcribing
    have hserver := h.server rfl
    obtain ⟨hmeeting, htranscribing, hnone⟩ : session.kind = .meeting ∧
      session.reviewState = some .transcribing ∧ phase session = none := h.facts
    split at ht
    · cases ht
    split at ht
    · cases ht
    cases ht
    refine ⟨?_, fun _ _ hnext => by cases hnext⟩
    dsimp only [commitLast]
    rw [flush_of_agreesFully (h.fully hserver).1 rfl]
    refine ⟨?_, fun _ => rfl, fun _ => .inl rfl, ?_, ?_, ?_, ?_, ?_⟩
    · intro hdocument
      exact absurd (hmeeting.symm.trans hdocument) (by decide)
    · rintro ⟨⟩
    · rintro ⟨⟩
    · intro hne
      have hcheckpoint : session.analysisCheckpoint = none := Option.map_eq_none_iff.mp hnone
      exact absurd hcheckpoint hne
    · rintro - ⟨⟩
    · intro hagent
      have hmode : session.analysisMode = .agent := hagent
      rw [h.agrees.analysisMode, h.mode, hserver] at hmode
      cases hmode
  · -- indexing
    have hserver := h.server rfl
    obtain ⟨hgated, hnone⟩ : Gated session ∧ phase session = none := h.facts
    split_ifs at ht
    cases ht
    refine h.settled_commit hrow ?_ _
    refine h.midway hrow rfl ⟨rfl, rfl⟩ (fun hcompleted => by cases hcompleted) ?_ (.inr rfl)
      hgated
    intro hagent
    rw [hserver] at hagent
    cases hagent
  · -- analyzing
    split at ht
    · exact h.dispatched hrow ht
    · cases ht
  · exact h.extracted hrow ht
  · exact h.applied hrow ht
  · exact h.written hrow ht
  · exact h.finished hrow ht
  · -- concluding
    have hserver := h.server rfl
    obtain ⟨hgated, hphase⟩ : Gated session ∧ (phase session = none ∨ phase session = some .done) :=
      h.facts
    cases ht
    refine h.settled_commit hrow ?_ _
    refine h.midway hrow rfl ⟨rfl, (h.fully hserver).2.symm⟩ (fun hcompleted => by cases hcompleted)
      ?_ (.inr rfl) ⟨hgated, hphase⟩
    intro hagent
    rw [hserver] at hagent
    cases hagent
  · -- completing
    have hserver := h.server rfl
    obtain ⟨hgated, hphase⟩ : Gated session ∧ (phase session = none ∨ phase session = some .done) :=
      h.facts
    cases ht
    refine ⟨?_, fun _ _ hnext => by cases hnext⟩
    dsimp only [commitLast]
    rw [flush_of_agreesFully (h.fully hserver).1 rfl]
    have hreview := h.agrees.reviewState
    refine ⟨?_, ?_, ?_, fun _ => ⟨rfl, rfl, hgated⟩, fun _ => rfl, fun _ => hgated, ?_, ?_⟩
    · intro hdocument
      exact hreview.trans (hrow.document (h.agrees.kind.symm.trans hdocument))
    · rintro ⟨⟩
    · intro hawaiting
      -- neither a document nor a confirmed meeting awaits review
      have hawait : session.reviewState = some .awaitingReview := hawaiting
      rcases hgated with hdocument | hconfirmed
      · rw [hreview, hrow.document (h.agrees.kind.symm.trans hdocument)] at hawait
        cases hawait
      · rw [hconfirmed] at hawait
        cases hawait
    · rintro - ⟨⟩
    · intro hagent
      have hmode : session.analysisMode = .agent := hagent
      rw [h.agrees.analysisMode, h.mode, hserver] at hmode
      cases hmode
  · cases ht

/-- An attempt that returns after a turn leaves the source under review or done. -/
theorem Engaged.last {env : Env Id H} {action : Action Id} {t : Turn Id H}
    (h : Engaged analyst session row point)
    (ht : turn env analyst row session point action = some t) (hnext : t.next = none) :
    t.row.status = .awaitingReview ∨ t.row.status = .succeeded := by
  unfold turn at ht
  split at ht
  · cases ht
    cases hnext
  · split at ht
    · cases ht
    split at ht <;> cases ht
    have hprocessing := (h.fully (h.server rfl)).2
    exact .inl (written_of_ne (by rw [hprocessing]; rintro ⟨⟩) _)
  · split_ifs at ht
    cases ht
    cases hnext
  · split at ht
    · unfold dispatchCheckpoint at ht
      dsimp only at ht
      split at ht
      · cases ht
        cases hnext
      · split at ht
        · cases ht
          cases hnext
        · split at ht
          · cases ht
          split at ht
          · cases ht
            cases hnext
          · cases ht
            cases hnext
          · split_ifs at ht <;> cases ht <;> cases hnext
    · cases ht
  · unfold extractAnalysis at ht
    dsimp only at ht
    split at ht <;> cases ht
    cases hnext
  · obtain ⟨c, -, rfl⟩ := Option.map_eq_some_iff.mp ht
    cases hnext
  · obtain ⟨c, -, rfl⟩ := Option.map_eq_some_iff.mp ht
    split_ifs at hnext
  · obtain ⟨c, -, rfl⟩ := Option.map_eq_some_iff.mp ht
    cases analyst with
    | server runner resumed => cases hnext
    | agent submission => exact .inr (written_of_ne (Ne.symm h.unfinished.1) _)
  · cases ht
    cases hnext
  · cases ht
    exact .inr (written_of_ne (Ne.symm h.unfinished.1) _)
  · cases ht

end

end Maeglagi.Sources
