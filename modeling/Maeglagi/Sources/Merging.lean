import Maeglagi.PlainSystem

/-!
# Merges into the Context Store

The phase of the checkpoint counts the merges of a source: none before the context is applied,
one from then on, whatever fails or crashes in between.
-/

namespace Maeglagi.Sources

open Core Jobs

variable {Id H : Type} [DecidableEq Id] [DecidableEq H]

/-- The extractions that were merged into the Context Store, in order. -/
def contexts (sinks : List (Sink Id)) : List AnalysisResult :=
  sinks.filterMap fun
    | .context result => some result
    | _ => none

omit [DecidableEq Id] in
@[simp] theorem contexts_append (a b : List (Sink Id)) :
    contexts (a ++ b) = contexts a ++ contexts b := List.filterMap_append

/-- The merges that a phase stands for. -/
def merges : Option Phase → Nat
  | none | some .extracted => 0
  | some .contextApplied | some .done => 1

/-- The checkpoint's graph was written to its end, if there is a graph store. -/
def GraphWritten (env : Env Id H) (source : Source Id H) (sinks : List (Sink Id)) : Prop :=
  ∀ c, source.analysisCheckpoint = some c → env.settings.neo4jEnabled = true →
    .graph c.graph true ∈ sinks

/-- The other writes of a source are as many as its checkpoint says. -/
structure Accounted (env : Env Id H) (source : Source Id H) (active : Option (Active Id H))
    (sinks : List (Sink Id)) : Prop where
  merged : (contexts sinks).length = merges (phase source)
  done : phase source = some .done → GraphWritten env source sinks
  finishing : ∀ analyst session, active = some (.working analyst session .finishing) →
    GraphWritten env session sinks

section
variable {env : Env Id H} {media : Prop} {source source' row session : Source Id H}
  {s s' : State Id H} {analyst : Analyst Id H} {active : Option (Active Id H)}
  {sinks : List (Sink Id)} {t : Turn Id H}

omit [DecidableEq Id] [DecidableEq H] in
/-- A row with the same checkpoint is accounted for by the same writes and chunks. -/
theorem Accounted.same (h : Accounted env source active sinks)
    (hcheckpoint : source'.analysisCheckpoint = source.analysisCheckpoint)
    {added : List (Sink Id)} (hadded : contexts added = []) {active' : Option (Active Id H)}
    (hactive : ∀ analyst session, active' = some (.working analyst session .finishing) →
      active = some (.working analyst session .finishing) ∨
        GraphWritten env session (sinks ++ added)) :
    Accounted env source' active' (sinks ++ added) := by
  have hphase : phase source' = phase source :=
    congrArg (Option.map Checkpoint.phase) hcheckpoint
  refine ⟨?_, ?_, ?_⟩
  · rw [contexts_append, hadded, List.append_nil, hphase]
    exact h.merged
  · intro hdone c hc hneo
    rw [hphase] at hdone
    rw [hcheckpoint] at hc
    exact List.mem_append_left _ (h.done hdone c hc hneo)
  · intro analyst session hfinishing
    rcases hactive analyst session hfinishing with hbefore | hwritten
    · intro c hc hneo
      exact List.mem_append_left _ (h.finishing analyst session hbefore c hc hneo)
    · exact hwritten

omit [DecidableEq Id] [DecidableEq H] in
theorem Edited.checkpoint {scheduling : Scheduling} {edit : Edit Id}
    (h : Edited env source source' scheduling edit) :
    source'.analysisCheckpoint = source.analysisCheckpoint := by
  cases h with
  | saved _ _ _ _ _ _ hrow => rw [hrow]
  | confirmed _ _ _ hrow => rw [hrow]
  | submittedAgain _ _ _ _ hrow => rw [hrow]
  | retried _ _ _ _ hrow => rw [hrow]
  | recovered _ _ _ _ _ _ _ _ hrow => rw [hrow]
  | associated _ hrow => rw [hrow]
  | texted _ _ _ hrow => rw [hrow]
  | transcribed _ _ _ _ _ _ _ hrow => rw [hrow]
  | confirmedByAgent _ _ _ hrow => rw [hrow]

/-- The account after a turn. -/
def AccountedTurn (env : Env Id H) (analyst : Analyst Id H) (sinks : List (Sink Id))
    (t : Turn Id H) : Prop :=
  Accounted env t.row (Turn.active analyst t) (sinks ++ t.sinks)

/-- A commit moves the phase of the checkpoint and makes the merges that the move stands for. -/
theorem accounted_flush {assigned : Source Id H} {next : Option (Source Id H × Point)}
    {added : List (Sink Id)} (h : Accounted env row active sinks) (hagrees : Agrees session row)
    (hmerges : (contexts added).length + merges (phase session) = merges (phase assigned))
    (hdone : phase assigned = some .done → GraphWritten env assigned (sinks ++ added))
    (hnext : ∀ later, next ≠ some (later, .finishing)) :
    AccountedTurn env analyst sinks ⟨session.flush assigned row, next, added⟩ := by
  have hcheckpoint : (session.flush assigned row).analysisCheckpoint =
      assigned.analysisCheckpoint := flush_checkpoint hagrees
  have hphase : phase (session.flush assigned row) = phase assigned :=
    congrArg (Option.map Checkpoint.phase) hcheckpoint
  refine ⟨?_, ?_, ?_⟩
  · have hmerged := h.merged
    rw [phase_congr hagrees] at hmerged
    change (contexts (sinks ++ added)).length = merges (phase (session.flush assigned row))
    rw [contexts_append, List.length_append, hphase]
    omega
  · intro hd c hc hneo
    exact hdone (hphase.symm.trans hd) c (hcheckpoint.symm.trans hc) hneo
  · intro _ later hfinishing
    obtain ⟨⟨_, _⟩, hn, heq⟩ := Option.map_eq_some_iff.mp hfinishing
    cases heq
    exact absurd hn (hnext _)

/-- A commit that leaves the checkpoint alone and merges nothing. -/
theorem accounted_kept {assigned : Source Id H} {next : Option (Source Id H × Point)}
    {added : List (Sink Id)} (h : Accounted env row active sinks) (hagrees : Agrees session row)
    (hkept : assigned.analysisCheckpoint = session.analysisCheckpoint)
    (hadded : contexts added = []) (hnext : ∀ later, next ≠ some (later, .finishing)) :
    AccountedTurn env analyst sinks ⟨session.flush assigned row, next, added⟩ := by
  apply h.same
  · exact (flush_checkpoint hagrees).trans (hkept.trans hagrees.analysisCheckpoint)
  · exact hadded
  · intro _ later hfinishing
    obtain ⟨⟨_, _⟩, hn, heq⟩ := Option.map_eq_some_iff.mp hfinishing
    cases heq
    exact absurd hn (hnext _)

omit [DecidableEq Id] [DecidableEq H] in
/-- A turn that writes nothing. -/
theorem accounted_stay {point : Point} (h : Accounted env row active sinks)
    (hpoint : point ≠ .finishing) :
    AccountedTurn env analyst sinks ⟨row, some (session, point), []⟩ := by
  apply h.same rfl rfl
  rintro _ later ⟨⟩
  exact absurd rfl hpoint

theorem accounted_dispatch {runner : Runner Id} {resumed provider : Bool} {known : List Text}
    (h : Accounted env row active sinks) (hagrees : Agrees session row)
    (ht : dispatchCheckpoint env row session resumed provider known = some t) :
    AccountedTurn env (.server runner resumed) sinks t := by
  have hafter : afterAnalysis resumed ≠ .finishing := by cases resumed <;> decide
  unfold dispatchCheckpoint at ht
  dsimp only at ht
  split at ht
  · cases ht
    exact accounted_stay h hafter
  · split at ht
    · cases ht
      cases provider
      · exact accounted_stay h hafter
      · exact accounted_stay h (by rintro ⟨⟩)
    · next c hsome =>
      split at ht
      · cases ht
      split at ht
      · cases ht
        exact accounted_stay h hafter
      · cases ht
        exact accounted_stay h (by decide)
      · next hextracted =>
        split_ifs at ht <;> cases ht
        · exact accounted_stay h (by rintro ⟨⟩)
        · have hphase : phase session = some .extracted := by
            rw [phase, hsome]
            exact congrArg some hextracted
          refine accounted_flush h hagrees ?_ (fun hdone => by cases hdone) ?_
          · rw [hphase]
            rfl
          · rintro _ ⟨⟩

/-- Every turn keeps the account. -/
theorem turn_accounted {point : Point} {action : Action Id}
    (h : Accounted env row (some (.working analyst session point)) sinks)
    (hengaged : Engaged analyst session row point)
    (ht : turn env analyst row session point action = some t) :
    AccountedTurn env analyst sinks t := by
  have hagrees := hengaged.agrees
  have hfacts := hengaged.facts
  unfold turn at ht
  split at ht
  · cases ht
    exact accounted_kept h hagrees rfl rfl (by rintro _ ⟨⟩)
  · split at ht
    · cases ht
    split at ht <;> cases ht
    exact accounted_kept h hagrees rfl rfl (by rintro _ ⟨⟩)
  · split_ifs at ht
    cases ht
    exact accounted_kept h hagrees rfl rfl (by rintro _ ⟨⟩)
  · split at ht
    · exact accounted_dispatch h hagrees ht
    · cases ht
  · -- the extraction is checkpointed before anything is merged
    unfold extractAnalysis at ht
    dsimp only at ht
    split at ht <;> cases ht
    refine accounted_flush h hagrees ?_ ?_ (by rintro _ ⟨⟩)
    · rw [hfacts.2]
      cases analyst <;> rfl
    · cases analyst <;> rintro ⟨⟩
  · -- the merge and its phase commit together
    obtain ⟨c, -, rfl⟩ := Option.map_eq_some_iff.mp ht
    refine accounted_flush h hagrees ?_ ?_ (by rintro _ ⟨⟩)
    · rw [hfacts.2]
      cases analyst <;> rfl
    · cases analyst <;> rintro ⟨⟩
  · obtain ⟨c, hc, rfl⟩ := Option.map_eq_some_iff.mp ht
    split_ifs with hneo hcomplete
    · apply h.same rfl rfl
      rintro _ later ⟨⟩
      refine .inr fun c' hc' _ => ?_
      rw [hc, Option.some.injEq] at hc'
      rw [hcomplete, hc']
      exact List.mem_append_right _ (List.mem_singleton_self _)
    · apply h.same rfl rfl
      rintro _ later ⟨⟩
    · apply h.same rfl rfl
      rintro _ later ⟨⟩
      exact .inr fun _ _ hneo' => absurd hneo' hneo
  · -- the graph was written before the phase becomes `done`
    obtain ⟨c, hc, rfl⟩ := Option.map_eq_some_iff.mp ht
    have hwritten := h.finishing analyst session rfl
    have hdone : ∀ c', some { c with phase := .done } = some c' →
        env.settings.neo4jEnabled = true → .graph c'.graph true ∈ sinks ++ [] := by
      rintro _ ⟨⟩ hneo
      rw [List.append_nil]
      exact hwritten c hc hneo
    cases analyst with
    | server runner resumed =>
      refine accounted_flush h hagrees ?_ (fun _ => hdone) ?_
      · rw [hfacts.2]
        rfl
      · cases resumed <;> rintro _ ⟨⟩
    | agent submission =>
      refine accounted_flush h hagrees ?_ (fun _ => hdone) (by rintro _ ⟨⟩)
      rw [hfacts.2]
      rfl
  · cases ht
    exact accounted_kept h hagrees rfl rfl (by rintro _ ⟨⟩)
  · cases ht
    exact accounted_kept h hagrees rfl rfl (by rintro _ ⟨⟩)
  · cases ht

/-- Every step keeps the account. -/
theorem accounted_step {e : Event Id H} (hcoherent : Coherent media s)
    (h : Accounted env s.source s.active s.sinks) (hstep : step env s e = some s') :
    Accounted env s'.source s'.active s'.sinks := by
  have hplain : s'.source.analysisCheckpoint = s.source.analysisCheckpoint →
      s'.sinks = s.sinks → (∀ analyst session,
        s'.active = some (.working analyst session .finishing) →
          s.active = some (.working analyst session .finishing)) →
      Accounted env s'.source s'.active s'.sinks := by
    intro hcheckpoint hsinks hactive
    have hsame : Accounted env s'.source s'.active (s.sinks ++ []) :=
      h.same hcheckpoint rfl fun analyst session hf => .inl (hactive analyst session hf)
    rw [List.append_nil] at hsame
    rwa [hsinks]
  cases change_of_step hstep with
  | idle _ hrow hsinks hactive =>
    exact hplain (by rw [hrow]) hsinks fun _ _ hf => hactive _ _ _ hf
  | edited edit now scheduling hedit hsinks hactive =>
    exact hplain (edited_of_applyEdit hedit).checkpoint hsinks fun _ _ hf => hactive ▸ hf
  | entered runner _ hrow hsinks hactive =>
    rcases beginProcessing_cases s.source with heq | ⟨_, _, point, -, -, heq, hpoint⟩
    · refine hplain (by rw [hrow, heq]) hsinks fun _ _ hf => ?_
      rw [hactive, begunActive, heq] at hf
      cases hf
    · refine hplain (by rw [hrow, heq]) hsinks fun _ _ hf => ?_
      rw [hactive, begunActive, heq] at hf
      rcases hpoint with ⟨rfl, -⟩ | ⟨-, ⟨rfl, -⟩ | ⟨rfl, -⟩ | ⟨rfl, -⟩⟩ <;> cases hf
  | failed runner error _ hrow hsinks hactive =>
    refine hplain ?_ hsinks fun _ _ hf => ?_
    · rw [hrow]
      unfold recordFailure updateSource
      split_ifs <;> rfl
    · rw [hactive] at hf
      cases hf
  | admitted dir known request submission t _ hadmitted hrow hsinks hactive =>
    rw [hrow, hsinks, hactive]
    obtain ⟨-, -, directory, -, ⟨c, -, hreplay⟩ | ⟨-, hfresh⟩⟩ := submitAnalysis_started hadmitted
    · obtain ⟨-, ⟨-, rfl⟩ | ⟨-, rfl⟩⟩ := replaySubmission_started hreplay
      · exact accounted_stay h (by rintro ⟨⟩)
      · exact accounted_stay h (by decide)
    · obtain ⟨_, -, -, rfl⟩ := admitSubmission_started hfresh
      refine h.same ?_ rfl ?_
      · rfl
      · rintro _ later ⟨⟩
  | acted action analyst session point t hworking hturn hrow hsinks hactive =>
    rw [hrow, hsinks, hactive]
    rw [hworking] at h
    exact turn_accounted h (hcoherent.engaged _ _ _ hworking) hturn

end

/-- The extraction of a source is merged into the Context Store at most once. When the
checkpoint says `done` it was merged exactly once, and the graph that the checkpoint records
was written to its end. -/
theorem context_merged_once {env : Env Id H} {s : State Id H} (h : Reachable env s) :
    (contexts s.sinks).length ≤ 1 ∧
      ∀ c, s.source.analysisCheckpoint = some c → c.phase = .done →
        (contexts s.sinks).length = 1 ∧
          (env.settings.neo4jEnabled = true → .graph c.graph true ∈ s.sinks) := by
  obtain ⟨creation, hreached⟩ := reachable_iff.mp h
  obtain ⟨ids, source, scheduling, now, hcreate, hrun⟩ := hreached
  have hstart : Accounted env (State.created source scheduling now).source
      (State.created source scheduling now).active (State.created source scheduling now).sinks := by
    obtain ⟨-, hnone, -⟩ := (created_of_create hcreate).lifecycle
    unfold State.created
    rw [scheduled_source, scheduled_active, scheduled_sinks]
    refine ⟨by simp [contexts, phase, hnone, merges], ?_, fun _ _ hf => by cases hf⟩
    intro hdone
    simp [phase, hnone] at hdone
  have hboth : Coherent creation.IsMedia s ∧ Accounted env s.source s.active s.sinks :=
    RunOf.invariant (P := fun s => Coherent creation.IsMedia s ∧
        Accounted env s.source s.active s.sinks)
      (fun _ _ _ hs _ hstep => ⟨hs.1.step hstep, accounted_step hs.1 hs.2 hstep⟩) hrun
      ⟨coherent_created hcreate, hstart⟩
  have hmerged := hboth.2.merged
  refine ⟨?_, ?_⟩
  · rw [hmerged]
    cases phase s.source with
    | none => decide
    | some p => cases p <;> decide
  · intro c hc hdone
    have hphase : phase s.source = some .done := by
      rw [phase, hc]
      exact congrArg some hdone
    rw [hphase] at hmerged
    exact ⟨hmerged, hboth.2.done hphase c hc⟩

/-- The memo of an agent is analysed to the end. -/
theorem context_merged_once_memo : ∃ s, plainRun (plainEnv .postgres true) plainDocument
      (plainSubmission (plainResult []) ++ [.act (.writeGraph true), .act .finish]) = some s ∧
    phase s.source = some .done ∧ (contexts s.sinks).length = 1 := by
  obtain ⟨s, hs, hreached, hdone⟩ :=
    exists_plainRun (plainEnv .postgres true) plainDocument
      (plainSubmission (plainResult []) ++ [.act (.writeGraph true), .act .finish])
      (fun s => phase s.source = some .done) (by decide +kernel)
  obtain ⟨c, hc, hphase⟩ := Option.map_eq_some_iff.mp hdone
  exact ⟨s, hs, hdone,
    ((context_merged_once (reachable_iff.mpr ⟨_, hreached⟩)).2 c hc hphase).1⟩

end Maeglagi.Sources
