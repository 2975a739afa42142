import Maeglagi.Jobs.Fence

/-!
# Sources that wait for the server

With the PostgreSQL executor a source that is queued or processing keeps a job that some worker
can still pick up, as long as no attempt takes up a failed source whose job is at its end.
-/

namespace Maeglagi.Jobs

open Core Sources

variable {Id H : Type} [DecidableEq Id] [DecidableEq H]

/-- The job goes on: it is pending or running, and no worker is about to end it under its
current claim. -/
def Retained (s : State Id H) : Prop :=
  ∃ job, s.job = some job ∧ job.live = true ∧ ∀ owner claim report,
    s.workers owner = .reporting claim report → claim.generation = job.claimGeneration →
      ¬Ends claim report

/-- An attempt takes up a failed source only while the job of the source goes on. -/
def Rightful (s : State Id H) (e : Event Id H) : Prop := Revives s e → Retained s

section
variable {env : Env Id H} {media : Prop} {source source' row session : Source Id H}
  {s s' : State Id H} {e : Event Id H}

omit [DecidableEq Id] [DecidableEq H] in
theorem Reviewed.congr (h : Reviewed source) (hkind : source'.kind = source.kind)
    (hstate : source.reviewState ≠ none → source'.reviewState ≠ none) : Reviewed source' :=
  fun hmeeting => hstate (h (hkind.symm.trans hmeeting))

omit [DecidableEq Id] [DecidableEq H] in
theorem Edited.reviewed {scheduling : Scheduling} {edit : Edit Id}
    (h : Edited env source source' scheduling edit) (hstate : source.reviewState ≠ none) :
    source'.reviewState ≠ none := by
  cases h with
  | saved _ _ _ _ _ _ hrow => exact hrow ▸ hstate
  | confirmed _ _ _ hrow => exact hrow ▸ (by rintro ⟨⟩)
  | submittedAgain _ _ _ _ hrow => exact hrow ▸ hstate
  | retried _ _ _ _ hrow => exact hrow ▸ hstate
  | recovered _ _ _ _ _ _ _ _ hrow => exact hrow ▸ (by rintro ⟨⟩)
  | associated _ hrow => exact hrow ▸ hstate
  | texted _ _ _ hrow => exact hrow ▸ hstate
  | transcribed _ _ _ _ _ _ _ hrow => exact hrow ▸ hstate
  | confirmedByAgent _ _ _ hrow => exact hrow ▸ (by rintro ⟨⟩)

/-- A turn keeps a meeting in its review. -/
theorem turn_reviewed {analyst : Analyst Id H} {point : Point} {action : Action Id} {t : Turn Id H}
    (h : turn env analyst row session point action = some t) (hstate : row.reviewState ≠ none) :
    t.row.reviewState ≠ none := by
  rcases turn_row h with heq | ⟨assigned, heq, rfl | hworked⟩
  · rwa [heq]
  · cases action with
    | transcribe body =>
      simp only [turn] at h
      split at h
      · cases h
      split at h <;> cases h
      change written session.reviewState (some .awaitingReview) row.reviewState ≠ none
      unfold written
      split_ifs
      · exact hstate
      · rintro ⟨⟩
    | _ => cases h
  · rw [heq, worked_flush hworked row]
    exact hstate

/-- Every step keeps a meeting in its review. -/
theorem Reviewed.step (h : Reviewed s.source) (hstep : step env s e = some s') :
    Reviewed s'.source := by
  have hchange := change_of_step hstep
  refine h.congr hchange.same.1 fun hstate => ?_
  cases hchange with
  | idle _ hrow => rwa [hrow]
  | edited edit now scheduling hedit => exact Edited.reviewed (edited_of_applyEdit hedit) hstate
  | entered runner _ hrow =>
    rw [hrow]
    rcases beginProcessing_cases s.source with heq | ⟨_, _, _, -, -, heq, -⟩ <;> rw [heq] <;>
      exact hstate
  | failed runner error _ hrow =>
    rw [hrow]
    unfold recordFailure updateSource
    split_ifs <;> exact hstate
  | admitted dir known request submission t _ hadmitted hrow =>
    obtain ⟨_, _, heq⟩ := started_row hadmitted
    rw [hrow, heq]
    exact hstate
  | acted action analyst session point t _ hturn hrow =>
    rw [hrow]
    exact turn_reviewed hturn hstate

omit [DecidableEq H] in
/-- A worker that does not go on to end the job leaves it to go on. -/
theorem Retained.moved {owner : Id} {worker : Worker} (h : Retained s) (hjob : s'.job = s.job)
    (hworkers : s'.workers = Function.update s.workers owner worker)
    (hworker : ∀ claim report, worker = .reporting claim report → ¬Ends claim report) :
    Retained s' := by
  obtain ⟨job, hsome, hlive, hreports⟩ := h
  refine ⟨job, hjob.trans hsome, hlive, ?_⟩
  intro other claim report hreporting hcurrent
  rw [hworkers] at hreporting
  rcases reporting_update hreporting with ⟨-, heq⟩ | hbefore
  · exact hworker claim report heq
  · exact hreports other claim report hbefore hcurrent

omit [DecidableEq Id] [DecidableEq H] in
/-- A write that leaves the job live under its generation lets it go on. -/
theorem Retained.written {f : Job Id → Job Id} (h : Retained s) (hjob : s'.job = s.job.map f)
    (hreporting : ∀ owner claim report, s'.workers owner = .reporting claim report →
      s.workers owner = .reporting claim report)
    (hf : ∀ job, s.job = some job → (f job).claimGeneration = job.claimGeneration ∧
      (job.live = true → (f job).live = true)) : Retained s' := by
  obtain ⟨job, hsome, hlive, hreports⟩ := h
  obtain ⟨hgeneration, hkeep⟩ := hf job hsome
  refine ⟨f job, by rw [hjob, hsome]; rfl, hkeep hlive, ?_⟩
  intro owner claim report hreport hcurrent
  exact hreports owner claim report (hreporting _ _ _ hreport) (hcurrent.trans hgeneration)

omit [DecidableEq Id] in
/-- A report that does not end the job puts it back. -/
theorem assign_live {claim : Claim} {report : Report} (h : ¬Ends claim report) (now : Nat)
    (job : Job Id) : (report.assign claim now job).live = true := by
  cases report with
  | abandoned => exact absurd trivial h
  | cancelled => rfl
  | settled outcome =>
    cases outcome with
    | finished => exact absurd trivial h
    | databaseFailure => rfl
    | failed error =>
      rw [show Report.assign claim now (.settled (.failed error)) job = _ from if_neg h]
      rfl

/-- While attempts are rightful a busy source keeps a job that goes on. -/
theorem retained_step (h : Busy s.source → Retained s) (hreviewed : Reviewed s.source)
    (hfenced : Fenced env s) (hs : Coherent media s)
    (hexecutor : env.settings.processingExecutor = .postgres) (hrightful : Rightful s e)
    (hstep : step env s e = some s') (hbusy' : Busy s'.source) : Retained s' := by
  have hbefore : Busy s.source ∨ Revives s e → Retained s := fun hb => hb.elim h hrightful
  cases staffing_of_step hs hstep with
  | kept hjob hworkers _ _ _ hbusy =>
    have hretained : Retained s := by
      rcases hbusy hbusy' with hb | hrevives | hcelery
      · exact h hb
      · exact hrightful hrevives
      · exact absurd (hexecutor.symm.trans hcelery) (by decide)
    obtain ⟨job, hsome, hlive, hreports⟩ := hretained
    exact ⟨job, hjob.trans hsome, hlive, hworkers ▸ hreports⟩
  | armed job' hjob hworkers _ hpending _ hgeneration =>
    refine ⟨job', hjob, by simp [Job.live, hpending], ?_⟩
    intro owner claim report hreporting hcurrent
    rw [hworkers] at hreporting
    cases hsome : s.job with
    | none =>
      rw [hfenced.unarmed hsome owner] at hreporting
      cases hreporting
    | some job =>
      have hnext := hgeneration job hsome
      rcases hfenced.held job owner claim hsome (by rw [hreporting]; rfl) with hold | ⟨hold, -⟩ <;>
        omega
  | claimed owner leaseSeconds now job hidle hsome _ hs' =>
    subst hs'
    refine ⟨_, rfl, rfl, ?_⟩
    intro other claim report hreporting hcurrent
    rcases reporting_update hreporting with ⟨-, hclaimed⟩ | hother
    · cases hclaimed
    · have hnext : claim.generation = job.claimGeneration + 1 := hcurrent
      rcases hfenced.held job other claim hsome (by rw [hother]; rfl) with hold | ⟨hold, -⟩ <;>
        omega
  | checked owner claim worker _ hnext hs' =>
    subst hs'
    refine (h hbusy').moved rfl rfl ?_
    intro c report hreport
    rcases hnext with rfl | ⟨-, -, hfailed⟩
    · cases hreport
    · -- a worker only gives up on a failed source
      have hstatus := hbusy'.2
      simp [hfailed] at hstatus
  | acquired owner claim _ _ hs' =>
    subst hs'
    refine (h hbusy').moved rfl rfl ?_
    rintro _ _ ⟨⟩
  | returned owner claim outcome _ hjob _ hworkers _ _ hbusy =>
    obtain ⟨hb, hends⟩ := hbusy hreviewed hbusy'
    refine (hbefore hb).moved hjob hworkers ?_
    rintro _ _ ⟨⟩
    exact hends
  | message final outcome _ hjob hworkers _ _ _ hbusy =>
    obtain ⟨job, hsome, hlive, hreports⟩ := hbefore (hbusy hreviewed hbusy')
    exact ⟨job, hjob.trans hsome, hlive, hworkers ▸ hreports⟩
  | renewed owner claim seconds now _ hs' =>
    subst hs'
    refine (h hbusy').written rfl (fun _ _ _ h => h) fun job _ => ?_
    rcases fencedUpdate_cases owner claim.generation now (Job.renewed seconds now) job with
      heq | ⟨-, -, -, heq⟩ <;> rw [heq] <;> exact ⟨rfl, id⟩
  | reported owner claim report now hworker hs' =>
    subst hs'
    have hretained := h hbusy'
    refine hretained.written rfl ?_ fun job hsome => ?_
    · intro other c r hreporting
      rcases reporting_update hreporting with ⟨-, hidle⟩ | hother
      · cases hidle
      · exact hother
    · rcases fencedUpdate_cases owner claim.generation now (report.assign claim now) job with
        heq | ⟨-, -, hcurrent, heq⟩ <;> rw [heq]
      · exact ⟨rfl, id⟩
      · obtain ⟨job', hsome', -, hreports⟩ := hretained
        rw [hsome, Option.some.injEq] at hsome'
        subst hsome'
        have hends := hreports owner claim report hworker hcurrent.symm
        exact ⟨(assign_cases claim now report job).1, fun _ => assign_live hends now job⟩
  | cancelled owner claim _ hs' =>
    subst hs'
    refine (h hbusy').moved rfl rfl ?_
    rintro _ _ ⟨⟩
    exact id
  | crashed owner hs' =>
    subst hs'
    refine (h hbusy').moved rfl rfl ?_
    rintro _ _ ⟨⟩

omit [DecidableEq H] in
/-- A new source that goes to the PostgreSQL executor has its job. -/
theorem created_enqueued {ids : SourceIds Id} {scheduling : Scheduling} {creation : Creation Id}
    (h : Created env ids source scheduling creation)
    (hexecutor : env.settings.processingExecutor = .postgres) :
    Reviewed source ∧ (Busy source → ∃ supersede, scheduling = .enqueue supersede) := by
  have hpersisted : ∀ {status}, Persisted env.settings.processingExecutor status scheduling →
      ∃ supersede, scheduling = .enqueue supersede := by
    intro status hpersisted
    rw [hexecutor] at hpersisted
    cases hpersisted
    exact ⟨_, rfl⟩
  cases h with
  | document h hrow => exact ⟨by subst hrow; rintro ⟨⟩, fun _ => hpersisted h⟩
  | recording _ _ h hrow => exact ⟨by subst hrow; rintro - ⟨⟩, fun _ => hpersisted h⟩
  | transcript _ _ _ _ hrow =>
    subst hrow
    refine ⟨(by rintro - ⟨⟩), ?_⟩
    rintro ⟨-, hs | hs | hs⟩ <;> cases hs
  | @agentMedia kind _ _ hrow =>
    subst hrow
    refine ⟨?_, (by rintro ⟨⟨⟩, -⟩)⟩
    rintro ⟨⟩ ⟨⟩
  | agentMeeting _ hrow => subst hrow; exact ⟨(by rintro - ⟨⟩), (by rintro ⟨⟨⟩, -⟩)⟩
  | agentDocument hrow => subst hrow; exact ⟨(by rintro ⟨⟩), (by rintro ⟨⟨⟩, -⟩)⟩

omit [DecidableEq H] in
theorem retained_created {ids : SourceIds Id} {creation : Creation Id} {scheduling : Scheduling}
    {now : Nat} (h : create env ids creation = .ok (source, scheduling))
    (hexecutor : env.settings.processingExecutor = .postgres) :
    Reviewed (State.created source scheduling now).source ∧
      (Busy (State.created source scheduling now).source →
        Retained (State.created source scheduling now)) := by
  obtain ⟨hreviewed, henqueued⟩ := created_enqueued (created_of_create h) hexecutor
  unfold State.created
  rw [scheduled_source]
  refine ⟨hreviewed, fun hbusy => ?_⟩
  obtain ⟨supersede, rfl⟩ := henqueued hbusy
  refine ⟨.inserted source.processingStage now, rfl, rfl, ?_⟩
  intro owner claim report hreporting
  rw [scheduled_workers] at hreporting
  cases hreporting

end

/-- With the PostgreSQL executor a source of the server that is queued, about to be queued or
processing has a pending or running job, in every run whose attempts are rightful. -/
theorem noneStranded {env : Env Id H} {s₀ s : State Id H}
    (hexecutor : env.settings.processingExecutor = .postgres) (h : Initial env s₀)
    (hrun : RunOf (step env) Rightful s₀ s) (hmode : s.source.analysisMode = .server)
    (hstatus : s.source.status = .queued ∨ s.source.status = .enqueuePending ∨
      s.source.status = .processing) :
    ∃ job, s.job = some job ∧ (job.status = .pending ∨ job.status = .running) := by
  obtain ⟨ids, creation, source, scheduling, now, hcreate, rfl⟩ := h
  have hall := RunOf.invariant (P := fun s => Coherent creation.IsMedia s ∧ Fenced env s ∧
    Reviewed s.source ∧ (Busy s.source → Retained s)) ?_ hrun
    ⟨coherent_created hcreate, (fenced_created hcreate).1, retained_created hcreate hexecutor⟩
  · obtain ⟨job, hjob, hlive, -⟩ := hall.2.2.2 ⟨hmode, hstatus⟩
    exact ⟨job, hjob, by simpa [Job.live] using hlive⟩
  · rintro mid e next ⟨hcoherent, hfenced, hreviewed, hretained⟩ hrightful hstep
    exact ⟨hcoherent.step hstep, hfenced.step hcoherent hstep, hreviewed.step hstep,
      retained_step hretained hreviewed hfenced hcoherent hexecutor hrightful hstep⟩

/-- The job of an uploaded recording that a worker is about to transcribe. -/
theorem noneStranded_acquired : ∃ s : State Text PlainDigest,
    s.source.status = .queued ∧
      ∃ job, s.job = some job ∧ (job.status = .pending ∨ job.status = .running) := by
  obtain ⟨source, scheduling, s, hcreate, hlater, hmode, hstatus⟩ :=
    exists_plainReplay (plainEnv .postgres true) (plainRecording none)
      [.claim "a".toList 60 0, .check "a".toList, .acquire "a".toList]
      (fun s => s.source.analysisMode = .server ∧ s.source.status = .queued) (by decide +kernel)
  have hrun : RunOf (step (plainEnv .postgres true)) Rightful
      (State.created source scheduling 0) s := by
    refine runOf_replay ?_ hlater
    rintro mid e he hrevives
    simp only [List.mem_cons, List.not_mem_nil, or_false] at he
    rcases he with rfl | rfl | rfl <;> cases hrevives
  exact ⟨s, hstatus, noneStranded rfl ⟨_, _, _, _, _, hcreate, rfl⟩ hrun hmode (.inl hstatus)⟩

/-- A worker that let its lease expire takes up a source whose job has failed under the next
claim. -/
theorem stranded_stale : ¬ ∀ s : State Text PlainDigest, Reachable (plainEnv .postgres true) s →
    s.source.analysisMode = .server → s.source.status = .processing →
      ∃ job, s.job = some job ∧ (job.status = .pending ∨ job.status = .running) := by
  intro h
  obtain ⟨s, -, hreached, hmode, hstatus, hjob⟩ :=
    exists_plainRun (plainEnv .postgres true) (plainRecording none)
      [.claim "a".toList 60 0, .check "a".toList, .claim "b".toList 60 100, .check "b".toList,
        .acquire "b".toList, .enter, .fail ⟨"unsupported".toList, "Unsupported.".toList, true⟩,
        .report "b".toList 101, .acquire "a".toList, .enter]
      (fun s => s.source.analysisMode = .server ∧ s.source.status = .processing ∧
        s.job.map Job.status = some .failed) (by decide +kernel)
  obtain ⟨job, hsome, hlive⟩ := h s (reachable_iff.mpr ⟨_, hreached⟩) hmode hstatus
  rw [hsome, Option.map_some, Option.some.injEq] at hjob
  rcases hlive with hlive | hlive <;> exact absurd (hjob.symm.trans hlive) (by decide)

end Maeglagi.Jobs
