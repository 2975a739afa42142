import Maeglagi.Sources.Beginning

/-!
# What a step does to a job

Every step leaves the job and its workers alone, arms the job, claims it, moves a worker on,
ends a worker's attempt, or issues one of the executor's fenced updates.
-/

namespace Maeglagi.Jobs

open Core Sources

variable {Id H : Type} [DecidableEq Id] [DecidableEq H]

/-- The runner of the attempt that holds the locks. -/
def runner (s : State Id H) : Option (Runner Id) := s.active.bind Active.runner?

/-- The worker's attempt holds the locks. -/
def Runs (s : State Id H) (owner : Id) (claim : Claim) : Prop :=
  runner s = some (.worker owner claim)

/-- The tally after an attempt ended. -/
def counted (final : Bool) (t : Tally) : Outcome → Tally
  | .failed error => t.count final error
  | _ => t

/-- The source waits for the server, or the server is at work on it. -/
def Busy (source : Source Id H) : Prop :=
  source.analysisMode = .server ∧
    (source.status = .queued ∨ source.status = .enqueuePending ∨ source.status = .processing)

/-- The step takes up a source found failed, or queues it once more. -/
inductive Revives (s : State Id H) : Event Id H → Prop
  | enter (hfailed : s.source.status = .failed) : Revives s .enter
  | fail {r : Runner Id} {error : AttemptError} (hrunner : runner s = some r)
      (hagain : r.final = false ∧ error.terminal = false)
      (hfailed : s.source.status = .failed) : Revives s (.fail error)

/-- The report puts an end to the job. -/
def Ends (claim : Claim) : Report → Prop
  | .settled .finished => True
  | .settled (.failed error) => 3 ≤ claim.attempts ∨ error.terminal = true
  | .settled .databaseFailure => False
  | .abandoned => True
  | .cancelled => False

/-- A meeting is somewhere in its review. -/
def Reviewed (source : Source Id H) : Prop :=
  source.kind = .meeting → source.reviewState ≠ none

/-- The kinds of steps, by what they do to the job and to its workers. -/
inductive Staffing (env : Env Id H) (s s' : State Id H) (e : Event Id H) : Prop
  | kept (hjob : s'.job = s.job) (hworkers : s'.workers = s.workers) (htally : s'.tally = s.tally)
      (hruns : ∀ owner claim, Runs s' owner claim → Runs s owner claim)
      (hfailed : s'.source.status = .failed →
        s.source.status = .failed ∨ env.settings.processingExecutor = .celery)
      (hbusy : Busy s'.source → Busy s.source ∨ Revives s e ∨
        env.settings.processingExecutor = .celery)
  | armed (job' : Job Id) (hjob : s'.job = some job') (hworkers : s'.workers = s.workers)
      (htally : s'.tally = .zero) (hpending : job'.status = .pending)
      (hattempts : job'.providerAttempts = 0)
      (hgeneration : ∀ job, s.job = some job → job'.claimGeneration = job.claimGeneration + 1)
      (hexecutor : env.settings.processingExecutor = .postgres)
      (hruns : ∀ owner claim, Runs s' owner claim → Runs s owner claim)
      (hfailed : s'.source.status ≠ .failed)
  | claimed (owner : Id) (leaseSeconds now : Nat) (job : Job Id) (hidle : s.workers owner = .idle)
      (hbefore : s.job = some job) (hlive : job.live = true)
      (hstep : s' = { s with job := some (job.claimed owner leaseSeconds now) }.moved owner
        (.claimed job.claim))
  | checked (owner : Id) (claim : Claim) (worker : Worker) (hworker : s.workers owner = .claimed claim)
      (hnext : worker = .ready claim ∨ (worker = .reporting claim .abandoned ∧
        3 ≤ claim.attempts ∧ s.source.status = .failed))
      (hstep : s' = s.moved owner worker)
  | acquired (owner : Id) (claim : Claim) (hworker : s.workers owner = .ready claim)
      (hfree : s.active = none)
      (hstep : s' = { s with active := some (.entering (.worker owner claim)) }.moved owner
        (.attempting claim))
  | returned (owner : Id) (claim : Claim) (outcome : Outcome) (hruns : Runs s owner claim)
      (hjob : s'.job = s.job) (hactive : s'.active = none)
      (hworkers : s'.workers = Function.update s.workers owner
        (.reporting claim (.settled outcome)))
      (htally : s'.tally = counted (decide (3 ≤ claim.attempts)) s.tally outcome)
      (hfailed : s'.source.status = .failed → s.source.status = .failed ∨
        ∃ error, outcome = .failed error ∧ (3 ≤ claim.attempts ∨ error.terminal = true))
      (hbusy : Reviewed s.source → Busy s'.source →
        (Busy s.source ∨ Revives s e) ∧ ¬Ends claim (.settled outcome))
  | message (final : Bool) (outcome : Outcome) (hruns : runner s = some (.message final))
      (hjob : s'.job = s.job) (hworkers : s'.workers = s.workers) (hactive : s'.active = none)
      (htally : s'.tally = counted final s.tally outcome)
      (hfailed : s'.source.status = .failed → s.source.status = .failed ∨
        ∃ error, outcome = .failed error ∧ (final = true ∨ error.terminal = true))
      (hbusy : Reviewed s.source → Busy s'.source → Busy s.source ∨ Revives s e)
  | renewed (owner : Id) (claim : Claim) (seconds now : Nat)
      (hclaim : (s.workers owner).claim? = some claim)
      (hstep : s' = { s with
        job := s.job.map (fencedUpdate owner claim.generation now (Job.renewed seconds now)) })
  | reported (owner : Id) (claim : Claim) (report : Report) (now : Nat)
      (hworker : s.workers owner = .reporting claim report)
      (hstep : s' = { s with
        job := s.job.map (fencedUpdate owner claim.generation now (report.assign claim now)) }.moved
          owner .idle)
  | cancelled (owner : Id) (claim : Claim) (hclaim : (s.workers owner).claim? = some claim)
      (hstep : s' = (s.dropped owner).moved owner (.reporting claim .cancelled))
  | crashed (owner : Id) (hstep : s' = (s.dropped owner).moved owner .idle)

section
variable {env : Env Id H} {media : Prop} {s s' : State Id H} {e : Event Id H}

omit [DecidableEq H] in
theorem runs_dropped {owner other : Id} {claim : Claim} (h : Runs (s.dropped owner) other claim) :
    other ≠ owner ∧ Runs s other claim := by
  obtain ⟨active, hactive, hrunner⟩ := Option.bind_eq_some_iff.mp h
  obtain ⟨hbefore, howned⟩ := Option.filter_eq_some_iff.mp hactive
  refine ⟨?_, Option.bind_eq_some_iff.mpr ⟨active, hbefore, hrunner⟩⟩
  rintro rfl
  simp [Active.ownedBy, hrunner] at howned

omit [DecidableEq H] in
/-- The runner of an attempt at work goes on with it. -/
theorem runs_turned {analyst : Analyst Id H} {t : Turn Id H} {session : Source Id H}
    {point : Point} (hworking : s.active = some (.working analyst session point)) {owner : Id}
    {claim : Claim} (h : Runs (s.turned analyst t) owner claim) : Runs s owner claim := by
  unfold Runs runner at h ⊢
  rw [turned_active] at h
  obtain ⟨active, hactive, hrunner⟩ := Option.bind_eq_some_iff.mp h
  obtain ⟨n, -, rfl⟩ := Option.map_eq_some_iff.mp hactive
  rw [hworking]
  cases analyst with
  | server r resumed => exact hrunner
  | agent submission => cases hrunner

omit [DecidableEq H] in
/-- The end of a runner's attempt. -/
theorem staffing_returned (outcome : Outcome) {r : Runner Id} {source : Source Id H}
    {sinks : List (Sink Id)} (hrunner : runner s = some r)
    (hfailed : source.status = .failed → s.source.status = .failed ∨
      ∃ error, outcome = .failed error ∧ (r.final = true ∨ error.terminal = true))
    (hbusy : Reviewed s.source → Busy source → (Busy s.source ∨ Revives s e) ∧
      outcome ≠ .finished ∧
      ∀ error, outcome = .failed error → ¬(r.final = true ∨ error.terminal = true))
    (hs' : s' =
      { s with source, sinks, tally := counted r.final s.tally outcome }.returned r outcome) :
    Staffing env s s' e := by
  subst hs'
  cases r with
  | worker owner claim =>
    refine .returned owner claim outcome hrunner rfl rfl rfl rfl ?_ ?_
    · intro hs
      rcases hfailed hs with h | ⟨error, he, hfinal | hterminal⟩
      · exact .inl h
      · exact .inr ⟨error, he, .inl (of_decide_eq_true hfinal)⟩
      · exact .inr ⟨error, he, .inr hterminal⟩
    · intro hreviewed hs
      obtain ⟨hbefore, hunfinished, hagain⟩ := hbusy hreviewed hs
      refine ⟨hbefore, ?_⟩
      cases outcome with
      | finished => exact absurd rfl hunfinished
      | databaseFailure => exact id
      | failed error =>
        intro hends
        exact hagain error rfl (hends.imp_left decide_eq_true)
  | message final =>
    exact .message final outcome hrunner rfl rfl rfl rfl hfailed fun hreviewed hs =>
      (hbusy hreviewed hs).1

omit [DecidableEq Id] [DecidableEq H] in
theorem failed_of_recordFailure {final : Bool} {error : AttemptError} {source : Source Id H}
    (h : (recordFailure final error source).status = .failed) :
    source.status = .failed ∨ final = true ∨ error.terminal = true := by
  unfold recordFailure updateSource at h
  split at h
  · exact .inl h
  · by_cases hlast : final = true ∨ error.terminal = true
    · exact .inr hlast
    · rw [if_neg hlast] at h
      cases h

omit [DecidableEq Id] [DecidableEq H] in
theorem failed_of_beginProcessing {source : Source Id H}
    (h : (beginProcessing source).1.status = .failed) : source.status = .failed := by
  rcases beginProcessing_cases source with heq | ⟨_, _, _, -, -, heq, -⟩ <;> rw [heq] at h
  · exact h
  · cases h

theorem failed_of_resubmitted {executor : Executor} {status : SourceStatus}
    {scheduling : Scheduling} (h : Resubmitted executor status scheduling)
    (hfailed : status = .failed) : executor = .celery := by
  cases h with
  | postgres => cases hfailed
  | celery => rfl
  | refused => rfl

theorem celery_of_resubmitted {executor : Executor} {status : SourceStatus}
    (h : Resubmitted executor status .none) : executor = .celery := by
  cases h <;> rfl

theorem failed_of_submitted {executor : Executor} {mode : AnalysisMode} {status : SourceStatus}
    {stage : ProcessingStage} {scheduling : Scheduling}
    (h : Submitted executor mode status stage scheduling) (hfailed : status = .failed) :
    executor = .celery := by
  rcases h.modes with ⟨-, rfl, -⟩ | ⟨-, -, hresubmitted⟩
  · cases hfailed
  · exact failed_of_resubmitted hresubmitted hfailed

omit [DecidableEq Id] [DecidableEq H] in
/-- An edit fails a source only where the broker refuses it. -/
theorem failed_of_edited {source source' : Source Id H} {scheduling : Scheduling}
    {edit : Edit Id} (h : Edited env source source' scheduling edit)
    (hfailed : source'.status = .failed) :
    source.status = .failed ∨ env.settings.processingExecutor = .celery := by
  cases h with
  | saved _ _ _ _ _ _ hrow => exact .inl (by rwa [hrow] at hfailed)
  | confirmed _ _ hsubmitted hrow =>
    exact .inr (failed_of_submitted hsubmitted (by rwa [hrow] at hfailed))
  | submittedAgain _ _ _ hsubmitted hrow =>
    exact .inr (failed_of_submitted hsubmitted (by rwa [hrow] at hfailed))
  | retried _ _ _ hresubmitted hrow =>
    exact .inr (failed_of_resubmitted hresubmitted (by rwa [hrow] at hfailed))
  | recovered _ _ hstatus => exact .inl hstatus
  | associated _ hrow => exact .inl (by rwa [hrow] at hfailed)
  | texted _ _ _ hrow => rw [hrow] at hfailed; cases hfailed
  | transcribed _ _ _ _ _ _ _ hrow => exact .inl (by rwa [hrow] at hfailed)
  | confirmedByAgent _ _ _ hrow => exact .inl (by rw [hrow] at hfailed; cases hfailed)

omit [DecidableEq Id] [DecidableEq H] in
/-- An edit that arms no job makes no source busy, unless the task queue takes it. -/
theorem busy_of_edited {source source' : Source Id H} {edit : Edit Id}
    (h : Edited env source source' .none edit) (hbusy : Busy source') :
    Busy source ∨ Revives s e ∨ env.settings.processingExecutor = .celery := by
  have hsubmitted : ∀ {status stage}, Submitted env.settings.processingExecutor
      source.analysisMode status stage .none → source.analysisMode = .server →
      env.settings.processingExecutor = .celery := by
    intro status stage hsubmitted hmode
    rcases hsubmitted.modes with ⟨hagent, -⟩ | ⟨-, -, hresubmitted⟩
    · exact absurd (hmode.symm.trans hagent) (by decide)
    · exact celery_of_resubmitted hresubmitted
  obtain ⟨hmode, hstatus⟩ := hbusy
  cases h with
  | saved _ _ _ _ _ _ hrow => exact .inl (by rw [hrow] at hmode hstatus; exact ⟨hmode, hstatus⟩)
  | confirmed _ _ h hrow => exact .inr (.inr (hsubmitted h (by rwa [hrow] at hmode)))
  | submittedAgain _ _ _ h hrow => exact .inr (.inr (hsubmitted h (by rwa [hrow] at hmode)))
  | retried _ _ _ h hrow => exact .inr (.inr (celery_of_resubmitted h))
  | recovered _ _ _ _ _ _ _ _ hrow =>
    rw [hrow] at hstatus
    rcases hstatus with hs | hs | hs <;> cases hs
  | associated _ hrow => exact .inl (by rw [hrow] at hmode hstatus; exact ⟨hmode, hstatus⟩)
  | texted hagent _ _ hrow =>
    rw [hrow] at hmode
    exact absurd (hmode.symm.trans hagent) (by decide)
  | transcribed hagent _ _ _ _ _ _ hrow =>
    rw [hrow] at hmode
    exact absurd (hmode.symm.trans hagent) (by decide)
  | confirmedByAgent hagent _ _ hrow =>
    rw [hrow] at hmode
    exact absurd (hmode.symm.trans hagent) (by decide)

omit [DecidableEq Id] [DecidableEq H] in
/-- A source of the server that is neither busy nor done with has failed. -/
theorem busy_or_failed {source : Source Id H} (hrow : Lifecycle media source)
    (hmode : source.analysisMode = .server) (hsucceeded : source.status ≠ .succeeded)
    (hawaiting : source.status ≠ .awaitingReview) : Busy source ∨ source.status = .failed := by
  have hagent := hrow.server hmode
  unfold Busy
  cases hstatus : source.status <;> simp_all

omit [DecidableEq Id] [DecidableEq H] in
/-- An attempt that finds nothing to do leaves a source that is not busy. -/
theorem not_busy_of_begun {source : Source Id H} (hrow : Lifecycle media source)
    (hreviewed : Reviewed source) (hnone : (beginProcessing source).2 = none) :
    ¬Busy (beginProcessing source).1 := by
  rintro ⟨hmode, hstatus⟩
  unfold beginProcessing at hnone hmode hstatus
  split_ifs at hnone hmode hstatus with hagent hsettled hmeeting
  · exact absurd (hmode.symm.trans hagent) (by decide)
  · rcases hsettled with hs | hs <;> simp [hs] at hstatus
  · -- a meeting that is neither transcribed nor confirmed awaits its review
    obtain ⟨hkind, htranscribing, hconfirmed⟩ := hmeeting
    have hawaiting : source.reviewState = some .awaitingReview := by
      cases hstate : source.reviewState with
      | none => exact absurd hstate (hreviewed hkind)
      | some state => cases state <;> simp_all
    rcases hrow.awaiting hawaiting with hs | ⟨-, hs⟩ <;> simp [hs] at hstatus

omit [DecidableEq Id] [DecidableEq H] in
theorem busy_of_begun {source : Source Id H} (hrow : Lifecycle media source)
    (hbusy : Busy (beginProcessing source).1) : Busy source ∨ source.status = .failed := by
  rcases beginProcessing_cases source with heq | ⟨_, _, _, hadmissible, -, heq, -⟩
  · rw [heq] at hbusy
    exact .inl hbusy
  · exact busy_or_failed hrow hadmissible.server hadmissible.unsettled.1 hadmissible.unsettled.2

omit [DecidableEq Id] [DecidableEq H] in
/-- A recorded failure that leaves a busy source was not the last one. -/
theorem busy_of_recordFailure {source : Source Id H} {final : Bool} {error : AttemptError}
    (hrow : Lifecycle media source) (hbusy : Busy (recordFailure final error source)) :
    (Busy source ∨ source.status = .failed) ∧ ¬(final = true ∨ error.terminal = true) := by
  obtain ⟨hmode, hstatus⟩ := hbusy
  unfold recordFailure updateSource at hmode hstatus
  split at hmode
  · next hclosed =>
    rw [if_pos hclosed] at hstatus
    rcases hclosed with hs | hawaiting
    · simp [hs] at hstatus
    · rcases hrow.awaiting hawaiting with hs | ⟨-, hs⟩ <;> simp [hs] at hstatus
  · next hopen =>
    rw [if_neg hopen] at hstatus
    rw [not_or] at hopen
    refine ⟨busy_or_failed hrow hmode hopen.1 (fun hs => hopen.2 (hrow.shown hs)), ?_⟩
    intro hlast
    simp [hlast] at hstatus

/-- What an edit of a row that goes to the PostgreSQL executor says. -/
theorem enqueued_of_submitted {executor : Executor} {mode : AnalysisMode} {status : SourceStatus}
    {stage : ProcessingStage} {supersede : Bool}
    (h : Submitted executor mode status stage (.enqueue supersede)) :
    executor = .postgres ∧ status = .queued ∧ supersede = true := by
  cases h with
  | server h =>
    cases h
    exact ⟨rfl, rfl, rfl⟩

omit [DecidableEq Id] [DecidableEq H] in
/-- An edit that arms the job supersedes the one there is, for a source it queues. -/
theorem enqueued_of_edited {source source' : Source Id H} {supersede : Bool} {edit : Edit Id}
    (h : Edited env source source' (.enqueue supersede) edit) :
    env.settings.processingExecutor = .postgres ∧ source'.status = .queued ∧ supersede = true := by
  cases h with
  | confirmed _ _ hsubmitted hrow => rw [hrow]; exact enqueued_of_submitted hsubmitted
  | submittedAgain _ _ _ hsubmitted hrow => rw [hrow]; exact enqueued_of_submitted hsubmitted
  | retried _ _ _ hresubmitted hrow =>
    rw [hrow]
    generalize env.settings.processingExecutor = executor at hresubmitted ⊢
    cases hresubmitted
    exact ⟨rfl, rfl, rfl⟩

omit [DecidableEq Id] [DecidableEq H] in
theorem enqueueSource_armed (stage : ProcessingStage) (now : Nat) {supersede : Bool}
    {before : Option (Job Id)} (h : ¬(before.any Job.live = true ∧ supersede = false)) :
    (enqueueSource stage supersede now before).status = .pending ∧
      (enqueueSource stage supersede now before).providerAttempts = 0 ∧
      ∀ job, before = some job →
        (enqueueSource stage supersede now before).claimGeneration = job.claimGeneration + 1 := by
  cases before with
  | none => exact ⟨rfl, rfl, fun _ h => by cases h⟩
  | some job =>
    have hneg : ¬(job.live = true ∧ supersede = false) := h
    rw [enqueueSource, if_neg hneg]
    refine ⟨rfl, rfl, ?_⟩
    rintro _ ⟨⟩
    rfl

omit [DecidableEq H] in
/-- An edit keeps the job or arms it. -/
theorem staffing_edited {source : Source Id H} {scheduling : Scheduling} {edit : Edit Id}
    {now : Nat} (h : Edited env s.source source scheduling edit) :
    Staffing env s (s.scheduled source scheduling now) e := by
  cases scheduling with
  | none => exact .kept rfl rfl rfl (fun _ _ h => h) (failed_of_edited h) (busy_of_edited h)
  | enqueue supersede =>
    obtain ⟨hexecutor, hqueued, rfl⟩ := enqueued_of_edited h
    have hneg : ¬(s.job.any Job.live = true ∧ true = false) := fun h => by cases h.2
    obtain ⟨hpending, hattempts, hgeneration⟩ :=
      enqueueSource_armed source.processingStage now hneg
    refine .armed (enqueueSource source.processingStage true now s.job) ?_ ?_ ?_ hpending hattempts
      hgeneration hexecutor ?_ ?_
    · rw [State.scheduled, if_neg hneg]
    · exact scheduled_workers ..
    · rw [State.scheduled, if_neg hneg]
    · intro owner claim hruns
      rwa [Runs, runner, scheduled_active] at hruns
    · rw [scheduled_source, hqueued]
      rintro ⟨⟩

omit [DecidableEq H] in
/-- What the executor and a process that dies do to a job and its workers. -/
theorem staffing_of_schedulerStep (h : schedulerStep env s e = some s') :
    Staffing env s s' e := by
  unfold schedulerStep at h
  split at h
  · -- claim
    split at h
    · next job hidle hjob =>
      split_ifs at h with hclaimable
      cases h
      refine .claimed _ _ _ job hidle hjob ?_ rfl
      simp only [Job.claimable, Job.live, Bool.or_eq_true, Bool.and_eq_true] at hclaimable ⊢
      rcases hclaimable.2 with hdue | hexpired
      · exact .inl hdue.1
      · exact .inr hexpired.1
    · cases h
  · -- check
    split at h
    · next claim hworker =>
      cases h
      refine .checked _ claim _ hworker ?_ rfl
      split_ifs with hfailed
      · exact .inr ⟨rfl, hfailed⟩
      · exact .inl rfl
    · cases h
  · -- acquire
    split at h
    · next claim hworker hfree =>
      cases h
      exact .acquired _ claim hworker hfree rfl
    · cases h
  · obtain ⟨claim, hclaim, rfl⟩ := Option.map_eq_some_iff.mp h
    exact .renewed _ claim _ _ hclaim rfl
  · -- report
    split at h
    · next claim report hworker =>
      cases h
      exact .reported _ claim report _ hworker rfl
    · cases h
  · obtain ⟨claim, hclaim, rfl⟩ := Option.map_eq_some_iff.mp h
    exact .cancelled _ claim hclaim rfl
  · cases h
    exact .crashed _ rfl
  · -- recoverJobs
    split_ifs at h with hmissing
    cases h
    obtain ⟨hexecutor, hmisses, hnone⟩ := hmissing
    refine .armed _ rfl rfl rfl rfl rfl (fun job hjob => ?_) hexecutor (fun _ _ h => h) ?_
    · rw [hnone] at hjob
      cases hjob
    · intro hfailed
      rw [missesJob, hfailed] at hmisses
      simp at hmisses
  · -- deliver
    split_ifs at h
    split at h
    · next hfree =>
      cases h
      exact .kept rfl rfl rfl (fun _ _ hruns => by cases hruns) .inl .inl
    · cases h
  · -- kill
    split at h
    · cases h
      exact .kept rfl rfl rfl (fun _ _ hruns => by cases hruns) .inl .inl
    · cases h
      exact .kept rfl rfl rfl (fun _ _ hruns => by cases hruns) .inl .inl
    · cases h
  · cases h

omit [DecidableEq Id] [DecidableEq H] in
/-- A source of an agent never fails. -/
theorem unfailed_of_agent {source : Source Id H} (h : Lifecycle media source)
    (hmode : source.analysisMode = .agent) : source.status ≠ .failed := by
  intro hfailed
  rcases (h.agent hmode).2 with hs | hs | hs | ⟨hs, -⟩ <;>
    exact absurd (hs.symm.trans hfailed) (by decide)

omit [DecidableEq H] in
/-- A turn of an attempt leaves a source that has not failed. -/
theorem staffing_turned {analyst : Analyst Id H} {t : Turn Id H}
    (hruns : ∀ owner claim, Runs (s.turned analyst t) owner claim → Runs s owner claim)
    (hrunner : ∀ r resumed, analyst = .server r resumed → runner s = some r)
    (hsettled : Settled media analyst t) (hbusy : Busy t.row → Busy s.source)
    (hlast : t.next = none → t.row.status ≠ .failed ∧ ¬Busy t.row) : Staffing env s (s.turned analyst t) e := by
  unfold State.turned at hruns ⊢
  dsimp only at hruns ⊢
  split at hruns
  · next session point hnext =>
    have hunfailed := (hsettled.2 session point hnext).unfailed hsettled.1
    refine .kept rfl rfl rfl hruns ?_ fun h => .inl (hbusy h)
    intro hfailed
    exact absurd hfailed hunfailed.2.1
  · next hnext =>
    cases analyst with
    | server r resumed =>
      exact staffing_returned .finished (hrunner r resumed rfl)
        (fun hfailed => absurd hfailed (hlast hnext).1) (fun _ h => absurd h (hlast hnext).2) rfl
    | agent submission =>
      refine .kept rfl rfl rfl hruns ?_ fun h => .inl (hbusy h)
      intro hfailed
      exact absurd hfailed (hlast hnext).1

/-- What the attempt that holds the locks does to a job and its workers. -/
theorem staffing_of_attemptStep (hs : Coherent media s)
    (h : attemptStep env s e = some s') : Staffing env s s' e := by
  have hchange := change_of_attemptStep h
  unfold attemptStep at h
  split at h
  · -- enter
    split at h
    · next r hentering =>
      have hrunner : runner s = some r := by rw [runner, hentering]; rfl
      dsimp only at h
      split at h
      · next hnone =>
        cases h
        exact staffing_returned .finished hrunner
          (fun hfailed => .inl (failed_of_beginProcessing hfailed))
          (fun hreviewed hbusy => absurd hbusy (not_busy_of_begun hs.row hreviewed hnone)) rfl
      · next point hpoint =>
        cases h
        refine .kept rfl rfl rfl (fun _ _ hruns => hrunner.trans hruns) ?_ ?_
        · intro hfailed
          exact .inl (failed_of_beginProcessing hfailed)
        · intro hbusy
          exact (busy_of_begun hs.row hbusy).imp_right fun hfailed => .inl (.enter hfailed)
    · cases h
  · -- act
    split at h
    · next analyst session point hworking =>
      obtain ⟨t, ht, rfl⟩ := Option.map_eq_some_iff.mp h
      have hengaged := hs.engaged _ _ _ hworking
      refine staffing_turned (fun _ _ => runs_turned hworking) ?_ (hengaged.turned hs.row ht) ?_ ?_
      · rintro r resumed rfl
        rw [runner, hworking]
        rfl
      · rintro ⟨hmode, -⟩
        have hsame : (s.turned analyst t).source.analysisMode = s.source.analysisMode :=
          hchange.same.2
        rw [turned_source, hmode] at hsame
        obtain ⟨hfully, hprocessing⟩ := hengaged.fully (hengaged.mode.symm.trans hsame.symm)
        exact ⟨hsame.symm, .inr (.inr (hfully.status.symm.trans hprocessing))⟩
      · intro hnext
        refine ⟨fun hfailed => ?_, ?_⟩
        · rcases hengaged.last ht hnext with hstatus | hstatus <;>
            exact absurd (hstatus.symm.trans hfailed) (by decide)
        · rintro ⟨-, hbusy⟩
          rcases hengaged.last ht hnext with hstatus | hstatus <;> simp [hstatus] at hbusy
    · cases h
  · -- fail
    next error =>
    obtain ⟨active, hactive, h⟩ := Option.map_eq_some_iff.mp h
    split at h
    · next r hr =>
      subst h
      have hrunner : runner s = some r := by rw [runner, hactive]; exact hr
      refine staffing_returned (.failed error) hrunner ?_ ?_ rfl
      · intro hfailed
        rcases failed_of_recordFailure hfailed with hbefore | hlast
        · exact .inl hbefore
        · exact .inr ⟨error, rfl, hlast⟩
      · intro _ hbusy
        obtain ⟨hbefore, hagain⟩ := busy_of_recordFailure hs.row hbusy
        refine ⟨hbefore.imp_right fun hfailed => ?_, (by rintro ⟨⟩), ?_⟩
        · rw [not_or, Bool.not_eq_true, Bool.not_eq_true] at hagain
          exact .fail hrunner hagain hfailed
        · rintro _ ⟨⟩
          exact hagain
    · subst h
      exact .kept rfl rfl rfl (fun _ _ hruns => by cases hruns) .inl .inl
  · -- databaseFailure
    obtain ⟨active, hactive, h⟩ := Option.map_eq_some_iff.mp h
    split at h
    · next r hr =>
      subst h
      have hrunner : runner s = some r := by rw [runner, hactive]; exact hr
      refine staffing_returned .databaseFailure hrunner .inl ?_ rfl
      exact fun _ hbusy => ⟨.inl hbusy, (by rintro ⟨⟩), (by rintro _ ⟨⟩)⟩
    · subst h
      exact .kept rfl rfl rfl (fun _ _ hruns => by cases hruns) .inl .inl
  · -- submit
    split at h
    · cases h
      exact .kept rfl rfl rfl (fun _ _ hruns => by cases hruns) .inl .inl
    · cases h
  · -- receive
    split at h
    · split at h
      · next submission t hadmitted =>
        cases h
        have hsettled := hs.row.admitted hadmitted
        have hagent : t.row.analysisMode = .agent := by
          obtain ⟨hmode, -⟩ := submitAnalysis_started hadmitted
          obtain ⟨_, _, hrow⟩ := started_row hadmitted
          rw [hrow]
          exact hmode
        have hnot : ¬Busy t.row := fun hbusy => absurd (hbusy.1.symm.trans hagent) (by decide)
        refine staffing_turned ?_ (fun _ _ h => by cases h) hsettled (fun h => absurd h hnot)
          (fun _ => ⟨unfailed_of_agent hsettled.1 hagent, hnot⟩)
        intro owner claim hruns
        rw [Runs, runner, turned_active, Turn.active] at hruns
        cases hnext : t.next <;> rw [hnext] at hruns <;> cases hruns
      · cases h
        exact .kept rfl rfl rfl (fun _ _ hruns => by cases hruns) .inl .inl
    · cases h
  · cases h

/-- Every step is one of these. -/
theorem staffing_of_step (hs : Coherent media s)
    (h : step env s e = some s') : Staffing env s s' e := by
  unfold step at h
  split at h
  · split at h
    · next source scheduling hedit =>
      cases h
      exact staffing_edited (edited_of_applyEdit hedit)
    · cases h
  · rcases Option.or_eq_some_iff.mp (by simpa using h) with h | ⟨-, h⟩
    · exact staffing_of_schedulerStep h
    · exact staffing_of_attemptStep hs h

end

end Maeglagi.Jobs
