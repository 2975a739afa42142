import Maeglagi.Agent.Submission
import Maeglagi.Core.Machine

/-!
# The life of one source

One source under everything that may happen to it: edits over the web and by an agent, the
PostgreSQL executor or the task queue, attempts and submissions with a failure or a crash at
any point. One transaction is one step. The advisory locks of a source admit one attempt at a
time, so the state holds at most one.
-/

namespace Maeglagi.Sources

open Core Jobs

variable {Id H : Type} [DecidableEq Id] [DecidableEq H]

/-- The operations that create a source. -/
inductive Creation (Id : Type) where
  | document (brokerUp : Bool) (file : Upload)
  | recording (brokerUp : Bool) (dir : Directory Id) (file : Upload)
      (liveDraft : Option (List (Utterance Id))) (projects : List Id)
  | transcript (dir : Directory Id) (body : TranscriptSourceRequest Id)
  | agentMedia (kind : SourceKind) (file : Upload)
  | agentText (dir : Directory Id) (title text : Text) (kind : SourceKind) (projects : List Id)

/-- The row an operation creates, and what it does about its job. -/
def create (env : Env Id H) (ids : SourceIds Id) :
    Creation Id → Except ApiError (Source Id H × Scheduling)
  | .document brokerUp file => uploadDocument env.rt env.settings brokerUp ids file
  | .recording brokerUp dir file liveDraft projects =>
    uploadRecording env.rt env.settings brokerUp dir ids file liveDraft projects
  | .transcript dir body => do return (← createTranscriptSource env.rt dir ids body, .none)
  | .agentMedia kind file => do return (← uploadAgentMedia env.rt env.settings ids kind file, .none)
  | .agentText dir title text kind projects => do
    return (← createTextSource env.rt env.settings dir ids title text kind projects, .none)

/-- The operations that edit a source. -/
inductive Edit (Id : Type) where
  | save (dir : Directory Id) (request : ReviewPatch Id)
  | confirm (brokerUp : Bool) (dir : Directory Id) (now : Instant) (revision : Nat)
  | retry (brokerUp : Bool)
  | recover (dir : Directory Id) (actor : Id) (revision : Nat) (utterances : List (Utterance Id))
  | associate (dir : Directory Id) (body : AssociationsPatch Id)
  | saveText (revision : Nat) (text : Text)
  | saveTranscript (revision : Nat) (utterances : List (Utterance Id))
  | confirmTranscript (dir : Directory Id) (now : Instant) (revision : Nat)

/-- An edit that writes one row and leaves its job alone. -/
def unscheduled (edited : Except ApiError (Source Id H)) :
    Except ApiError (Option (Source Id H × Scheduling)) :=
  edited.map fun source => some (source, .none)

/-- The row an edit commits, if it writes anything, and what it does about its job. -/
def applyEdit (env : Env Id H) (job : Option (Job Id)) (source : Source Id H) :
    Edit Id → Except ApiError (Option (Source Id H × Scheduling))
  | .save dir request => unscheduled (saveReview dir source request)
  | .confirm brokerUp dir now revision =>
    confirmReview env.settings.processingExecutor brokerUp dir now source revision
  | .retry brokerUp => retryTranscription env.settings.processingExecutor brokerUp source
  | .recover dir actor revision utterances =>
    unscheduled (recoverBrowserTranscript env.rt dir actor job source revision utterances)
  | .associate dir body => unscheduled (patchAssociations dir source body)
  | .saveText revision text => unscheduled (saveDocumentText env.settings source revision text)
  | .saveTranscript revision utterances =>
    unscheduled (Maeglagi.saveTranscript source revision utterances)
  | .confirmTranscript dir now revision =>
    unscheduled (Maeglagi.confirmTranscript env.rt dir now source revision)

/-- What a worker issues after an attempt, or in its place. -/
inductive Report where
  | settled (outcome : Outcome)
  | abandoned
  | cancelled
  deriving DecidableEq

/-- The assignment of a report. -/
def Report.assign (claim : Claim) (now : Nat) : Report → Job Id → Job Id
  | .settled outcome => Job.settled claim outcome now
  | .abandoned => Job.abandoned
  | .cancelled => Job.cancelled now

/-- Where a worker of the PostgreSQL executor stands. -/
inductive Worker where
  | idle
  | claimed (claim : Claim)
  | ready (claim : Claim)
  | attempting (claim : Claim)
  | reporting (claim : Claim) (report : Report)
  deriving DecidableEq

/-- The claim a worker holds. -/
def Worker.claim? : Worker → Option Claim
  | .idle => none
  | .claimed claim | .ready claim | .attempting claim | .reporting claim _ => some claim

/-- What holds the advisory locks of the source. -/
inductive Active (Id H : Type) where
  | entering (runner : Runner Id)
  | opening (request : SubmissionRequest H)
  | working (analyst : Analyst Id H) (session : Source Id H) (point : Point)

/-- The attempts that failed since the job was last armed. -/
structure Tally where
  retries : Nat
  final : Bool
  terminal : Bool
  deriving DecidableEq, Repr

/-- The tally of a job that was just armed. -/
def Tally.zero : Tally := ⟨0, false, false⟩

/-- The tally after an attempt raised an exception. -/
def Tally.count (final : Bool) (error : AttemptError) (t : Tally) : Tally :=
  if error.terminal then { t with terminal := true }
  else if final then { t with final := true }
  else { t with retries := t.retries + 1 }

/-- A source with its job, its workers, the attempt that holds its locks, the writes outside
its row, and the failures since its job was armed. -/
structure State (Id H : Type) where
  source : Source Id H
  job : Option (Job Id)
  workers : Id → Worker
  active : Option (Active Id H)
  sinks : List (Sink Id)
  tally : Tally

/-- The state after the row and its job are written in one transaction. -/
def State.scheduled (s : State Id H) (source : Source Id H) (scheduling : Scheduling)
    (now : Nat) : State Id H :=
  match scheduling with
  | .none => { s with source }
  | .enqueue supersede =>
    if s.job.any Job.live = true ∧ supersede = false then { s with source }
    else { s with
      source
      job := some (enqueueSource source.processingStage supersede now s.job)
      tally := .zero }

/-- The worker goes on to something else. -/
def State.moved (s : State Id H) (owner : Id) (worker : Worker) : State Id H :=
  { s with workers := Function.update s.workers owner worker }

/-- The locks are released, and the worker that ran the attempt has its outcome. -/
def State.returned (s : State Id H) (runner : Runner Id) (outcome : Outcome) : State Id H :=
  match runner with
  | .message _ => { s with active := none }
  | .worker owner claim =>
    { s with active := none }.moved owner (.reporting claim (.settled outcome))

/-- The attempt that held the locks ends. -/
def State.ended (s : State Id H) (analyst : Analyst Id H) (outcome : Outcome) : State Id H :=
  match analyst with
  | .server runner _ => s.returned runner outcome
  | .agent _ => { s with active := none }

/-- The state after a turn of an attempt. -/
def State.turned (s : State Id H) (analyst : Analyst Id H) (t : Turn Id H) : State Id H :=
  let s' := { s with source := t.row, sinks := s.sinks ++ t.sinks }
  match t.next with
  | some (session, point) => { s' with active := some (.working analyst session point) }
  | none => s'.ended analyst .finished

/-- Everything that may happen to a source; `now` is a reading of the database's clock. -/
inductive Event (Id H : Type) where
  | edit (edit : Edit Id) (now : Nat)
  | claim (owner : Id) (leaseSeconds now : Nat)
  | check (owner : Id)
  | acquire (owner : Id)
  | renew (owner : Id) (seconds now : Nat)
  | report (owner : Id) (now : Nat)
  | cancel (owner : Id)
  | crash (owner : Id)
  | recoverJobs (now : Nat)
  | deliver (final : Bool)
  | kill
  | enter
  | act (action : Action Id)
  | fail (error : AttemptError)
  | databaseFailure
  | submit (request : SubmissionRequest H)
  | receive (dir : Directory Id) (known : List Text)

/-- The runner of an attempt that has one. -/
def Active.runner? : Active Id H → Option (Runner Id)
  | .entering runner => some runner
  | .working (.server runner _) _ _ => some runner
  | .opening _ => none
  | .working (.agent _) _ _ => none

/-- The attempt is run by the worker. -/
def Active.ownedBy (owner : Id) (active : Active Id H) : Bool :=
  match active.runner? with
  | some (.worker other _) => decide (other = owner)
  | _ => false

/-- The locks are released if the worker's attempt holds them. -/
def State.dropped (s : State Id H) (owner : Id) : State Id H :=
  { s with active := s.active.filter fun active => !active.ownedBy owner }

/-- The condition under which `recover_missing_jobs` inserts a job for a source. -/
def missesJob (source : Source Id H) : Bool :=
  decide (source.analysisMode = .server) &&
    decide (source.status ∈ [.queued, .processing, .enqueuePending]) &&
    (decide (source.kind = .document) ||
      decide (source.reviewState ∈ [some .confirmed, some .transcribing]))

/-- The steps of the executor and of a process that dies. -/
def schedulerStep (env : Env Id H) (s : State Id H) : Event Id H → Option (State Id H)
  | .claim owner leaseSeconds now =>
    match s.workers owner, s.job with
    | .idle, some job =>
      if env.settings.processingExecutor = .postgres ∧ job.claimable now = true then
        some ({ s with job := some (job.claimed owner leaseSeconds now) }.moved owner
          (.claimed job.claim))
      else none
    | _, _ => none
  | .check owner =>
    match s.workers owner with
    | .claimed claim => some (s.moved owner
        (if 3 ≤ claim.attempts ∧ s.source.status = .failed then .reporting claim .abandoned
        else .ready claim))
    | _ => none
  | .acquire owner =>
    match s.workers owner, s.active with
    | .ready claim, none => some ({ s with active := some (.entering (.worker owner claim)) }.moved
        owner (.attempting claim))
    | _, _ => none
  | .renew owner seconds now =>
    (s.workers owner).claim?.map fun claim =>
      { s with
        job := s.job.map (fencedUpdate owner claim.generation now (Job.renewed seconds now)) }
  | .report owner now =>
    match s.workers owner with
    | .reporting claim report =>
      some ({ s with
        job := s.job.map (fencedUpdate owner claim.generation now (report.assign claim now)) }.moved
          owner .idle)
    | _ => none
  | .cancel owner =>
    (s.workers owner).claim?.map fun claim =>
      (s.dropped owner).moved owner (.reporting claim .cancelled)
  | .crash owner => some ((s.dropped owner).moved owner .idle)
  | .recoverJobs now =>
    if env.settings.processingExecutor = .postgres ∧ missesJob s.source = true ∧ s.job = none then
      some { s with job := some (.inserted s.source.processingStage now), tally := .zero }
    else none
  | .deliver final =>
    if env.settings.processingExecutor = .celery ∧ s.source.analysisMode = .server then
      match s.active with
      | none => some { s with active := some (.entering (.message final)) }
      | some _ => none
    else none
  | .kill =>
    match s.active.map Active.runner? with
    | some none | some (some (.message _)) => some { s with active := none }
    | _ => none
  | _ => none

/-- The steps of the attempt that holds the locks, and of one that takes them. -/
def attemptStep (env : Env Id H) (s : State Id H) : Event Id H → Option (State Id H)
  | .enter =>
    match s.active with
    | some (.entering runner) =>
      let begun := beginProcessing s.source
      match begun.2 with
      | none => some ({ s with source := begun.1 }.returned runner .finished)
      | some point => some { s with
          source := begun.1
          active := some (.working (.server runner (decide (point = .analyzing))) begun.1 point) }
    | _ => none
  | .act action =>
    match s.active with
    | some (.working analyst session point) =>
      (turn env analyst s.source session point action).map (s.turned analyst)
    | _ => none
  | .fail error =>
    s.active.map fun active =>
      match active.runner? with
      | some runner =>
        { s with
          source := recordFailure runner.final error s.source
          tally := s.tally.count runner.final error }.returned runner (.failed error)
      | none => { s with active := none }
  | .databaseFailure =>
    s.active.map fun active =>
      match active.runner? with
      | some runner => s.returned runner .databaseFailure
      | none => { s with active := none }
  | .submit request =>
    match s.active with
    | none => some { s with active := some (.opening request) }
    | some _ => none
  | .receive dir known =>
    match s.active with
    | some (.opening request) =>
      match submitAnalysis env dir known s.source request with
      | .ok (.started submission t) => some (s.turned (.agent submission) t)
      | _ => some { s with active := none }
    | _ => none
  | _ => none

/-- One step of the life of a source. -/
def step (env : Env Id H) (s : State Id H) : Event Id H → Option (State Id H)
  | .edit edit now =>
    match applyEdit env s.job s.source edit with
    | .ok (some (source, scheduling)) => some (s.scheduled source scheduling now)
    | _ => none
  | event => schedulerStep env s event <|> attemptStep env s event

/-- The state right after an operation created the source. -/
def State.created (source : Source Id H) (scheduling : Scheduling) (now : Nat) : State Id H :=
  State.scheduled ⟨source, none, fun _ => .idle, none, [], .zero⟩ source scheduling now

/-- The states in which the life of a source begins. -/
def Initial (env : Env Id H) (s : State Id H) : Prop :=
  ∃ ids creation source scheduling now,
    create env ids creation = .ok (source, scheduling) ∧ s = State.created source scheduling now

/-- The states that runs of the system lead to. -/
def Reachable (env : Env Id H) (s : State Id H) : Prop :=
  ∃ s₀, Initial env s₀ ∧ RunOf (step env) anyEvent s₀ s

end Maeglagi.Sources
