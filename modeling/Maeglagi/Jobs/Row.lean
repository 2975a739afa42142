import Mathlib.Algebra.GroupWithZero.Nat
import Maeglagi.Sources.Row

/-!
# Job rows

The row of `processing_jobs` that schedules a source, and the statements of the PostgreSQL
executor that write it. Times are seconds on the database's clock.
-/

namespace Maeglagi.Jobs

open Core

/-- `ProcessingJob.status` -/
inductive JobStatus where
  | pending | running | completed | failed | cancelled
  deriving DecidableEq, Repr

/-- A row of `processing_jobs`. -/
structure Job (Id : Type) where
  status : JobStatus
  stage : ProcessingStage
  providerAttempts : Nat
  claimGeneration : Nat
  leaseOwner : Option Id
  leaseExpiresAt : Option Nat
  nextRunAt : Nat
  lastError : Option Text
  deriving DecidableEq

variable {Id : Type} [DecidableEq Id]

/-- Some worker can still pick the job up. -/
def Job.live (job : Job Id) : Bool :=
  decide (job.status = .pending) || decide (job.status = .running)

/-- The row that `enqueue_source` and `recover_missing_jobs` insert. -/
def Job.inserted (stage : ProcessingStage) (now : Nat) : Job Id :=
  ⟨.pending, stage, 0, 0, none, none, now, none⟩

/-- The row that `enqueue_source` re-arms. -/
def Job.rearmed (stage : ProcessingStage) (now : Nat) (job : Job Id) : Job Id :=
  ⟨.pending, stage, 0, job.claimGeneration + 1, none, none, now, none⟩

/-- `enqueue_source` -/
def enqueueSource (stage : ProcessingStage) (supersedeExisting : Bool) (now : Nat) :
    Option (Job Id) → Job Id
  | none => .inserted stage now
  | some job => if job.live = true ∧ supersedeExisting = false then job else job.rearmed stage now

/-- What a worker remembers of the job it claimed. -/
structure Claim where
  generation : Nat
  attempts : Nat
  deriving DecidableEq, Repr

/-- The job is due, or its lease has run out. -/
def Job.claimable (now : Nat) (job : Job Id) : Bool :=
  (decide (job.status = .pending) && decide (job.nextRunAt ≤ now)) ||
    (decide (job.status = .running) && job.leaseExpiresAt.any fun e => decide (e ≤ now))

/-- The row that `claim_job` updates. -/
def Job.claimed (owner : Id) (leaseSeconds now : Nat) (job : Job Id) : Job Id :=
  { job with
    status := .running
    leaseOwner := some owner
    leaseExpiresAt := some (now + leaseSeconds)
    claimGeneration := job.claimGeneration + 1 }

/-- What `claim_job` returns of the row it updated. -/
def Job.claim (job : Job Id) : Claim := ⟨job.claimGeneration + 1, job.providerAttempts⟩

/-- The `WHERE` clause of `_fenced_update`. -/
def Job.fenced (owner : Id) (generation now : Nat) (job : Job Id) : Bool :=
  decide (job.status = .running) && decide (job.leaseOwner = some owner) &&
    decide (job.claimGeneration = generation) && job.leaseExpiresAt.any fun e => decide (now < e)

/-- `_fenced_update` -/
def fencedUpdate (owner : Id) (generation now : Nat) (assignment : Job Id → Job Id)
    (job : Job Id) : Job Id :=
  if job.fenced owner generation now then assignment job else job

/-- The assignment of `_renew`. -/
def Job.renewed (seconds now : Nat) (job : Job Id) : Job Id :=
  { job with leaseExpiresAt := some (now + seconds) }

/-- A vetted failure of an attempt: its code, the message for the source, and whether a
retry cannot help. -/
structure AttemptError where
  code : Text
  message : Text
  terminal : Bool
  deriving DecidableEq

/-- How `process_source_attempt` ends for the executor. -/
inductive Outcome where
  | finished
  | failed (error : AttemptError)
  | databaseFailure
  deriving DecidableEq

/-- The job gives its lease back under a new status. -/
def Job.released (status : JobStatus) (job : Job Id) : Job Id :=
  { job with status, leaseOwner := none, leaseExpiresAt := none }

/-- The assignment of `_execute_claim` after an attempt. -/
def Job.settled (claim : Claim) (outcome : Outcome) (now : Nat) (job : Job Id) : Job Id :=
  match outcome with
  | .databaseFailure => { job.released .pending with nextRunAt := now + 30 }
  | .finished => { job.released .completed with lastError := none }
  | .failed error =>
    if 3 ≤ claim.attempts ∨ error.terminal = true then
      { job.released .failed with
        providerAttempts := job.providerAttempts + 1
        lastError := some error.code }
    else
      { job.released .pending with
        providerAttempts := job.providerAttempts + 1
        nextRunAt := now + min 300 (10 * 2 ^ claim.attempts)
        lastError := some error.code }

/-- The assignment of `_execute_claim` for a source found failed after the last attempt. -/
def Job.abandoned (job : Job Id) : Job Id :=
  { job.released .failed with providerAttempts := job.providerAttempts + 1 }

/-- The assignment of `_execute_claim` when the executor is stopped. -/
def Job.cancelled (now : Nat) (job : Job Id) : Job Id :=
  { job.released .pending with nextRunAt := now }

end Maeglagi.Jobs
