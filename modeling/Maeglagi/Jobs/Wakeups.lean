import Mathlib.Algebra.Order.Field.Rat
import Mathlib.Data.Prod.Lex
import Maeglagi.Core.Dict
import Maeglagi.Sources.System

/-!
# Waking the executors

The loops of the PostgreSQL executors over one table of jobs. A loop clears its flag, claims a
job and executes it, and rests when there was none to claim; `wake_executors` sets the flags of
its process after a job was committed. Transactions lock the rows they write until they end.
-/

namespace Maeglagi.Jobs

open Core Sources

variable {E P S : Type}

/-- Where `PostgresExecutor._run` stands. -/
inductive Phase (S : Type) where
  | new
  /-- Before `_wake` is cleared. -/
  | looping
  /-- Before the transaction of `claim_job`. -/
  | preparing
  /-- The transaction of `claim_job` has begun; the time is its `now()`. -/
  | began (now : ℕ)
  /-- The statement of `claim_job` has returned a row; its transaction is not committed. -/
  | selected (source : S) (now : ℕ)
  | executing (source : S) (claim : Claim)
  /-- In `wait_for(self._wake.wait())`. -/
  | resting
  | ended
  deriving DecidableEq

/-- The loop is before a claim that sees what is due at the time, or will come back to one. -/
def Phase.Looks (due : ℕ) : Phase S → Prop
  | .looping | .preparing | .selected _ _ | .executing _ _ => True
  | .began now => due ≤ now
  | .new | .resting | .ended => False

/-- `PostgresExecutor`, in the process that runs it. -/
structure PostgresExecutor (P S : Type) where
  process : P
  phase : Phase S
  wake : Bool
  stopping : Bool
  /-- In `_executors`. -/
  registered : Bool
  reconciled : Bool
  idleSeconds : ℚ

/-- The loop waits for the event or the end of its time. -/
def PostgresExecutor.Asleep (executor : PostgresExecutor P S) : Prop :=
  executor.phase = .resting ∧ executor.wake = false

/-- What holds the lock of a row: a claim, or another transaction with what it will commit. -/
inductive RowLock (E : Type) where
  | claim (executor : E)
  | write (row : Option (Job E))

/-- The executors of all processes and the jobs they share. -/
structure Fleet (E P S : Type) where
  now : ℕ
  jobs : Dict S (Job E)
  locks : S → Option (RowLock E)
  executors : E → PostgresExecutor P S

/-- The settings of the executors. -/
structure ExecutorSettings where
  pollSeconds : ℚ
  leaseSeconds : ℕ

/-- What happens to the executors and the jobs. -/
inductive FleetEvent (E P S : Type) where
  | tick (seconds : ℕ)
  /-- `enqueue_source` in a transaction that began at the time. -/
  | enqueue (source : S) (stage : ProcessingStage) (supersedeExisting : Bool) (began : ℕ)
  /-- Another transaction selects the row `FOR UPDATE`. -/
  | hold (source : S)
  | commit (source : S)
  | rollback (source : S)
  /-- `wake_executors` -/
  | wakeExecutors (process : P)
  | start (executor : E)
  | stop (executor : E)
  | loop (executor : E)
  /-- `recover_missing_jobs`, and the sources it finds without a job. -/
  | reconcile (executor : E) (missing : List (S × ProcessingStage))
  | begin (executor : E)
  | select (executor : E)
  | claimed (executor : E)
  | renew (executor : E)
  | report (executor : E) (report : Report)
  /-- An exception; a commit that raised it may have been carried out. -/
  | fail (executor : E) (carriedOut : Bool)
  /-- The event is set, or the time is out. -/
  | resume (executor : E)
  /-- The cancelled task ends; a write that was under way may have been carried out. -/
  | unwind (executor : E) (carriedOut : Bool)

namespace Fleet

section Definitions

variable [DecidableEq E] [DecidableEq P] [LinearOrder S]

/-- The executor changes. -/
def setExecutor (s : Fleet E P S) (e : E) (executor : PostgresExecutor P S) : Fleet E P S :=
  { s with executors := Function.update s.executors e executor }

def setPhase (s : Fleet E P S) (e : E) (phase : Phase S) : Fleet E P S :=
  s.setExecutor e { s.executors e with phase := phase }

def unlock (s : Fleet E P S) (source : S) : Fleet E P S :=
  { s with locks := Function.update s.locks source none }

def lock (s : Fleet E P S) (source : S) (holder : RowLock E) : Fleet E P S :=
  { s with locks := Function.update s.locks source (some holder) }

/-- The row that `claim_job` selects: the first that is due and that nobody has locked. -/
def candidate (s : Fleet E P S) (now : ℕ) : Option S :=
  let due := s.jobs.entries.filter fun row => row.2.claimable now && (s.locks row.1).isNone
  (due.map fun row => toLex (row.2.nextRunAt, row.1)).min?.map fun key => (ofLex key).2

/-- A row is written, if there is one. -/
def write (s : Fleet E P S) (source : S) (assignment : Job E → Job E) : Fleet E P S :=
  match s.jobs.get? source with
  | none => s
  | some job => { s with jobs := s.jobs.set source (assignment job) }

/-- `recover_missing_jobs` -/
def recoverMissingJobs (s : Fleet E P S) (missing : List (S × ProcessingStage)) : Fleet E P S :=
  { s with
    jobs := missing.foldl (fun jobs row =>
      match jobs.get? row.1 with
      | none => jobs.set row.1 (.inserted row.2 s.now)
      | some _ => jobs) s.jobs }

/-- The transaction of a claim ends. -/
def endClaim (settings : ExecutorSettings) (s : Fleet E P S) (e : E) (source : S) (began : ℕ)
    (carriedOut : Bool) : Fleet E P S :=
  (if carriedOut then s.write source (.claimed e settings.leaseSeconds began) else s).unlock source

/-- What a failure or a cancellation leaves of what the executor was doing. -/
def abandon (settings : ExecutorSettings) (s : Fleet E P S) (e : E) (carriedOut : Bool) :
    Fleet E P S :=
  match (s.executors e).phase with
  | .selected source began => s.endClaim settings e source began carriedOut
  | _ => s

/-- `_fenced_update` -/
def fenced (s : Fleet E P S) (e : E) (source : S) (generation : ℕ)
    (assignment : Job E → Job E) : Fleet E P S :=
  s.write source (fencedUpdate e generation s.now assignment)

/-- One event, if it can happen. -/
def step (settings : ExecutorSettings) (s : Fleet E P S) : FleetEvent E P S → Option (Fleet E P S)
  | .tick seconds => some { s with now := s.now + seconds }
  | .enqueue source stage supersedeExisting began =>
    match s.locks source with
    | some _ => none
    | none =>
      if began ≤ s.now then
        some (s.lock source
          (.write (some (enqueueSource stage supersedeExisting began (s.jobs.get? source)))))
      else none
  | .hold source =>
    match s.locks source with
    | some _ => none
    | none => some (s.lock source (.write none))
  | .commit source =>
    match s.locks source with
    | some (.write none) => some (s.unlock source)
    | some (.write (some row)) =>
      some (({ s with jobs := s.jobs.set source row } : Fleet E P S).unlock source)
    | _ => none
  | .rollback source =>
    match s.locks source with
    | some (.write _) => some (s.unlock source)
    | _ => none
  | .wakeExecutors process =>
    some { s with
      executors := fun e =>
        if (s.executors e).process = process ∧ (s.executors e).registered = true then
          { s.executors e with wake := true }
        else s.executors e }
  | .start e =>
    match (s.executors e).phase with
    | .new =>
      some (s.setExecutor e
        { s.executors e with
          phase := .looping
          registered := true
          idleSeconds := settings.pollSeconds })
    | _ => none
  | .stop e => some (s.setExecutor e { s.executors e with stopping := true, registered := false })
  | .loop e =>
    match (s.executors e).phase with
    | .looping =>
      if (s.executors e).stopping then some (s.setPhase e .ended)
      else some (s.setExecutor e { s.executors e with phase := .preparing, wake := false })
    | _ => none
  | .reconcile e missing =>
    match (s.executors e).phase with
    | .preparing =>
      if (s.executors e).reconciled then none
      else some ((s.recoverMissingJobs missing).setExecutor e
        { s.executors e with reconciled := true })
    | _ => none
  | .begin e =>
    match (s.executors e).phase with
    | .preparing =>
      if (s.executors e).reconciled then some (s.setPhase e (.began s.now)) else none
    | _ => none
  | .select e =>
    match (s.executors e).phase with
    | .began now =>
      match s.candidate now with
      | none => some (s.setPhase e .resting)
      | some source => some ((s.lock source (.claim e)).setPhase e (.selected source now))
    | _ => none
  | .claimed e =>
    match (s.executors e).phase with
    | .selected source now =>
      match s.jobs.get? source with
      | none => none
      | some job =>
        some ((s.endClaim settings e source now true).setExecutor e
          { s.executors e with
            phase := .executing source job.claim
            idleSeconds := settings.pollSeconds })
    | _ => none
  | .renew e =>
    match (s.executors e).phase with
    | .executing source claim =>
      match s.locks source with
      | some _ => none
      | none => some (s.fenced e source claim.generation (.renewed settings.leaseSeconds s.now))
    | _ => none
  | .report e report =>
    match (s.executors e).phase with
    | .executing source claim =>
      match s.locks source with
      | some _ => none
      | none =>
        some ((s.fenced e source claim.generation (report.assign claim s.now)).setPhase e .looping)
    | _ => none
  | .fail e carriedOut =>
    match (s.executors e).phase with
    | .preparing | .began _ | .selected _ _ | .executing _ _ =>
      some ((s.abandon settings e carriedOut).setPhase e .resting)
    | _ => none
  | .resume e =>
    match (s.executors e).phase with
    | .resting =>
      some (s.setExecutor e
        { s.executors e with
          phase := .looping
          idleSeconds := min 60 ((s.executors e).idleSeconds * 2) })
    | _ => none
  | .unwind e carriedOut =>
    match (s.executors e).stopping, (s.executors e).phase with
    | true, .executing source claim =>
      if carriedOut then
        match s.locks source with
        | some _ => none
        | none =>
          some ((s.fenced e source claim.generation (.cancelled s.now)).setPhase e .ended)
      else some (s.setPhase e .ended)
    | true, _ => some ((s.abandon settings e carriedOut).setPhase e .ended)
    | false, _ => none

end Definitions

variable [DecidableEq E] [DecidableEq P] [LinearOrder S] {settings : ExecutorSettings}
  {s s' : Fleet E P S} {e e' : E} {source source' : S} {job : Job E} {now : ℕ}

/-! ## The rows -/

omit [DecidableEq E] [DecidableEq P] in
theorem get?_write {assignment : Job E → Job E} :
    (s.write source assignment).jobs.get? source' =
      if source' = source then (s.jobs.get? source).map assignment else s.jobs.get? source' := by
  unfold write
  cases hrow : s.jobs.get? source with
  | none =>
    split_ifs with heq
    · rw [heq, hrow, Option.map_none]
    · rfl
  | some job => exact Dict.get?_set ..

omit [DecidableEq E] [DecidableEq P] in
/-- A write changes no lock, no executor and no clock. -/
theorem write_frame (s : Fleet E P S) (source : S) (assignment : Job E → Job E) :
    (s.write source assignment).locks = s.locks ∧
      (s.write source assignment).executors = s.executors ∧
        (s.write source assignment).now = s.now := by
  unfold write
  split <;> exact ⟨rfl, rfl, rfl⟩

omit [DecidableEq E] [DecidableEq P] in
/-- Recovery leaves the rows that are there. -/
theorem get?_recoverMissingJobs {missing : List (S × ProcessingStage)}
    (hrow : s.jobs.get? source = some job) :
    (s.recoverMissingJobs missing).jobs.get? source = some job := by
  unfold recoverMissingJobs
  dsimp only
  generalize s.jobs = jobs at hrow
  induction missing generalizing jobs with
  | nil => exact hrow
  | cons row rows ih =>
    refine ih _ ?_
    dsimp only
    split
    · next hnone =>
      rw [Dict.get?_set, if_neg, hrow]
      rintro rfl
      rw [hrow] at hnone
      cases hnone
    · exact hrow

omit [DecidableEq E] [DecidableEq P] in
/-- A claim that finds a row that is due and free takes one that is not later in the order. -/
theorem candidate_le (hrow : s.jobs.get? source = some job) (hfree : s.locks source = none)
    (hdue : job.claimable now = true) :
    ∃ taken row, s.candidate now = some taken ∧ s.jobs.get? taken = some row ∧
      s.locks taken = none ∧ toLex (row.nextRunAt, taken) ≤ toLex (job.nextRunAt, source) := by
  let due := s.jobs.entries.filter fun row => row.2.claimable now && (s.locks row.1).isNone
  let keys := due.map fun row => toLex (row.2.nextRunAt, row.1)
  have hcandidate : s.candidate now = keys.min?.map fun key => (ofLex key).2 := rfl
  have hmem : toLex (job.nextRunAt, source) ∈ keys := by
    refine List.mem_map.mpr ⟨(source, job), ?_, rfl⟩
    rw [List.mem_filter, Bool.and_eq_true]
    exact ⟨Dict.get?_eq_some_iff.mp hrow, hdue, by rw [hfree]; rfl⟩
  cases hmin : keys.min? with
  | none =>
    rw [List.min?_eq_none_iff] at hmin
    rw [hmin] at hmem
    cases hmem
  | some key =>
    obtain ⟨hkey, hle⟩ := List.min?_eq_some_iff.mp hmin
    obtain ⟨⟨taken, row⟩, htaken, rfl⟩ := List.mem_map.mp hkey
    rw [List.mem_filter, Bool.and_eq_true, Option.isNone_iff_eq_none] at htaken
    exact ⟨taken, row, by rw [hcandidate, hmin]; rfl, Dict.get?_eq_some_iff.mpr htaken.1,
      htaken.2.2, hle _ hmem⟩

omit [DecidableEq E] [DecidableEq P] in
/-- The row that a claim takes is not locked. -/
theorem candidate_free (hcandidate : s.candidate now = some source) : s.locks source = none := by
  unfold candidate at hcandidate
  rw [Option.map_eq_some_iff] at hcandidate
  obtain ⟨key, hmin, rfl⟩ := hcandidate
  obtain ⟨hkey, -⟩ := List.min?_eq_some_iff.mp hmin
  obtain ⟨row, hrow, rfl⟩ := List.mem_map.mp hkey
  rw [List.mem_filter, Bool.and_eq_true, Option.isNone_iff_eq_none] at hrow
  exact hrow.2.2

/-! ## Steps -/

/-- What a step can do. -/
inductive Stepped (settings : ExecutorSettings) (s : Fleet E P S) :
    FleetEvent E P S → Fleet E P S → Prop
  | tick (seconds : ℕ) : Stepped settings s (.tick seconds) { s with now := s.now + seconds }
  | enqueue {source : S} {stage : ProcessingStage} {supersedeExisting : Bool} {began : ℕ}
    (hfree : s.locks source = none) :
    Stepped settings s (.enqueue source stage supersedeExisting began) (s.lock source
      (.write (some (enqueueSource stage supersedeExisting began (s.jobs.get? source)))))
  | hold {source : S} (hfree : s.locks source = none) :
    Stepped settings s (.hold source) (s.lock source (.write none))
  | commit {source : S} {row : Job E} (hlock : s.locks source = some (.write (some row))) :
    Stepped settings s (.commit source)
      (({ s with jobs := s.jobs.set source row } : Fleet E P S).unlock source)
  | release {source : S} {row : Option (Job E)} {event : FleetEvent E P S}
    (hlock : s.locks source = some (.write row))
    (hevent : event = .commit source ∨ event = .rollback source) :
    Stepped settings s event (s.unlock source)
  | wakeExecutors (process : P) :
    Stepped settings s (.wakeExecutors process) { s with
      executors := fun e =>
        if (s.executors e).process = process ∧ (s.executors e).registered = true then
          { s.executors e with wake := true }
        else s.executors e }
  | start {e : E} (hphase : (s.executors e).phase = .new) :
    Stepped settings s (.start e) (s.setExecutor e
      { s.executors e with
        phase := .looping
        registered := true
        idleSeconds := settings.pollSeconds })
  | stop (e : E) :
    Stepped settings s (.stop e)
      (s.setExecutor e { s.executors e with stopping := true, registered := false })
  | leave {e : E} (hstopping : (s.executors e).stopping = true) :
    Stepped settings s (.loop e) (s.setPhase e .ended)
  | clear {e : E} (hphase : (s.executors e).phase = .looping) :
    Stepped settings s (.loop e)
      (s.setExecutor e { s.executors e with phase := .preparing, wake := false })
  | reconcile {e : E} (missing : List (S × ProcessingStage))
    (hphase : (s.executors e).phase = .preparing) :
    Stepped settings s (.reconcile e missing)
      ((s.recoverMissingJobs missing).setExecutor e { s.executors e with reconciled := true })
  | begin {e : E} (hphase : (s.executors e).phase = .preparing) :
    Stepped settings s (.begin e) (s.setPhase e (.began s.now))
  | nothing {e : E} {now : ℕ} (hphase : (s.executors e).phase = .began now)
    (hcandidate : s.candidate now = none) :
    Stepped settings s (.select e) (s.setPhase e .resting)
  | select {e : E} {now : ℕ} {source : S} (hphase : (s.executors e).phase = .began now)
    (hcandidate : s.candidate now = some source) :
    Stepped settings s (.select e)
      ((s.lock source (.claim e)).setPhase e (.selected source now))
  | claimed {e : E} {now : ℕ} {source : S} {job : Job E}
    (hphase : (s.executors e).phase = .selected source now) :
    Stepped settings s (.claimed e) ((s.endClaim settings e source now true).setExecutor e
      { s.executors e with
        phase := .executing source job.claim
        idleSeconds := settings.pollSeconds })
  | renew {e : E} (source : S) (generation : ℕ) :
    Stepped settings s (.renew e)
      (s.fenced e source generation (.renewed settings.leaseSeconds s.now))
  | report {e : E} (source : S) (claim : Claim) (report : Report) :
    Stepped settings s (.report e report)
      ((s.fenced e source claim.generation (report.assign claim s.now)).setPhase e .looping)
  | fail (e : E) (carriedOut : Bool) :
    Stepped settings s (.fail e carriedOut)
      ((s.abandon settings e carriedOut).setPhase e .resting)
  | resume {e : E} (hphase : (s.executors e).phase = .resting) :
    Stepped settings s (.resume e) (s.setExecutor e
      { s.executors e with
        phase := .looping
        idleSeconds := min 60 ((s.executors e).idleSeconds * 2) })
  | cancel {e : E} (source : S) (generation : ℕ) (carriedOut : Bool)
    (hstopping : (s.executors e).stopping = true) :
    Stepped settings s (.unwind e carriedOut)
      ((s.fenced e source generation (.cancelled s.now)).setPhase e .ended)
  | unwind {e : E} (carriedOut : Bool) (hstopping : (s.executors e).stopping = true) :
    Stepped settings s (.unwind e carriedOut)
      ((s.abandon settings e carriedOut).setPhase e .ended)

theorem stepped {event : FleetEvent E P S} (hstep : step settings s event = some s') :
    Stepped settings s event s' := by
  cases event with
  | tick seconds =>
    cases hstep
    exact .tick seconds
  | enqueue source stage supersedeExisting began =>
    unfold step at hstep
    dsimp only at hstep
    split at hstep
    · cases hstep
    · next hfree =>
      split_ifs at hstep
      cases hstep
      exact .enqueue hfree
  | hold source =>
    unfold step at hstep
    dsimp only at hstep
    split at hstep
    · cases hstep
    · next hfree =>
      cases hstep
      exact .hold hfree
  | commit source =>
    unfold step at hstep
    dsimp only at hstep
    split at hstep
    · next hlock =>
      cases hstep
      exact .release hlock (.inl rfl)
    · next hlock =>
      cases hstep
      exact .commit hlock
    · cases hstep
  | rollback source =>
    unfold step at hstep
    dsimp only at hstep
    split at hstep
    · next hlock =>
      cases hstep
      exact .release hlock (.inr rfl)
    · cases hstep
  | wakeExecutors process =>
    cases hstep
    exact .wakeExecutors process
  | start e =>
    unfold step at hstep
    dsimp only at hstep
    split at hstep
    · next hphase =>
      cases hstep
      exact .start hphase
    · cases hstep
  | stop e =>
    cases hstep
    exact .stop e
  | loop e =>
    unfold step at hstep
    dsimp only at hstep
    split at hstep
    · next hphase =>
      split_ifs at hstep with hstopping
      · cases hstep
        exact .leave hstopping
      · cases hstep
        exact .clear hphase
    · cases hstep
  | reconcile e missing =>
    unfold step at hstep
    dsimp only at hstep
    split at hstep
    · next hphase =>
      split_ifs at hstep
      cases hstep
      exact .reconcile missing hphase
    · cases hstep
  | begin e =>
    unfold step at hstep
    dsimp only at hstep
    split at hstep
    · next hphase =>
      split_ifs at hstep
      cases hstep
      exact .begin hphase
    · cases hstep
  | select e =>
    unfold step at hstep
    dsimp only at hstep
    split at hstep
    · next hphase =>
      split at hstep
      · next hcandidate =>
        cases hstep
        exact .nothing hphase hcandidate
      · next hcandidate =>
        cases hstep
        exact .select hphase hcandidate
    · cases hstep
  | claimed e =>
    unfold step at hstep
    dsimp only at hstep
    split at hstep
    · next hphase =>
      split at hstep
      · cases hstep
      · cases hstep
        exact .claimed hphase
    · cases hstep
  | renew e =>
    unfold step at hstep
    dsimp only at hstep
    split at hstep
    · split at hstep
      · cases hstep
      · cases hstep
        exact .renew ..
    · cases hstep
  | report e report =>
    unfold step at hstep
    dsimp only at hstep
    split at hstep
    · split at hstep
      · cases hstep
      · cases hstep
        exact .report ..
    · cases hstep
  | fail e carriedOut =>
    unfold step at hstep
    dsimp only at hstep
    split at hstep
    all_goals
      first
      | cases hstep
        exact .fail e carriedOut
      | cases hstep
  | resume e =>
    unfold step at hstep
    dsimp only at hstep
    split at hstep
    · next hphase =>
      cases hstep
      exact .resume hphase
    · cases hstep
  | unwind e carriedOut =>
    unfold step at hstep
    dsimp only at hstep
    split at hstep
    · next hstopping hphase =>
      split_ifs at hstep
      · split at hstep
        · cases hstep
        · cases hstep
          exact .cancel _ _ carriedOut hstopping
      · cases hstep
        -- nothing of a claim that is executed is left to abandon
        have hunwind : Stepped settings s (.unwind e carriedOut)
            ((s.abandon settings e carriedOut).setPhase e .ended) :=
          .unwind carriedOut hstopping
        unfold abandon at hunwind
        rwa [hphase] at hunwind
    · next hstopping _ =>
      cases hstep
      exact .unwind carriedOut hstopping
    · cases hstep

/-! ## Locks -/

/-- A row that an executor selected is locked by it. -/
def Held (s : Fleet E P S) : Prop :=
  ∀ e source now, (s.executors e).phase = .selected source now →
    s.locks source = some (.claim e)

omit [DecidableEq E] [DecidableEq P] [LinearOrder S] in
/-- What is selected afterwards was selected before and keeps its lock, or is locked now. -/
theorem Held.of (h : s.Held)
    (hkeep : ∀ e source now, (s'.executors e).phase = .selected source now →
      (s.executors e).phase = .selected source now ∧ s'.locks source = s.locks source ∨
        s'.locks source = some (.claim e)) : s'.Held := by
  intro e source now hphase
  rcases hkeep e source now hphase with ⟨hselected, hlock⟩ | hlock
  · exact hlock.trans (h e source now hselected)
  · exact hlock

omit [DecidableEq P] [LinearOrder S] in
theorem executors_setExecutor {executor : PostgresExecutor P S} :
    (s.setExecutor e executor).executors e' = if e' = e then executor else s.executors e' :=
  Function.update_apply ..

omit [DecidableEq P] [LinearOrder S] in
theorem Held.setExecutor (h : s.Held) {executor : PostgresExecutor P S}
    (hphase : ∀ source now, executor.phase = .selected source now →
      (s.executors e).phase = .selected source now) : (s.setExecutor e executor).Held := by
  refine h.of fun e' source now hselected => .inl ⟨?_, rfl⟩
  rw [executors_setExecutor] at hselected
  split_ifs at hselected with heq
  · exact heq ▸ hphase source now hselected
  · exact hselected

omit [DecidableEq P] [LinearOrder S] in
theorem Held.setPhase (h : s.Held) {phase : Phase S}
    (hphase : ∀ source now, phase ≠ .selected source now) : (s.setPhase e phase).Held :=
  h.setExecutor fun source now hselected => absurd hselected (hphase source now)

omit [DecidableEq E] [DecidableEq P] in
/-- A row that nobody claims gets or loses another lock. -/
theorem Held.update (h : s.Held) {jobs : Dict S (Job E)} {holder : Option (RowLock E)}
    (hfree : ∀ e, s.locks source ≠ some (.claim e)) :
    Held { s with jobs := jobs, locks := Function.update s.locks source holder } := by
  refine h.of fun e source' now hselected => .inl ⟨hselected, Function.update_of_ne ?_ ..⟩
  rintro rfl
  exact hfree e (h e source' now hselected)

omit [DecidableEq E] [DecidableEq P] in
theorem executors_endClaim {carriedOut : Bool} :
    (s.endClaim settings e source now carriedOut).executors = s.executors := by
  unfold endClaim unlock
  split_ifs
  · exact (write_frame ..).2.1
  · rfl

omit [DecidableEq P] in
/-- The executor that selected a row gives its lock back. -/
theorem Held.endClaim (h : s.Held) (hphase : (s.executors e).phase = .selected source now)
    {carriedOut : Bool} {executor : PostgresExecutor P S}
    (hnew : ∀ source now, executor.phase ≠ .selected source now) :
    ((s.endClaim settings e source now carriedOut).setExecutor e executor).Held := by
  have hlocks : (s.endClaim settings e source now carriedOut).locks =
      Function.update s.locks source none := by
    unfold Fleet.endClaim unlock
    split_ifs
    · rw [(write_frame ..).1]
    · rfl
  refine h.of fun e' source' now' hselected => .inl ?_
  unfold Fleet.setExecutor at hselected ⊢
  dsimp only at hselected ⊢
  rw [executors_endClaim, Function.update_apply] at hselected
  rw [hlocks]
  split_ifs at hselected with heq
  · exact absurd hselected (hnew source' now')
  · refine ⟨hselected, Function.update_of_ne ?_ ..⟩
    rintro rfl
    have hlock := (h e' source' now' hselected).symm.trans (h e source' now hphase)
    rw [Option.some.injEq, RowLock.claim.injEq] at hlock
    exact heq hlock

omit [DecidableEq P] in
theorem Held.abandon (h : s.Held) {carriedOut : Bool} {phase : Phase S}
    (hnew : ∀ source now, phase ≠ .selected source now) :
    ((s.abandon settings e carriedOut).setPhase e phase).Held := by
  unfold Fleet.abandon
  split
  · next source began hphase =>
    exact h.endClaim hphase fun source now => hnew source now
  · exact h.setPhase hnew

omit [DecidableEq P] in
theorem Held.fenced (h : s.Held) {generation : ℕ} {assignment : Job E → Job E} :
    (s.fenced e source generation assignment).Held := by
  obtain ⟨hlocks, hexecutors, -⟩ :=
    s.write_frame source (fencedUpdate e generation s.now assignment)
  refine h.of fun e' source' now hselected => .inl ⟨?_, congrFun hlocks source'⟩
  unfold Fleet.fenced at hselected
  rwa [hexecutors] at hselected

theorem held_step {event : FleetEvent E P S} (h : s.Held)
    (hstep : step settings s event = some s') : s'.Held := by
  cases stepped hstep with
  | tick seconds => exact h
  | enqueue hfree => exact h.update fun e => by rw [hfree]; exact nofun
  | hold hfree => exact h.update fun e => by rw [hfree]; exact nofun
  | commit hlock => exact h.update fun e => by rw [hlock]; exact nofun
  | release hlock hevent => exact h.update fun e => by rw [hlock]; exact nofun
  | wakeExecutors process =>
    refine h.of fun e source now hselected => .inl ⟨?_, rfl⟩
    dsimp only at hselected
    split_ifs at hselected <;> exact hselected
  | start hphase => exact h.setExecutor nofun
  | stop e => exact h.setExecutor fun source now hselected => hselected
  | leave hstopping => exact h.setPhase nofun
  | clear hphase => exact h.setExecutor nofun
  | reconcile missing hphase =>
    exact Held.setExecutor (s := s.recoverMissingJobs missing) h
      fun source now hselected => hselected
  | begin hphase => exact h.setPhase nofun
  | nothing hphase hcandidate => exact h.setPhase nofun
  | select hphase hcandidate =>
    have hfree := candidate_free hcandidate
    refine h.of fun e' source' now' hselected => ?_
    unfold setPhase setExecutor lock at hselected ⊢
    dsimp only at hselected ⊢
    rw [Function.update_apply] at hselected ⊢
    split_ifs at hselected with heq
    · cases hselected
      exact .inr (by rw [heq, if_pos rfl])
    · refine .inl ⟨hselected, if_neg ?_⟩
      rintro rfl
      cases hfree.symm.trans (h e' source' now' hselected)
  | claimed hphase => exact h.endClaim hphase nofun
  | renew source generation => exact h.fenced
  | report source claim report => exact h.fenced.setPhase nofun
  | fail e carriedOut => exact h.abandon nofun
  | resume hphase => exact h.setExecutor nofun
  | cancel source generation carriedOut hstopping => exact h.fenced.setPhase nofun
  | unwind carriedOut hstopping => exact h.abandon nofun

/-! ## A job that is due -/

/-- The job is due and free, and the executor is going to look for jobs. -/
structure Waits (s : Fleet E P S) (e : E) (source : S) (job : Job E) : Prop where
  row : s.jobs.get? source = some job
  free : s.locks source = none
  due : job.nextRunAt ≤ s.now
  working : (s.executors e).stopping = false
  awake : (s.executors e).wake = true ∨ (s.executors e).phase.Looks job.nextRunAt

/-- A transaction locks the row of the job, or the executor fails or is stopped. -/
def Disturbs (s : Fleet E P S) (e : E) (source : S) : FleetEvent E P S → Prop
  | .select e' => ∃ now, (s.executors e').phase = .began now ∧ s.candidate now = some source
  | .enqueue source' _ _ _ | .hold source' => source' = source
  | .stop e' | .fail e' _ => e' = e
  | _ => False

omit [DecidableEq P] in
theorem Waits.setExecutor (h : s.Waits e source job) {executor : PostgresExecutor P S}
    (hself : e' = e → executor.stopping = false ∧
      (executor.wake = true ∨ executor.phase.Looks job.nextRunAt)) :
    (s.setExecutor e' executor).Waits e source job := by
  have hworking : ((s.setExecutor e' executor).executors e).stopping = false ∧
      (((s.setExecutor e' executor).executors e).wake = true ∨
        ((s.setExecutor e' executor).executors e).phase.Looks job.nextRunAt) := by
    rw [executors_setExecutor]
    split_ifs with heq
    · exact hself heq.symm
    · exact ⟨h.working, h.awake⟩
  exact ⟨h.row, h.free, h.due, hworking.1, hworking.2⟩

omit [DecidableEq P] in
theorem Waits.setPhase (h : s.Waits e source job) {phase : Phase S}
    (hself : e' = e → phase.Looks job.nextRunAt) : (s.setPhase e' phase).Waits e source job :=
  h.setExecutor fun heq => ⟨heq ▸ h.working, .inr (hself heq)⟩

omit [DecidableEq E] [DecidableEq P] in
/-- A row with a lock is another row. -/
theorem Waits.ne_of_lock (h : s.Waits e source job) {holder : RowLock E}
    (hlock : s.locks source' = some holder) : source ≠ source' := by
  rintro rfl
  cases h.free.symm.trans hlock

omit [DecidableEq E] in
theorem claimable_pending (hpending : job.status = .pending) (hdue : job.nextRunAt ≤ now) :
    job.claimable now = true := by
  unfold Job.claimable
  rw [hpending, decide_eq_true hdue]
  rfl

omit [DecidableEq E] [DecidableEq P] in
/-- Another row is written. -/
theorem Waits.jobs (h : s.Waits e source job) {jobs : Dict S (Job E)}
    (hrow : jobs.get? source = s.jobs.get? source) :
    Waits { s with jobs := jobs } e source job :=
  ⟨hrow.trans h.row, h.free, h.due, h.working, h.awake⟩

omit [DecidableEq E] [DecidableEq P] in
theorem Waits.write (h : s.Waits e source job) {assignment : Job E → Job E}
    (hkept : source' = source → assignment job = job) :
    (s.write source' assignment).Waits e source job := by
  obtain ⟨hlocks, hexecutors, hnow⟩ := s.write_frame source' assignment
  refine ⟨?_, hlocks ▸ h.free, hnow ▸ h.due, hexecutors ▸ h.working, hexecutors ▸ h.awake⟩
  rw [get?_write]
  split_ifs with heq
  · rw [← heq, h.row, Option.map_some, hkept heq.symm]
  · exact h.row

omit [DecidableEq P] in
/-- A job that is not running is not written by an executor. -/
theorem Waits.fenced (h : s.Waits e source job) (hpending : job.status = .pending)
    {generation : ℕ} {assignment : Job E → Job E} :
    (s.fenced e' source' generation assignment).Waits e source job := by
  refine h.write fun _ => ?_
  unfold fencedUpdate Job.fenced
  rw [hpending]
  rfl

omit [DecidableEq E] [DecidableEq P] in
theorem Waits.update (h : s.Waits e source job) {jobs : Dict S (Job E)}
    {locks : S → Option (RowLock E)} (hrow : jobs.get? source = s.jobs.get? source)
    (hlock : locks source = none) :
    Waits { s with jobs := jobs, locks := locks } e source job :=
  ⟨hrow.trans h.row, hlock, h.due, h.working, h.awake⟩

omit [DecidableEq E] [DecidableEq P] in
/-- The claim of another row ends. -/
theorem Waits.endClaim (h : s.Waits e source job) (hne : source' ≠ source) {carriedOut : Bool} :
    (s.endClaim settings e' source' now carriedOut).Waits e source job := by
  have hunlock {s : Fleet E P S} (h : s.Waits e source job) :
      (s.unlock source').Waits e source job :=
    h.update rfl ((Function.update_of_ne hne.symm ..).trans h.free)
  unfold Fleet.endClaim
  split_ifs
  · exact hunlock (h.write fun heq => absurd heq hne)
  · exact hunlock h

omit [DecidableEq E] [DecidableEq P] in
theorem Waits.abandon (h : s.Waits e source job) (hheld : s.Held) {carriedOut : Bool} :
    (s.abandon settings e' carriedOut).Waits e source job := by
  unfold Fleet.abandon
  split
  · next source' began hphase =>
    exact h.endClaim (h.ne_of_lock (hheld e' source' began hphase)).symm
  · exact h

/-- As long as nobody takes the job, the executor is going to look for jobs. -/
theorem waits_step {event : FleetEvent E P S} (h : s.Waits e source job)
    (hpending : job.status = .pending) (hheld : s.Held) (hok : ¬ s.Disturbs e source event)
    (hstep : step settings s event = some s') : s'.Waits e source job := by
  have hworks {e' : E} (hstopping : (s.executors e').stopping = true) : e' ≠ e := by
    rintro rfl
    cases h.working.symm.trans hstopping
  cases stepped hstep with
  | tick seconds => exact ⟨h.row, h.free, h.due.trans (Nat.le_add_right ..), h.working, h.awake⟩
  | enqueue hfree => exact h.update rfl ((Function.update_of_ne (Ne.symm hok) ..).trans h.free)
  | hold hfree => exact h.update rfl ((Function.update_of_ne (Ne.symm hok) ..).trans h.free)
  | commit hlock =>
    have hne := h.ne_of_lock hlock
    exact h.update (Dict.get?_set_ne _ _ hne) ((Function.update_of_ne hne ..).trans h.free)
  | release hlock hevent =>
    exact h.update rfl ((Function.update_of_ne (h.ne_of_lock hlock) ..).trans h.free)
  | wakeExecutors process =>
    refine ⟨h.row, h.free, h.due, ?_, ?_⟩
    · dsimp only
      split_ifs <;> exact h.working
    · dsimp only
      split_ifs
      · exact .inl rfl
      · exact h.awake
  | start hphase => exact h.setExecutor fun heq => ⟨heq ▸ h.working, .inr trivial⟩
  | stop e' => exact h.setExecutor fun heq => absurd heq hok
  | leave hstopping => exact h.setPhase fun heq => absurd heq (hworks hstopping)
  | clear hphase => exact h.setExecutor fun heq => ⟨heq ▸ h.working, .inr trivial⟩
  | reconcile missing hphase =>
    have hrecovered : (s.recoverMissingJobs missing).Waits e source job :=
      h.jobs ((get?_recoverMissingJobs h.row).trans h.row.symm)
    exact hrecovered.setExecutor fun heq => heq ▸ ⟨h.working, h.awake⟩
  | begin hphase => exact h.setPhase fun _ => h.due
  | nothing hphase hcandidate =>
    refine h.setExecutor fun heq => ⟨heq ▸ h.working, ?_⟩
    refine .inl (heq ▸ h.awake.resolve_right fun hlooks => ?_)
    -- a claim that began after the job was due would have found it
    rw [← heq, hphase] at hlooks
    obtain ⟨taken, -, hfound, -⟩ := candidate_le h.row h.free (claimable_pending hpending hlooks)
    rw [hcandidate] at hfound
    cases hfound
  | @select _ _ source' hphase hcandidate =>
    have hne : source ≠ source' := by
      rintro rfl
      exact hok ⟨_, hphase, hcandidate⟩
    refine Waits.setPhase (h.update rfl ?_) fun _ => trivial
    exact (Function.update_of_ne hne ..).trans h.free
  | claimed hphase =>
    refine (h.endClaim (h.ne_of_lock (hheld _ _ _ hphase)).symm).setExecutor fun heq => ?_
    exact ⟨heq ▸ h.working, .inr trivial⟩
  | renew source generation => exact h.fenced hpending
  | report source claim report => exact (h.fenced hpending).setPhase fun _ => trivial
  | fail e' carriedOut => exact (h.abandon hheld).setPhase fun heq => absurd heq hok
  | resume hphase => exact h.setExecutor fun heq => ⟨heq ▸ h.working, .inr trivial⟩
  | cancel source generation carriedOut hstopping =>
    exact (h.fenced hpending).setPhase fun heq => absurd heq (hworks hstopping)
  | unwind carriedOut hstopping =>
    exact (h.abandon hheld).setPhase fun heq => absurd heq (hworks hstopping)

/-- No executor has been started, and no transaction is open. -/
def Initial (s : Fleet E P S) : Prop :=
  (∀ e, (s.executors e).phase = .new) ∧ ∀ source, s.locks source = none

/-- `wake_executors` is not lost: while a job that was due when it was called stays where it is,
an executor of the process that neither fails nor is stopped does not rest, and no claim that
any executor begins passes the job over for one that is later in the order. -/
theorem awake_while_due {init woken : Fleet E P S} (hinit : init.Initial)
    (hrun : RunOf (step settings) anyEvent init s) (hrow : s.jobs.get? source = some job)
    (hpending : job.status = .pending) (hdue : job.nextRunAt ≤ s.now)
    (hfree : s.locks source = none) (hregistered : (s.executors e).registered = true)
    (hworking : (s.executors e).stopping = false)
    (hwoken : step settings s (.wakeExecutors (s.executors e).process) = some woken)
    (hlater : RunOf (step settings) (fun s event => ¬ s.Disturbs e source event) woken s') :
    ¬ (s'.executors e).Asleep ∧ s'.jobs.get? source = some job ∧
      ∀ e' now, (s'.executors e').phase = .began now → job.nextRunAt ≤ now →
        ∃ taken row, s'.candidate now = some taken ∧ s'.jobs.get? taken = some row ∧
          toLex (row.nextRunAt, taken) ≤ toLex (job.nextRunAt, source) := by
  have hheld : s.Held :=
    hrun.invariant (P := Held) (fun s event s' h _ hstep => held_step h hstep)
      fun e source now hselected => by cases (hinit.1 e).symm.trans hselected
  have hwaits : woken.Waits e source job := by
    cases hwoken
    refine ⟨hrow, hfree, hdue, ?_, .inl ?_⟩
    · dsimp only
      split_ifs <;> exact hworking
    · dsimp only
      rw [if_pos ⟨rfl, hregistered⟩]
  obtain ⟨-, h⟩ := hlater.invariant (P := fun s => s.Held ∧ s.Waits e source job)
    (fun s event s' h hok hstep => ⟨held_step h.1 hstep, waits_step h.2 hpending h.1 hok hstep⟩)
    ⟨held_step hheld hwoken, hwaits⟩
  refine ⟨fun ⟨hresting, hwake⟩ => ?_, h.row, fun e' now _ hbegan => ?_⟩
  · rcases h.awake with hawake | hlooks
    · cases hwake.symm.trans hawake
    · rw [hresting] at hlooks
      exact hlooks
  · obtain ⟨taken, row, hcandidate, htaken, -, hle⟩ :=
      candidate_le h.row h.free (claimable_pending hpending hbegan)
    exact ⟨taken, row, hcandidate, htaken, hle⟩

/-- One executor in one process, before it is started. -/
def single : Fleet ℕ ℕ ℕ :=
  ⟨0, .empty, fun _ => none, fun _ => ⟨0, .new, false, false, false, false, 0⟩⟩

/-- A job is committed after the claim of an executor began, which finds nothing. -/
theorem awake_while_due_late :
    ∃ s s' : Fleet ℕ ℕ ℕ,
      replay (step ⟨2, 120⟩) single
          [.start 0, .loop 0, .reconcile 0 [], .begin 0, .tick 1, .enqueue 7 .uploaded false 1,
            .commit 7, .select 0] = some s ∧
        (s.executors 0).Asleep ∧
          replay (step ⟨2, 120⟩) s [.wakeExecutors 0, .resume 0, .loop 0, .begin 0] = some s' ∧
            ¬ (s'.executors 0).Asleep ∧
              ∃ taken row, s'.candidate 1 = some taken ∧ s'.jobs.get? taken = some row ∧
                toLex (row.nextRunAt, taken) ≤ toLex (1, 7) := by
  have hreplay : replay (step ⟨2, 120⟩) single [.start 0, .loop 0, .reconcile 0 [], .begin 0,
      .tick 1, .enqueue 7 .uploaded false 1, .commit 7, .select 0] = some _ := rfl
  refine ⟨_, _, hreplay, ⟨rfl, rfl⟩, rfl, ?_⟩
  have hrun : RunOf (step ⟨2, 120⟩) anyEvent single _ :=
    runOf_replay (fun _ _ _ => trivial) hreplay
  have hquiet : ∀ s : Fleet ℕ ℕ ℕ, ∀ event ∈ [.resume 0, .loop 0, .begin 0],
      ¬ s.Disturbs 0 7 event := by simp [Disturbs]
  obtain ⟨hawake, -, hclaims⟩ := awake_while_due (e := 0) ⟨fun _ => rfl, fun _ => rfl⟩ hrun
    (by rfl : _ = some (Job.inserted .uploaded 1)) rfl le_rfl rfl rfl rfl rfl
    (runOf_replay hquiet rfl)
  exact ⟨hawake, hclaims 0 1 rfl le_rfl⟩

end Fleet

end Maeglagi.Jobs
