import Maeglagi.Jobs.Staffing
import Maeglagi.PlainSystem

/-!
# The fence of a job

A claim is current only while no later claim and no later arming wrote the row. The fenced
updates of a worker change the row under its current claim only, and what they count is bounded
by the attempts that failed since the job was armed.
-/

namespace Maeglagi.Jobs

open Core Sources

variable {Id H : Type} [DecidableEq Id] [DecidableEq H]

/-- The claims of the workers are older than the row, or are the one claim it names. -/
structure Fenced (env : Env Id H) (s : State Id H) : Prop where
  unarmed : s.job = none → ∀ owner, s.workers owner = .idle
  executor : s.job ≠ none → env.settings.processingExecutor = .postgres
  held : ∀ job owner claim, s.job = some job → (s.workers owner).claim? = some claim →
    claim.generation < job.claimGeneration ∨
      (claim.generation = job.claimGeneration ∧ job.status = .running ∧
        job.leaseOwner = some owner ∧ claim.attempts = job.providerAttempts)
  attempting : ∀ owner claim, Runs s owner claim → s.workers owner = .attempting claim

/-- The failures since the job was armed account for what a worker is about to report. -/
def Justified (t : Tally) (claim : Claim) : Report → Prop
  | .settled (.failed error) =>
    if error.terminal = true then t.terminal = true
    else if 3 ≤ claim.attempts then t.final = true
    else claim.attempts + 1 ≤ t.retries
  | .abandoned => 3 ≤ claim.attempts ∧ (t.final = true ∨ t.terminal = true)
  | _ => True

/-- The failures since the job was armed account for its attempts. -/
structure Counted (s : State Id H) : Prop where
  bounded : ∀ job, s.job = some job → job.providerAttempts ≤ 4 ∧
    (job.live = true → job.providerAttempts ≤ 3 ∧ job.providerAttempts ≤ s.tally.retries)
  spent : ∀ job, s.job = some job → job.live = true → s.source.status = .failed →
    s.tally.final = true ∨ s.tally.terminal = true
  justified : ∀ job owner claim report, s.job = some job →
    s.workers owner = .reporting claim report → claim.generation = job.claimGeneration →
    Justified s.tally claim report

section
variable {env : Env Id H} {s s' : State Id H} {job : Job Id}

omit [DecidableEq H] in
/-- A fenced update changes nothing, or the row under the claim that it names. -/
theorem fencedUpdate_cases (owner : Id) (generation now : Nat) (assignment : Job Id → Job Id)
    (job : Job Id) :
    fencedUpdate owner generation now assignment job = job ∨
      (job.status = .running ∧ job.leaseOwner = some owner ∧ job.claimGeneration = generation ∧
        fencedUpdate owner generation now assignment job = assignment job) := by
  unfold fencedUpdate
  split
  · next hfenced =>
    simp only [Job.fenced, Bool.and_eq_true, decide_eq_true_eq] at hfenced
    exact .inr ⟨hfenced.1.1.1, hfenced.1.1.2, hfenced.1.2, rfl⟩
  · exact .inl rfl

/-- A fenced update under an older claim leaves the row alone. -/
theorem fencedUpdate_stale {owner : Id} {generation now : Nat} {assignment : Job Id → Job Id}
    (h : generation < job.claimGeneration) :
    fencedUpdate owner generation now assignment job = job := by
  rcases fencedUpdate_cases owner generation now assignment job with heq | ⟨-, -, heq, -⟩
  · exact heq
  · omega

omit [DecidableEq Id] in
/-- What a report assigns: a failed attempt is counted, and fails the job after the last one. -/
theorem assign_cases (claim : Claim) (now : Nat) (report : Report) (job : Job Id) :
    (report.assign claim now job).claimGeneration = job.claimGeneration ∧
      (((report.assign claim now job).status ≠ .failed ∧
          (report.assign claim now job).providerAttempts = job.providerAttempts) ∨
        ((report.assign claim now job).status = .pending ∧
          (report.assign claim now job).providerAttempts = job.providerAttempts + 1 ∧
          ∃ error, report = .settled (.failed error) ∧ claim.attempts < 3 ∧
            error.terminal = false) ∨
        ((report.assign claim now job).status = .failed ∧
          (report.assign claim now job).providerAttempts = job.providerAttempts + 1 ∧
          (report = .abandoned ∨ ∃ error, report = .settled (.failed error) ∧
            (3 ≤ claim.attempts ∨ error.terminal = true)))) := by
  cases report with
  | abandoned => exact ⟨rfl, .inr (.inr ⟨rfl, rfl, .inl rfl⟩)⟩
  | cancelled => exact ⟨rfl, .inl ⟨(by rintro ⟨⟩), rfl⟩⟩
  | settled outcome =>
    cases outcome with
    | finished => exact ⟨rfl, .inl ⟨(by rintro ⟨⟩), rfl⟩⟩
    | databaseFailure => exact ⟨rfl, .inl ⟨(by rintro ⟨⟩), rfl⟩⟩
    | failed error =>
      by_cases hlast : 3 ≤ claim.attempts ∨ error.terminal = true
      · rw [show Report.assign claim now (.settled (.failed error)) job = _ from if_pos hlast]
        exact ⟨rfl, .inr (.inr ⟨rfl, rfl, .inr ⟨error, rfl, hlast⟩⟩)⟩
      · rw [show Report.assign claim now (.settled (.failed error)) job = _ from if_neg hlast]
        rw [not_or] at hlast
        exact ⟨rfl, .inr (.inl ⟨rfl, rfl, error, rfl, by omega, by simpa using hlast.2⟩)⟩

omit [DecidableEq H] in
/-- The worker that a step moves, or another one whose claim stays. -/
theorem claim?_update {workers : Id → Worker} {owner other : Id} {worker : Worker} {claim : Claim}
    (h : (Function.update workers owner worker other).claim? = some claim) :
    (other = owner ∧ worker.claim? = some claim) ∨
      (other ≠ owner ∧ (workers other).claim? = some claim) := by
  by_cases hother : other = owner
  · subst hother
    rw [Function.update_self] at h
    exact .inl ⟨rfl, h⟩
  · rw [Function.update_of_ne hother] at h
    exact .inr ⟨hother, h⟩

theorem claim?_eq_none {worker : Worker} (h : worker.claim? = none) : worker = .idle := by
  cases worker <;> first | rfl | cases h

omit [DecidableEq Id] [DecidableEq H] in
/-- A write of the row under its generation keeps the fence, if no other worker than those who
drop their claim could tell the difference. -/
theorem Fenced.written {f : Job Id → Job Id} (h : Fenced env s) (hjob : s'.job = s.job.map f)
    (hclaims : ∀ owner claim, (s'.workers owner).claim? = some claim →
      (s.workers owner).claim? = some claim)
    (hruns : ∀ owner claim, Runs s' owner claim → s'.workers owner = .attempting claim)
    (hf : ∀ job, (f job).claimGeneration = job.claimGeneration ∧
      (((f job).status = job.status ∧ (f job).leaseOwner = job.leaseOwner ∧
          (f job).providerAttempts = job.providerAttempts) ∨
        ∀ owner claim, (s'.workers owner).claim? = some claim → job.leaseOwner ≠ some owner)) :
    Fenced env s' := by
  refine ⟨?_, ?_, ?_, hruns⟩
  · intro hnone owner
    rw [hjob, Option.map_eq_none_iff] at hnone
    cases howner : (s'.workers owner).claim? with
    | none => exact claim?_eq_none howner
    | some claim =>
      have hsome := hclaims _ _ howner
      rw [h.unarmed hnone owner] at hsome
      cases hsome
  · intro hne
    apply h.executor
    intro hnone
    rw [hjob, hnone] at hne
    exact hne rfl
  · intro _ owner claim hsome hclaim
    rw [hjob] at hsome
    obtain ⟨job, hbefore, rfl⟩ := Option.map_eq_some_iff.mp hsome
    obtain ⟨hgeneration, hrest⟩ := hf job
    rw [hgeneration]
    rcases h.held job owner claim hbefore (hclaims _ _ hclaim) with
      hold | ⟨heq, hstatus, howner, hattempts⟩
    · exact .inl hold
    · rcases hrest with ⟨hs, ho, ha⟩ | hnone
      · rw [hs, ho, ha]
        exact .inr ⟨heq, hstatus, howner, hattempts⟩
      · exact absurd howner (hnone owner claim hclaim)

omit [DecidableEq H] in
/-- A worker that keeps its claim or drops it keeps the fence. -/
theorem Fenced.moved {owner : Id} {worker : Worker} (h : Fenced env s) (hjob : s'.job = s.job)
    (hworkers : s'.workers = Function.update s.workers owner worker)
    (hclaim : ∀ claim, worker.claim? = some claim → (s.workers owner).claim? = some claim)
    (hruns : ∀ other claim, Runs s' other claim → s'.workers other = .attempting claim) :
    Fenced env s' := by
  refine h.written (f := id) (hjob.trans Option.map_id_apply.symm) ?_ hruns
    fun _ => ⟨rfl, .inl ⟨rfl, rfl, rfl⟩⟩
  intro other claim hsome
  rw [hworkers] at hsome
  rcases claim?_update hsome with ⟨rfl, hworker⟩ | ⟨-, hother⟩
  · exact hclaim _ hworker
  · exact hother

omit [DecidableEq H] in
/-- Another worker than the one that a step moves runs the attempt as before. -/
theorem Fenced.attempting_other {owner other : Id} {worker : Worker} {claim : Claim}
    (h : Fenced env s) (hruns : Runs s other claim)
    (hworker : s.workers owner ≠ .attempting claim ∨ other ≠ owner) :
    Function.update s.workers owner worker other = .attempting claim := by
  have hattempting := h.attempting other claim hruns
  have hother : other ≠ owner := by
    rintro rfl
    rcases hworker with hne | hne
    · exact hne hattempting
    · exact hne rfl
  rwa [Function.update_of_ne hother]

/-- Every step keeps the fence. -/
theorem Fenced.step {media : Prop} {e : Event Id H} (h : Fenced env s) (hs : Coherent media s)
    (hstep : Sources.step env s e = some s') : Fenced env s' := by
  cases staffing_of_step hs hstep with
  | kept hjob hworkers _ hruns =>
    refine ⟨hjob ▸ hworkers ▸ h.unarmed, hjob ▸ h.executor, hjob ▸ hworkers ▸ h.held, ?_⟩
    intro owner claim hrun
    rw [hworkers]
    exact h.attempting owner claim (hruns owner claim hrun)
  | armed job' hjob hworkers _ _ _ hgeneration hexecutor hruns =>
    refine ⟨fun hnone => ?_, fun _ => hexecutor, ?_, ?_⟩
    · rw [hjob] at hnone
      cases hnone
    · intro job owner claim hsome hclaim
      rw [hjob, Option.some.injEq] at hsome
      subst hsome
      rw [hworkers] at hclaim
      cases hbefore : s.job with
      | none =>
        rw [h.unarmed hbefore owner] at hclaim
        cases hclaim
      | some job =>
        have hnext := hgeneration job hbefore
        rcases h.held job owner claim hbefore hclaim with hold | ⟨heq, -⟩
        · exact .inl (by omega)
        · exact .inl (by omega)
    · intro owner claim hrun
      rw [hworkers]
      exact h.attempting owner claim (hruns owner claim hrun)
  | claimed owner leaseSeconds now job hidle hbefore hlive hs' =>
    subst hs'
    refine ⟨fun hnone => (by cases hnone), fun _ => h.executor (by rw [hbefore]; rintro ⟨⟩), ?_, ?_⟩
    · rintro _ other claim ⟨⟩ hclaim
      rcases claim?_update hclaim with ⟨rfl, heq⟩ | ⟨hother, hclaim⟩
      · cases heq
        exact .inr ⟨rfl, rfl, rfl, rfl⟩
      · left
        change claim.generation < job.claimGeneration + 1
        rcases h.held job other claim hbefore hclaim with hold | ⟨heq, -⟩ <;> omega
    · intro other claim hrun
      exact h.attempting_other hrun (.inl (by rw [hidle]; rintro ⟨⟩))
  | checked owner claim worker hworker hnext hs' =>
    subst hs'
    refine h.moved rfl rfl ?_ fun other c hrun =>
      h.attempting_other hrun (.inl (by rw [hworker]; rintro ⟨⟩))
    intro c hc
    rw [hworker]
    rcases hnext with rfl | ⟨rfl, -⟩ <;> exact hc
  | acquired owner claim hworker _ hs' =>
    subst hs'
    refine h.moved rfl rfl (fun c hc => by rw [hworker]; exact hc) ?_
    intro other c hrun
    cases hrun
    exact Function.update_self ..
  | returned owner claim outcome hrun hjob hactive hworkers =>
    refine h.moved hjob hworkers ?_ ?_
    · intro c hc
      rw [h.attempting owner claim hrun]
      exact hc
    · intro other c hrun'
      rw [Runs, runner, hactive] at hrun'
      cases hrun'
  | message final outcome _ hjob hworkers hactive =>
    refine ⟨hjob ▸ hworkers ▸ h.unarmed, hjob ▸ h.executor, hjob ▸ hworkers ▸ h.held, ?_⟩
    intro other c hrun'
    rw [Runs, runner, hactive] at hrun'
    cases hrun'
  | renewed owner claim seconds now hclaim hs' =>
    subst hs'
    refine h.written rfl (fun _ _ h => h) h.attempting fun job => ?_
    rcases fencedUpdate_cases owner claim.generation now (Job.renewed seconds now) job with
      heq | ⟨-, -, -, heq⟩ <;> rw [heq] <;> exact ⟨rfl, .inl ⟨rfl, rfl, rfl⟩⟩
  | reported owner claim report now hworker hs' =>
    subst hs'
    refine h.written rfl ?_ ?_ fun job => ?_
    · intro other c hsome
      rcases claim?_update hsome with ⟨-, hidle⟩ | ⟨-, hother⟩
      · cases hidle
      · exact hother
    · intro other c hrun
      exact h.attempting_other hrun (.inl (by rw [hworker]; rintro ⟨⟩))
    · rcases fencedUpdate_cases owner claim.generation now (report.assign claim now) job with
        heq | ⟨-, howner, -, heq⟩ <;> rw [heq]
      · exact ⟨rfl, .inl ⟨rfl, rfl, rfl⟩⟩
      · refine ⟨(assign_cases claim now report job).1, .inr ?_⟩
        -- the worker that the row names has just dropped its claim
        intro other c hsome hother
        rw [howner, Option.some.injEq] at hother
        subst hother
        rcases claim?_update hsome with ⟨-, hidle⟩ | ⟨hne, -⟩
        · cases hidle
        · exact hne rfl
  | cancelled owner claim hclaim hs' =>
    subst hs'
    refine h.moved rfl rfl (fun c hc => hclaim.trans hc) ?_
    intro other c hrun
    obtain ⟨hother, hrun⟩ := runs_dropped hrun
    exact h.attempting_other hrun (.inr hother)
  | crashed owner hs' =>
    subst hs'
    refine h.moved rfl rfl (fun c hc => by cases hc) ?_
    intro other c hrun
    obtain ⟨hother, hrun⟩ := runs_dropped hrun
    exact h.attempting_other hrun (.inr hother)

/-- The second tally counts every failure that the first one does. -/
def Grown (t t' : Tally) : Prop :=
  t.retries ≤ t'.retries ∧ (t.final = true → t'.final = true) ∧
    (t.terminal = true → t'.terminal = true)

theorem grown_counted (final : Bool) (t : Tally) (outcome : Outcome) :
    Grown t (counted final t outcome) := by
  cases outcome with
  | failed error =>
    simp only [counted, Tally.count]
    split_ifs
    · exact ⟨le_rfl, id, fun _ => rfl⟩
    · exact ⟨le_rfl, fun _ => rfl, id⟩
    · exact ⟨Nat.le_succ _, id, id⟩
  | finished => exact ⟨le_rfl, id, id⟩
  | databaseFailure => exact ⟨le_rfl, id, id⟩

theorem Justified.mono {t t' : Tally} {claim : Claim} {report : Report}
    (h : Justified t claim report) (hgrown : Grown t t') : Justified t' claim report := by
  obtain ⟨hretries, hfinal, hterminal⟩ := hgrown
  cases report with
  | settled outcome =>
    cases outcome with
    | failed error =>
      simp only [Justified] at h ⊢
      split_ifs at h ⊢
      · exact hterminal h
      · exact hfinal h
      · omega
    | finished => trivial
    | databaseFailure => trivial
  | abandoned => exact ⟨h.1, h.2.imp hfinal hterminal⟩
  | cancelled => trivial

omit [DecidableEq Id] [DecidableEq H] in
/-- A tally that has grown accounts for as much, if the new failure of a source is in it. -/
theorem Counted.grown (h : Counted s) (hjob : s'.job = s.job) (hgrown : Grown s.tally s'.tally)
    (hspent : s'.source.status = .failed → s.source.status = .failed ∨
      s'.tally.final = true ∨ s'.tally.terminal = true)
    (hreporting : ∀ job owner claim report, s.job = some job →
      s'.workers owner = .reporting claim report → claim.generation = job.claimGeneration →
      s.workers owner = .reporting claim report ∨ Justified s'.tally claim report) :
    Counted s' := by
  refine ⟨?_, ?_, ?_⟩
  · intro job hsome
    obtain ⟨hbound, hlive⟩ := h.bounded job (hjob ▸ hsome)
    exact ⟨hbound, fun hl => ⟨(hlive hl).1, (hlive hl).2.trans hgrown.1⟩⟩
  · intro job hsome hlive hfailed
    rcases hspent hfailed with hbefore | hnew
    · exact (h.spent job (hjob ▸ hsome) hlive hbefore).imp hgrown.2.1 hgrown.2.2
    · exact hnew
  · intro job owner claim report hsome hworker hgeneration
    rw [hjob] at hsome
    rcases hreporting job owner claim report hsome hworker hgeneration with hbefore | hnew
    · exact (h.justified job owner claim report hsome hbefore hgeneration).mono hgrown
    · exact hnew

/-- The failure of an attempt is in the tally when its source has failed. -/
theorem counted_spent {final : Bool} {t : Tally} {outcome : Outcome}
    (h : ∃ error, outcome = .failed error ∧ (final = true ∨ error.terminal = true)) :
    (counted final t outcome).final = true ∨ (counted final t outcome).terminal = true := by
  obtain ⟨error, rfl, hlast⟩ := h
  simp only [counted, Tally.count]
  split_ifs with hterminal hfinal
  · exact .inr rfl
  · exact .inl rfl
  · rcases hlast with hlast | hlast
    · exact absurd hlast hfinal
    · exact absurd hlast hterminal

/-- The outcome of an attempt is justified by the tally that counts it. -/
theorem justified_counted {t : Tally} {claim : Claim} {outcome : Outcome}
    (h : claim.attempts ≤ t.retries) :
    Justified (counted (decide (3 ≤ claim.attempts)) t outcome) claim (.settled outcome) := by
  cases outcome with
  | failed error =>
    simp only [Justified, counted, Tally.count, decide_eq_true_eq]
    split_ifs <;> first | rfl | exact Nat.succ_le_succ h
  | finished => trivial
  | databaseFailure => trivial

omit [DecidableEq H] in
/-- What a worker reports after a step that moved a worker. -/
theorem reporting_update {workers : Id → Worker} {owner other : Id} {worker : Worker}
    {claim : Claim} {report : Report}
    (h : Function.update workers owner worker other = .reporting claim report) :
    (other = owner ∧ worker = .reporting claim report) ∨
      workers other = .reporting claim report := by
  by_cases hother : other = owner
  · subst hother
    rw [Function.update_self] at h
    exact .inl ⟨rfl, h⟩
  · rw [Function.update_of_ne hother] at h
    exact .inr h

omit [DecidableEq H] in
/-- A worker that has nothing to report that would count leaves the accounts alone. -/
theorem Counted.moved {owner : Id} {worker : Worker} (h : Counted s) (hjob : s'.job = s.job)
    (htally : s'.tally = s.tally) (hsource : s'.source = s.source)
    (hworkers : s'.workers = Function.update s.workers owner worker)
    (hworker : ∀ job claim report, s.job = some job → worker = .reporting claim report →
      claim.generation = job.claimGeneration → Justified s.tally claim report) : Counted s' := by
  refine h.grown hjob (htally ▸ ⟨le_rfl, id, id⟩) (fun hf => .inl (hsource ▸ hf)) ?_
  intro job other claim report hsome hreporting hgeneration
  rw [hworkers] at hreporting
  rcases reporting_update hreporting with ⟨-, heq⟩ | hbefore
  · rw [htally]
    exact .inr (hworker job claim report hsome heq hgeneration)
  · exact .inl hbefore

omit [DecidableEq Id] [DecidableEq H] in
/-- A write of the row keeps the accounts, if the attempts it counts are in the tally. -/
theorem Counted.written {f : Job Id → Job Id} (h : Counted s) (hjob : s'.job = s.job.map f)
    (htally : s'.tally = s.tally) (hsource : s'.source = s.source)
    (hreporting : ∀ owner claim report, s'.workers owner = .reporting claim report →
      s.workers owner = .reporting claim report)
    (hf : ∀ job, s.job = some job → (f job).claimGeneration = job.claimGeneration ∧
      (f job).providerAttempts ≤ 4 ∧ ((f job).live = true → job.live = true ∧
        (f job).providerAttempts ≤ 3 ∧ (f job).providerAttempts ≤ s.tally.retries)) :
    Counted s' := by
  refine ⟨?_, ?_, ?_⟩ <;> rw [hjob, htally]
  · intro _ hsome
    obtain ⟨job, hbefore, rfl⟩ := Option.map_eq_some_iff.mp hsome
    obtain ⟨-, hbound, hlive⟩ := hf job hbefore
    exact ⟨hbound, fun hl => (hlive hl).2⟩
  · intro _ hsome hl hfailed
    obtain ⟨job, hbefore, rfl⟩ := Option.map_eq_some_iff.mp hsome
    exact h.spent job hbefore ((hf job hbefore).2.2 hl).1 (hsource ▸ hfailed)
  · intro _ owner claim report hsome hworker heq
    obtain ⟨job, hbefore, rfl⟩ := Option.map_eq_some_iff.mp hsome
    exact h.justified job owner claim report hbefore (hreporting _ _ _ hworker)
      (heq.trans (hf job hbefore).1)

/-- Every step keeps the accounts. -/
theorem Counted.step {media : Prop} {e : Event Id H} (h : Counted s) (hfenced : Fenced env s)
    (hs : Coherent media s) (hstep : Sources.step env s e = some s') : Counted s' := by
  cases staffing_of_step hs hstep with
  | kept hjob hworkers htally _ hfailed =>
    refine ⟨?_, ?_, ?_⟩
    · rw [hjob, htally]
      exact h.bounded
    · intro job hsome hlive hf
      rw [hjob] at hsome
      rw [htally]
      rcases hfailed hf with hbefore | hcelery
      · exact h.spent job hsome hlive hbefore
      · have hpostgres := hfenced.executor (by rw [hsome]; rintro ⟨⟩)
        exact absurd (hpostgres.symm.trans hcelery) (by decide)
    · rw [hjob, hworkers, htally]
      exact h.justified
  | armed job' hjob hworkers _ hpending hattempts hgeneration _ _ hunfailed =>
    refine ⟨?_, fun _ _ _ hf => absurd hf hunfailed, ?_⟩
    · intro job hsome
      rw [hjob, Option.some.injEq] at hsome
      subst hsome
      omega
    · intro job owner claim report hsome hworker heq
      rw [hjob, Option.some.injEq] at hsome
      subst hsome
      rw [hworkers] at hworker
      cases hbefore : s.job with
      | none =>
        rw [hfenced.unarmed hbefore owner] at hworker
        cases hworker
      | some job =>
        have hnext := hgeneration job hbefore
        rcases hfenced.held job owner claim hbefore (by rw [hworker]; rfl) with hold | ⟨hold, -⟩ <;>
          omega
  | claimed owner leaseSeconds now job hidle hbefore hlive hs' =>
    subst hs'
    refine ⟨?_, ?_, ?_⟩
    · rintro _ ⟨⟩
      obtain ⟨hbound, hattempts⟩ := h.bounded job hbefore
      exact ⟨hbound, fun _ => hattempts hlive⟩
    · rintro _ - - hf
      exact h.spent job hbefore hlive hf
    · rintro _ other claim report ⟨⟩ hworker heq
      rcases reporting_update hworker with ⟨-, hclaimed⟩ | hother
      · cases hclaimed
      · have hnext : claim.generation = job.claimGeneration + 1 := heq
        rcases hfenced.held job other claim hbefore (by rw [hother]; rfl) with hold | ⟨hold, -⟩ <;>
          omega
  | checked owner claim worker hworker hnext hs' =>
    subst hs'
    refine h.moved rfl rfl rfl rfl ?_
    intro job c report hsome hreport heq
    rcases hnext with rfl | ⟨rfl, hlast, hfailed⟩
    · cases hreport
    · cases hreport
      rcases hfenced.held job owner claim hsome (by rw [hworker]; rfl) with hold | ⟨-, hrunning, -⟩
      · omega
      · exact ⟨hlast, h.spent job hsome (by simp [Job.live, hrunning]) hfailed⟩
  | acquired owner claim hworker _ hs' =>
    subst hs'
    refine h.moved rfl rfl rfl rfl ?_
    rintro _ _ _ - ⟨⟩
  | returned owner claim outcome hrun hjob _ hworkers htally hfailed =>
    refine h.grown hjob (htally ▸ grown_counted ..) ?_ ?_
    · intro hf
      rw [htally]
      refine (hfailed hf).imp_right ?_
      rintro ⟨error, houtcome, hlast⟩
      exact counted_spent ⟨error, houtcome, hlast.imp_left decide_eq_true⟩
    · intro job other c report hsome hreporting heq
      rw [hworkers] at hreporting
      rcases reporting_update hreporting with ⟨-, hreport⟩ | hbefore
      · cases hreport
        right
        rw [htally]
        apply justified_counted
        -- the current claim has seen as many attempts as the row counts
        have hattempting := hfenced.attempting owner claim hrun
        rcases hfenced.held job owner claim hsome (by rw [hattempting]; rfl) with
          hold | ⟨-, hrunning, -, hattempts⟩
        · omega
        · rw [hattempts]
          exact ((h.bounded job hsome).2 (by simp [Job.live, hrunning])).2
      · exact .inl hbefore
  | message final outcome _ hjob hworkers _ htally hfailed =>
    refine h.grown hjob (htally ▸ grown_counted ..) ?_ ?_
    · intro hf
      rw [htally]
      exact (hfailed hf).imp_right counted_spent
    · intro job other c report _ hreporting _
      rw [hworkers] at hreporting
      exact .inl hreporting
  | renewed owner claim seconds now hclaim hs' =>
    subst hs'
    refine h.written rfl rfl rfl (fun _ _ _ h => h) fun job hsome => ?_
    obtain ⟨hbound, hlive⟩ := h.bounded job hsome
    rcases fencedUpdate_cases owner claim.generation now (Job.renewed seconds now) job with
      heq | ⟨-, -, -, heq⟩ <;> rw [heq] <;> exact ⟨rfl, hbound, fun hl => ⟨hl, hlive hl⟩⟩
  | reported owner claim report now hworker hs' =>
    subst hs'
    refine h.written rfl rfl rfl ?_ fun job hsome => ?_
    · intro other c r hreporting
      rcases reporting_update hreporting with ⟨-, hidle⟩ | hbefore
      · cases hidle
      · exact hbefore
    · obtain ⟨hbound, hlive⟩ := h.bounded job hsome
      rcases fencedUpdate_cases owner claim.generation now (report.assign claim now) job with
        heq | ⟨hrunning, howner, hcurrent, heq⟩ <;> rw [heq]
      · exact ⟨rfl, hbound, fun hl => ⟨hl, hlive hl⟩⟩
      · have hl : job.live = true := by simp [Job.live, hrunning]
        obtain ⟨hthree, hretries⟩ := hlive hl
        have hattempts : claim.attempts = job.providerAttempts := by
          rcases hfenced.held job owner claim hsome (by rw [hworker]; rfl) with hold | ⟨-, -, -, ha⟩
          · omega
          · exact ha
        obtain ⟨hgeneration, ⟨-, hsame⟩ | ⟨-, hmore, error, rfl, hfew, hterminal⟩ |
          ⟨hfailed, hmore, -⟩⟩ := assign_cases claim now report job
        · exact ⟨hgeneration, by omega, fun _ => ⟨hl, by omega, by omega⟩⟩
        · have hjustified := h.justified job owner claim _ hsome hworker hcurrent.symm
          simp only [Justified, hterminal] at hjustified
          rw [if_neg (by decide), if_neg (by omega)] at hjustified
          exact ⟨hgeneration, by omega, fun _ => ⟨hl, by omega, by omega⟩⟩
        · refine ⟨hgeneration, by omega, fun hdead => ?_⟩
          simp [Job.live, hfailed] at hdead
  | cancelled owner claim hclaim hs' =>
    subst hs'
    refine h.moved rfl rfl rfl rfl ?_
    rintro _ _ _ - ⟨⟩ -
    trivial
  | crashed owner hs' =>
    subst hs'
    refine h.moved rfl rfl rfl rfl ?_
    rintro _ _ _ - ⟨⟩

omit [DecidableEq Id] in
theorem enqueued_of_persisted {executor : Executor} {status : SourceStatus} {supersede : Bool}
    (h : Persisted executor status (.enqueue supersede)) :
    executor = .postgres ∧ status = .queued := by
  cases h
  exact ⟨rfl, rfl⟩

omit [DecidableEq H] in
/-- A creation that arms a job queues the source for the PostgreSQL executor. -/
theorem enqueued_of_created {ids : SourceIds Id} {source : Source Id H} {supersede : Bool}
    {creation : Creation Id} (h : Created env ids source (.enqueue supersede) creation) :
    env.settings.processingExecutor = .postgres ∧ source.status = .queued := by
  cases h with
  | document hpersisted hrow => rw [hrow]; exact enqueued_of_persisted hpersisted
  | recording _ _ hpersisted hrow => rw [hrow]; exact enqueued_of_persisted hpersisted

omit [DecidableEq H] in
theorem fenced_created {ids : SourceIds Id} {creation : Creation Id} {source : Source Id H}
    {scheduling : Scheduling} {now : Nat} (h : create env ids creation = .ok (source, scheduling)) :
    Fenced env (State.created source scheduling now) ∧
      Counted (State.created source scheduling now) := by
  cases scheduling with
  | none =>
    refine ⟨⟨fun _ _ => rfl, fun hne => absurd rfl hne, ?_, ?_⟩, ⟨?_, ?_, ?_⟩⟩
    · rintro _ _ _ ⟨⟩
    · rintro _ _ ⟨⟩
    · rintro _ ⟨⟩
    · rintro _ ⟨⟩
    · rintro _ _ _ _ ⟨⟩
  | enqueue supersede =>
    obtain ⟨hexecutor, hqueued⟩ := enqueued_of_created (created_of_create h)
    have hcreated : State.created source (.enqueue supersede) now =
        ⟨source, some (.inserted source.processingStage now), fun _ => .idle, none, [], .zero⟩ := by
      rfl
    rw [hcreated]
    refine ⟨⟨fun _ _ => rfl, fun _ => hexecutor, ?_, ?_⟩, ⟨?_, ?_, ?_⟩⟩
    · rintro _ _ _ - ⟨⟩
    · rintro _ _ ⟨⟩
    · rintro _ ⟨⟩
      exact ⟨Nat.zero_le 4, fun _ => ⟨Nat.zero_le 3, le_rfl⟩⟩
    · rintro _ - - hfailed
      exact absurd (hqueued.symm.trans hfailed) (by decide)
    · rintro _ _ _ _ - ⟨⟩

/-- In every reachable state the job is fenced and its attempts are accounted for. -/
theorem fenced_of_reachable (h : Reachable env s) :
    ∃ media, Coherent media s ∧ Fenced env s ∧ Counted s := by
  obtain ⟨creation, ids, source, scheduling, now, hcreate, hrun⟩ := reachable_iff.mp h
  refine ⟨creation.IsMedia, ?_⟩
  refine RunOf.invariant (P := fun s => Coherent creation.IsMedia s ∧ Fenced env s ∧ Counted s) ?_
    hrun ⟨coherent_created hcreate, fenced_created hcreate⟩
  rintro mid e next ⟨hcoherent, hfenced, hcounted⟩ - hstep
  exact ⟨hcoherent.step hstep, hfenced.step hcoherent hstep,
    hcounted.step hfenced hcoherent hstep⟩

/-- A job row stays, and its generation never decreases; it becomes failed only when its
attempts are used up or an error was terminal. -/
theorem Fenced.job_step {media : Prop} {e : Event Id H} (h : Fenced env s) (hcounted : Counted s)
    (hs : Coherent media s) (hjob : s.job = some job) (hstep : Sources.step env s e = some s') :
    ∃ job', s'.job = some job' ∧ job.claimGeneration ≤ job'.claimGeneration ∧
      (job.status ≠ .failed → job'.status = .failed →
        s.tally.terminal = true ∨ (s.tally.final = true ∧ 3 ≤ s.tally.retries)) := by
  have hsame : s'.job = s.job → ∃ job', s'.job = some job' ∧
      job.claimGeneration ≤ job'.claimGeneration ∧ (job.status ≠ .failed → job'.status = .failed →
        s.tally.terminal = true ∨ (s.tally.final = true ∧ 3 ≤ s.tally.retries)) :=
    fun heq => ⟨job, heq.trans hjob, le_rfl, fun hne hf => absurd hf hne⟩
  cases staffing_of_step hs hstep with
  | kept heq => exact hsame heq
  | armed job' heq _ _ hpending _ hgeneration =>
    have hnext := hgeneration job hjob
    refine ⟨job', heq, by omega, fun _ hf => ?_⟩
    exact absurd (hpending.symm.trans hf) (by decide)
  | claimed owner leaseSeconds now job₀ _ hbefore _ hs' =>
    rw [hjob, Option.some.injEq] at hbefore
    subst hbefore hs'
    exact ⟨_, rfl, Nat.le_succ _, fun _ hf => by cases hf⟩
  | checked owner claim worker _ _ hs' => exact hsame (by rw [hs']; rfl)
  | acquired owner claim _ _ hs' => exact hsame (by rw [hs']; rfl)
  | returned owner claim outcome _ heq => exact hsame heq
  | message final outcome _ heq => exact hsame heq
  | renewed owner claim seconds now _ hs' =>
    subst hs'
    refine ⟨_, by rw [hjob]; rfl, ?_⟩
    rcases fencedUpdate_cases owner claim.generation now (Job.renewed seconds now) job with
      heq | ⟨-, -, -, heq⟩ <;> rw [heq] <;> exact ⟨le_rfl, fun hne hf => absurd hf hne⟩
  | reported owner claim report now hworker hs' =>
    subst hs'
    refine ⟨_, by rw [moved_job, hjob]; rfl, ?_⟩
    rcases fencedUpdate_cases owner claim.generation now (report.assign claim now) job with
      heq | ⟨hrunning, -, hcurrent, heq⟩ <;> rw [heq]
    · exact ⟨le_rfl, fun hne hf => absurd hf hne⟩
    · obtain ⟨hgeneration, hassigned⟩ := assign_cases claim now report job
      refine ⟨hgeneration.ge, fun _ hf => ?_⟩
      have hjustified := hcounted.justified job owner claim report hjob hworker hcurrent.symm
      have hretries := ((hcounted.bounded job hjob).2 (by simp [Job.live, hrunning])).2
      have hattempts : claim.attempts = job.providerAttempts := by
        rcases h.held job owner claim hjob (by rw [hworker]; rfl) with hold | ⟨-, -, -, ha⟩
        · omega
        · exact ha
      rcases hassigned with ⟨hne, -⟩ | ⟨hpending, -⟩ | ⟨-, -, rfl | ⟨error, rfl, hlast⟩⟩
      · exact absurd hf hne
      · exact absurd (hpending.symm.trans hf) (by decide)
      · obtain ⟨hthree, hfinal | hterminal⟩ := hjustified
        · exact .inr ⟨hfinal, by omega⟩
        · exact .inl hterminal
      · simp only [Justified] at hjustified
        by_cases hterminal : error.terminal = true
        · rw [if_pos hterminal] at hjustified
          exact .inl hjustified
        · have hthree := hlast.resolve_right hterminal
          rw [if_neg hterminal, if_pos hthree] at hjustified
          exact .inr ⟨hjustified, by omega⟩
  | cancelled owner claim _ hs' => exact hsame (by rw [hs']; rfl)
  | crashed owner hs' => exact hsame (by rw [hs']; rfl)

/-- The step claims the job or arms it anew. -/
inductive Arms (env : Env Id H) (s : State Id H) : Event Id H → Prop
  | claim (owner : Id) (leaseSeconds now : Nat) : Arms env s (.claim owner leaseSeconds now)
  | edit {edit : Edit Id} {now : Nat} {source : Source Id H} {supersede : Bool}
      (hedit : applyEdit env s.job s.source edit = .ok (some (source, .enqueue supersede)))
      (harmed : ¬(s.job.any Job.live = true ∧ supersede = false)) : Arms env s (.edit edit now)

/-- A claim and a new arming raise the generation. -/
theorem Arms.generation {e : Event Id H} (h : Arms env s e) (hjob : s.job = some job)
    (hstep : step env s e = some s') :
    ∃ job', s'.job = some job' ∧ job.claimGeneration < job'.claimGeneration := by
  cases h with
  | claim owner leaseSeconds now =>
    have hscheduler : schedulerStep env s (.claim owner leaseSeconds now) = some s' := by
      simpa [step, attemptStep] using hstep
    simp only [schedulerStep, hjob] at hscheduler
    split at hscheduler
    · next hsome =>
      cases hsome
      split_ifs at hscheduler
      cases hscheduler
      exact ⟨_, rfl, Nat.lt_succ_self _⟩
    · cases hscheduler
  | edit hedit harmed =>
    simp only [step, hedit, Option.some.injEq] at hstep
    subst hstep
    rw [State.scheduled, if_neg harmed]
    obtain ⟨-, -, hgeneration⟩ := enqueueSource_armed _ _ harmed
    exact ⟨_, rfl, by rw [hgeneration job hjob]; exact Nat.lt_succ_self _⟩

/-- Claims that are older than the row stay older. -/
theorem stale_of_run {media : Prop} {generation : Nat} (hfenced : Fenced env s)
    (hcounted : Counted s) (hs : Coherent media s) (hrun : RunOf (step env) anyEvent s s')
    (hjob : s.job = some job) (hold : generation < job.claimGeneration) :
    ∃ job', s'.job = some job' ∧ generation < job'.claimGeneration := by
  have hall := RunOf.invariant (P := fun s => (Coherent media s ∧ Fenced env s ∧ Counted s) ∧
    ∃ job, s.job = some job ∧ generation < job.claimGeneration) ?_ hrun
      ⟨⟨hs, hfenced, hcounted⟩, job, hjob, hold⟩
  · exact hall.2
  · rintro mid e next ⟨⟨hcoherent, hfenced, hcounted⟩, job, hjob, hold⟩ - hstep
    refine ⟨⟨hcoherent.step hstep, hfenced.step hcoherent hstep,
      hcounted.step hfenced hcoherent hstep⟩, ?_⟩
    obtain ⟨job', hnext, hgeneration, -⟩ := hfenced.job_step hcounted hcoherent hjob hstep
    exact ⟨job', hnext, by omega⟩

end

/-- The generation of a job grows with every claim and every new arming and never shrinks, no
fenced update under a claim from before changes the row in any later state, a job spends at
most four attempts, and it fails only after the failure of a last attempt and three before it,
or after a terminal error. -/
theorem jobFence {env : Env Id H} {s s' : State Id H} {e : Event Id H} {job : Job Id}
    (h : Reachable env s) (hjob : s.job = some job) (hstep : step env s e = some s') :
    job.providerAttempts ≤ 4 ∧
      (∃ job', s'.job = some job' ∧ job.claimGeneration ≤ job'.claimGeneration ∧
        (Arms env s e → job.claimGeneration < job'.claimGeneration) ∧
        (job.status ≠ .failed → job'.status = .failed →
          s.tally.terminal = true ∨ (s.tally.final = true ∧ 3 ≤ s.tally.retries))) ∧
      (Arms env s e → ∀ owner claim, (s.workers owner).claim? = some claim →
        ∀ s'', RunOf (step env) anyEvent s' s'' → ∀ now assignment,
          s''.job.map (fencedUpdate owner claim.generation now assignment) = s''.job) := by
  obtain ⟨media, hcoherent, hfenced, hcounted⟩ := fenced_of_reachable h
  refine ⟨(hcounted.bounded job hjob).1, ?_, ?_⟩
  · obtain ⟨job', hnext, hgeneration, hfailed⟩ := hfenced.job_step hcounted hcoherent hjob hstep
    refine ⟨job', hnext, hgeneration, fun harms => ?_, hfailed⟩
    obtain ⟨job'', hsame, hlt⟩ := harms.generation hjob hstep
    rw [hnext, Option.some.injEq] at hsame
    exact hsame ▸ hlt
  · intro harms owner claim hclaim s'' hrun now assignment
    obtain ⟨job', hnext, hlt⟩ := harms.generation hjob hstep
    have hold : claim.generation < job'.claimGeneration := by
      rcases hfenced.held job owner claim hjob hclaim with hold | ⟨heq, -⟩ <;> omega
    obtain ⟨job'', hlater, hstale⟩ := stale_of_run (hfenced.step hcoherent hstep)
      (hcounted.step hfenced hcoherent hstep) (hcoherent.step hstep) hrun hnext hold
    rw [hlater, Option.map_some, fencedUpdate_stale hstale]

/-- A worker that let its lease expire can no longer write the row once another one claimed
the job. -/
theorem jobFence_claimedAgain : ∃ s' : State Text PlainDigest,
    (∃ job', s'.job = some job' ∧ 1 < job'.claimGeneration) ∧
      ∀ s'', RunOf (step (plainEnv .postgres true)) anyEvent s' s'' → ∀ now assignment,
        s''.job.map (fencedUpdate "a".toList 1 now assignment) = s''.job := by
  obtain ⟨s, s', hreached, hlater, hclaim, hjob⟩ :=
    exists_plainRuns (plainEnv .postgres true) (plainRecording none) [.claim "a".toList 60 0]
      [.claim "b".toList 60 100]
      (fun s _ => (s.workers "a".toList).claim? = some ⟨1, 0⟩ ∧
        s.job.map Job.claimGeneration = some 1) (by decide +kernel)
  have hstep : step (plainEnv .postgres true) s (.claim "b".toList 60 100) = some s' := by
    unfold replay at hlater
    split at hlater
    · cases hlater
    · next mid hmid =>
      cases hlater
      exact hmid
  obtain ⟨job, hsome, hgeneration⟩ := Option.map_eq_some_iff.mp hjob
  obtain ⟨-, ⟨job', hnext, -, hlt, -⟩, hstale⟩ :=
    jobFence (reachable_iff.mpr ⟨_, hreached⟩) hsome hstep
  refine ⟨s', ⟨job', hnext, ?_⟩, hstale (.claim ..) _ _ hclaim⟩
  exact hgeneration ▸ hlt (.claim ..)

end Maeglagi.Jobs
