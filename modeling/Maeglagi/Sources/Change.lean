import Maeglagi.Sources.System

/-!
# What a step changes

Every step either leaves the row alone, or is an edit, the start of an attempt, a recorded
failure, an admitted submission or a turn of an attempt. What later modules say about the row,
the attempt and the other writes is read off these six cases.
-/

namespace Maeglagi.Sources

open Core Jobs

variable {Id H : Type} [DecidableEq Id] [DecidableEq H]

/-- The attempt that goes on after a turn. -/
def Turn.active (analyst : Analyst Id H) (t : Turn Id H) : Option (Active Id H) :=
  t.next.map fun n => .working analyst n.1 n.2

/-- The attempt that goes on after its first transaction. -/
def begunActive (runner : Runner Id) (source : Source Id H) : Option (Active Id H) :=
  (beginProcessing source).2.map fun point =>
    .working (.server runner (decide (point = .analyzing))) (beginProcessing source).1 point

/-- The six kinds of steps. -/
inductive Change (env : Env Id H) (s s' : State Id H) : Event Id H → Prop
  | idle (e : Event Id H) (hrow : s'.source = s.source) (hsinks : s'.sinks = s.sinks)
      (hactive : ∀ analyst session point, s'.active = some (.working analyst session point) →
        s.active = some (.working analyst session point)) : Change env s s' e
  | edited (edit : Edit Id) (now : Nat) (scheduling : Scheduling)
      (hedit : applyEdit env s.job s.source edit = .ok (some (s'.source, scheduling)))
      (hsinks : s'.sinks = s.sinks) (hactive : s'.active = s.active) :
      Change env s s' (.edit edit now)
  | entered (runner : Runner Id) (hentering : s.active = some (.entering runner))
      (hrow : s'.source = (beginProcessing s.source).1) (hsinks : s'.sinks = s.sinks)
      (hactive : s'.active = begunActive runner s.source) : Change env s s' .enter
  | failed (runner : Runner Id) (error : AttemptError)
      (hrunner : s.active.bind Active.runner? = some runner)
      (hrow : s'.source = recordFailure runner.final error s.source) (hsinks : s'.sinks = s.sinks)
      (hactive : s'.active = none) : Change env s s' (.fail error)
  | admitted (dir : Directory Id) (known : List Text) (request : SubmissionRequest H)
      (submission : Submission Id H) (t : Turn Id H)
      (hopening : s.active = some (.opening request))
      (hadmitted : submitAnalysis env dir known s.source request = .ok (.started submission t))
      (hrow : s'.source = t.row) (hsinks : s'.sinks = s.sinks ++ t.sinks)
      (hactive : s'.active = Turn.active (.agent submission) t) : Change env s s' (.receive dir known)
  | acted (action : Action Id) (analyst : Analyst Id H) (session : Source Id H) (point : Point)
      (t : Turn Id H) (hworking : s.active = some (.working analyst session point))
      (hturn : turn env analyst s.source session point action = some t)
      (hrow : s'.source = t.row) (hsinks : s'.sinks = s.sinks ++ t.sinks)
      (hactive : s'.active = Turn.active analyst t) : Change env s s' (.act action)

section
omit [DecidableEq H]

@[simp] theorem moved_source (s : State Id H) (owner : Id) (worker : Worker) :
    (s.moved owner worker).source = s.source := rfl

@[simp] theorem moved_sinks (s : State Id H) (owner : Id) (worker : Worker) :
    (s.moved owner worker).sinks = s.sinks := rfl

@[simp] theorem moved_active (s : State Id H) (owner : Id) (worker : Worker) :
    (s.moved owner worker).active = s.active := rfl

@[simp] theorem moved_job (s : State Id H) (owner : Id) (worker : Worker) :
    (s.moved owner worker).job = s.job := rfl

@[simp] theorem moved_tally (s : State Id H) (owner : Id) (worker : Worker) :
    (s.moved owner worker).tally = s.tally := rfl

@[simp] theorem moved_workers (s : State Id H) (owner : Id) (worker : Worker) :
    (s.moved owner worker).workers = Function.update s.workers owner worker := rfl

@[simp] theorem returned_source (s : State Id H) (runner : Runner Id) (outcome : Outcome) :
    (s.returned runner outcome).source = s.source := by cases runner <;> rfl

@[simp] theorem returned_sinks (s : State Id H) (runner : Runner Id) (outcome : Outcome) :
    (s.returned runner outcome).sinks = s.sinks := by cases runner <;> rfl

@[simp] theorem returned_active (s : State Id H) (runner : Runner Id) (outcome : Outcome) :
    (s.returned runner outcome).active = none := by cases runner <;> rfl

@[simp] theorem returned_job (s : State Id H) (runner : Runner Id) (outcome : Outcome) :
    (s.returned runner outcome).job = s.job := by cases runner <;> rfl

@[simp] theorem returned_tally (s : State Id H) (runner : Runner Id) (outcome : Outcome) :
    (s.returned runner outcome).tally = s.tally := by cases runner <;> rfl

@[simp] theorem ended_source (s : State Id H) (analyst : Analyst Id H) (outcome : Outcome) :
    (s.ended analyst outcome).source = s.source := by
  cases analyst
  · exact returned_source ..
  · rfl

@[simp] theorem ended_sinks (s : State Id H) (analyst : Analyst Id H) (outcome : Outcome) :
    (s.ended analyst outcome).sinks = s.sinks := by
  cases analyst
  · exact returned_sinks ..
  · rfl

@[simp] theorem ended_active (s : State Id H) (analyst : Analyst Id H) (outcome : Outcome) :
    (s.ended analyst outcome).active = none := by
  cases analyst
  · exact returned_active ..
  · rfl

@[simp] theorem turned_source (s : State Id H) (analyst : Analyst Id H) (t : Turn Id H) :
    (s.turned analyst t).source = t.row := by
  unfold State.turned
  split <;> simp

@[simp] theorem turned_sinks (s : State Id H) (analyst : Analyst Id H) (t : Turn Id H) :
    (s.turned analyst t).sinks = s.sinks ++ t.sinks := by
  unfold State.turned
  split <;> simp

@[simp] theorem turned_active (s : State Id H) (analyst : Analyst Id H) (t : Turn Id H) :
    (s.turned analyst t).active = Turn.active analyst t := by
  unfold State.turned Turn.active
  split <;> simp_all

@[simp] theorem dropped_source (s : State Id H) (owner : Id) :
    (s.dropped owner).source = s.source := rfl

@[simp] theorem dropped_sinks (s : State Id H) (owner : Id) :
    (s.dropped owner).sinks = s.sinks := rfl

theorem active_of_dropped {s : State Id H} {owner : Id} {active : Active Id H}
    (h : (s.dropped owner).active = some active) : s.active = some active :=
  (Option.filter_eq_some_iff.mp h).1

end

section
omit [DecidableEq Id] [DecidableEq H]

@[simp] theorem scheduled_source (s : State Id H) (source : Source Id H) (scheduling : Scheduling)
    (now : Nat) : (s.scheduled source scheduling now).source = source := by
  unfold State.scheduled
  split
  · rfl
  · split_ifs <;> rfl

@[simp] theorem scheduled_sinks (s : State Id H) (source : Source Id H) (scheduling : Scheduling)
    (now : Nat) : (s.scheduled source scheduling now).sinks = s.sinks := by
  unfold State.scheduled
  split
  · rfl
  · split_ifs <;> rfl

@[simp] theorem scheduled_active (s : State Id H) (source : Source Id H) (scheduling : Scheduling)
    (now : Nat) : (s.scheduled source scheduling now).active = s.active := by
  unfold State.scheduled
  split
  · rfl
  · split_ifs <;> rfl

@[simp] theorem scheduled_workers (s : State Id H) (source : Source Id H)
    (scheduling : Scheduling) (now : Nat) :
    (s.scheduled source scheduling now).workers = s.workers := by
  unfold State.scheduled
  split
  · rfl
  · split_ifs <;> rfl

end

/-- The executor never writes the row, and no attempt is at work that was not before. -/
theorem change_of_schedulerStep {env : Env Id H} {s s' : State Id H} {e : Event Id H}
    (h : schedulerStep env s e = some s') : Change env s s' e := by
  unfold schedulerStep at h
  split at h
  · split at h <;> try split_ifs at h
    all_goals cases h
    exact .idle _ rfl rfl fun _ _ _ h => h
  · split at h <;> cases h
    exact .idle _ rfl rfl fun _ _ _ h => h
  · split at h <;> cases h
    refine .idle _ rfl rfl fun _ _ _ h => ?_
    cases h
  · obtain ⟨claim, -, rfl⟩ := Option.map_eq_some_iff.mp h
    exact .idle _ rfl rfl fun _ _ _ h => h
  · split at h <;> cases h
    exact .idle _ rfl rfl fun _ _ _ h => h
  · obtain ⟨claim, -, rfl⟩ := Option.map_eq_some_iff.mp h
    exact .idle _ rfl rfl fun _ _ _ h => active_of_dropped h
  · cases h
    exact .idle _ rfl rfl fun _ _ _ h => active_of_dropped h
  · split_ifs at h
    cases h
    exact .idle _ rfl rfl fun _ _ _ h => h
  · split_ifs at h
    split at h <;> cases h
    refine .idle _ rfl rfl fun _ _ _ h => ?_
    cases h
  · split at h <;> cases h <;> refine .idle _ rfl rfl fun _ _ _ h => ?_ <;> cases h
  · cases h

theorem change_of_attemptStep {env : Env Id H} {s s' : State Id H} {e : Event Id H}
    (h : attemptStep env s e = some s') : Change env s s' e := by
  unfold attemptStep at h
  split at h
  · split at h
    · next runner hentering =>
      dsimp only at h
      split at h
      · next hnone =>
        cases h
        exact .entered runner hentering (by simp) (by simp) (by simp [begunActive, hnone])
      · next point hpoint =>
        cases h
        exact .entered runner hentering rfl rfl (by simp [begunActive, hpoint])
    · cases h
  · split at h
    · next analyst session point hworking =>
      obtain ⟨t, ht, rfl⟩ := Option.map_eq_some_iff.mp h
      exact .acted _ analyst session point t hworking ht (by simp) (by simp) (by simp)
    · cases h
  · next error =>
    obtain ⟨active, hactive, h⟩ := Option.map_eq_some_iff.mp h
    split at h
    · next runner hrunner =>
      subst h
      exact .failed runner error (by simp [hactive, hrunner]) (by simp) (by simp) (by simp)
    · subst h
      exact .idle _ rfl rfl fun _ _ _ h => by cases h
  · obtain ⟨active, hactive, h⟩ := Option.map_eq_some_iff.mp h
    split at h <;> subst h
    · refine .idle _ (by simp) (by simp) fun _ _ _ h => ?_
      rw [returned_active] at h
      cases h
    · exact .idle _ rfl rfl fun _ _ _ h => by cases h
  · split at h <;> cases h
    exact .idle _ rfl rfl fun _ _ _ h => by cases h
  · split at h
    · next request hopening =>
      split at h
      · next submission t hadmitted =>
        cases h
        exact .admitted _ _ request submission t hopening hadmitted (by simp) (by simp) (by simp)
      · cases h
        exact .idle _ rfl rfl fun _ _ _ h => by cases h
    · cases h
  · cases h

/-- Every step is of one of the six kinds. -/
theorem change_of_step {env : Env Id H} {s s' : State Id H} {e : Event Id H}
    (h : step env s e = some s') : Change env s s' e := by
  unfold step at h
  split at h
  · next edit now =>
    split at h
    · next source scheduling hedit =>
      cases h
      exact .edited edit now scheduling (by simpa using hedit) (by simp) (by simp)
    · cases h
  · rcases Option.or_eq_some_iff.mp (by simpa using h) with h | ⟨-, h⟩
    · exact change_of_schedulerStep h
    · exact change_of_attemptStep h

end Maeglagi.Sources
