import Maeglagi.Ask.Asking

/-!
# One answer at a time

What guards an unfinished run against a second one are the flags, and what stops it is the
controller. A run of an earlier visit lowers the flags whenever it finishes.
-/

namespace Maeglagi.Ask

open Core

variable {W Src : Type}

namespace Asking

/-- No run finishes while another one, of the visit that is shown, is unfinished. -/
def Timely (s : Asking W Src) : Happening W Src → Prop
  | .ends i _ =>
    ∀ (j : Nat) (run : Run W Src), s.runs[j]? = some run → j ≠ i → run.finished = false →
      run.visit ≠ s.visit
  | _ => True

/-- What a run of timely steps keeps. -/
structure Kept (s : Asking W Src) : Prop where
  past : ∀ (i : Nat) (run : Run W Src), s.runs[i]? = some run → run.visit ≤ s.visit
  /-- Before its conversations are restored, no run is started in a visit. -/
  unstarted : ¬s.isRestored →
    ∀ (i : Nat) (run : Run W Src), s.runs[i]? = some run → run.visit ≠ s.visit
  flagged : ∀ (i : Nat) (run : Run W Src), s.runs[i]? = some run → run.finished = false →
    run.visit = s.visit → s.inFlight = true ∧ s.isStreaming = true
  /-- Only the run of the controller is not aborted, and it is of the conversations that were
  restored last. -/
  owned : ∀ (i : Nat) (run : Run W Src), s.runs[i]? = some run → run.finished = false →
    run.aborted = false → s.controller = some i ∧ s.state.workspaceId = some run.workspaceId ∧
      (s.isRestored → run.visit = s.visit)

variable {s s' : Asking W Src} {e : Happening W Src}

/-- A run after the abort is the same run, aborted if the controller is its own. -/
theorem getElem?_abort (s : Asking W Src) (j : Nat) :
    s.abort.runs[j]? =
      s.runs[j]?.map fun run =>
        if s.controller = some j then { run with aborted := true } else run := by
  unfold abort
  cases hcontroller : s.controller with
  | none => simp
  | some i =>
    cases hrun : s.runs[i]? with
    | none =>
      by_cases hij : i = j
      · subst hij
        simp [hrun]
      · simp [hrun, hij]
    | some run =>
      by_cases hij : i = j
      · subst hij
        simp [setRun, (List.getElem?_eq_some_iff.mp hrun).1]
      · simp [setRun, hrun, hij]

/-- The abort leaves all but the runs. -/
theorem abort_eq (s : Asking W Src) : ∃ runs, s.abort = { s with runs := runs } := by
  unfold abort
  split
  · exact ⟨s.runs, rfl⟩
  · split
    · exact ⟨s.runs, rfl⟩
    · exact ⟨_, rfl⟩

/-- A run that changes where it stands. -/
theorem getElem?_set_run {runs : List (Run W Src)} {i j : Nat} {run run' : Run W Src}
    (h : (runs.set i run)[j]? = some run') :
    (j = i ∧ run' = run) ∨ (j ≠ i ∧ runs[j]? = some run') := by
  rw [List.getElem?_set] at h
  split_ifs at h with hij hlt
  · exact .inl ⟨hij.symm, (Option.some.inj h).symm⟩
  · exact .inr ⟨fun hji => hij hji.symm, h⟩

theorem kept_start (workspaceId : W) : (start workspaceId : Asking W Src).Kept :=
  ⟨fun i run h => by simp [start] at h, fun _ i run h => by simp [start] at h,
    fun i run h => by simp [start] at h, fun i run h => by simp [start] at h⟩

/-- Runs that only finish or are aborted stay kept. -/
theorem Kept.of_runs (h : s.Kept) (hworkspace : s'.workspaceId = s.workspaceId)
    (hvisit : s'.visit = s.visit) (hstate : s'.state.workspaceId = s.state.workspaceId)
    (hinFlight : s'.inFlight = s.inFlight) (hstreaming : s'.isStreaming = s.isStreaming)
    (hcontroller : s'.controller = s.controller)
    (hruns : ∀ (i : Nat) (run' : Run W Src), s'.runs[i]? = some run' →
      ∃ run, s.runs[i]? = some run ∧
        run'.workspaceId = run.workspaceId ∧ run'.visit = run.visit ∧
        (run'.finished = false → run.finished = false) ∧
        (run'.aborted = false → run.aborted = false)) : s'.Kept := by
  have hrestored : s'.isRestored ↔ s.isRestored := by
    unfold isRestored
    rw [hstate, hworkspace]
  refine ⟨fun i run' hi => ?_, fun hnot i run' hi => ?_, fun i run' hi hfin hvis => ?_,
    fun i run' hi hfin hab => ?_⟩
  · obtain ⟨run, hrun, -, hv, -, -⟩ := hruns i run' hi
    rw [hv, hvisit]
    exact h.past i run hrun
  · obtain ⟨run, hrun, -, hv, -, -⟩ := hruns i run' hi
    rw [hv, hvisit]
    exact h.unstarted (fun hs => hnot (hrestored.mpr hs)) i run hrun
  · obtain ⟨run, hrun, -, hv, hf, -⟩ := hruns i run' hi
    rw [hinFlight, hstreaming]
    exact h.flagged i run hrun (hf hfin) (by rw [← hv, hvis, hvisit])
  · obtain ⟨run, hrun, hw, hv, hf, ha⟩ := hruns i run' hi
    obtain ⟨hown, hshown, hcurrent⟩ := h.owned i run hrun (hf hfin) (ha hab)
    refine ⟨by rw [hcontroller, hown], by rw [hstate, hshown, hw], fun hs' => ?_⟩
    rw [hv, hvisit]
    exact hcurrent (hrestored.mp hs')

theorem kept_abort (h : s.Kept) : s.abort.Kept := by
  obtain ⟨runs, heq⟩ := s.abort_eq
  refine h.of_runs (by rw [heq]) (by rw [heq]) (by rw [heq]) (by rw [heq]) (by rw [heq])
    (by rw [heq]) fun i run' hi => ?_
  rw [getElem?_abort, Option.map_eq_some_iff] at hi
  obtain ⟨run, hrun, rfl⟩ := hi
  refine ⟨run, hrun, ?_⟩
  split_ifs
  · exact ⟨rfl, rfl, id, fun hab => absurd hab (by simp)⟩
  · exact ⟨rfl, rfl, id, id⟩

/-- After the abort no unfinished run is left that is not aborted. -/
theorem aborted_abort (h : s.Kept) {i : Nat} {run : Run W Src} (hi : s.abort.runs[i]? = some run)
    (hfin : run.finished = false) : run.aborted = true := by
  rw [getElem?_abort, Option.map_eq_some_iff] at hi
  obtain ⟨old, hold, rfl⟩ := hi
  split_ifs at hfin ⊢ with hown
  · rfl
  · cases hab : old.aborted with
    | true => rfl
    | false => exact absurd (h.owned i old hold hfin hab).1 hown

theorem kept_switchTo (h : s.Kept) (workspaceId : W) (hrestored : s.isRestored)
    (hne : workspaceId ≠ s.workspaceId) :
    ({ s with workspaceId := workspaceId, visit := s.visit + 1 } : Asking W Src).Kept := by
  refine ⟨fun i run hi => ?_, fun _ i run hi => ?_, fun i run hi _ hvis => ?_,
    fun i run hi hfin hab => ?_⟩
  · have := h.past i run hi
    dsimp only
    omega
  · have := h.past i run hi
    dsimp only
    omega
  · have := h.past i run hi
    dsimp only at hvis
    omega
  · obtain ⟨hown, hshown, -⟩ := h.owned i run hi hfin hab
    refine ⟨hown, hshown, fun hnow => ?_⟩
    -- The conversations are still those of the workspace that was left.
    exact absurd (Option.some.inj (hnow.symm.trans hrestored)) hne

theorem kept_restored (h : s.Kept) (hnot : ¬s.isRestored) {state : Stored W Src}
    (hstate : state.workspaceId = some s.workspaceId) :
    ({ s.abort with
        state := state, isStreaming := false, inFlight := false } : Asking W Src).Kept := by
  have hab := kept_abort h
  obtain ⟨runs, heq⟩ := s.abort_eq
  have hworkspace : s.abort.workspaceId = s.workspaceId := by rw [heq]
  have hnot' : ¬s.abort.isRestored := by
    rw [heq]
    exact hnot
  refine ⟨hab.past, fun hpending => ?_, fun i run hi _ hvis => ?_, fun i run hi hfin hlive => ?_⟩
  · refine absurd ?_ hpending
    unfold isRestored
    dsimp only
    rw [hstate, hworkspace]
  · exact absurd hvis (hab.unstarted hnot' i run hi)
  · exact absurd (aborted_abort h hi hfin) (by rw [hlive]; simp)

/-- An unfinished run of an earlier visit was aborted when that visit ended. -/
theorem Kept.aborted_of_earlier (h : s.Kept) {run : Run W Src} (hmem : run ∈ s.runs)
    (hfin : run.finished = false) (hworkspace : run.workspaceId = s.workspaceId) :
    run.visit = s.visit ∨ run.aborted = true := by
  obtain ⟨i, hi⟩ := List.mem_iff_getElem?.mp hmem
  cases hlive : run.aborted with
  | true => exact .inr rfl
  | false =>
    obtain ⟨-, hshown, hcurrent⟩ := h.owned i run hi hfin hlive
    refine .inl (hcurrent ?_)
    unfold isRestored
    rw [hshown, hworkspace]

variable [DecidableEq W]

/-- What guards a run while it is unfinished. -/
structure Guards (s : Asking W Src) (i : Nat) : Prop where
  inFlight : s.inFlight = true
  isStreaming : s.isStreaming = true
  /-- No second run starts. -/
  ask : ∀ id question, s.step (.ask id question) = some s
  retry : ∀ id turnId, s.step (.retry id turnId) = some s
  /-- The run is stopped by `stop`. -/
  stop : ∀ s', s.step .stop = some s' → ∃ run, s'.runs[i]? = some run ∧ run.aborted = true

/-- Every unfinished run that was started for the workspace since it is shown is guarded. -/
def Guarded (s : Asking W Src) : Prop :=
  ∀ (i : Nat) (run : Run W Src), s.runs[i]? = some run → run.finished = false → run.visit = s.visit → s.Guards i

section
variable (s) (workspaceId : W) (update : List (AskTurn Src) → List (AskTurn Src))

@[simp] theorem runs_setTurns : (s.setTurns workspaceId update).runs = s.runs := by
  unfold setTurns
  split_ifs
  · rfl
  · rfl

@[simp] theorem visit_setTurns : (s.setTurns workspaceId update).visit = s.visit := by
  unfold setTurns
  split_ifs
  · rfl
  · rfl

@[simp] theorem workspaceId_setTurns :
    (s.setTurns workspaceId update).workspaceId = s.workspaceId := by
  unfold setTurns
  split_ifs
  · rfl
  · rfl

@[simp] theorem state_setTurns :
    (s.setTurns workspaceId update).state.workspaceId = s.state.workspaceId := by
  unfold setTurns
  split_ifs
  · rfl
  · rfl

@[simp] theorem inFlight_setTurns : (s.setTurns workspaceId update).inFlight = s.inFlight := by
  unfold setTurns
  split_ifs
  · rfl
  · rfl

@[simp] theorem isStreaming_setTurns :
    (s.setTurns workspaceId update).isStreaming = s.isStreaming := by
  unfold setTurns
  split_ifs
  · rfl
  · rfl

@[simp] theorem controller_setTurns : (s.setTurns workspaceId update).controller = s.controller := by
  unfold setTurns
  split_ifs
  · rfl
  · rfl

end

theorem kept_run (h : s.Kept) (id question : JsString) (replaceId : Option JsString) :
    (s.run id question replaceId).Kept := by
  unfold run
  dsimp only
  split_ifs with hguard
  · exact h
  · simp only [not_or, Bool.not_eq_true, not_not] at hguard
    obtain ⟨-, hidle, hrestored⟩ := hguard
    have hnow : s.state.workspaceId = some s.workspaceId := hrestored
    refine ⟨fun i run hi => ?_, fun hpending => ?_, fun _ _ _ _ _ => ⟨rfl, rfl⟩,
      fun i run hi hfin hlive => ?_⟩
    · dsimp only at hi ⊢
      rw [visit_setTurns]
      rcases List.mem_append.mp (List.mem_of_getElem? hi) with hold | hnew
      · obtain ⟨j, hj⟩ := List.mem_iff_getElem?.mp hold
        exact h.past j run hj
      · rw [List.mem_singleton] at hnew
        rw [hnew]
    · refine absurd ?_ hpending
      unfold isRestored
      simpa using hnow
    · dsimp only at hi ⊢
      rw [List.getElem?_append] at hi
      split_ifs at hi with hlt
      · -- An older run that is not aborted would be of this visit, and guarded.
        obtain ⟨-, -, hcurrent⟩ := h.owned i run hi hfin hlive
        have hraised := (h.flagged i run hi hfin (hcurrent hrestored)).1
        rw [hidle] at hraised
        cases hraised
      · rw [List.getElem?_singleton] at hi
        split_ifs at hi with hi0
        obtain rfl := Option.some.inj hi
        refine ⟨?_, by simpa using hnow, fun _ => by simp⟩
        congr 1
        omega

theorem kept_commit (h : s.Kept) {i : Nat} {run : Run W Src} (hi : s.runs[i]? = some run)
    (next : AskTurn Src) : (s.commit i run next).Kept := by
  unfold commit
  refine h.of_runs (by simp [setRun]) (by simp [setRun]) (by simp [setRun]) (by simp [setRun])
    (by simp [setRun]) (by simp [setRun]) fun j run' hj => ?_
  rw [runs_setTurns] at hj
  obtain ⟨rfl, rfl⟩ | ⟨-, hj⟩ := getElem?_set_run hj
  · exact ⟨run, hi, rfl, rfl, id, id⟩
  · exact ⟨run', hj, rfl, rfl, id, id⟩

/-- A run after another one finished. -/
theorem getElem?_finish {i j : Nat} {run run' : Run W Src} {outcome : Outcome}
    (h : (s.finish i run outcome).runs[j]? = some run') :
    (j = i ∧ run' = { run with turn := run.settled outcome, finished := true }) ∨
      (j ≠ i ∧ s.runs[j]? = some run') := by
  simp only [finish, commit, setRun, runs_setTurns, List.set_set] at h
  exact getElem?_set_run h

theorem kept_finish (h : s.Kept) {i : Nat} {run : Run W Src} (hi : s.runs[i]? = some run)
    (outcome : Outcome) (htimely : s.Timely (.ends i outcome)) : (s.finish i run outcome).Kept := by
  have hvisit : (s.finish i run outcome).visit = s.visit := by simp [finish, commit, setRun]
  have hstate : (s.finish i run outcome).state.workspaceId = s.state.workspaceId := by
    simp [finish, commit, setRun]
  have hworkspace : (s.finish i run outcome).workspaceId = s.workspaceId := by
    simp [finish, commit, setRun]
  have hrestored : (s.finish i run outcome).isRestored ↔ s.isRestored := by
    unfold isRestored
    rw [hstate, hworkspace]
  refine ⟨fun j run' hj => ?_, fun hpending j run' hj => ?_, fun j run' hj hfin hvis => ?_,
    fun j run' hj hfin hlive => ?_⟩
  · rw [hvisit]
    obtain ⟨-, rfl⟩ | ⟨-, hj⟩ := getElem?_finish hj
    · exact h.past i run hi
    · exact h.past j run' hj
  · rw [hvisit]
    have hnot : ¬s.isRestored := fun hs => hpending (hrestored.mpr hs)
    obtain ⟨-, rfl⟩ | ⟨-, hj⟩ := getElem?_finish hj
    · exact h.unstarted hnot i run hi
    · exact h.unstarted hnot j run' hj
  · obtain ⟨-, rfl⟩ | ⟨hne, hj⟩ := getElem?_finish hj
    · cases hfin
    · exact absurd (hvis.trans hvisit) (htimely j run' hj hne hfin)
  · obtain ⟨-, rfl⟩ | ⟨hne, hj⟩ := getElem?_finish hj
    · cases hfin
    · obtain ⟨hown, hshown, hcurrent⟩ := h.owned j run' hj hfin hlive
      refine ⟨?_, hstate.trans hshown, fun hs => (hcurrent (hrestored.mp hs)).trans hvisit.symm⟩
      -- The controller is that of the run that goes on.
      simp only [finish]
      rw [if_neg, hown]
      rw [hown]
      exact fun heq => hne (Option.some.inj heq)

/-- What a step does to the state. -/
inductive Effect (s : Asking W Src) : Happening W Src → Asking W Src → Prop
  | switched (workspaceId : W) (hrestored : s.isRestored) (hne : workspaceId ≠ s.workspaceId) :
      Effect s (.switchTo workspaceId)
        { s with workspaceId := workspaceId, visit := s.visit + 1 }
  | restored (activeId : JsString) (conversations : List (AskConversation Src))
      (hnot : ¬s.isRestored) :
      Effect s (.restored activeId conversations)
        { s.abort with
          state := ⟨some s.workspaceId, activeId, conversations⟩
          isStreaming := false
          inFlight := false }
  | asked (id question : JsString) : Effect s (.ask id question) (s.run id question none)
  | retried (id turnId question : JsString) :
      Effect s (.retry id turnId) (s.run id question (some turnId))
  | unknown (id turnId : JsString) : Effect s (.retry id turnId) s
  | stopped : Effect s .stop s.abort
  | committed (i : Nat) (event : AnswerEvent Src) (run : Run W Src) (next : AskTurn Src)
      (hrun : s.runs[i]? = some run) (hfin : run.finished = false) :
      Effect s (.progress i event) (s.commit i run next)
  | finished (i : Nat) (outcome : Outcome) (run : Run W Src) (hrun : s.runs[i]? = some run) :
      Effect s (.ends i outcome) (s.finish i run outcome)

theorem effect_of_step (hstep : s.step e = some s') : Effect s e s' := by
  cases e with
  | switchTo workspaceId =>
    simp only [step] at hstep
    split_ifs at hstep with hguard
    obtain rfl := Option.some.inj hstep
    exact .switched workspaceId hguard.1 hguard.2
  | restored activeId conversations =>
    simp only [step] at hstep
    split_ifs at hstep with hguard
    obtain rfl := Option.some.inj hstep
    exact .restored activeId conversations hguard
  | ask id question =>
    obtain rfl := Option.some.inj hstep
    exact .asked id question
  | retry id turnId =>
    simp only [step] at hstep
    split at hstep
    · obtain rfl := Option.some.inj hstep
      exact .retried id turnId _
    · obtain rfl := Option.some.inj hstep
      exact .unknown id turnId
  | stop =>
    obtain rfl := Option.some.inj hstep
    exact .stopped
  | progress i event =>
    simp only [step] at hstep
    split at hstep
    · cases hstep
    · rename_i run hrun
      split_ifs at hstep with hguard
      obtain rfl := Option.some.inj hstep
      exact .committed i event run _ hrun hguard.1
  | ends i outcome =>
    simp only [step] at hstep
    split at hstep
    · cases hstep
    · rename_i run hrun
      split_ifs at hstep
      obtain rfl := Option.some.inj hstep
      exact .finished i outcome run hrun

/-- A timely step keeps what guards the runs. -/
theorem kept_step (h : s.Kept) (htimely : s.Timely e) (hstep : s.step e = some s') : s'.Kept := by
  cases effect_of_step hstep with
  | switched workspaceId hrestored hne => exact kept_switchTo h workspaceId hrestored hne
  | restored activeId conversations hnot => exact kept_restored h hnot rfl
  | asked id question => exact kept_run h id question none
  | retried id turnId question => exact kept_run h id question (some turnId)
  | unknown => exact h
  | stopped => exact kept_abort h
  | committed i event run next hrun => exact kept_commit h hrun next
  | finished i outcome run hrun => exact kept_finish h hrun outcome htimely

theorem run_of_inFlight (h : s.inFlight = true) (id question : JsString)
    (replaceId : Option JsString) : s.run id question replaceId = s := by
  unfold run
  rw [if_pos (.inr (.inl h))]

theorem Kept.guarded (h : s.Kept) : s.Guarded := by
  intro i run hi hfin hvis
  obtain ⟨hbusy, hstreaming⟩ := h.flagged i run hi hfin hvis
  refine ⟨hbusy, hstreaming, fun id question => ?_, fun id turnId => ?_, fun s' hstop => ?_⟩
  · simp only [step]
    rw [run_of_inFlight hbusy]
  · simp only [step]
    split
    · rw [run_of_inFlight hbusy]
    · rfl
  · obtain rfl := Option.some.inj hstop
    refine ⟨if s.controller = some i then { run with aborted := true } else run, ?_, ?_⟩
    · rw [getElem?_abort, hi]
      rfl
    · split_ifs with hown
      · rfl
      · cases hlive : run.aborted with
        | true => rfl
        | false => exact absurd (h.owned i run hi hfin hlive).1 hown

/-- A step after which every run is guarded is timely. -/
theorem timely_of_guarded (hstep : s.step e = some s') (h : s'.Guarded) : s.Timely e := by
  cases effect_of_step hstep with
  | finished i outcome old hold =>
    intro j run hj hne hfin hvis
    have hj' : (s.finish i old outcome).runs[j]? = some run := by
      simp only [finish, commit, setRun, runs_setTurns, List.set_set]
      rw [List.getElem?_set_ne hne.symm, hj]
    have hvisit : (s.finish i old outcome).visit = s.visit := by simp [finish, commit, setRun]
    have hraised := (h j run hj' hfin (hvis.trans hvisit.symm)).inFlight
    cases hraised
  | _ => trivial

/-- In every run of timely steps each unfinished run of the visit is guarded, one of an earlier
visit of the workspace is aborted, and a step keeps the guard exactly when it is timely. -/
theorem guarded_of_run {workspaceId : W} (h : RunOf step Timely (start workspaceId) s)
    (hstep : s.step e = some s') :
    s.Guarded ∧
      (∀ run ∈ s.runs, run.finished = false → run.workspaceId = s.workspaceId →
        run.visit = s.visit ∨ run.aborted = true) ∧
      (s'.Guarded ↔ s.Timely e) := by
  have hkept : s.Kept := RunOf.invariant (P := Kept)
    (fun _ _ _ hs htimely hnext => kept_step hs htimely hnext) h (kept_start workspaceId)
  refine ⟨hkept.guarded, fun run hmem hfin hworkspace => ?_, fun hafter => ?_, fun htimely => ?_⟩
  · exact hkept.aborted_of_earlier hmem hfin hworkspace
  · exact timely_of_guarded hstep hafter
  · exact (kept_step hkept htimely hstep).guarded

/-- The only run is stopped and ends: it was guarded, and no run is left to guard. -/
theorem guarded_of_run_stopped : ∃ s s' : Asking Nat Unit,
    s.isStreaming = true ∧ s'.isStreaming = false ∧ s.Guarded ∧ s'.Guarded := by
  have hrun : ∃ s s' : Asking Nat Unit, replay step (start 0)
      [.restored [1] [⟨[1], []⟩], .ask [2] [97], .progress 0 (.token [98]), .stop] = some s ∧
      s.step (.ends 0 .closed) = some s' ∧ s.isStreaming = true ∧ s'.isStreaming = false ∧
      s.runs.length = 1 :=
    ⟨_, _, rfl, rfl, rfl, rfl, rfl⟩
  obtain ⟨s, s', hreplay, hstep, hstreaming, hended, hlength⟩ := hrun
  have hreach : RunOf step Timely (start 0) s := by
    refine runOf_replay (fun s e he => ?_) hreplay
    simp only [List.mem_cons, List.not_mem_nil, or_false] at he
    rcases he with rfl | rfl | rfl | rfl
    · trivial
    · trivial
    · trivial
    · trivial
  obtain ⟨hguarded, -, hafter⟩ := guarded_of_run hreach hstep
  refine ⟨s, s', hstreaming, hended, hguarded, hafter.mpr fun j run hj hne _ => ?_⟩
  have := (List.getElem?_eq_some_iff.mp hj).1
  omega

/-- The run of the workspace that was left finishes while the answer of the next one is read,
and the flags are lowered. -/
theorem not_guarded_lateFinish : ¬∀ s : Asking Nat Unit,
    RunOf step anyEvent (start 0) s → s.Guarded := by
  intro hall
  have hrun : ∃ (s : Asking Nat Unit) (run : Run Nat Unit), replay step (start 0)
      [.restored [1] [⟨[1], []⟩], .ask [2] [97], .switchTo 1, .restored [3] [⟨[3], []⟩],
        .ask [4] [98], .ends 0 .closed] = some s ∧
      s.runs[1]? = some run ∧ run.finished = false ∧ run.visit = s.visit ∧ s.inFlight = false :=
    ⟨_, _, rfl, rfl, rfl, rfl, rfl⟩
  obtain ⟨s, run, hreplay, hi, hfin, hvis, hlowered⟩ := hrun
  have hguards := hall s (runOf_replay (fun _ _ _ => trivial) hreplay) 1 run hi hfin hvis
  rw [hguards.inFlight] at hlowered
  cases hlowered

/-- A finished run is of a question that is settled. -/
def Settled (s : Asking W Src) : Prop :=
  ∀ run ∈ s.runs, run.finished = true → run.turn.status ≠ .streaming

omit [DecidableEq W] in
theorem status_settled (run : Run W Src) (outcome : Outcome) :
    (run.settled outcome).status ≠ .streaming := by
  cases outcome with
  | closed => exact status_settleTurn _ _
  | abortError => exact status_settleTurn _ _
  | failed message needsModel =>
    unfold Run.settled
    dsimp only
    split_ifs
    · exact status_settleTurn _ _
    · exact status_failTurn _ _ _
    · exact status_failTurn _ _ _

omit [DecidableEq W] in
theorem settled_abort (h : s.Settled) : s.abort.Settled := by
  intro run hmem hfin
  obtain ⟨j, hj⟩ := List.mem_iff_getElem?.mp hmem
  rw [getElem?_abort, Option.map_eq_some_iff] at hj
  obtain ⟨old, hold, rfl⟩ := hj
  have hmem := List.mem_of_getElem? hold
  split_ifs at hfin ⊢
  · exact h old hmem hfin
  · exact h old hmem hfin

theorem settled_run (h : s.Settled) (id question : JsString) (replaceId : Option JsString) :
    (s.run id question replaceId).Settled := by
  unfold run
  dsimp only
  split_ifs
  · exact h
  · intro run hmem hfin
    rcases List.mem_append.mp hmem with hold | hnew
    · exact h run hold hfin
    · rw [List.mem_singleton] at hnew
      rw [hnew] at hfin
      cases hfin

theorem settled_step (h : s.Settled) (hstep : s.step e = some s') : s'.Settled := by
  cases effect_of_step hstep with
  | switched | unknown => exact h
  | restored | stopped => exact settled_abort h
  | asked id question => exact settled_run h id question none
  | retried id turnId question => exact settled_run h id question (some turnId)
  | committed i event run next hrun hunfinished =>
    intro run' hmem hfin
    obtain ⟨j, hj⟩ := List.mem_iff_getElem?.mp hmem
    rw [commit, runs_setTurns] at hj
    obtain ⟨-, rfl⟩ | ⟨-, hj⟩ := getElem?_set_run hj
    · rw [hunfinished] at hfin
      cases hfin
    · exact h run' (List.mem_of_getElem? hj) hfin
  | finished i outcome run hrun =>
    intro run' hmem hfin
    obtain ⟨j, hj⟩ := List.mem_iff_getElem?.mp hmem
    obtain ⟨-, rfl⟩ | ⟨-, hj⟩ := getElem?_finish hj
    · exact status_settled run outcome
    · exact h run' (List.mem_of_getElem? hj) hfin

/-- No question streams on after its run, whatever happens and in whatever order. -/
theorem settled_of_run {workspaceId : W} (h : RunOf step anyEvent (start workspaceId) s) :
    s.Settled := by
  refine RunOf.invariant (P := Settled) (fun _ _ _ hs _ hnext => settled_step hs hnext) h ?_
  intro run hmem
  simp [start] at hmem

end Asking

end Maeglagi.Ask
