import Maeglagi.Core.Machine
import Maeglagi.Sources.Row
import Mathlib.Logic.Function.Basic

/-!
# What a screen loads

`useAsync` and `useLiveSources`: the states of the hooks between renders, runs of their effects and
answers, which come in any order. An answer to a call that a later run has aborted changes nothing.
-/

namespace Maeglagi.Hooks

open Core

/-! ## Effects -/

/-- An effect whose cleanup aborts the call of its run: the dependencies of the last run, how many
calls were made, and which of them are aborted. -/
structure Effect (D : Type) where
  ran : Option D
  calls : ℕ
  aborted : ℕ → Bool

namespace Effect

variable {D : Type} {effect : Effect D} {deps : D} {i : ℕ}

/-- Before the first run. -/
def new : Effect D := ⟨none, 0, fun _ => false⟩

section

variable [DecidableEq D]

/-- The dependencies are not those of the last run. -/
def Due (effect : Effect D) (deps : D) : Prop := effect.ran ≠ some deps

instance : Decidable (effect.Due deps) := inferInstanceAs (Decidable (_ ≠ _))

end

/-- The cleanup, and a run with one call. -/
def run (effect : Effect D) (deps : D) : Effect D where
  ran := some deps
  calls := effect.calls + 1
  aborted i := effect.aborted i || decide (i + 1 = effect.calls)

/-- Of the calls that were made, the last one and no other is not aborted. -/
def Sound (effect : Effect D) : Prop :=
  ∀ i < effect.calls, effect.aborted i = false ↔ i + 1 = effect.calls

theorem sound_new : (new : Effect D).Sound := fun _ h => absurd h (Nat.not_lt_zero _)

/-- No call is aborted before it is made. -/
def Fresh (effect : Effect D) : Prop := ∀ i, effect.calls ≤ i → effect.aborted i = false

theorem fresh_new : (new : Effect D).Fresh := fun _ _ => rfl

theorem Sound.run (h : effect.Sound) (hfresh : effect.Fresh) : (effect.run deps).Sound := by
  intro i hi
  unfold Effect.run at hi ⊢
  dsimp only at hi ⊢
  rw [Bool.or_eq_false_iff, decide_eq_false_iff_not]
  constructor
  · rintro ⟨haborted, hne⟩
    by_contra hlast
    exact hne ((h i (by omega)).mp haborted)
  · intro hlast
    exact ⟨hfresh i (by omega), by omega⟩

theorem Fresh.run (h : effect.Fresh) : (effect.run deps).Fresh := by
  intro i hi
  unfold Effect.run at hi ⊢
  dsimp only at hi ⊢
  rw [h i (by omega), Bool.false_or, decide_eq_false_iff_not]
  omega

end Effect

/-! ## One request of a screen -/

/-- A promise that a call has returned. -/
inductive Promised (V E : Type) where
  | pending
  | resolved (value : V)
  | rejected (cause : E)

/-- The promise has not ended. -/
def Promised.isPending {V E : Type} : Promised V E → Bool
  | .pending => true
  | _ => false

theorem Promised.isPending_iff {V E : Type} {promise : Promised V E} :
    promise.isPending = true ↔ promise = .pending := by
  cases promise <;> simp [isPending]

/-- A hook's state: what the last render was called with, the states of React, and the calls of
the effect with the keys they were made for. `finished` says of a call that its `finally` ran. -/
structure UseAsync (D K V E : Type) where
  deps : D
  resetKey : K
  result : Option (V × K)
  error : Option E
  isLoading : Bool
  nonce : ℕ
  effect : Effect (D × ℕ × K)
  keys : ℕ → K
  promises : ℕ → Promised V E
  finished : ℕ → Bool

/-- What happens to a hook: a render, the effect after a commit, the ends of calls, and
`reload`. -/
inductive AsyncEvent (D K V E : Type) where
  | render (deps : D) (resetKey : K)
  | flush
  | resolve (call : ℕ) (value : V)
  | reject (call : ℕ) (cause : E)
  | settle (call : ℕ)
  | reload

/-- The call whose promise ends, or whose `finally` runs. -/
def AsyncEvent.call? {D K V E : Type} : AsyncEvent D K V E → Option ℕ
  | .resolve call _ | .reject call _ | .settle call => some call
  | _ => none

namespace UseAsync

variable {D K V E : Type}

section Definitions

/-- The first render. -/
def mounted (deps : D) (resetKey : K) : UseAsync D K V E where
  deps := deps
  resetKey := resetKey
  result := none
  error := none
  isLoading := true
  nonce := 0
  effect := .new
  keys _ := resetKey
  promises _ := .pending
  finished _ := false

variable [DecidableEq D] [DecidableEq K]

/-- `data` -/
def data (s : UseAsync D K V E) : Option V :=
  match s.result with
  | some (value, key) => if key = s.resetKey then some value else none
  | none => none

/-- `isRefetching` -/
def isRefetching (s : UseAsync D K V E) : Bool := s.isLoading && s.data.isSome

/-- The dependencies of the effect. -/
def dependencies (s : UseAsync D K V E) : D × ℕ × K := (s.deps, s.nonce, s.resetKey)

/-- The effect, if its dependencies have changed. -/
def flush (s : UseAsync D K V E) : UseAsync D K V E :=
  if s.effect.Due s.dependencies then
    { s with
      isLoading := true
      error := none
      effect := s.effect.run s.dependencies
      keys := Function.update s.keys s.effect.calls s.resetKey }
  else s

/-- The promise of a call is resolved: `then`. -/
def resolve (s : UseAsync D K V E) (call : ℕ) (value : V) : UseAsync D K V E :=
  let s := { s with promises := Function.update s.promises call (.resolved value) }
  if s.effect.aborted call then s else { s with result := some (value, s.keys call) }

/-- The promise of a call is rejected: `catch`. -/
def reject (s : UseAsync D K V E) (call : ℕ) (cause : E) : UseAsync D K V E :=
  let s := { s with promises := Function.update s.promises call (.rejected cause) }
  if s.effect.aborted call then s else { s with error := some cause }

/-- `finally` -/
def settle (s : UseAsync D K V E) (call : ℕ) : UseAsync D K V E :=
  let s := { s with finished := Function.update s.finished call true }
  if s.effect.aborted call then s else { s with isLoading := false }

/-- What an event does, where it can happen. -/
def step (s : UseAsync D K V E) : AsyncEvent D K V E → Option (UseAsync D K V E)
  | .render deps resetKey => some { s with deps, resetKey }
  | .flush => some s.flush
  | .resolve call value =>
    if (s.promises call).isPending ∧ call < s.effect.calls then some (s.resolve call value)
    else none
  | .reject call cause =>
    if (s.promises call).isPending ∧ call < s.effect.calls then some (s.reject call cause)
    else none
  | .settle call =>
    if (s.promises call).isPending ∨ s.finished call then none else some (s.settle call)
  | .reload => some { s with nonce := s.nonce + 1 }

end Definitions

variable {s s' : UseAsync D K V E} {call : ℕ}

/-- What is known of the last call. -/
structure Last (s : UseAsync D K V E) (call : ℕ) : Prop where
  key : s.effect.ran.map (fun deps => deps.2.2) = some (s.keys call)
  loading : s.isLoading = !s.finished call
  unfinished : s.promises call = .pending → s.finished call = false
  outcome : match s.promises call with
    | .pending => s.error = none
    | .resolved value => s.result = some (value, s.keys call) ∧ s.error = none
    | .rejected cause => s.error = some cause

/-- What every state of a hook keeps. -/
structure Sound (s : UseAsync D K V E) : Prop where
  effect : s.effect.Sound
  fresh : s.effect.Fresh
  unmade : ∀ call, s.effect.calls ≤ call → s.promises call = .pending ∧ s.finished call = false
  idle : s.effect.calls = 0 → s.effect.ran = none
  last : ∀ call, s.effect.calls = call + 1 → s.Last call
  origin : ∀ value key, s.result = some (value, key) →
    ∃ call < s.effect.calls, s.promises call = .resolved value ∧ s.keys call = key

theorem sound_mounted (deps : D) (resetKey : K) :
    (mounted deps resetKey : UseAsync D K V E).Sound where
  effect := Effect.sound_new
  fresh := Effect.fresh_new
  unmade _ _ := ⟨rfl, rfl⟩
  idle _ := rfl
  last _ h := by cases h
  origin _ _ h := by cases h

/-- A call that is not aborted is the last one. -/
theorem Sound.eq_last (h : s.Sound) (hmade : call < s.effect.calls)
    (haborted : s.effect.aborted call = false) : s.effect.calls = call + 1 :=
  ((h.effect call hmade).mp haborted).symm

/-- A call whose promise has ended was made. -/
theorem Sound.made (h : s.Sound) (hended : s.promises call ≠ .pending) : call < s.effect.calls := by
  by_contra hmade
  exact hended (h.unmade call (by omega)).1

/-- The end of a call says nothing about the others. -/
theorem Sound.record (h : s.Sound) (hmade : call < s.effect.calls)
    (hpending : s.promises call = .pending) (promise : Promised V E) :
    (∀ i, s.effect.calls ≤ i → Function.update s.promises call promise i = .pending ∧
        s.finished i = false) ∧
      ∀ value key, s.result = some (value, key) → ∃ i < s.effect.calls,
        Function.update s.promises call promise i = .resolved value ∧ s.keys i = key := by
  refine ⟨fun i hi => ?_, fun value key hresult => ?_⟩
  · rw [Function.update_of_ne (by omega)]
    exact h.unmade i hi
  · obtain ⟨i, hi, hresolved, hkey⟩ := h.origin value key hresult
    refine ⟨i, hi, ?_, hkey⟩
    rw [Function.update_of_ne]
    · exact hresolved
    · rintro rfl
      rw [hpending] at hresolved
      cases hresolved

/-- The last call is another one than a call that is aborted. -/
theorem Sound.ne_last (h : s.Sound) (haborted : s.effect.aborted call = true) {i : ℕ}
    (hlast : s.effect.calls = i + 1) : i ≠ call := by
  rintro rfl
  have hkept := (h.effect i (by omega)).mpr hlast.symm
  rw [haborted] at hkept
  cases hkept

theorem Sound.resolve (h : s.Sound) (hmade : call < s.effect.calls)
    (hpending : s.promises call = .pending) (value : V) : (s.resolve call value).Sound := by
  obtain ⟨hunmade, horigin⟩ := h.record hmade hpending (.resolved value)
  unfold UseAsync.resolve
  dsimp only
  split_ifs with haborted
  · refine ⟨h.effect, h.fresh, hunmade, h.idle, fun i hi => ?_, horigin⟩
    have hne := h.ne_last haborted hi
    obtain ⟨hkey, hloading, hunfinished, houtcome⟩ := h.last i hi
    refine ⟨hkey, hloading, ?_, ?_⟩
    · dsimp only
      rwa [Function.update_of_ne hne]
    · dsimp only
      rwa [Function.update_of_ne hne]
  · have hlast := h.eq_last hmade (Bool.eq_false_iff.mpr haborted)
    refine ⟨h.effect, h.fresh, hunmade, h.idle, fun i hi => ?_, ?_⟩
    · obtain rfl : i = call := by
        dsimp only at hi
        omega
      obtain ⟨hkey, hloading, -, houtcome⟩ := h.last i hlast
      rw [hpending] at houtcome
      refine ⟨hkey, hloading, ?_, ?_⟩
      · dsimp only
        rw [Function.update_self]
        exact nofun
      · dsimp only
        rw [Function.update_self]
        exact ⟨rfl, houtcome⟩
    · rintro _ _ ⟨⟩
      exact ⟨call, hmade, Function.update_self .., rfl⟩

theorem Sound.reject (h : s.Sound) (hmade : call < s.effect.calls)
    (hpending : s.promises call = .pending) (cause : E) : (s.reject call cause).Sound := by
  obtain ⟨hunmade, horigin⟩ := h.record hmade hpending (.rejected cause)
  unfold UseAsync.reject
  dsimp only
  split_ifs with haborted
  · refine ⟨h.effect, h.fresh, hunmade, h.idle, fun i hi => ?_, horigin⟩
    have hne := h.ne_last haborted hi
    obtain ⟨hkey, hloading, hunfinished, houtcome⟩ := h.last i hi
    refine ⟨hkey, hloading, ?_, ?_⟩
    · dsimp only
      rwa [Function.update_of_ne hne]
    · dsimp only
      rwa [Function.update_of_ne hne]
  · have hlast := h.eq_last hmade (Bool.eq_false_iff.mpr haborted)
    refine ⟨h.effect, h.fresh, hunmade, h.idle, fun i hi => ?_, horigin⟩
    obtain rfl : i = call := by
      dsimp only at hi
      omega
    obtain ⟨hkey, hloading, -, -⟩ := h.last i hlast
    refine ⟨hkey, hloading, ?_, ?_⟩
    · dsimp only
      rw [Function.update_self]
      exact nofun
    · dsimp only
      rw [Function.update_self]

theorem Sound.settle (h : s.Sound) (hended : s.promises call ≠ .pending) :
    (s.settle call).Sound := by
  have hmade := h.made hended
  have hunmade (i : ℕ) (hi : s.effect.calls ≤ i) :
      s.promises i = .pending ∧ Function.update s.finished call true i = false := by
    rw [Function.update_of_ne (by omega)]
    exact h.unmade i hi
  unfold UseAsync.settle
  dsimp only
  split_ifs with haborted
  · refine ⟨h.effect, h.fresh, hunmade, h.idle, fun i hi => ?_, h.origin⟩
    have hne := h.ne_last haborted hi
    obtain ⟨hkey, hloading, hunfinished, houtcome⟩ := h.last i hi
    refine ⟨hkey, ?_, ?_, houtcome⟩
    · dsimp only
      rwa [Function.update_of_ne hne]
    · dsimp only
      rwa [Function.update_of_ne hne]
  · have hlast := h.eq_last hmade (Bool.eq_false_iff.mpr haborted)
    refine ⟨h.effect, h.fresh, hunmade, h.idle, fun i hi => ?_, h.origin⟩
    obtain rfl : i = call := by
      dsimp only at hi
      omega
    obtain ⟨hkey, -, -, houtcome⟩ := h.last i hlast
    refine ⟨hkey, ?_, fun hpending => absurd hpending hended, houtcome⟩
    dsimp only
    rw [Function.update_self]
    rfl

theorem Sound.flush [DecidableEq D] [DecidableEq K] (h : s.Sound) : s.flush.Sound := by
  unfold UseAsync.flush
  split_ifs
  · refine ⟨h.effect.run h.fresh, h.fresh.run, fun i hi => ?_, ?_, fun i hi => ?_, ?_⟩
    · exact h.unmade i (Nat.le_of_succ_le hi)
    · intro hnone
      cases hnone
    · obtain rfl : i = s.effect.calls := (Nat.succ.inj hi).symm
      obtain ⟨hpending, hunfinished⟩ := h.unmade _ le_rfl
      refine ⟨?_, ?_, fun _ => hunfinished, ?_⟩
      · dsimp only
        rw [Function.update_self]
        rfl
      · dsimp only
        rw [hunfinished]
        rfl
      · dsimp only
        rw [hpending]
    · intro value key hresult
      obtain ⟨i, hi, hresolved, hkey⟩ := h.origin value key hresult
      refine ⟨i, Nat.lt_succ_of_lt hi, hresolved, ?_⟩
      dsimp only
      rwa [Function.update_of_ne (Nat.ne_of_lt hi)]
  · exact h

theorem sound_step [DecidableEq D] [DecidableEq K] {event : AsyncEvent D K V E} (h : s.Sound)
    (hstep : s.step event = some s') : s'.Sound := by
  cases event with
  | render deps resetKey =>
    cases hstep
    exact ⟨h.effect, h.fresh, h.unmade, h.idle, fun i hi => by
      obtain ⟨hkey, hloading, hunfinished, houtcome⟩ := h.last i hi
      exact ⟨hkey, hloading, hunfinished, houtcome⟩, h.origin⟩
  | flush =>
    cases hstep
    exact h.flush
  | resolve call value =>
    simp only [step] at hstep
    split_ifs at hstep with hopen
    cases hstep
    exact h.resolve hopen.2 (Promised.isPending_iff.mp hopen.1) value
  | reject call cause =>
    simp only [step] at hstep
    split_ifs at hstep with hopen
    cases hstep
    exact h.reject hopen.2 (Promised.isPending_iff.mp hopen.1) cause
  | settle call =>
    simp only [step] at hstep
    split_ifs at hstep with hopen
    cases hstep
    exact h.settle fun hpending => hopen (.inl (Promised.isPending_iff.mpr hpending))
  | reload =>
    cases hstep
    exact ⟨h.effect, h.fresh, h.unmade, h.idle, fun i hi => by
      obtain ⟨hkey, hloading, hunfinished, houtcome⟩ := h.last i hi
      exact ⟨hkey, hloading, hunfinished, houtcome⟩, h.origin⟩

/-- What follows the end of a call that is not the last one is not shown. -/
theorem Sound.late [DecidableEq D] [DecidableEq K] {event : AsyncEvent D K V E} (h : s.Sound)
    (hcall : event.call? = some call) (hlate : s.effect.calls ≠ call + 1)
    (hstep : s.step event = some s') :
    s'.data = s.data ∧ s'.error = s.error ∧ s'.isLoading = s.isLoading := by
  have haborted (hmade : call < s.effect.calls) : s.effect.aborted call = true := by
    by_contra hkept
    exact hlate (h.eq_last hmade (Bool.eq_false_iff.mpr hkept))
  cases event with
  | resolve call value =>
    cases hcall
    simp only [step] at hstep
    split_ifs at hstep with hopen
    cases hstep
    unfold UseAsync.resolve
    dsimp only
    rw [if_pos (haborted hopen.2)]
    exact ⟨rfl, rfl, rfl⟩
  | reject call cause =>
    cases hcall
    simp only [step] at hstep
    split_ifs at hstep with hopen
    cases hstep
    unfold UseAsync.reject
    dsimp only
    rw [if_pos (haborted hopen.2)]
    exact ⟨rfl, rfl, rfl⟩
  | settle call =>
    cases hcall
    simp only [step] at hstep
    split_ifs at hstep with hopen
    cases hstep
    have hmade : call < s.effect.calls :=
      h.made fun hpending => hopen (.inl (Promised.isPending_iff.mpr hpending))
    unfold UseAsync.settle
    dsimp only
    rw [if_pos (haborted hmade)]
    exact ⟨rfl, rfl, rfl⟩
  | render deps resetKey => cases hcall
  | flush => cases hcall
  | reload => cases hcall

/-- What a hook shows is of its present target, and once the effect has run for the last render it
is what became of the last call: the hook is loading until the call is over, and shows its value
or its error. The ends of earlier calls, which may come at any time, change nothing. -/
theorem shown_of_run [DecidableEq D] [DecidableEq K] {deps : D} {resetKey : K}
    (hrun : RunOf step anyEvent (mounted deps resetKey : UseAsync D K V E) s) :
    (∀ value, s.data = some value → ∃ call < s.effect.calls,
      s.promises call = .resolved value ∧ s.keys call = s.resetKey) ∧
    (¬ s.effect.Due s.dependencies → ∃ call, s.effect.calls = call + 1 ∧
      s.keys call = s.resetKey ∧ s.isLoading = !s.finished call ∧
        match s.promises call with
        | .pending => s.isLoading = true ∧ s.error = none
        | .resolved value => s.data = some value ∧ s.error = none
        | .rejected cause => s.error = some cause) ∧
    ∀ event call s', event.call? = some call → s.effect.calls ≠ call + 1 →
      s.step event = some s' →
        s'.data = s.data ∧ s'.error = s.error ∧ s'.isLoading = s.isLoading := by
  have h : s.Sound := hrun.invariant (P := Sound)
    (fun s event s' h _ hstep => sound_step h hstep) (sound_mounted deps resetKey)
  refine ⟨fun value hdata => ?_, fun hdue => ?_, fun event call s' => h.late⟩
  · unfold data at hdata
    split at hdata
    · next found key hresult =>
      split_ifs at hdata with hkey
      cases hdata
      obtain ⟨call, hmade, hresolved, hkeys⟩ := h.origin value key hresult
      exact ⟨call, hmade, hresolved, hkeys.trans hkey⟩
    · cases hdata
  · have hran : s.effect.ran = some s.dependencies := not_not.mp hdue
    obtain ⟨call, hcalls⟩ := Nat.exists_eq_succ_of_ne_zero fun hzero => by
      cases (h.idle hzero).symm.trans hran
    obtain ⟨hkey, hloading, hunfinished, houtcome⟩ := h.last call hcalls
    rw [hran] at hkey
    have hkeys : s.keys call = s.resetKey := (Option.some.inj hkey).symm
    refine ⟨call, hcalls, hkeys, hloading, ?_⟩
    cases hpromise : s.promises call with
    | pending =>
      rw [hpromise] at houtcome
      exact ⟨by rw [hloading, hunfinished hpromise]; rfl, houtcome⟩
    | resolved value =>
      rw [hpromise] at houtcome
      refine ⟨?_, houtcome.2⟩
      unfold data
      rw [houtcome.1]
      exact if_pos hkeys
    | rejected cause =>
      rw [hpromise] at houtcome
      exact houtcome

/-- The target changes while it is loaded, and the first answer comes last. -/
theorem shown_of_run_late :
    ∃ s : UseAsync ℕ ℕ ℕ ℕ,
      replay step (mounted 0 0) [.flush, .render 1 1, .flush, .resolve 1 7, .settle 1,
        .resolve 0 3] = some s ∧ s.data = some 7 ∧ s.isLoading = false ∧ s.error = none := by
  have hreplay : replay step (mounted 0 0 : UseAsync ℕ ℕ ℕ ℕ) [.flush, .render 1 1, .flush,
      .resolve 1 7, .settle 1, .resolve 0 3] = some _ := rfl
  have hrun : RunOf step anyEvent (mounted 0 0 : UseAsync ℕ ℕ ℕ ℕ) _ :=
    runOf_replay (fun _ _ _ => trivial) hreplay
  obtain ⟨-, hshown, -⟩ := shown_of_run hrun
  obtain ⟨call, hcalls, -, hloading, houtcome⟩ := hshown fun hdue => hdue rfl
  obtain rfl : call = 1 := by cases hcalls; rfl
  exact ⟨_, hreplay, houtcome.1, hloading, houtcome.2⟩

end UseAsync

/-! ## The list of sources -/

/-- `isPending` -/
def isPending : SourceStatus → Bool
  | .queued | .enqueuePending | .processing => true
  | _ => false

/-- A source in the list; `rest` is what is shown of it besides. -/
structure ListedSource (Id M : Type) where
  id : Id
  status : SourceStatus
  rest : M

/-- `ProcessingJob`, as far as it is read. -/
structure ProcessingJob (Id : Type) where
  sourceId : Id
  status : SourceStatus
  progress : Rat

/-- The state of `useLiveSources`: what the last render was called with, the states and the refs
with the workspaces they belong to, and the calls of `listSources` with their workspaces. -/
structure LiveSources (W Id M E : Type) where
  workspaceId : W
  watchReviewStates : Bool
  snapshot : Option (W × List (ListedSource Id M))
  progressState : Option (W × (Id → Option Rat))
  errorState : Option (W × E)
  nonce : ℕ
  settled : W × (Id → Option SourceStatus)
  invalidated : W × (Id → Bool)
  effect : Effect (W × ℕ)
  workspaces : ℕ → W
  promises : ℕ → Promised (List (ListedSource Id M)) E

/-- What happens to the list: a render, the effect after a commit, the ends of calls, what the
channel reports, and `reload` by the user or by the event of the window. -/
inductive LiveEvent (W Id M E : Type) where
  | render (workspaceId : W) (watchReviewStates : Bool)
  | flush
  | resolve (call : ℕ) (data : List (ListedSource Id M))
  | reject (call : ℕ) (cause : E)
  | job (job : ProcessingJob Id)
  | invalid (sourceId : Id)
  | reload

namespace LiveSources

variable {W Id M E : Type}

section Definitions

/-- The first render. -/
def mounted (workspaceId : W) (watchReviewStates : Bool) : LiveSources W Id M E where
  workspaceId := workspaceId
  watchReviewStates := watchReviewStates
  snapshot := none
  progressState := none
  errorState := none
  nonce := 0
  settled := (workspaceId, fun _ => none)
  invalidated := (workspaceId, fun _ => false)
  effect := .new
  workspaces _ := workspaceId
  promises _ := .pending

variable [DecidableEq W] [DecidableEq Id]

/-- What is kept for the present workspace. -/
def present {α : Type} (s : LiveSources W Id M E) : Option (W × α) → Option α
  | some (workspaceId, value) => if workspaceId = s.workspaceId then some value else none
  | none => none

/-- `sources` -/
def sources (s : LiveSources W Id M E) : Option (List (ListedSource Id M)) := s.present s.snapshot

/-- `progress` -/
def progress (s : LiveSources W Id M E) : Id → Option Rat :=
  (s.present s.progressState).getD fun _ => none

/-- `error` -/
def error (s : LiveSources W Id M E) : Option E := s.present s.errorState

/-- `isLoading` -/
def isLoading (s : LiveSources W Id M E) : Bool := s.sources.isNone && s.error.isNone

/-- The ids that the channel is asked to watch. -/
def watched (s : LiveSources W Id M E) : List Id :=
  ((s.sources.getD []).filter fun source => isPending source.status ||
    (s.watchReviewStates && (source.status == .awaitingReview || source.status == .awaitingAgent))
      ).map (·.id)

/-- `reload` -/
def reload (s : LiveSources W Id M E) : LiveSources W Id M E :=
  { s with errorState := none, nonce := s.nonce + 1 }

/-- A render; the refs of another workspace are replaced. -/
def render (s : LiveSources W Id M E) (workspaceId : W) (watchReviewStates : Bool) :
    LiveSources W Id M E :=
  { s with
    workspaceId
    watchReviewStates
    settled := if s.settled.1 = workspaceId then s.settled else (workspaceId, fun _ => none)
    invalidated :=
      if s.invalidated.1 = workspaceId then s.invalidated else (workspaceId, fun _ => false) }

/-- The dependencies of the effect have changed. -/
def Due (s : LiveSources W Id M E) : Prop := s.effect.Due (s.workspaceId, s.nonce)

instance (s : LiveSources W Id M E) : Decidable s.Due :=
  inferInstanceAs (Decidable (s.effect.Due _))

/-- The effect, if its dependencies have changed. -/
def flush (s : LiveSources W Id M E) : LiveSources W Id M E :=
  if s.Due then
    { s with
      effect := s.effect.run (s.workspaceId, s.nonce)
      workspaces := Function.update s.workspaces s.effect.calls s.workspaceId }
  else s

/-- What a source of the list says about the settled statuses. -/
def note (statuses : Id → Option SourceStatus) (source : ListedSource Id M) :
    Id → Option SourceStatus :=
  Function.update statuses source.id (if isPending source.status then none else some source.status)

/-- A list is answered. -/
def resolve (s : LiveSources W Id M E) (call : ℕ) (data : List (ListedSource Id M)) :
    LiveSources W Id M E :=
  let workspaceId := s.workspaces call
  let s := { s with promises := Function.update s.promises call (.resolved data) }
  if s.effect.aborted call then s
  else { s with
    snapshot := some (workspaceId, data)
    settled :=
      if s.settled.1 = workspaceId then (s.settled.1, data.foldl note s.settled.2) else s.settled
    invalidated :=
      if s.invalidated.1 = workspaceId then
        (s.invalidated.1, fun id =>
          s.invalidated.2 id && data.any fun source => decide (source.id = id))
      else s.invalidated
    errorState := none }

/-- A list is refused. -/
def reject (s : LiveSources W Id M E) (call : ℕ) (cause : E) : LiveSources W Id M E :=
  let workspaceId := s.workspaces call
  let s := { s with promises := Function.update s.promises call (.rejected cause) }
  if s.effect.aborted call then s else { s with errorState := some (workspaceId, cause) }

/-- The list with another status for the first source with the id. -/
def withStatus (id : Id) (status : SourceStatus) :
    List (ListedSource Id M) → List (ListedSource Id M)
  | [] => []
  | source :: rest =>
    if source.id = id then { source with status } :: rest
    else source :: withStatus id status rest

/-- `onJob` -/
def onJob (s : LiveSources W Id M E) (job : ProcessingJob Id) : LiveSources W Id M E :=
  let s := { s with
    snapshot := s.snapshot.map fun current =>
      if current.1 = s.workspaceId then
        (s.workspaceId, withStatus job.sourceId job.status current.2)
      else current
    progressState :=
      some (s.workspaceId, Function.update s.progress job.sourceId (some job.progress)) }
  if !isPending job.status && decide (s.settled.1 = s.workspaceId) &&
      decide (s.settled.2 job.sourceId ≠ some job.status) then
    { s with
      settled :=
        (s.settled.1, Function.update s.settled.2 job.sourceId (some job.status)) }.reload
  else s

/-- The channel reports that a source cannot be watched. -/
def onInvalid (s : LiveSources W Id M E) (sourceId : Id) : LiveSources W Id M E :=
  if s.invalidated.1 ≠ s.workspaceId ∨ s.invalidated.2 sourceId then s
  else
    { s with
      invalidated := (s.invalidated.1, Function.update s.invalidated.2 sourceId true) }.reload

/-- What an event does, where it can happen. -/
def step (s : LiveSources W Id M E) : LiveEvent W Id M E → Option (LiveSources W Id M E)
  | .render workspaceId watchReviewStates => some (s.render workspaceId watchReviewStates)
  | .flush => some s.flush
  | .resolve call data =>
    if (s.promises call).isPending ∧ call < s.effect.calls then some (s.resolve call data)
    else none
  | .reject call cause =>
    if (s.promises call).isPending ∧ call < s.effect.calls then some (s.reject call cause)
    else none
  | .job job => some (s.onJob job)
  | .invalid sourceId => some (s.onInvalid sourceId)
  | .reload => some s.reload

end Definitions

variable [DecidableEq W] [DecidableEq Id] {s s' : LiveSources W Id M E} {call : ℕ} {id : Id}
  {status : SourceStatus} {job : ProcessingJob Id}

/-! ### What every state keeps -/

/-- The refs are those of the present workspace, and the last run of the effect was for its
dependencies then. -/
structure Sound (s : LiveSources W Id M E) : Prop where
  effect : s.effect.Sound
  fresh : s.effect.Fresh
  unmade : ∀ call, s.effect.calls ≤ call → s.promises call = .pending
  settled : s.settled.1 = s.workspaceId
  invalidated : s.invalidated.1 = s.workspaceId
  ran : ∀ workspaceId nonce, s.effect.ran = some (workspaceId, nonce) → nonce ≤ s.nonce ∧
    ∃ call, s.effect.calls = call + 1 ∧ s.workspaces call = workspaceId

omit [DecidableEq W] [DecidableEq Id] in
theorem sound_mounted (workspaceId : W) (watchReviewStates : Bool) :
    (mounted workspaceId watchReviewStates : LiveSources W Id M E).Sound where
  effect := Effect.sound_new
  fresh := Effect.fresh_new
  unmade _ _ := rfl
  settled := rfl
  invalidated := rfl
  ran _ _ h := by cases h

omit [DecidableEq W] [DecidableEq Id] in
theorem Sound.reloaded (h : s.Sound) : s.reload.Sound where
  effect := h.effect
  fresh := h.fresh
  unmade := h.unmade
  settled := h.settled
  invalidated := h.invalidated
  ran workspaceId nonce hran :=
    ⟨Nat.le_succ_of_le (h.ran workspaceId nonce hran).1, (h.ran workspaceId nonce hran).2⟩

omit [DecidableEq W] [DecidableEq Id] in
/-- After `reload` the effect is due. -/
theorem Sound.due_reload (h : s.Sound) : s.reload.Due := by
  intro hran
  have hle : s.nonce + 1 ≤ s.nonce := (h.ran _ _ hran).1
  omega

theorem Sound.onJob (h : s.Sound) : (s.onJob job).Sound := by
  unfold LiveSources.onJob
  dsimp only
  split_ifs
  · exact Sound.reloaded ⟨h.effect, h.fresh, h.unmade, h.settled, h.invalidated, h.ran⟩
  · exact ⟨h.effect, h.fresh, h.unmade, h.settled, h.invalidated, h.ran⟩

theorem Sound.onInvalid (h : s.Sound) : (s.onInvalid id).Sound := by
  unfold LiveSources.onInvalid
  split_ifs
  · exact h
  · exact Sound.reloaded ⟨h.effect, h.fresh, h.unmade, h.settled, h.invalidated, h.ran⟩

omit [DecidableEq Id] in
theorem Sound.flush (h : s.Sound) : s.flush.Sound := by
  unfold LiveSources.flush
  split_ifs
  · refine ⟨h.effect.run h.fresh, h.fresh.run, fun i hi => h.unmade i (Nat.le_of_succ_le hi),
      h.settled, h.invalidated, ?_⟩
    rintro _ _ ⟨⟩
    exact ⟨le_rfl, _, rfl, Function.update_self ..⟩
  · exact h

omit [DecidableEq W] [DecidableEq Id] in
/-- The end of a call is recorded. -/
theorem Sound.unmade_update (h : s.Sound) (hmade : call < s.effect.calls)
    (promise : Promised (List (ListedSource Id M)) E) :
    ∀ i, s.effect.calls ≤ i → Function.update s.promises call promise i = .pending := by
  intro i hi
  rw [Function.update_of_ne (by omega)]
  exact h.unmade i hi

theorem Sound.resolve (h : s.Sound) (hmade : call < s.effect.calls)
    (data : List (ListedSource Id M)) : (s.resolve call data).Sound := by
  have hunmade := h.unmade_update hmade (.resolved data)
  unfold LiveSources.resolve
  dsimp only
  split_ifs
  all_goals exact ⟨h.effect, h.fresh, hunmade, h.settled, h.invalidated, h.ran⟩

omit [DecidableEq W] [DecidableEq Id] in
theorem Sound.reject (h : s.Sound) (hmade : call < s.effect.calls) (cause : E) :
    (s.reject call cause).Sound := by
  have hunmade := h.unmade_update hmade (.rejected cause)
  unfold LiveSources.reject
  dsimp only
  split_ifs
  all_goals exact ⟨h.effect, h.fresh, hunmade, h.settled, h.invalidated, h.ran⟩

theorem sound_step {event : LiveEvent W Id M E} (h : s.Sound)
    (hstep : s.step event = some s') : s'.Sound := by
  cases event with
  | render workspaceId watchReviewStates =>
    cases hstep
    refine ⟨h.effect, h.fresh, h.unmade, ?_, ?_, h.ran⟩
    · unfold LiveSources.render
      dsimp only
      split_ifs with heq
      · exact heq
      · rfl
    · unfold LiveSources.render
      dsimp only
      split_ifs with heq
      · exact heq
      · rfl
  | flush =>
    cases hstep
    exact h.flush
  | resolve call data =>
    simp only [step] at hstep
    split_ifs at hstep with hopen
    cases hstep
    exact h.resolve hopen.2 data
  | reject call cause =>
    simp only [step] at hstep
    split_ifs at hstep with hopen
    cases hstep
    exact h.reject hopen.2 cause
  | job job =>
    cases hstep
    exact h.onJob
  | invalid sourceId =>
    cases hstep
    exact h.onInvalid
  | reload =>
    cases hstep
    exact h.reloaded

/-! ### A settled job is not lost -/

/-- What the list shows for an id. -/
def Shows (sources : List (ListedSource Id M)) (id : Id) (status : SourceStatus) : Prop :=
  ∀ source, (sources.find? fun source => decide (source.id = id)) = some source →
    source.status = status

theorem shows_withStatus (sources : List (ListedSource Id M)) :
    Shows (withStatus id status sources) id status := by
  induction sources with
  | nil => exact nofun
  | cons first rest ih =>
    intro source hfind
    unfold withStatus at hfind
    by_cases hid : first.id = id
    · rw [if_pos hid, List.find?_cons_of_pos (by simpa using hid)] at hfind
      cases hfind
      rfl
    · rw [if_neg hid, List.find?_cons_of_neg (by simpa using hid)] at hfind
      exact ih source hfind

theorem find?_withStatus {other : Id} (hne : other ≠ id) (sources : List (ListedSource Id M)) :
    ((withStatus other status sources).find? fun source => decide (source.id = id)) =
      sources.find? fun source => decide (source.id = id) := by
  induction sources with
  | nil => rfl
  | cons first rest ih =>
    unfold withStatus
    by_cases hother : first.id = other
    · have hid : first.id ≠ id := fun h => hne (hother.symm.trans h)
      rw [if_pos hother, List.find?_cons_of_neg (by simpa using hid),
        List.find?_cons_of_neg (by simpa using hid)]
    · rw [if_neg hother, List.find?_cons, List.find?_cons, ih]

/-- After the sources of a list that agree on an id, the id is settled as they say. -/
theorem foldl_note {data : List (ListedSource Id M)} (hsettled : isPending status = false)
    (hdata : ∀ source ∈ data, source.id = id → source.status = status)
    (statuses : Id → Option SourceStatus)
    (hid : id ∈ data.map (·.id) ∨ statuses id = some status) :
    data.foldl note statuses id = some status := by
  induction data generalizing statuses with
  | nil => exact hid.resolve_left List.not_mem_nil
  | cons source data ih =>
    refine ih (fun other hother => hdata other (List.mem_cons_of_mem _ hother)) _ ?_
    unfold note
    by_cases heq : source.id = id
    · rw [heq, Function.update_self, hdata source (List.mem_cons_self ..) heq, hsettled]
      exact .inr rfl
    · rw [Function.update_of_ne (Ne.symm heq)]
      rcases hid with hid | hid
      · exact .inl ((List.mem_cons.mp hid).resolve_left fun h => heq h.symm)
      · exact .inr hid

/-- Later lists and later jobs say the same about the source of the job, and the workspace is not
left. -/
def Agrees (job : ProcessingJob Id) (calls : ℕ) (s : LiveSources W Id M E) :
    LiveEvent W Id M E → Prop
  | .render workspaceId _ => workspaceId = s.workspaceId
  | .resolve call data =>
    calls ≤ call → ∀ source ∈ data, source.id = job.sourceId → source.status = job.status
  | .job other => other.sourceId = job.sourceId → other.status = job.status
  | _ => True

/-- A list that was asked for later is due or on its way. -/
def Awaits (s : LiveSources W Id M E) (calls : ℕ) : Prop :=
  s.Due ∨ ∃ call, s.effect.calls = call + 1 ∧ calls ≤ call ∧ s.promises call = .pending

/-- The list shows what the job came to, and knows it. -/
def Settled (s : LiveSources W Id M E) (job : ProcessingJob Id) : Prop :=
  ∃ sources, s.sources = some sources ∧ Shows sources job.sourceId job.status ∧
    (job.sourceId ∈ sources.map (·.id) → s.settled.2 job.sourceId = some job.status)

/-- What has become of a settled job. -/
structure Kept (s : LiveSources W Id M E) (job : ProcessingJob Id) (calls : ℕ) : Prop where
  newer : s.Due ∨ calls < s.effect.calls
  shown : s.Awaits calls ∨ s.error.isSome ∨ s.Settled job

theorem kept_of_due {calls : ℕ} (hdue : s.Due) : s.Kept job calls := ⟨.inl hdue, .inl (.inl hdue)⟩

theorem Kept.flush {calls : ℕ} (h : s.Kept job calls) (hsound : s.Sound)
    (hcalls : calls ≤ s.effect.calls) : s.flush.Kept job calls := by
  unfold LiveSources.flush
  split_ifs
  · refine ⟨.inr (Nat.lt_succ_of_le hcalls), .inl (.inr ⟨s.effect.calls, rfl, hcalls, ?_⟩)⟩
    exact hsound.unmade _ le_rfl
  · exact h

/-- The end of a call that is aborted. -/
theorem Kept.late {calls : ℕ} (h : s.Kept job calls) (hsound : s.Sound)
    (hmade : call < s.effect.calls) (haborted : s.effect.aborted call = true)
    (promise : Promised (List (ListedSource Id M)) E) :
    ({ s with promises := Function.update s.promises call promise }).Kept job calls := by
  refine ⟨h.newer, h.shown.imp_left ?_⟩
  rintro (hdue | ⟨last, hlast, hnewer, hopen⟩)
  · exact .inl hdue
  · refine .inr ⟨last, hlast, hnewer, ?_⟩
    dsimp only
    rw [Function.update_of_ne]
    · exact hopen
    · rintro rfl
      rw [(hsound.effect last hmade).mpr hlast.symm] at haborted
      cases haborted

omit [DecidableEq W] [DecidableEq Id] in
/-- A call that is not aborted when nothing is due was made for the present workspace. -/
theorem Sound.present_call (h : s.Sound) (hdue : ¬ s.Due) (hmade : call < s.effect.calls)
    (haborted : s.effect.aborted call = false) :
    s.effect.calls = call + 1 ∧ s.workspaces call = s.workspaceId := by
  have hlast : call + 1 = s.effect.calls := (h.effect call hmade).mp haborted
  obtain ⟨-, last, hcalls, hworkspace⟩ := h.ran _ _ (not_not.mp hdue)
  obtain rfl : last = call := by omega
  exact ⟨hcalls, hworkspace⟩

theorem Kept.resolve {calls : ℕ} (h : s.Kept job calls) (hsound : s.Sound)
    (hsettled : isPending job.status = false) (hmade : call < s.effect.calls)
    {data : List (ListedSource Id M)} (hdata : calls ≤ call → ∀ source ∈ data,
      source.id = job.sourceId → source.status = job.status) :
    (s.resolve call data).Kept job calls := by
  by_cases haborted : s.effect.aborted call = true
  · unfold LiveSources.resolve
    dsimp only
    rw [if_pos haborted]
    exact h.late hsound hmade haborted _
  unfold LiveSources.resolve
  dsimp only
  rw [if_neg haborted]
  by_cases hdue : s.Due
  · exact kept_of_due hdue
  obtain ⟨hlast, hworkspace⟩ := hsound.present_call hdue hmade (Bool.eq_false_iff.mpr haborted)
  have hafter := h.newer.resolve_left hdue
  have hnewer : calls ≤ call := by omega
  refine ⟨.inr hafter, .inr (.inr ⟨data, if_pos hworkspace, fun source hfind => ?_, fun hid => ?_⟩)⟩
  · have hfound := List.find?_some hfind
    exact hdata hnewer source (List.mem_of_find?_eq_some hfind) (by simpa using hfound)
  · rw [if_pos (hsound.settled.trans hworkspace.symm)]
    exact foldl_note hsettled (hdata hnewer) _ (.inl hid)

theorem Kept.reject {calls : ℕ} (h : s.Kept job calls) (hsound : s.Sound)
    (hmade : call < s.effect.calls) (cause : E) : (s.reject call cause).Kept job calls := by
  by_cases haborted : s.effect.aborted call = true
  · unfold LiveSources.reject
    dsimp only
    rw [if_pos haborted]
    exact h.late hsound hmade haborted _
  unfold LiveSources.reject
  dsimp only
  rw [if_neg haborted]
  by_cases hdue : s.Due
  · exact kept_of_due hdue
  obtain ⟨-, hworkspace⟩ := hsound.present_call hdue hmade (Bool.eq_false_iff.mpr haborted)
  exact ⟨.inr (h.newer.resolve_left hdue),
    .inr (.inl (Option.isSome_of_eq_some (if_pos hworkspace)))⟩

theorem map_id_withStatus (sources : List (ListedSource Id M)) :
    (withStatus id status sources).map (·.id) = sources.map (·.id) := by
  induction sources with
  | nil => rfl
  | cons first rest ih =>
    unfold withStatus
    split_ifs
    · rfl
    · rw [List.map_cons, List.map_cons, ih]

theorem Kept.onJob {calls : ℕ} (h : s.Kept job calls) (hsound : s.Sound)
    {other : ProcessingJob Id}
    (hother : other.sourceId = job.sourceId → other.status = job.status) :
    (s.onJob other).Kept job calls := by
  unfold LiveSources.onJob
  dsimp only
  split_ifs
  · have hbefore : ({ s with
        snapshot := s.snapshot.map fun current =>
          if current.1 = s.workspaceId then
            (s.workspaceId, withStatus other.sourceId other.status current.2)
          else current
        progressState :=
          some (s.workspaceId, Function.update s.progress other.sourceId (some other.progress))
        settled := (s.settled.1, Function.update s.settled.2 other.sourceId (some other.status)) } :
          LiveSources W Id M E).Sound :=
      ⟨hsound.effect, hsound.fresh, hsound.unmade, hsound.settled, hsound.invalidated, hsound.ran⟩
    exact kept_of_due hbefore.due_reload
  · refine ⟨h.newer, h.shown.imp_right (Or.imp_right ?_)⟩
    rintro ⟨sources, hsources, hshows, hknown⟩
    have hsnapshot : s.snapshot = some (s.workspaceId, sources) := by
      unfold LiveSources.sources present at hsources
      split at hsources
      · next workspaceId value heq =>
        split_ifs at hsources with hworkspace
        cases hsources
        rw [heq, hworkspace]
      · cases hsources
    refine ⟨withStatus other.sourceId other.status sources, ?_, fun source hfind => ?_,
      fun hid => ?_⟩
    · unfold LiveSources.sources present
      dsimp only
      rw [hsnapshot, Option.map_some]
      dsimp only
      rw [if_pos rfl]
      exact if_pos rfl
    · by_cases hsame : other.sourceId = job.sourceId
      · rw [hsame, hother hsame] at hfind
        exact shows_withStatus sources source hfind
      · rw [find?_withStatus hsame] at hfind
        exact hshows source hfind
    · rw [map_id_withStatus] at hid
      exact hknown hid

theorem Kept.onInvalid {calls : ℕ} (h : s.Kept job calls) (hsound : s.Sound) :
    (s.onInvalid id).Kept job calls := by
  unfold LiveSources.onInvalid
  split_ifs
  · exact h
  · have hbefore : ({ s with
        invalidated := (s.invalidated.1, Function.update s.invalidated.2 id true) } :
          LiveSources W Id M E).Sound :=
      ⟨hsound.effect, hsound.fresh, hsound.unmade, hsound.settled, hsound.invalidated, hsound.ran⟩
    exact kept_of_due hbefore.due_reload

theorem kept_step {calls : ℕ} {event : LiveEvent W Id M E} (h : s.Kept job calls)
    (hsound : s.Sound) (hcalls : calls ≤ s.effect.calls)
    (hsettled : isPending job.status = false) (hagrees : Agrees job calls s event)
    (hstep : s.step event = some s') : s'.Kept job calls := by
  cases event with
  | render workspaceId watchReviewStates =>
    cases hstep
    cases hagrees
    refine ⟨h.newer, h.shown.imp_right (Or.imp_right ?_)⟩
    rintro ⟨sources, hsources, hshows, hknown⟩
    refine ⟨sources, hsources, hshows, fun hid => ?_⟩
    unfold LiveSources.render
    dsimp only
    rw [if_pos hsound.settled]
    exact hknown hid
  | flush =>
    cases hstep
    exact h.flush hsound hcalls
  | resolve call data =>
    simp only [step] at hstep
    split_ifs at hstep with hopen
    cases hstep
    exact h.resolve hsound hsettled hopen.2 hagrees
  | reject call cause =>
    simp only [step] at hstep
    split_ifs at hstep with hopen
    cases hstep
    exact h.reject hsound hopen.2 cause
  | job other =>
    cases hstep
    exact h.onJob hsound hagrees
  | invalid sourceId =>
    cases hstep
    exact h.onInvalid hsound
  | reload =>
    cases hstep
    exact kept_of_due hsound.due_reload

end LiveSources

end Maeglagi.Hooks
