import Mathlib.Data.List.Basic

/-!
# Computations made of calls

A computation calls services by name and may handle what they raise. A plan says how each call
ends: a call that raises may have taken effect, and the process may stop instead of calling.
-/

namespace Maeglagi.Core

variable {κ σ ε α β : Type}

/-- How a call ends. -/
inductive Fate where
  | ok
  | raised (effect : Bool)
  | stopped
  deriving DecidableEq, Repr

/-- The call takes effect. -/
def Fate.effective : Fate → Bool
  | .ok => true
  | .raised effect => effect
  | .stopped => false

/-- How a computation ends. -/
inductive Ending (ε α : Type) where
  | returned (value : α)
  | raised (error : ε)
  | stopped
  deriving DecidableEq, Repr

/-- A computation on a state, whose calls end as planned. -/
structure Calls (κ σ ε α : Type) where
  run : (κ → Fate) → σ → Ending ε α × σ

namespace Calls

/-- What follows a computation, if it returns. -/
def bind (m : Calls κ σ ε α) (f : α → Calls κ σ ε β) : Calls κ σ ε β where
  run plan s :=
    match m.run plan s with
    | (.returned value, s') => (f value).run plan s'
    | (.raised error, s') => (.raised error, s')
    | (.stopped, s') => (.stopped, s')

instance instMonad : Monad (Calls κ σ ε) where
  pure value := ⟨fun _ s => (.returned value, s)⟩
  bind := bind

/-- `raise` -/
def raise (error : ε) : Calls κ σ ε α := ⟨fun _ s => (.raised error, s)⟩

/-- `try` with a handler of everything that is raised. -/
def onRaise (m : Calls κ σ ε α) (handler : ε → Calls κ σ ε α) : Calls κ σ ε α where
  run plan s :=
    match m.run plan s with
    | (.raised error, s') => (handler error).run plan s'
    | result => result

/-- A computation without calls. -/
def of : Except ε α → Calls κ σ ε α
  | .ok value => pure value
  | .error error => raise error

/-- A call that reads and changes the state. -/
def call (name : κ) (failure : ε) (answer : σ → α) (effect : σ → σ) :
    Calls κ σ ε α where
  run plan s :=
    match plan name with
    | .ok => (.returned (answer s), effect s)
    | .raised effective => (.raised failure, if effective then effect s else s)
    | .stopped => (.stopped, s)

/-- A call that changes nothing. -/
abbrev ask (name : κ) (failure : ε) (answer : σ → α) : Calls κ σ ε α := call name failure answer id

/-- A call that answers nothing. -/
abbrev tell (name : κ) (failure : ε) (effect : σ → σ) : Calls κ σ ε Unit :=
  call name failure (fun _ => ()) effect

section Rules

variable {plan : κ → Fate} {s s' : σ}

@[simp] theorem run_pure (value : α) :
    (pure value : Calls κ σ ε α).run plan s = (.returned value, s) := rfl

@[simp] theorem run_raise (error : ε) :
    (raise error : Calls κ σ ε α).run plan s = (.raised error, s) := rfl

theorem bind_returned {m : Calls κ σ ε α} {f : α → Calls κ σ ε β} {value : α}
    (h : m.run plan s = (.returned value, s')) : (m >>= f).run plan s = (f value).run plan s' := by
  show (bind m f).run plan s = _
  simp only [bind, h]

theorem bind_raised {m : Calls κ σ ε α} {f : α → Calls κ σ ε β} {error : ε}
    (h : m.run plan s = (.raised error, s')) : (m >>= f).run plan s = (.raised error, s') := by
  show (bind m f).run plan s = _
  simp only [bind, h]

theorem bind_stopped {m : Calls κ σ ε α} {f : α → Calls κ σ ε β}
    (h : m.run plan s = (.stopped, s')) : (m >>= f).run plan s = (.stopped, s') := by
  show (bind m f).run plan s = _
  simp only [bind, h]

/-- What is returned in the end does not change the state. -/
theorem run_bind_pure (m : Calls κ σ ε α) (f : α → β) :
    ((m >>= fun value => pure (f value)).run plan s).2 = (m.run plan s).2 := by
  cases hrun : m.run plan s with
  | mk ending after =>
    cases ending with
    | returned value => rw [bind_returned hrun, run_pure]
    | raised error => rw [bind_raised hrun]
    | stopped => rw [bind_stopped hrun]

theorem onRaise_returned {m : Calls κ σ ε α} {handler : ε → Calls κ σ ε α} {value : α}
    (h : m.run plan s = (.returned value, s')) :
    (m.onRaise handler).run plan s = (.returned value, s') := by
  simp only [onRaise, h]

theorem onRaise_raised {m : Calls κ σ ε α} {handler : ε → Calls κ σ ε α} {error : ε}
    (h : m.run plan s = (.raised error, s')) : (m.onRaise handler).run plan s = (handler error).run plan s' := by
  simp only [onRaise, h]

theorem onRaise_stopped {m : Calls κ σ ε α} {handler : ε → Calls κ σ ε α}
    (h : m.run plan s = (.stopped, s')) : (m.onRaise handler).run plan s = (.stopped, s') := by
  simp only [onRaise, h]

theorem call_ok {name : κ} (h : plan name = .ok) (failure : ε) (answer : σ → α) (effect : σ → σ) :
    (call name failure answer effect).run plan s = (.returned (answer s), effect s) := by
  simp only [call, h]

theorem call_raised {name : κ} {effective : Bool} (h : plan name = .raised effective)
    (failure : ε) (answer : σ → α) (effect : σ → σ) :
    (call name failure answer effect).run plan s =
      (.raised failure, if effective then effect s else s) := by
  simp only [call, h]

theorem call_stopped {name : κ} (h : plan name = .stopped) (failure : ε) (answer : σ → α)
    (effect : σ → σ) : (call name failure answer effect).run plan s = (.stopped, s) := by
  simp only [call, h]

end Rules

section Failing

variable {plan : κ → Fate} {s mid s' : σ}

/-- The computation does not return, and leaves some state. -/
def Fails (m : Calls κ σ ε α) (plan : κ → Fate) (s s' : σ) : Prop :=
  (m.run plan s).2 = s' ∧ ∀ value, (m.run plan s).1 ≠ .returned value

theorem fails_of_raised {m : Calls κ σ ε α} {error : ε}
    (h : m.run plan s = (.raised error, s')) : m.Fails plan s s' := by
  unfold Fails
  rw [h]
  exact ⟨rfl, nofun⟩

theorem fails_of_stopped {m : Calls κ σ ε α} (h : m.run plan s = (.stopped, s')) :
    m.Fails plan s s' := by
  unfold Fails
  rw [h]
  exact ⟨rfl, nofun⟩

/-- After a computation that does not return, nothing follows. -/
theorem Fails.bind {m : Calls κ σ ε α} (h : m.Fails plan s s') (f : α → Calls κ σ ε β) :
    (m >>= f).Fails plan s s' := by
  obtain ⟨hstate, hfails⟩ := h
  cases hrun : m.run plan s with
  | mk ending after =>
    rw [hrun] at hstate hfails
    subst hstate
    cases ending with
    | returned value => exact absurd rfl (hfails value)
    | raised error => exact fails_of_raised (bind_raised hrun)
    | stopped => exact fails_of_stopped (bind_stopped hrun)

/-- After a computation that returns, what follows may fail. -/
theorem fails_of_returned {m : Calls κ σ ε α} {f : α → Calls κ σ ε β} {value : α}
    (h : m.run plan s = (.returned value, mid)) (hrest : (f value).Fails plan mid s') :
    (m >>= f).Fails plan s s' := by
  unfold Fails
  rw [bind_returned h]
  exact hrest

/-- After an exception, the handler may fail. -/
theorem onRaise_fails {m : Calls κ σ ε α} {handler : ε → Calls κ σ ε α} {error : ε}
    (h : m.run plan s = (.raised error, mid)) (hhandler : (handler error).Fails plan mid s') :
    (m.onRaise handler).Fails plan s s' := by
  unfold Fails
  rw [onRaise_raised h]
  exact hhandler

/-- A handler that changes nothing and does not return leaves a failure as it is. -/
theorem Fails.onRaise {m : Calls κ σ ε α} {handler : ε → Calls κ σ ε α} (h : m.Fails plan s s')
    (hhandler : ∀ error, (handler error).Fails plan s' s') :
    (m.onRaise handler).Fails plan s s' := by
  obtain ⟨hstate, hfails⟩ := h
  cases hrun : m.run plan s with
  | mk ending after =>
    rw [hrun] at hstate hfails
    subst hstate
    cases ending with
    | returned value => exact absurd rfl (hfails value)
    | raised error => exact onRaise_fails hrun (hhandler error)
    | stopped => exact fails_of_stopped (onRaise_stopped hrun)

/-- A call that changes nothing returns its answer, or it fails. -/
theorem ask_cases (plan : κ → Fate) (s : σ) (name : κ) (failure : ε) (answer : σ → α) :
    plan name = .ok ∧ (ask name failure answer).run plan s = (.returned (answer s), s) ∨
      plan name ≠ .ok ∧ (ask name failure answer).Fails plan s s := by
  cases hfate : plan name with
  | ok => exact .inl ⟨rfl, call_ok hfate _ _ _⟩
  | raised effect =>
    have hrun : (ask name failure answer).run plan s = (.raised failure, s) := by
      rw [call_raised hfate, id, ite_self]
    exact .inr ⟨nofun, fails_of_raised hrun⟩
  | stopped => exact .inr ⟨nofun, fails_of_stopped (call_stopped hfate _ _ _)⟩

end Failing

/-- Calls one after another that change nothing and answer nothing. -/
def tellAll (failure : ε) : List κ → Calls κ σ ε Unit
  | [] => pure ()
  | name :: names => do
    tell name failure id
    tellAll failure names

theorem tellAll_ok {names : List κ} {plan : κ → Fate} (h : ∀ name ∈ names, plan name = .ok)
    (failure : ε) (s : σ) : (tellAll failure names).run plan s = (.returned (), s) := by
  induction names with
  | nil => rfl
  | cons name names ih =>
    obtain ⟨hname, hrest⟩ := List.forall_mem_cons.mp h
    rw [tellAll, bind_returned (call_ok hname failure _ _)]
    exact ih hrest

/-- Where one of them does not return, nothing has changed. -/
theorem tellAll_fails {names : List κ} {plan : κ → Fate} (h : ¬∀ name ∈ names, plan name = .ok)
    (failure : ε) (s : σ) : (tellAll failure names).Fails plan s s := by
  induction names with
  | nil => exact absurd nofun h
  | cons name names ih =>
    rw [tellAll]
    rcases ask_cases plan s name failure fun _ => () with ⟨hname, hrun⟩ | ⟨-, hfails⟩
    · exact fails_of_returned hrun (ih fun hrest => h (List.forall_mem_cons.mpr ⟨hname, hrest⟩))
    · exact hfails.bind _

section Outcomes

variable {plan : κ → Fate} {s : σ} {P : α → σ → Prop} {P' : β → σ → Prop} {Q Q' : σ → Prop}

/-- What is returned, with the state it leaves, satisfies the first condition, and the state that
is left where nothing is returned the second one. -/
def Sat (m : Calls κ σ ε α) (plan : κ → Fate) (s : σ) (P : α → σ → Prop) (Q : σ → Prop) : Prop :=
  match m.run plan s with
  | (.returned value, s') => P value s'
  | (.raised _, s') => Q s'
  | (.stopped, s') => Q s'

theorem sat_pure {value : α} (h : P value s) :
    (pure value : Calls κ σ ε α).Sat plan s P Q := h

theorem sat_raise {error : ε} (h : Q s) : (raise error : Calls κ σ ε α).Sat plan s P Q := h

theorem Sat.mono {P' : α → σ → Prop} {m : Calls κ σ ε α} (h : m.Sat plan s P Q)
    (hP : ∀ value s', P value s' → P' value s') (hQ : ∀ s', Q s' → Q' s') :
    m.Sat plan s P' Q' := by
  unfold Sat at h ⊢
  split at h
  · exact hP _ _ h
  · exact hQ _ h
  · exact hQ _ h

theorem Sat.bind {m : Calls κ σ ε α} {f : α → Calls κ σ ε β} (h : m.Sat plan s P Q)
    (hf : ∀ value s', P value s' → (f value).Sat plan s' P' Q) : (m >>= f).Sat plan s P' Q := by
  unfold Sat at h
  cases hrun : m.run plan s with
  | mk ending after =>
    rw [hrun] at h
    cases ending with
    | returned value =>
      unfold Sat
      rw [bind_returned hrun]
      exact hf value after h
    | raised error =>
      unfold Sat
      rw [bind_raised hrun]
      exact h
    | stopped =>
      unfold Sat
      rw [bind_stopped hrun]
      exact h

/-- What is raised is handled, and the process may stop all the same. -/
theorem Sat.onRaise {m : Calls κ σ ε α} {handler : ε → Calls κ σ ε α} (h : m.Sat plan s P Q)
    (hhandler : ∀ error s', Q s' → (handler error).Sat plan s' P Q') (hQ : ∀ s', Q s' → Q' s') :
    (m.onRaise handler).Sat plan s P Q' := by
  unfold Sat at h
  cases hrun : m.run plan s with
  | mk ending after =>
    rw [hrun] at h
    cases ending with
    | returned value =>
      unfold Sat
      rw [onRaise_returned hrun]
      exact h
    | raised error =>
      unfold Sat
      rw [onRaise_raised hrun]
      exact hhandler error after h
    | stopped =>
      unfold Sat
      rw [onRaise_stopped hrun]
      exact hQ after h

theorem sat_call {name : κ} {failure : ε} {answer : σ → α} {effect : σ → σ}
    (hok : plan name = .ok → P (answer s) (effect s))
    (hraised : ∀ effective, plan name = .raised effective → Q (if effective then effect s else s))
    (hstopped : plan name = .stopped → Q s) :
    (call name failure answer effect).Sat plan s P Q := by
  cases hfate : plan name with
  | ok =>
    unfold Sat
    rw [call_ok hfate]
    exact hok hfate
  | raised effective =>
    unfold Sat
    rw [call_raised hfate]
    exact hraised effective hfate
  | stopped =>
    unfold Sat
    rw [call_stopped hfate]
    exact hstopped hfate

/-- A call that changes nothing. -/
theorem sat_ask {name : κ} {failure : ε} {answer : σ → α} (hok : P (answer s) s)
    (hfails : plan name ≠ .ok → Q s) : (ask name failure answer).Sat plan s P Q := by
  refine sat_call (fun _ => hok) (fun effective h => ?_) fun h => hfails (by rw [h]; nofun)
  rw [id, ite_self]
  exact hfails (by rw [h]; nofun)

/-- What follows a call that changes nothing goes on with its answer. -/
theorem sat_ask_bind {name : κ} {failure : ε} {answer : σ → α} {f : α → Calls κ σ ε β}
    (hfails : plan name ≠ .ok → Q s) (h : (f (answer s)).Sat plan s P' Q) :
    (ask name failure answer >>= f).Sat plan s P' Q := by
  refine Sat.bind (P := fun value s' => value = answer s ∧ s' = s)
    (sat_ask ⟨rfl, rfl⟩ hfails) fun value s' hvalue => ?_
  rw [hvalue.1, hvalue.2]
  exact h

/-- A call that may fail before or after its effect. -/
theorem sat_tell {P : Unit → σ → Prop} {name : κ} {failure : ε} {effect : σ → σ}
    (hok : P () (effect s)) (hfails : plan name ≠ .ok → Q s ∧ Q (effect s)) :
    (tell name failure effect).Sat plan s P Q := by
  refine sat_call (fun _ => hok) (fun effective h => ?_) fun h => (hfails (by rw [h]; nofun)).1
  obtain ⟨hbefore, hafter⟩ := hfails (by rw [h]; nofun)
  cases effective with
  | true => exact hafter
  | false => exact hbefore

/-- Calls for the items of a list, one after another. -/
def each (name : ℕ → κ) (failure : ε) (effect : α → σ → σ) : ℕ → List α → Calls κ σ ε Unit
  | _, [] => pure ()
  | n, item :: items => do
    tell (name n) failure (effect item)
    each name failure effect (n + 1) items

/-- What every effect keeps holds wherever the calls end. -/
theorem sat_each {name : ℕ → κ} {failure : ε} {effect : α → σ → σ} {J : σ → Prop}
    {items : List α} (hJ : ∀ item ∈ items, ∀ s, J s → J (effect item s))
    (hQ : ∀ n s', plan (name n) ≠ .ok → J s' → Q s') (n : ℕ) (hs : J s) :
    (each name failure effect n items).Sat plan s
      (fun _ s' => J s' ∧ s' = items.foldl (fun s item => effect item s) s) Q := by
  induction items generalizing s n with
  | nil => exact sat_pure ⟨hs, rfl⟩
  | cons item items ih =>
    rw [List.forall_mem_cons] at hJ
    refine Sat.bind (P := fun _ s' => s' = effect item s) (sat_tell rfl fun hname => ?_)
      fun _ s' hs' => ?_
    · exact ⟨hQ n _ hname hs, hQ n _ hname (hJ.1 s hs)⟩
    · rw [hs']
      exact ih hJ.2 (n + 1) (hJ.1 s hs)

end Outcomes

end Calls

end Maeglagi.Core
