import Mathlib.Data.List.Basic
import Mathlib.Logic.Relation

/-!
# Runs of a machine

A machine has a step that an event may not be enabled for. A run is a sequence of enabled
events, each satisfying a condition on the state it is taken in. What every step keeps or
establishes holds over the whole run.
-/

namespace Maeglagi.Core

section

variable {σ ε : Type} {step : σ → ε → Option σ} {ok : σ → ε → Prop}

/-- One step under an event that satisfies the condition. -/
def StepOf (step : σ → ε → Option σ) (ok : σ → ε → Prop) (s s' : σ) : Prop :=
  ∃ e, ok s e ∧ step s e = some s'

/-- The second state is reached from the first by steps that satisfy the condition. -/
abbrev RunOf (step : σ → ε → Option σ) (ok : σ → ε → Prop) : σ → σ → Prop :=
  Relation.ReflTransGen (StepOf step ok)

/-- Every event of the machine. -/
abbrev anyEvent : σ → ε → Prop := fun _ _ => True

/-- A property that every step of a run keeps. -/
theorem RunOf.invariant {P : σ → Prop} (hstep : ∀ s e s', P s → ok s e → step s e = some s' → P s')
    {s s' : σ} (h : RunOf step ok s s') (hs : P s) : P s' := by
  induction h with
  | refl => exact hs
  | tail _ hlast ih =>
    obtain ⟨e, hok, hnext⟩ := hlast
    exact hstep _ e _ ih hok hnext

/-- A reflexive and transitive relation that every step establishes from the states an
invariant describes. -/
theorem RunOf.lift {P : σ → Prop} {R : σ → σ → Prop} (hrefl : ∀ s, R s s)
    (htrans : ∀ {s s' s''}, R s s' → R s' s'' → R s s'')
    (hkeep : ∀ s e s', P s → ok s e → step s e = some s' → P s')
    (hstep : ∀ s e s', P s → ok s e → step s e = some s' → R s s')
    {s s' : σ} (h : RunOf step ok s s') (hs : P s) : R s s' := by
  have hboth : P s' ∧ R s s' := by
    induction h with
    | refl => exact ⟨hs, hrefl s⟩
    | tail _ hlast ih =>
      obtain ⟨e, hok, hnext⟩ := hlast
      exact ⟨hkeep _ e _ ih.1 hok hnext, htrans ih.2 (hstep _ e _ ih.1 hok hnext)⟩
  exact hboth.2

/-- The state that a list of events leads to, if each is enabled when it is taken. -/
def replay (step : σ → ε → Option σ) (s : σ) : List ε → Option σ
  | [] => some s
  | e :: events =>
    match step s e with
    | none => none
    | some s' => replay step s' events

/-- Replaying events that satisfy the condition in every state is a run. -/
theorem runOf_replay {events : List ε} {s s' : σ} (hok : ∀ s, ∀ e ∈ events, ok s e)
    (h : replay step s events = some s') : RunOf step ok s s' := by
  induction events generalizing s with
  | nil =>
    cases h
    exact .refl
  | cons e events ih =>
    unfold replay at h
    cases he : step s e with
    | none =>
      rw [he] at h
      cases h
    | some mid =>
      rw [he] at h
      have hrest := ih (fun s e' he' => hok s e' (List.mem_cons_of_mem _ he')) h
      exact .head ⟨e, hok s e (List.mem_cons_self ..), he⟩ hrest

end

/-!
## What is alive after a run

A run of events over a state in which each event may bring something to life and may end what
was alive before it. What is alive after the run is what some event brought to life, or what was
there at its beginning, and no event since then ended.
-/

section

variable {σ ε : Type}

/-- Some event of the run brings it to life and no later one ends it. -/
def Surviving (born ends : ε → Prop) (events : List ε) : Prop :=
  ∃ before event after, events = before ++ event :: after ∧ born event ∧
    ∀ later ∈ after, ¬ends later

theorem surviving_cons {born ends : ε → Prop} {event : ε} {events : List ε} :
    Surviving born ends (event :: events) ↔
      (born event ∧ ∀ later ∈ events, ¬ends later) ∨ Surviving born ends events := by
  constructor
  · rintro ⟨before, found, after, heq, hborn, hends⟩
    cases before with
    | nil =>
      obtain ⟨rfl, rfl⟩ := List.cons.inj heq
      exact .inl ⟨hborn, hends⟩
    | cons _ before =>
      obtain ⟨rfl, rfl⟩ := List.cons.inj heq
      exact .inr ⟨before, found, after, rfl, hborn, hends⟩
  · rintro (⟨hborn, hends⟩ | ⟨before, found, after, rfl, hborn, hends⟩)
    · exact ⟨[], event, events, rfl, hborn, hends⟩
    · exact ⟨event :: before, found, after, rfl, hborn, hends⟩

/-- What one event does to being alive, in every state that an invariant describes, gives what a
whole run does. -/
theorem alive_foldl {step : σ → ε → σ} (inv : σ → Prop)
    (hinv : ∀ s e, inv s → inv (step s e))
    (alive : σ → Prop) (born ends : ε → Prop)
    (hstep : ∀ s e, inv s → (alive (step s e) ↔ born e ∨ (alive s ∧ ¬ends e)))
    (events : List ε) (s : σ) (hs : inv s) :
    alive (events.foldl step s) ↔
      Surviving born ends events ∨ (alive s ∧ ∀ event ∈ events, ¬ends event) := by
  induction events generalizing s with
  | nil =>
    have hnone : ¬Surviving born ends ([] : List ε) := by
      rintro ⟨before, event, after, heq, -⟩
      exact absurd heq.symm (List.append_ne_nil_of_right_ne_nil _ (List.cons_ne_nil _ _))
    simp [hnone]
  | cons event events ih =>
    rw [List.foldl_cons, ih _ (hinv s event hs), hstep s event hs, surviving_cons]
    simp only [List.mem_cons, forall_eq_or_imp]
    tauto

/-- Surviving, by the positions of the run. -/
theorem surviving_iff_getElem? {born ends : ε → Prop} {events : List ε} :
    Surviving born ends events ↔ ∃ (i : Nat) (event : ε),
      events[i]? = some event ∧ born event ∧
        ∀ (j : Nat) (later : ε), i < j → events[j]? = some later → ¬ends later := by
  constructor
  · rintro ⟨before, event, after, rfl, hborn, hends⟩
    refine ⟨before.length, event, by simp, hborn, fun j later hj hlater => hends later ?_⟩
    obtain ⟨k, rfl⟩ := Nat.exists_eq_add_of_lt hj
    refine List.mem_of_getElem? (i := k) ?_
    rwa [Nat.add_assoc, List.getElem?_append_right (Nat.le_add_right ..), Nat.add_sub_cancel_left,
      List.getElem?_cons_succ] at hlater
  · rintro ⟨i, event, hevent, hborn, hends⟩
    obtain ⟨hi, rfl⟩ := List.getElem?_eq_some_iff.mp hevent
    refine ⟨events.take i, events[i], events.drop (i + 1), ?_, hborn, fun later hlater => ?_⟩
    · rw [List.getElem_cons_drop, List.take_append_drop]
    · obtain ⟨k, hk⟩ := List.mem_iff_getElem?.mp hlater
      rw [List.getElem?_drop] at hk
      exact hends _ later (by omega) hk

end

end Maeglagi.Core
