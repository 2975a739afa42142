import Maeglagi.Resolution.Components
import Maeglagi.Resolution.Relations

/-!
# The ends of relations

The entity that the name of a relation's end stands for, read off the mentions: the one node that
the mentions bearing the name end in. A relation between two such ends leaves an edge.
-/

namespace Maeglagi.Resolution

open Core Temporal

variable {Id : Type}

variable [DecidableEq Id]

/-- Some interval of the triple has been collected. -/
def Recorded (triple : Triple Id) (spans : Spans Id) : Prop :=
  ∃ intervals, spans.1.get? triple = some intervals ∧ intervals ≠ []

theorem Recorded.set {triple t : Triple Id} {spans : Spans Id}
    (h : Recorded triple spans ∨ t = triple) (interval : Temporal.Interval Instant) (warnings : List Warning) :
    Recorded triple (spans.1.set t (spans.1.getD t [] ++ [interval]), warnings) := by
  unfold Recorded
  rw [Dict.get?_set]
  split
  · exact ⟨_, rfl, List.append_ne_nil_of_right_ne_nil _ (List.cons_ne_nil _ _)⟩
  · next hne => exact h.resolve_right (Ne.symm hne)

/-- One turn of the relation loop keeps what is collected. -/
theorem Recorded.step {rt : Runtime Id} {entities : List (GraphEntity Id)}
    {fallback : Option Instant} {triple : Triple Id} {spans spans' : Spans Id}
    {relation : ExtractedRelation} (h : Recorded triple spans)
    (hstep : relationStep rt entities fallback spans relation = .ok spans') :
    Recorded triple spans' := by
  unfold relationStep at hstep
  dsimp only at hstep
  split at hstep
  · simp only [bind_eq_ok, pure_eq_ok] at hstep
    obtain ⟨_, -, _, -, rfl⟩ := hstep
    exact Recorded.set (.inl h) _ _
  · cases hstep
    exact h

end Maeglagi.Resolution
