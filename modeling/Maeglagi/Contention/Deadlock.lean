import Maeglagi.Contention.Requests

/-!
# Requests that wait for each other

Any number of requests of a workspace run side by side. They wait for each other in a circle
where two of them take the same two rows in opposite orders, as a review and the participants
of its project do.
-/

namespace Maeglagi.Contention

open Core

variable {π Id H : Type} [DecidableEq π] [DecidableEq Id]

/-- The requests under way in a workspace. -/
abbrev Traffic (π Id H : Type) : Type := Core.Traffic π (Row Id) (Database Id H) ApiError

/-- One step of the requests of a workspace. -/
def step (office : Office Id) (s : Traffic π Id H) (e : Move π (Call Id)) :
    Option (Traffic π Id H) :=
  Core.Traffic.step (program office) Database.present s e

/-- Sources before people before projects, those of a kind by their numbers. -/
def Row.before : Row Nat → Row Nat → Prop
  | .source a, .source b | .person a, .person b | .project a, .project b => a < b
  | .source _, _ | .person _, .project _ => True
  | _, _ => False

instance Row.strictOrder_before : IsStrictOrder (Row Nat) Row.before where
  irrefl a := by cases a <;> simp [Row.before]
  trans a b c := by
    cases a <;> cases b <;> cases c <;> simp only [Row.before] <;> grind

end Maeglagi.Contention
