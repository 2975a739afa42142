import Maeglagi.Runtime

/-!
# Reading instants

`parse_instant` and `as_utc` of `temporal.py`. Unreadable text is no instant; only a
datetime whose UTC reading leaves the datetime range raises.
-/

namespace Maeglagi.Temporal

open Core

variable {Id : Type}

/-- ISO 8601 text to a UTC instant; missing, blank and unparseable text give none. -/
def parseInstant (rt : Runtime Id) (value : Option Text) : Except PyError (Option Instant) :=
  match value with
  | none => .ok none
  | some text =>
    if strip text = [] then .ok none
    else match rt.fromisoformat (strip text) with
      | none => .ok none
      | some parsed => parsed.toUtc.map some

/-- A datetime in UTC, naive ones read as UTC. -/
def asUtc (value : Option DateTime) : Except PyError (Option Instant) :=
  match value with
  | none => .ok none
  | some d => d.toUtc.map some

/-- The UTC reading of a datetime lies between `datetime.min` and `datetime.max`. -/
def DateTimeInRange (d : DateTime) : Prop :=
  ∀ offset ∈ d.offset, 0 ≤ (d.wall.val : Int) - offset ∧
    (d.wall.val : Int) - offset < (instantCount : Int)

theorem exists_toUtc {d : DateTime} : (∃ i, d.toUtc = .ok i) ↔ DateTimeInRange d := by
  obtain ⟨wall, _ | offset⟩ := d
  · simp [DateTime.toUtc, DateTimeInRange]
  · simp only [DateTime.toUtc, DateTimeInRange, Option.mem_def, Option.some.injEq, forall_eq']
    split
    · next h =>
      simp only [Except.ok.injEq, exists_eq', true_iff]
      omega
    · next h =>
      simp only [reduceCtorEq, exists_false, false_iff]
      omega

/-- The text names no datetime, or one whose UTC reading is in range. -/
def DateInRange (rt : Runtime Id) (value : Option Text) : Prop :=
  ∀ text ∈ value, strip text ≠ [] →
    ∀ parsed ∈ rt.fromisoformat (strip text), DateTimeInRange parsed

/-- `parse_instant` returns exactly on the texts whose datetime is in range. -/
theorem exists_parseInstant {rt : Runtime Id} {value : Option Text} :
    (∃ i, parseInstant rt value = .ok i) ↔ DateInRange rt value := by
  unfold parseInstant DateInRange
  cases value with
  | none => simp
  | some text =>
    simp only [Option.mem_def, Option.some.injEq, forall_eq']
    by_cases hblank : strip text = []
    · simp [hblank]
    · simp only [hblank, if_false, not_false_eq_true, forall_const, ne_eq]
      cases hread : rt.fromisoformat (strip text) with
      | none => simp
      | some parsed =>
        simp only [Option.some.injEq, forall_eq', ← exists_toUtc]
        cases parsed.toUtc <;> simp [Except.map]

end Maeglagi.Temporal
