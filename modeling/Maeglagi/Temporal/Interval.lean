import Mathlib.Data.List.ReduceOption
import Mathlib.Data.List.Sort
import Mathlib.Order.BoundedOrder.Basic

/-!
# Validity intervals and their normalization

The intervals of one relation, as `temporal.py` folds them. An unknown start and
an unknown end are both `none`; sorting puts an unknown start at the earliest
instant, and a fold keeps only the bounds that some interval states. Instants are
any linear order with a least element, which stands for the earliest datetime.
-/

namespace Maeglagi.Temporal

variable {T : Type} [LinearOrder T]

/-- A validity period; either bound may be unknown. -/
@[ext] structure Interval (T : Type) where
  validFrom : Option T
  validTo : Option T
  deriving DecidableEq, Repr

/-- A start is not after an end unless both are known and in the wrong order. -/
def startsBefore (start finish : Option T) : Bool :=
  match start, finish with
  | some s, some e => decide (s ≤ e)
  | _, _ => true

/-- The two-sided overlap test of the source, on closed intervals. -/
def Interval.overlaps (self other : Interval T) : Bool :=
  startsBefore self.validFrom other.validTo && startsBefore other.validFrom self.validTo

/-- The union of two overlapping intervals: earliest known start, latest known end. -/
def Interval.merge (self other : Interval T) : Interval T where
  validFrom := [self.validFrom, other.validFrom].reduceOption.min?
  validTo := [self.validTo, other.validTo].reduceOption.max?

/-- The key `valid_from or _EARLIEST` under which intervals are sorted. -/
def Interval.sortKey [OrderBot T] (item : Interval T) : T := item.validFrom.getD ⊥

/-- One turn of the normalization loop: fold into the last period or open a new one. -/
def foldInterval (result : List (Interval T)) (interval : Interval T) : List (Interval T) :=
  match result.getLast? with
  | none => [interval]
  | some last =>
    if last.overlaps interval then result.dropLast ++ [last.merge interval]
    else result ++ [interval]

/-- The stable sort by start that precedes the loop. -/
def sortIntervals [OrderBot T] (intervals : List (Interval T)) : List (Interval T) :=
  intervals.insertionSort fun a b => a.sortKey ≤ b.sortKey

/-- Sort and fold overlapping intervals. -/
def normalize [OrderBot T] (intervals : List (Interval T)) : List (Interval T) :=
  (sortIntervals intervals).foldl foldInterval []

/-- A stated start is never after a stated end. -/
def Interval.WellFormed (i : Interval T) : Prop :=
  ∀ s e, i.validFrom = some s → i.validTo = some e → s ≤ e

instance (i : Interval T) : Decidable i.WellFormed :=
  decidable_of_iff (∀ s ∈ i.validFrom, ∀ e ∈ i.validTo, s ≤ e)
    ⟨fun h s e hs he => h s hs e he, fun h s hs e he => h s e hs he⟩

@[simp] theorem startsBefore_none_left (e : Option T) : startsBefore none e = true := rfl

@[simp] theorem startsBefore_none_right (s : Option T) : startsBefore s none = true := by
  cases s <;> rfl

@[simp] theorem startsBefore_some (s e : T) :
    startsBefore (some s) (some e) = true ↔ s ≤ e := decide_eq_true_iff

/-- The folded start is the least of the known ones. -/
theorem Interval.merge_validFrom (a b : Interval T) :
    (a.merge b).validFrom = Option.merge min a.validFrom b.validFrom := by
  obtain ⟨_ | s, _⟩ := a <;> obtain ⟨_ | t, _⟩ := b <;> rfl

/-- The folded end is the greatest of the known ones. -/
theorem Interval.merge_validTo (a b : Interval T) :
    (a.merge b).validTo = Option.merge max a.validTo b.validTo := by
  obtain ⟨_, _ | s⟩ := a <;> obtain ⟨_, _ | t⟩ := b <;> rfl

/-- Folding does not depend on the order of the two intervals. -/
theorem Interval.merge_comm (a b : Interval T) : a.merge b = b.merge a := by
  apply Interval.ext
  · rw [merge_validFrom, merge_validFrom]
    cases a.validFrom <;> cases b.validFrom <;> simp [Option.merge, min_comm]
  · rw [merge_validTo, merge_validTo]
    cases a.validTo <;> cases b.validTo <;> simp [Option.merge, max_comm]

/-- Folding three intervals does not depend on the grouping. -/
theorem Interval.merge_assoc (a b c : Interval T) :
    (a.merge b).merge c = a.merge (b.merge c) := by
  apply Interval.ext
  · simp only [merge_validFrom]
    cases a.validFrom <;> cases b.validFrom <;> cases c.validFrom <;>
      simp [Option.merge, min_assoc]
  · simp only [merge_validTo]
    cases a.validTo <;> cases b.validTo <;> cases c.validTo <;>
      simp [Option.merge, max_assoc]

/-- Three intervals may be folded in either order of the last two. -/
theorem Interval.merge_right_comm (a b c : Interval T) :
    (a.merge b).merge c = (a.merge c).merge b := by
  rw [merge_assoc, merge_comm b c, ← merge_assoc]

/-- A folded start is known as soon as one of the starts is. -/
theorem Interval.merge_validFrom_eq_none {a b : Interval T} :
    (a.merge b).validFrom = none ↔ a.validFrom = none ∧ b.validFrom = none := by
  rw [merge_validFrom]
  cases a.validFrom <;> cases b.validFrom <;> simp [Option.merge]

end Maeglagi.Temporal
