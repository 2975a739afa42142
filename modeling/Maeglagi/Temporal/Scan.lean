import Maeglagi.Core.Sorting
import Maeglagi.Temporal.Interval

/-!
# The normalization loop as a scan

On sorted well-formed intervals the overlap test of the loop only asks whether the
last period is known to end before the next start. The loop is then a scan over a
stack of periods, newest on top. The scan does not depend on the order of equal
starts, so `normalize` is a function of the multiset of its input.
-/

namespace Maeglagi.Temporal

open Core

variable {T : Type} [LinearOrder T]

/-- The period is not known to end before the instant. -/
def Interval.Reaches (c : Interval T) (t : T) : Prop := ∀ e ∈ c.validTo, t ≤ e

instance (c : Interval T) (t : T) : Decidable (c.Reaches t) :=
  inferInstanceAs (Decidable (∀ e ∈ c.validTo, t ≤ e))

/-- The older period ends, on record, strictly before the newer one starts. -/
def Interval.Before (older newer : Interval T) : Prop :=
  ∃ e ∈ older.validTo, ∃ s ∈ newer.validFrom, e < s

/-- Folding keeps a reached instant when the folded interval reaches it too. -/
theorem Interval.Reaches.merge {c i : Interval T} {t : T} (hc : c.Reaches t)
    (hi : i.Reaches t) : (c.merge i).Reaches t := by
  intro e he
  rw [merge_validTo] at he
  cases hcv : c.validTo <;> cases hiv : i.validTo <;>
    simp only [hcv, hiv, Option.merge, Option.mem_def, Option.some.injEq, reduceCtorEq] at he
  · exact he ▸ hi _ hiv
  · exact he ▸ hc _ hcv
  · exact he ▸ (hc _ hcv).trans (le_max_left ..)

/-- A start known before folding stays the start when the folded one is not earlier. -/
theorem Interval.merge_validFrom_of_le {c i : Interval T} {s : T} (hc : c.validFrom = some s)
    (hi : ∀ t ∈ i.validFrom, s ≤ t) : (c.merge i).validFrom = some s := by
  rw [merge_validFrom, hc]
  cases hiv : i.validFrom with
  | none => rfl
  | some t => exact congrArg some (min_eq_left (hi t hiv))

/-- Periods in temporal order do not overlap. -/
theorem Interval.Before.not_overlaps {a b : Interval T} (h : a.Before b) :
    a.overlaps b = false := by
  obtain ⟨e, he, s, hs, hlt⟩ := h
  rw [Option.mem_def] at he hs
  simp only [overlaps, he, hs, startsBefore, Bool.and_eq_false_iff, decide_eq_false_iff_not]
  exact Or.inr (not_le.mpr hlt)

variable [OrderBot T]

@[simp] theorem Interval.sortKey_of_none {i : Interval T} (h : i.validFrom = none) :
    i.sortKey = ⊥ := by rw [sortKey, h, Option.getD_none]

@[simp] theorem Interval.sortKey_of_some {i : Interval T} {s : T} (h : i.validFrom = some s) :
    i.sortKey = s := by rw [sortKey, h, Option.getD_some]

/-- A well-formed interval reaches its own start. -/
theorem Interval.WellFormed.reaches {i : Interval T} (h : i.WellFormed) :
    i.Reaches i.sortKey := by
  intro e he
  cases hs : i.validFrom with
  | none => simp [sortKey_of_none hs]
  | some s => rw [sortKey_of_some hs]; exact h s e hs he

/-- Reaching one's own start is all that well-formedness says. -/
theorem Interval.wellFormed_of_reaches {i : Interval T} (h : i.Reaches i.sortKey) :
    i.WellFormed := by
  intro s e hs he
  rw [sortKey_of_some hs] at h
  exact h e he

/-- On a sorted well-formed pair the overlap test only compares end and next start. -/
theorem Interval.overlaps_iff_reaches {c i : Interval T} (hkey : c.sortKey ≤ i.sortKey)
    (hi : i.WellFormed) : c.overlaps i = true ↔ c.Reaches i.sortKey := by
  have hleft : startsBefore c.validFrom i.validTo = true := by
    cases hs : c.validFrom with
    | none => rfl
    | some s =>
      cases he : i.validTo with
      | none => rfl
      | some e =>
        rw [sortKey_of_some hs] at hkey
        exact (startsBefore_some s e).mpr (hkey.trans (hi.reaches e he))
  rw [overlaps, hleft, Bool.true_and]
  cases hs : i.validFrom with
  | none =>
    simp only [startsBefore_none_left, sortKey_of_none hs, true_iff]
    exact fun e _ => bot_le
  | some s =>
    rw [sortKey_of_some hs]
    cases he : c.validTo with
    | none => simp [Reaches, he]
    | some e => simp [Reaches, he, startsBefore_some]

/-- Folding a later interval does not move the key past it. -/
theorem Interval.merge_sortKey_le {c i : Interval T} (hkey : c.sortKey ≤ i.sortKey) :
    (c.merge i).sortKey ≤ i.sortKey := by
  cases hc : c.validFrom <;> cases hi : i.validFrom <;>
    simp_all [sortKey, merge_validFrom, Option.merge]

/-- One turn of the loop on a stack with the newest period on top. -/
def push (stack : List (Interval T)) (i : Interval T) : List (Interval T) :=
  match stack with
  | [] => [i]
  | c :: st => if c.Reaches i.sortKey then c.merge i :: st else i :: c :: st

@[simp] theorem push_nil (i : Interval T) : push [] i = [i] := rfl

theorem push_cons_of_reaches {c i : Interval T} (st : List (Interval T))
    (h : c.Reaches i.sortKey) : push (c :: st) i = c.merge i :: st := if_pos h

theorem push_cons_of_not_reaches {c i : Interval T} (st : List (Interval T))
    (h : ¬c.Reaches i.sortKey) : push (c :: st) i = i :: c :: st := if_neg h

/-- Only the top of the stack takes part in a turn. -/
theorem push_append (c i : Interval T) (st below : List (Interval T)) :
    push (c :: st ++ below) i = push (c :: st) i ++ below := by
  by_cases h : c.Reaches i.sortKey
  · rw [List.cons_append, push_cons_of_reaches _ h, push_cons_of_reaches _ h, List.cons_append]
  · rw [List.cons_append, push_cons_of_not_reaches _ h, push_cons_of_not_reaches _ h]
    rfl

theorem push_ne_nil (stack : List (Interval T)) (i : Interval T) : push stack i ≠ [] := by
  cases stack with
  | nil => simp
  | cons c st => unfold push; dsimp only; split <;> simp

/-- Two intervals with one start can be taken in either order. -/
theorem push_tie (stack : List (Interval T)) {a b : Interval T} (ha : a.WellFormed)
    (hb : b.WellFormed) (hkey : a.sortKey = b.sortKey) :
    push (push stack a) b = push (push stack b) a := by
  have hab : a.Reaches b.sortKey := hkey ▸ ha.reaches
  have hba : b.Reaches a.sortKey := hkey ▸ hb.reaches
  cases stack with
  | nil =>
    rw [push_nil, push_nil, push_cons_of_reaches _ hab, push_cons_of_reaches _ hba,
      Interval.merge_comm]
  | cons c st =>
    by_cases h : c.Reaches a.sortKey
    · have h' : c.Reaches b.sortKey := hkey ▸ h
      rw [push_cons_of_reaches _ h, push_cons_of_reaches _ h', push_cons_of_reaches _ (h'.merge hab),
        push_cons_of_reaches _ (h.merge hba), Interval.merge_right_comm]
    · have h' : ¬c.Reaches b.sortKey := hkey ▸ h
      rw [push_cons_of_not_reaches _ h, push_cons_of_not_reaches _ h', push_cons_of_reaches _ hab,
        push_cons_of_reaches _ hba, Interval.merge_comm]

/-- The scan of a list of intervals, newest period on top. -/
def scan (l : List (Interval T)) : List (Interval T) := l.foldl push []

/-- Sorted by start, equal starts in any order. -/
abbrev StartSorted (l : List (Interval T)) : Prop := SortedBy Interval.sortKey l

theorem sortIntervals_perm (xs : List (Interval T)) : (sortIntervals xs).Perm xs :=
  List.perm_insertionSort _ xs

theorem sortIntervals_sorted (xs : List (Interval T)) : StartSorted (sortIntervals xs) := by
  have : IsTrans (Interval T) (fun a b => a.sortKey ≤ b.sortKey) := ⟨fun _ _ _ => le_trans⟩
  have : Std.Total (fun a b : Interval T => a.sortKey ≤ b.sortKey) := ⟨fun _ _ => le_total _ _⟩
  exact List.pairwise_insertionSort _ xs

/-- The top of the stack never starts after the items still to come. -/
theorem push_top_le {stack : List (Interval T)} {i c : Interval T}
    (hkey : ∀ d ∈ stack.head?, d.sortKey ≤ i.sortKey) (hc : c ∈ (push stack i).head?) :
    c.sortKey ≤ i.sortKey := by
  cases stack with
  | nil => simp only [push_nil, List.head?_cons, Option.mem_def, Option.some.injEq] at hc; simp [hc]
  | cons d st =>
    have hd := hkey d rfl
    by_cases h : d.Reaches i.sortKey
    · rw [push_cons_of_reaches _ h] at hc
      cases hc
      exact Interval.merge_sortKey_le hd
    · rw [push_cons_of_not_reaches _ h] at hc
      cases hc
      exact le_rfl

/-- One turn of the source's loop is one turn on the stack. -/
theorem foldInterval_reverse {stack : List (Interval T)} {i : Interval T} (hi : i.WellFormed)
    (hkey : ∀ d ∈ stack.head?, d.sortKey ≤ i.sortKey) :
    foldInterval stack.reverse i = (push stack i).reverse := by
  cases stack with
  | nil => rfl
  | cons c st =>
    have hov := Interval.overlaps_iff_reaches (hkey c rfl) hi
    simp only [foldInterval, List.getLast?_reverse, List.head?_cons]
    by_cases h : c.Reaches i.sortKey
    · rw [push_cons_of_reaches _ h, if_pos (hov.mpr h)]
      simp
    · rw [push_cons_of_not_reaches _ h, if_neg (fun ho => h (hov.mp ho))]
      simp

private theorem foldl_foldInterval_reverse {l stack : List (Interval T)} (hl : StartSorted l)
    (hw : ∀ i ∈ l, i.WellFormed) (hkey : ∀ d ∈ stack.head?, ∀ i ∈ l, d.sortKey ≤ i.sortKey) :
    l.foldl foldInterval stack.reverse = (l.foldl push stack).reverse := by
  induction l generalizing stack with
  | nil => rfl
  | cons i l ih =>
    have htop : ∀ d ∈ stack.head?, d.sortKey ≤ i.sortKey :=
      fun d hd => hkey d hd i (List.mem_cons_self ..)
    rw [List.foldl_cons, List.foldl_cons,
      foldInterval_reverse (hw i (List.mem_cons_self ..)) htop]
    apply ih (List.Pairwise.of_cons hl) fun j hj => hw j (List.mem_cons_of_mem _ hj)
    intro d hd j hj
    exact (push_top_le htop hd).trans (List.rel_of_pairwise_cons hl hj)

/-- The loop of the source is the scan, read from the oldest period. -/
theorem normalize_eq_scan {xs : List (Interval T)} (hw : ∀ i ∈ xs, i.WellFormed) :
    normalize xs = (scan (sortIntervals xs)).reverse := by
  have h : (sortIntervals xs).foldl foldInterval ([] : List (Interval T)).reverse = _ :=
    foldl_foldInterval_reverse (sortIntervals_sorted xs)
      (fun i hi => hw i ((sortIntervals_perm xs).mem_iff.mp hi)) (by simp)
  exact h

/-- Any sorted arrangement of the intervals scans to the normalized periods. -/
theorem normalize_eq_scan_of_perm {xs l : List (Interval T)} (hw : ∀ i ∈ xs, i.WellFormed)
    (hl : StartSorted l) (hp : l.Perm xs) : normalize xs = (scan l).reverse := by
  rw [normalize_eq_scan hw, scan, scan,
    foldl_eq_of_perm_sortedBy (fun s _ _ ha hb hk => push_tie s ha hb hk)
      ((sortIntervals_perm xs).trans hp.symm) (sortIntervals_sorted xs) hl
      (fun i hi => hw i ((sortIntervals_perm xs).mem_iff.mp hi))]

/-- Normalization does not depend on the order of its input. -/
theorem normalize_perm {xs ys : List (Interval T)} (hw : ∀ i ∈ xs, i.WellFormed)
    (hp : xs.Perm ys) : normalize xs = normalize ys := by
  rw [normalize_eq_scan_of_perm hw (sortIntervals_sorted ys) ((sortIntervals_perm ys).trans hp.symm),
    normalize_eq_scan fun i hi => hw i (hp.mem_iff.mpr hi)]

end Maeglagi.Temporal
