import Maeglagi.Temporal.Scan

/-!
# What the scan keeps

Every scanned interval lies within one of the periods, and each bound of a period
is the bound of an interval within it. The periods are well formed and in strict
temporal order, so no two of them overlap.
-/

namespace Maeglagi.Temporal

open Core

variable {T : Type} [LinearOrder T]

/-- Folding never moves a known start later. -/
theorem Interval.exists_merge_validFrom_le {c i : Interval T} {s : T}
    (h : s ∈ c.validFrom ∨ s ∈ i.validFrom) : ∃ s' ∈ (c.merge i).validFrom, s' ≤ s := by
  rw [merge_validFrom]
  cases hc : c.validFrom <;> cases hi : i.validFrom <;>
    simp_all [Option.merge]
  rcases h with rfl | rfl
  · exact Or.inl le_rfl
  · exact Or.inr le_rfl

/-- Folding never moves a known end earlier. -/
theorem Interval.exists_merge_validTo_ge {c i : Interval T} {e : T}
    (h : e ∈ c.validTo ∨ e ∈ i.validTo) : ∃ e' ∈ (c.merge i).validTo, e ≤ e' := by
  rw [merge_validTo]
  cases hc : c.validTo <;> cases hi : i.validTo <;> simp_all [Option.merge]
  rcases h with rfl | rfl
  · exact Or.inl le_rfl
  · exact Or.inr le_rfl

/-- The folded start is one of the two starts. -/
theorem Interval.merge_validFrom_eq_or (c i : Interval T) :
    (c.merge i).validFrom = c.validFrom ∨ (c.merge i).validFrom = i.validFrom := by
  rw [merge_validFrom]
  cases c.validFrom <;> cases i.validFrom <;> simp [Option.merge, le_total]

/-- The folded end is one of the two ends. -/
theorem Interval.merge_validTo_eq_or (c i : Interval T) :
    (c.merge i).validTo = c.validTo ∨ (c.merge i).validTo = i.validTo := by
  rw [merge_validTo]
  cases c.validTo <;> cases i.validTo <;> simp [Option.merge, le_total]

/-- Periods in temporal order have different starts. -/
theorem Interval.Before.validFrom_ne {a b : Interval T} (h : a.Before b) (ha : a.WellFormed) :
    a.validFrom ≠ b.validFrom := by
  obtain ⟨e, he, s, hs, hlt⟩ := h
  intro heq
  have hle := ha s e (heq.trans hs) he
  exact absurd hlt (not_lt.mpr hle)

variable [OrderBot T]

/-- The interval was folded into the period: the period states every bound the
interval states, at least as generously, and reaches the interval's start. -/
structure Interval.Within (j p : Interval T) : Prop where
  start : ∀ s ∈ j.validFrom, ∃ s' ∈ p.validFrom, s' ≤ s
  finish : ∀ e ∈ j.validTo, ∃ e' ∈ p.validTo, e ≤ e'
  reached : p.Reaches j.sortKey

/-- A well-formed interval is within itself. -/
theorem Interval.WellFormed.within_self {i : Interval T} (h : i.WellFormed) : i.Within i :=
  ⟨fun s hs => ⟨s, hs, le_rfl⟩, fun e he => ⟨e, he, le_rfl⟩, h.reaches⟩

/-- Periods that fold further intervals keep the ones they had. -/
theorem Interval.Within.merge_left {j c i : Interval T} (h : j.Within c) (hi : i.WellFormed)
    (hkey : j.sortKey ≤ i.sortKey) : j.Within (c.merge i) where
  start s hs := by
    obtain ⟨s', hs', hle⟩ := h.start s hs
    obtain ⟨s'', hs'', hle'⟩ := exists_merge_validFrom_le (i := i) (Or.inl hs')
    exact ⟨s'', hs'', hle'.trans hle⟩
  finish e he := by
    obtain ⟨e', he', hle⟩ := h.finish e he
    obtain ⟨e'', he'', hle'⟩ := exists_merge_validTo_ge (i := i) (Or.inl he')
    exact ⟨e'', he'', hle.trans hle'⟩
  reached := h.reached.merge fun e he => hkey.trans (hi.reaches e he)

/-- The interval being folded ends up within the folded period. -/
theorem Interval.within_merge_right {c i : Interval T} (hi : i.WellFormed)
    (hr : c.Reaches i.sortKey) : i.Within (c.merge i) where
  start _ hs := exists_merge_validFrom_le (Or.inr hs)
  finish _ he := exists_merge_validTo_ge (Or.inr he)
  reached := hr.merge hi.reaches

/-- The scan invariant: what the periods on the stack say about the intervals done. -/
structure Folded (done stack : List (Interval T)) : Prop where
  wellFormed : ∀ p ∈ stack, p.WellFormed
  ordered : stack.Pairwise fun newer older => older.Before newer
  covers : ∀ j ∈ done, ∃ p ∈ stack, j.Within p
  starts : ∀ p ∈ stack, ∃ j ∈ done, j.Within p ∧ j.validFrom = p.validFrom
  ends : ∀ p ∈ stack, ∃ j ∈ done, j.Within p ∧ j.validTo = p.validTo

theorem Folded.nil : Folded ([] : List (Interval T)) [] :=
  ⟨by simp, List.Pairwise.nil, by simp, by simp, by simp⟩

/-- Equal starts sort alike. -/
theorem Interval.sortKey_congr {a b : Interval T} (h : a.validFrom = b.validFrom) :
    a.sortKey = b.sortKey := congrArg (·.getD ⊥) h

/-- No period starts after the intervals still to come. -/
theorem Folded.sortKey_le {done stack : List (Interval T)} (h : Folded done stack) {t : T}
    (hkey : ∀ j ∈ done, j.sortKey ≤ t) {p : Interval T} (hp : p ∈ stack) : p.sortKey ≤ t := by
  obtain ⟨j, hj, _, hs⟩ := h.starts p hp
  exact Interval.sortKey_congr hs ▸ hkey j hj

private theorem Folded.push_merge {done st : List (Interval T)} {c i : Interval T}
    (h : Folded done (c :: st)) (hi : i.WellFormed) (hkey : ∀ j ∈ done, j.sortKey ≤ i.sortKey)
    (hr : c.Reaches i.sortKey) : Folded (i :: done) (c.merge i :: st) := by
  have hc : c.sortKey ≤ i.sortKey := h.sortKey_le hkey (List.mem_cons_self ..)
  have hin : i.Within (c.merge i) := Interval.within_merge_right hi hr
  have hkeep : ∀ j ∈ done, j.Within c → j.Within (c.merge i) :=
    fun j hj hw => hw.merge_left hi (hkey j hj)
  have hlift : ∀ p ∈ st, ∀ {P : Interval T → Prop}, (∃ j ∈ done, P j) → ∃ j ∈ i :: done, P j :=
    fun _ _ _ ⟨j, hj, hP⟩ => ⟨j, List.mem_cons_of_mem _ hj, hP⟩
  refine ⟨?_, ?_, ?_, ?_, ?_⟩
  · rintro p (_ | ⟨_, hp⟩)
    · apply Interval.wellFormed_of_reaches
      have hself : c.Reaches c.sortKey := (h.wellFormed c (List.mem_cons_self ..)).reaches
      rcases Interval.merge_validFrom_eq_or c i with hs | hs
      · rw [Interval.sortKey_congr hs]
        exact hself.merge fun e he => hc.trans (hi.reaches e he)
      · rw [Interval.sortKey_congr hs]
        exact hr.merge hi.reaches
    · exact h.wellFormed p (List.mem_cons_of_mem _ hp)
  · obtain ⟨hhead, htail⟩ := List.pairwise_cons.mp h.ordered
    refine List.pairwise_cons.mpr ⟨fun older ho => ?_, htail⟩
    obtain ⟨e, he, s, hs, hlt⟩ := hhead older ho
    refine ⟨e, he, s, Interval.merge_validFrom_of_le hs fun t ht => ?_, hlt⟩
    rwa [Interval.sortKey_of_some hs, Interval.sortKey_of_some ht] at hc
  · rintro j (_ | ⟨_, hj⟩)
    · exact ⟨_, List.mem_cons_self .., hin⟩
    · obtain ⟨p, hp, hw⟩ := h.covers j hj
      rcases List.mem_cons.mp hp with rfl | hp
      · exact ⟨_, List.mem_cons_self .., hkeep j hj hw⟩
      · exact ⟨p, List.mem_cons_of_mem _ hp, hw⟩
  · rintro p (_ | ⟨_, hp⟩)
    · rcases Interval.merge_validFrom_eq_or c i with hs | hs
      · obtain ⟨j, hj, hw, hjs⟩ := h.starts c (List.mem_cons_self ..)
        exact ⟨j, List.mem_cons_of_mem _ hj, hkeep j hj hw, hjs.trans hs.symm⟩
      · exact ⟨i, List.mem_cons_self .., hin, hs.symm⟩
    · exact hlift p hp (h.starts p (List.mem_cons_of_mem _ hp))
  · rintro p (_ | ⟨_, hp⟩)
    · rcases Interval.merge_validTo_eq_or c i with he | he
      · obtain ⟨j, hj, hw, hje⟩ := h.ends c (List.mem_cons_self ..)
        exact ⟨j, List.mem_cons_of_mem _ hj, hkeep j hj hw, hje.trans he.symm⟩
      · exact ⟨i, List.mem_cons_self .., hin, he.symm⟩
    · exact hlift p hp (h.ends p (List.mem_cons_of_mem _ hp))

private theorem Folded.push_open {done stack : List (Interval T)} {i : Interval T}
    (h : Folded done stack) (hi : i.WellFormed) (hkey : ∀ j ∈ done, j.sortKey ≤ i.sortKey)
    (hr : ∀ c ∈ stack.head?, ¬c.Reaches i.sortKey) : Folded (i :: done) (i :: stack) := by
  have hin : i.Within i := hi.within_self
  refine ⟨?_, ?_, ?_, ?_, ?_⟩
  · rintro p (_ | ⟨_, hp⟩)
    · exact hi
    · exact h.wellFormed p hp
  · refine List.pairwise_cons.mpr ⟨fun older ho => ?_, h.ordered⟩
    cases stack with
    | nil => exact absurd ho (List.not_mem_nil)
    | cons c st =>
      have hnr := hr c rfl
      simp only [Interval.Reaches, not_forall, not_le] at hnr
      obtain ⟨e, he, hlt⟩ := hnr
      have hs : i.validFrom = some i.sortKey := by
        cases hv : i.validFrom with
        | none => simp [Interval.sortKey_of_none hv] at hlt
        | some s => rw [Interval.sortKey_of_some hv]
      rcases List.mem_cons.mp ho with rfl | ho
      · exact ⟨e, he, _, hs, hlt⟩
      · obtain ⟨e', he', s', hs', hlt'⟩ := (List.pairwise_cons.mp h.ordered).1 older ho
        have hc := h.sortKey_le hkey (List.mem_cons_self ..)
        rw [Interval.sortKey_of_some hs'] at hc
        exact ⟨e', he', _, hs, hlt'.trans_le hc⟩
  · rintro j (_ | ⟨_, hj⟩)
    · exact ⟨i, List.mem_cons_self .., hin⟩
    · obtain ⟨p, hp, hw⟩ := h.covers j hj
      exact ⟨p, List.mem_cons_of_mem _ hp, hw⟩
  · rintro p (_ | ⟨_, hp⟩)
    · exact ⟨i, List.mem_cons_self .., hin, rfl⟩
    · obtain ⟨j, hj, hw⟩ := h.starts p hp
      exact ⟨j, List.mem_cons_of_mem _ hj, hw⟩
  · rintro p (_ | ⟨_, hp⟩)
    · exact ⟨i, List.mem_cons_self .., hin, rfl⟩
    · obtain ⟨j, hj, hw⟩ := h.ends p hp
      exact ⟨j, List.mem_cons_of_mem _ hj, hw⟩

/-- One turn of the scan keeps the invariant. -/
theorem Folded.push {done stack : List (Interval T)} {i : Interval T}
    (h : Folded done stack) (hi : i.WellFormed) (hkey : ∀ j ∈ done, j.sortKey ≤ i.sortKey) :
    Folded (i :: done) (push stack i) := by
  cases stack with
  | nil => exact h.push_open hi hkey (by simp)
  | cons c st =>
    by_cases hr : c.Reaches i.sortKey
    · rw [push_cons_of_reaches _ hr]
      exact h.push_merge hi hkey hr
    · rw [push_cons_of_not_reaches _ hr]
      exact h.push_open hi hkey (by simpa using hr)

/-- The invariant only depends on which intervals are done. -/
theorem Folded.congr {done done' stack : List (Interval T)} (h : Folded done stack)
    (he : ∀ j, j ∈ done ↔ j ∈ done') : Folded done' stack where
  wellFormed := h.wellFormed
  ordered := h.ordered
  covers j hj := h.covers j ((he j).mpr hj)
  starts p hp := by
    obtain ⟨j, hj, hw⟩ := h.starts p hp
    exact ⟨j, (he j).mp hj, hw⟩
  ends p hp := by
    obtain ⟨j, hj, hw⟩ := h.ends p hp
    exact ⟨j, (he j).mp hj, hw⟩

/-- The invariant along the scan of a sorted list. -/
theorem Folded.foldl_push {done stack l : List (Interval T)} (h : Folded done stack)
    (hl : StartSorted l) (hw : ∀ i ∈ l, i.WellFormed)
    (hkey : ∀ j ∈ done, ∀ i ∈ l, j.sortKey ≤ i.sortKey) :
    Folded (l ++ done) (l.foldl Temporal.push stack) := by
  induction l generalizing done stack with
  | nil => exact h
  | cons i l ih =>
    have hpush := h.push (hw i (List.mem_cons_self ..))
      fun j hj => hkey j hj i (List.mem_cons_self ..)
    refine (ih hpush (List.Pairwise.of_cons hl) (fun j hj => hw j (List.mem_cons_of_mem _ hj))
      ?_).congr (by simp [or_left_comm])
    rintro j (_ | ⟨_, hj⟩) k hk
    · exact List.rel_of_pairwise_cons hl hk
    · exact hkey j hj k (List.mem_cons_of_mem _ hk)

/-- Scanning sorted well-formed intervals folds exactly those intervals. -/
theorem scan_folded {l : List (Interval T)} (hl : StartSorted l) (hw : ∀ i ∈ l, i.WellFormed) :
    Folded l (scan l) := by
  have h := Folded.nil.foldl_push hl hw (by simp)
  rwa [List.append_nil] at h

/-- Normalizing folds exactly the given intervals. -/
theorem normalize_folded {xs : List (Interval T)} (hw : ∀ i ∈ xs, i.WellFormed) :
    Folded xs (normalize xs).reverse := by
  have hmem := fun i => (sortIntervals_perm xs).mem_iff (a := i)
  rw [normalize_eq_scan hw, List.reverse_reverse]
  exact (scan_folded (sortIntervals_sorted xs) fun i hi => hw i ((hmem i).mp hi)).congr hmem

/-- Normalized periods are well formed. -/
theorem normalize_wellFormed {xs : List (Interval T)} (hw : ∀ i ∈ xs, i.WellFormed) :
    ∀ p ∈ normalize xs, p.WellFormed := fun p hp =>
  (normalize_folded hw).wellFormed p (List.mem_reverse.mpr hp)

/-- Normalized periods are in strict temporal order. -/
theorem normalize_ordered {xs : List (Interval T)} (hw : ∀ i ∈ xs, i.WellFormed) :
    (normalize xs).Pairwise Interval.Before := by
  have h := (normalize_folded hw).ordered
  rwa [List.pairwise_reverse] at h

/-- A period does not reach the start of a later one. -/
theorem Interval.Before.not_reaches {a b : Interval T} (h : a.Before b) : ¬a.Reaches b.sortKey := by
  obtain ⟨e, he, s, hs, hlt⟩ := h
  rw [Interval.sortKey_of_some hs]
  exact fun hr => absurd (hr e he) (not_le.mpr hlt)

private theorem foldl_push_of_ordered {xs stack : List (Interval T)}
    (h : xs.Pairwise Interval.Before) (hstack : ∀ c ∈ stack.head?, ∀ i ∈ xs, c.Before i) :
    xs.foldl Temporal.push stack = xs.reverse ++ stack := by
  induction xs generalizing stack with
  | nil => rfl
  | cons x xs ih =>
    have hpush : Temporal.push stack x = x :: stack := by
      cases stack with
      | nil => rfl
      | cons c st =>
        exact push_cons_of_not_reaches _ (hstack c rfl x (List.mem_cons_self ..)).not_reaches
    rw [List.pairwise_cons] at h
    rw [List.foldl_cons, hpush, ih h.2 fun c hc i hi => by cases hc; exact h.1 i hi]
    simp

/-- Periods in temporal order are in the order of their starts. -/
theorem startSorted_of_ordered {xs : List (Interval T)} (hw : ∀ i ∈ xs, i.WellFormed)
    (h : xs.Pairwise Interval.Before) : StartSorted xs := by
  refine h.imp_of_mem fun {a b} ha _ hab => ?_
  obtain ⟨e, he, s, hs, hlt⟩ := hab
  rw [Interval.sortKey_of_some hs]
  exact ((hw a ha).reaches e he).trans hlt.le

/-- Periods in temporal order are normalized. -/
theorem normalize_of_ordered {xs : List (Interval T)} (hw : ∀ i ∈ xs, i.WellFormed)
    (h : xs.Pairwise Interval.Before) : normalize xs = xs := by
  rw [normalize_eq_scan_of_perm hw (startSorted_of_ordered hw h) (List.Perm.refl _), scan,
    foldl_push_of_ordered h (by simp)]
  simp

/-- Normalizing twice is normalizing once. -/
theorem normalize_normalize {xs : List (Interval T)} (hw : ∀ i ∈ xs, i.WellFormed) :
    normalize (normalize xs) = normalize xs :=
  normalize_of_ordered (normalize_wellFormed hw) (normalize_ordered hw)

end Maeglagi.Temporal
