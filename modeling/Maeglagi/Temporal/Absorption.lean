import Maeglagi.Temporal.Exact

/-!
# Normalization as a canonical form

The periods up to the end of one of them are normalized from what starts by that end. So each
period is covered by the intervals it was folded from, and the intervals may be normalized again
together with their periods. An interval with both bounds is in one period.
-/

namespace Maeglagi.Temporal

open Core

variable {T : Type} [LinearOrder T]

/-- The interval is a part of the period; an unknown bound is infinite. -/
def Interval.Contains (p i : Interval T) : Prop :=
  (∀ s' ∈ p.validFrom, ∃ s ∈ i.validFrom, s' ≤ s) ∧ ∀ e' ∈ p.validTo, ∃ e ∈ i.validTo, e ≤ e'

instance decidableContains (p i : Interval T) : Decidable (p.Contains i) :=
  inferInstanceAs (Decidable ((∀ s' ∈ p.validFrom, ∃ s ∈ i.validFrom, s' ≤ s) ∧
    ∀ e' ∈ p.validTo, ∃ e ∈ i.validTo, e ≤ e'))

variable [OrderBot T] {xs : List (Interval T)}

/-- Scanning what starts after a period's end leaves the periods before it. -/
theorem mem_foldl_push_of_early {stack late : List (Interval T)} {d p : Interval T} {e : T}
    (hls : StartSorted late) (hl : ∀ i ∈ late, i.WellFormed ∧ e < i.sortKey)
    (hstack : stack.Pairwise fun newer older => older.Before newer)
    (hkey : ∀ c ∈ stack, c.sortKey ≤ e) (he : e ∈ d.validTo)
    (hd : d ∈ late.foldl push stack) (hp : p ∈ stack) : p ∈ late.foldl push stack := by
  cases stack with
  | nil => cases hp
  | cons c st =>
    have hbelow := foldl_push_append c [] st late
    rw [List.singleton_append] at hbelow
    rcases List.mem_cons.mp hp with rfl | hp
    · -- the top ends at `e`, so nothing later is in its reach
      have htop : e ∈ p.validTo := by
        rcases mem_foldl_push_late hls (fun i hi => (hl i hi).1) (fun i hi => (hl i hi).2) hd with
          hd | ⟨l, hll, rfl⟩ | hafter
        · obtain ⟨e', he', s, hs, hlt⟩ := (List.pairwise_cons.mp hstack).1 d hd
          have hle := hkey p (List.mem_cons_self ..)
          rw [Interval.sortKey_of_some hs] at hle
          rw [Option.mem_unique he' he] at hlt
          exact absurd hle (not_le.mpr hlt)
        · rcases mem_foldl_merge_validTo he with he | ⟨i, hi, he⟩
          · exact he
          · obtain ⟨hiw, hlt⟩ := hl i (hll i hi)
            exact absurd (hiw.reaches e he) (not_le.mpr hlt)
        · exact absurd (hafter e he) (lt_irrefl e)
      exact mem_foldl_push_of_final fun i hi hr =>
        absurd (hr e htop) (not_le.mpr (hl i hi).2)
    · rw [hbelow]
      exact List.mem_append_right _ hp

/-- The periods of what starts by the end of a period are periods of the whole. -/
theorem mem_normalize_of_early (hw : ∀ i ∈ xs, i.WellFormed) {d p : Interval T} {e : T}
    (hd : d ∈ normalize xs) (he : e ∈ d.validTo)
    (hp : p ∈ normalize (xs.filter fun i => decide (i.sortKey ≤ e))) : p ∈ normalize xs := by
  have hwf : ∀ i ∈ xs.filter fun i => decide (i.sortKey ≤ e), i.WellFormed :=
    fun i hi => hw i (List.mem_filter.mp hi).1
  obtain ⟨late, hls, hlp, hl⟩ := exists_late hw e
  have hes := sortIntervals_sorted (xs.filter fun i => decide (i.sortKey ≤ e))
  have hep := sortIntervals_perm (xs.filter fun i => decide (i.sortKey ≤ e))
  have hfolded := scan_folded hes fun i hi => hwf i (hep.mem_iff.mp hi)
  have hkey : ∀ c ∈ scan (sortIntervals (xs.filter fun i => decide (i.sortKey ≤ e))),
      c.sortKey ≤ e := fun c hc => hfolded.sortKey_le (fun j hj =>
    of_decide_eq_true (List.mem_filter.mp (hep.mem_iff.mp hj)).2) hc
  rw [normalize_eq_scan hwf, List.mem_reverse] at hp
  rw [normalize_eq_scan_of_split hw hes hls hep hlp, List.mem_reverse] at hd ⊢
  exact mem_foldl_push_of_early hls hl hfolded.ordered hkey he hd hp

/-- Each period is covered by what it was folded from. -/
theorem covered_normalize (hw : ∀ i ∈ xs, i.WellFormed) {d : Interval T}
    (hd : d ∈ normalize xs) : Covered (later (normalize xs) d ++ xs) d := by
  intro e he p hp hr
  have hord := normalize_ordered hw
  have hlater : (later (normalize xs) d).filter (fun i => decide (i.sortKey ≤ e)) = [] := by
    refine List.filter_eq_nil_iff.mpr fun i hi => ?_
    obtain ⟨hi, hafter⟩ := mem_of_mem_later hi
    rw [decide_eq_true_eq, not_le]
    rcases before_or_before hord hd hi with rfl | hdi | hid
    · exact absurd hafter d.not_endsBefore_self
    · obtain ⟨e', he', s, hs, hlt⟩ := hdi
      rwa [Interval.sortKey_of_some hs, Option.mem_unique he he']
    · obtain ⟨e', he', f, hf, hlt⟩ := hafter
      obtain ⟨f', hf', s, hs, hlt'⟩ := hid
      have hle := normalize_wellFormed hw d hd s e hs he
      rw [Option.mem_unique he' he, Option.mem_unique hf hf'] at hlt
      exact absurd (hlt.trans hlt') (not_lt.mpr hle)
  rw [List.filter_append, hlater, List.nil_append] at hp
  have hkey : p.sortKey ≤ e := by
    have hwf : ∀ i ∈ xs.filter fun i => decide (i.sortKey ≤ e), i.WellFormed :=
      fun i hi => hw i (List.mem_filter.mp hi).1
    obtain ⟨j, hj, -, hs⟩ := (normalize_folded hwf).starts p (List.mem_reverse.mpr hp)
    rw [← Interval.sortKey_congr hs]
    exact of_decide_eq_true (List.mem_filter.mp hj).2
  have hpn := mem_normalize_of_early hw hd he hp
  rcases before_or_before hord hpn hd with rfl | hpd | hdp
  · exact ⟨e, he, le_rfl⟩
  · exact absurd hr hpd.not_reaches
  · obtain ⟨e', he', s, hs, hlt⟩ := hdp
    rw [Interval.sortKey_of_some hs] at hkey
    rw [Option.mem_unique he' he] at hlt
    exact absurd hkey (not_le.mpr hlt)

/-- The periods absorb what they were folded from. -/
theorem normalize_normalize_append (hw : ∀ i ∈ xs, i.WellFormed) :
    normalize (normalize xs ++ xs) = normalize xs := by
  refine (normalize_append_eq_iff hw (normalize_wellFormed hw) fun d hd => ?_).mpr
    fun d hd => covered_normalize hw hd
  obtain ⟨j, hj, -, hs⟩ := (normalize_folded hw).starts d (List.mem_reverse.mpr hd)
  exact ⟨j, hj, hs⟩

omit [OrderBot T] in
/-- Two periods in temporal order do not both contain an interval with both bounds. -/
theorem Interval.Before.not_contains {p q i : Interval T} (h : p.Before q) (hi : i.WellFormed)
    (hp : p.Contains i) : ¬q.Contains i := by
  obtain ⟨e, he, s, hs, hlt⟩ := h
  intro hq
  obtain ⟨s', hs', hle⟩ := hq.1 s hs
  obtain ⟨e', he', hle'⟩ := hp.2 e he
  exact absurd ((hle.trans (hi s' e' hs' he')).trans hle') (not_le.mpr hlt)

/-- An interval with both bounds is a part of the period it was folded into. -/
theorem Interval.Within.contains {p i : Interval T} {s e : T} (h : i.Within p)
    (hs : s ∈ i.validFrom) (he : e ∈ i.validTo) : p.Contains i := by
  refine ⟨fun s' hs' => ⟨s, hs, ?_⟩, fun e' he' => ⟨e, he, ?_⟩⟩
  · obtain ⟨s'', hs'', hle⟩ := h.start s hs
    rwa [Option.mem_unique hs' hs'']
  · obtain ⟨e'', he'', hle⟩ := h.finish e he
    rwa [Option.mem_unique he' he'']

/-- An interval with both bounds is a part of exactly one period. -/
theorem countP_contains_normalize (hw : ∀ i ∈ xs, i.WellFormed) {i : Interval T} (hi : i ∈ xs)
    {s e : T} (hs : s ∈ i.validFrom) (he : e ∈ i.validTo) :
    (normalize xs).countP (fun p => decide (p.Contains i)) = 1 := by
  obtain ⟨p, hp, hin⟩ := (normalize_folded hw).covers i hi
  have hcontains := hin.contains hs he
  obtain ⟨before, after, hsplit⟩ := List.append_of_mem (List.mem_reverse.mp hp)
  have hord := normalize_ordered hw
  rw [hsplit, List.pairwise_append, List.pairwise_cons] at hord
  obtain ⟨-, ⟨hafter, -⟩, hbefore⟩ := hord
  have hnone : before.countP (fun p => decide (p.Contains i)) = 0 := by
    refine List.countP_eq_zero.mpr fun q hq hqi => ?_
    exact (hbefore q hq p (List.mem_cons_self ..)).not_contains (hw i hi)
      (of_decide_eq_true hqi) hcontains
  have hnone' : after.countP (fun p => decide (p.Contains i)) = 0 := by
    refine List.countP_eq_zero.mpr fun q hq hqi => ?_
    exact (hafter q hq).not_contains (hw i hi) hcontains (of_decide_eq_true hqi)
  rw [hsplit, List.countP_append, List.countP_cons, hnone, hnone', decide_eq_true hcontains]
  rfl

/-- Normalization is a canonical form: its periods are in order and disjoint, they depend on the
order of the intervals in no way, normalizing them again or with the intervals once more gives
them back, and every interval with both bounds is a part of exactly one of them. -/
theorem normalize_canonical (xs : List (Interval T)) (hw : ∀ i ∈ xs, i.WellFormed) :
    StartSorted (normalize xs) ∧
      (normalize xs).Pairwise (fun a b => a.overlaps b = false) ∧
      (∀ ys, ys.Perm xs → normalize ys = normalize xs) ∧
      normalize (normalize xs) = normalize xs ∧
      normalize (normalize xs ++ xs) = normalize xs ∧
      ∀ i ∈ xs, ∀ s ∈ i.validFrom, ∀ e ∈ i.validTo,
        (normalize xs).countP (fun p => decide (p.Contains i)) = 1 := by
  refine ⟨startSorted_of_ordered (normalize_wellFormed hw) (normalize_ordered hw), ?_,
    fun ys hperm => ?_, normalize_normalize hw, normalize_normalize_append hw,
    fun i hi s hs e he => countP_contains_normalize hw hi hs he⟩
  · exact (normalize_ordered hw).imp Interval.Before.not_overlaps
  · exact normalize_perm (fun i hi => hw i (hperm.mem_iff.mp hi)) hperm

/-- A closing report folds an open period, and a later one stays apart. -/
theorem normalize_canonical_reports :
    let xs : List (Interval Nat) := [⟨some 6, none⟩, ⟨none, some 3⟩, ⟨some 1, some 2⟩]
    normalize xs = [⟨some 1, some 3⟩, ⟨some 6, none⟩] ∧
      normalize (normalize xs ++ xs) = normalize xs := by
  intro xs
  have hw : ∀ i ∈ xs, i.WellFormed := by decide
  obtain ⟨-, -, -, -, habsorbed, -⟩ := normalize_canonical xs hw
  exact ⟨by decide, habsorbed⟩

end Maeglagi.Temporal
