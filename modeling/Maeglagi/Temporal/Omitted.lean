import Mathlib.Data.Finset.Max
import Maeglagi.Temporal.Covered

/-!
# Which intervals a normalization can do without

A batch of intervals whose starts all occur elsewhere can be left out exactly when each
of them is covered, counting those of the batch that end later. Enough: the earliest
ends are left out last. Needed: what is not covered changes the period of its start.
-/

namespace Maeglagi.Temporal

open Core

variable {T : Type} [LinearOrder T]

/-- Every interval has a stated end, is well formed, and shares its start with the list. -/
structure Omittable (xs out : List (Interval T)) : Prop where
  wellFormed : ∀ d ∈ out, d.WellFormed
  closed : ∀ d ∈ out, ∃ e, d.validTo = some e
  start : ∀ d ∈ out, ∃ k ∈ xs, k.validFrom = d.validFrom

theorem Omittable.mono {xs ys out out' : List (Interval T)} (h : Omittable xs out)
    (hout : ∀ d ∈ out', d ∈ out) (hxs : ∀ k ∈ xs, k ∈ ys) : Omittable ys out' where
  wellFormed d hd := h.wellFormed d (hout d hd)
  closed d hd := h.closed d (hout d hd)
  start d hd := by
    obtain ⟨k, hk, hs⟩ := h.start d (hout d hd)
    exact ⟨k, hxs k hk, hs⟩

/-- Those of the batch that end after the interval. -/
def later (out : List (Interval T)) (d : Interval T) : List (Interval T) :=
  out.filter fun i => decide (d.EndsBefore i)

/-- Those of the batch that do not end after the interval. -/
def notLater (out : List (Interval T)) (d : Interval T) : List (Interval T) :=
  out.filter fun i => !decide (d.EndsBefore i)

theorem mem_of_mem_later {out : List (Interval T)} {d i : Interval T} (h : i ∈ later out d) :
    i ∈ out ∧ d.EndsBefore i :=
  ⟨(List.mem_filter.mp h).1, of_decide_eq_true (List.mem_filter.mp h).2⟩

theorem mem_notLater {out : List (Interval T)} {d i : Interval T} :
    i ∈ notLater out d ↔ i ∈ out ∧ ¬d.EndsBefore i := by
  simp [notLater]

theorem notLater_append_later (out : List (Interval T)) (d : Interval T) :
    (notLater out d ++ later out d).Perm out :=
  List.perm_append_comm.trans (List.filter_append_perm _ out)

theorem Interval.not_endsBefore_self (d : Interval T) : ¬d.EndsBefore d := by
  rintro ⟨e, he, f, hf, hlt⟩
  exact lt_irrefl e (Option.mem_unique hf he ▸ hlt)

theorem length_later_lt {out : List (Interval T)} {d : Interval T} (hd : d ∈ out) :
    (later out d).length < out.length :=
  List.length_filter_lt_length_iff_exists.mpr ⟨d, hd, by simpa using d.not_endsBefore_self⟩

theorem later_later {out : List (Interval T)} {d d' : Interval T} (h : d.EndsBefore d') :
    later (later out d) d' = later out d' := by
  unfold later
  rw [List.filter_filter]
  refine List.filter_congr fun i _ => ?_
  rw [Bool.and_eq_left_iff_imp]
  simp only [decide_eq_true_eq]
  rintro ⟨e', he', f, hf, hlt⟩
  obtain ⟨e, he, e'', he'', hlt'⟩ := h
  rw [Option.mem_unique he'' he'] at hlt'
  exact ⟨e, he, f, hf, hlt'.trans hlt⟩

variable [OrderBot T]

/-- The periods after scanning what starts after `e`: the ones below the top, the top
with a first part of it folded in, and periods that end after `e`. -/
theorem mem_foldl_push_late {c q : Interval T} {st late : List (Interval T)} {e : T}
    (hsorted : StartSorted late) (hw : ∀ i ∈ late, i.WellFormed) (hlate : ∀ i ∈ late, e < i.sortKey)
    (hq : q ∈ late.foldl push (c :: st)) :
    q ∈ st ∨ (∃ l : List (Interval T), (∀ i ∈ l, i ∈ late) ∧ q = l.foldl Interval.merge c) ∨
      ∀ f ∈ q.validTo, e < f := by
  rcases foldl_push_split c st late with h | ⟨l₁, b, l₂, rfl, -, h⟩
  · rw [h] at hq
    rcases List.mem_cons.mp hq with rfl | hq
    · exact Or.inr (Or.inl ⟨late, fun _ hi => hi, rfl⟩)
    · exact Or.inl hq
  · rw [h] at hq
    rcases List.mem_append.mp hq with hq | hq
    · refine Or.inr (Or.inr fun f hf => ?_)
      have hfold := scan_folded (l := b :: l₂) (List.pairwise_append.mp hsorted).2.1
        fun i hi => hw i (List.mem_append_right _ hi)
      obtain ⟨j, hj, -, he⟩ := hfold.ends q hq
      have hj' := List.mem_append_right l₁ hj
      exact (hlate j hj').trans_le ((hw j hj').reaches f (he ▸ hf))
    · rcases List.mem_cons.mp hq with rfl | hq
      · exact Or.inr (Or.inl ⟨l₁, fun i hi => List.mem_append_left _ hi, rfl⟩)
      · exact Or.inl hq

/-- The top of the stack stays a period when nothing later is in its reach. -/
theorem mem_foldl_push_of_final {c : Interval T} {st late : List (Interval T)}
    (h : ∀ i ∈ late, ¬c.Reaches i.sortKey) : c ∈ late.foldl push (c :: st) := by
  cases late with
  | nil => exact List.mem_cons_self ..
  | cons b late =>
    rw [List.foldl_cons, push_cons_of_not_reaches _ (h b (List.mem_cons_self ..))]
    have := foldl_push_append b [] (c :: st) late
    rw [List.singleton_append] at this
    rw [this]
    exact List.mem_append_right _ (List.mem_cons_self ..)

/-- The scan around a member that is known to end at `e`: its period is on top at `e`, and
the periods below do not reach its start. -/
theorem exists_scan_of_known {xs : List (Interval T)} (hw : ∀ i ∈ xs, i.WellFormed)
    {d : Interval T} (hd : d ∈ xs) {e : T} (he : e ∈ d.validTo) :
    ∃ early c st, StartSorted early ∧
      early.Perm (xs.filter fun i => decide (i.sortKey ≤ e)) ∧ scan early = c :: st ∧
      c.Reaches d.sortKey ∧ (∃ f ∈ c.validTo, e ≤ f) ∧ ∀ o ∈ st, ¬o.Reaches d.sortKey := by
  obtain ⟨before, after, c, st, hperm, hsorted, hscan, hdc, hst, hafter⟩ :=
    exists_scan_at hw hd ((hw d hd).reaches e he)
  obtain ⟨f, hf, hle⟩ := hdc.finish e he
  obtain ⟨f', hf', hle'⟩ := exists_foldl_merge_ge hf after
  have hin := hdc.foldl_merge (fun i hi => (hafter i hi).1) fun i hi => (hafter i hi).2.1
  refine ⟨_, after.foldl Interval.merge c, st, hsorted, hperm, ?_, hin.reached,
    ⟨f', hf', hle.trans hle'⟩, hst⟩
  rw [← (foldl_push_of_known hf st fun i hi => (hafter i hi).2.2.trans hle).1, ← hscan, scan, scan,
    ← List.foldl_append, List.append_assoc]
  rfl

/-- The top is not open once an interval that ends at `e` or after it is folded. -/
theorem Folded.exists_top_end {done st : List (Interval T)} {c i : Interval T} {e f : T}
    (h : Folded done (c :: st)) (hkey : ∀ j ∈ done, j.sortKey ≤ e) (hi : i ∈ done)
    (hf : f ∈ i.validTo) (hle : e ≤ f) : ∃ g, c.validTo = some g := by
  obtain ⟨q, hq, hiq⟩ := h.covers i hi
  obtain ⟨g, hg, hfg⟩ := hiq.finish f hf
  rcases List.mem_cons.mp hq with rfl | hq
  · exact ⟨g, hg⟩
  · refine absurd (fun g' hg' => ?_) (h.not_reaches_of_tail
      (h.sortKey_le hkey (List.mem_cons_self ..)) hq)
    rw [Option.mem_unique hg' hg]
    exact hle.trans hfg

/-- What starts after `e`, in the order of its starts. -/
theorem exists_late {xs : List (Interval T)} (hw : ∀ i ∈ xs, i.WellFormed) (e : T) :
    ∃ late, StartSorted late ∧ late.Perm (xs.filter fun i => !decide (i.sortKey ≤ e)) ∧
      ∀ i ∈ late, i.WellFormed ∧ e < i.sortKey := by
  refine ⟨_, sortIntervals_sorted _, sortIntervals_perm _, fun i hi => ?_⟩
  have hi' := List.mem_filter.mp ((sortIntervals_perm _).mem_iff.mp hi)
  simp only [Bool.not_eq_true', decide_eq_false_iff_not, not_le] at hi'
  exact ⟨hw i hi'.1, hi'.2⟩

/-- What an omitted interval changes nothing about covers it, when the other omitted
intervals end no later. -/
theorem covered_of_normalize_eq {xs out : List (Interval T)} {k d : Interval T} {e : T}
    (hk : k ∈ xs) (hstart : k.validFrom = d.validFrom) (hw : ∀ i ∈ xs, i.WellFormed)
    (hout : ∀ i ∈ out, i.WellFormed ∧ ∃ f ∈ i.validTo, f ≤ e) (hd : d ∈ out)
    (he : e ∈ d.validTo) (heq : normalize (out ++ xs) = normalize xs) : Covered xs d := by
  have hkey : k.sortKey = d.sortKey := Interval.sortKey_congr hstart
  have hwo : ∀ i ∈ out ++ xs, i.WellFormed := by
    intro i hi
    rcases List.mem_append.mp hi with hi | hi
    · exact (hout i hi).1
    · exact hw i hi
  have hoe : ∀ i ∈ out, i.sortKey ≤ e := by
    intro i hi
    obtain ⟨hi', f, hf, hle⟩ := hout i hi
    exact (hi'.reaches f hf).trans hle
  -- both lists start alike after `e`
  obtain ⟨late, hls, hlp, hl⟩ := exists_late hw e
  have hlp' : late.Perm ((out ++ xs).filter fun i => !decide (i.sortKey ≤ e)) := by
    have hnil : out.filter (fun i => !decide (i.sortKey ≤ e)) = [] := by
      simpa using hoe
    rw [List.filter_append, hnil]
    exact hlp
  obtain ⟨early', c', st', hs', hp', hscan', hr', ⟨f', hf', hle'⟩, hst'⟩ :=
    exists_scan_of_known hwo (List.mem_append_left xs hd) he
  obtain ⟨before, after, c, st, hp, hs, hscan, hkc, hst, hafter⟩ :=
    exists_scan_at hw hk (hkey ▸ hoe d hd)
  have hfold : scan (before ++ k :: after) = after.foldl push (c :: st) := by
    rw [← hscan, scan, scan, ← List.foldl_append, List.append_assoc]
    rfl
  have hX : normalize xs = (late.foldl push (c' :: st')).reverse := by
    rw [← heq, normalize_eq_scan_of_split hwo hs' hls hp' hlp', hscan']
  have hN : normalize xs = (late.foldl push (after.foldl push (c :: st))).reverse := by
    rw [normalize_eq_scan_of_split hw hs hls hp hlp, hfold]
  have hsame : ∀ q, q ∈ late.foldl push (after.foldl push (c :: st)) ↔
      q ∈ late.foldl push (c' :: st') := by
    intro q
    rw [← List.mem_reverse, ← hN, hX, List.mem_reverse]
  -- no final period that the start can belong to ends before `e`
  have hends : ∀ q ∈ late.foldl push (after.foldl push (c :: st)), q.Reaches d.sortKey →
      ∀ f ∈ q.validTo, e ≤ f := by
    intro q hq hqr f hf
    rcases mem_foldl_push_late hls (fun i hi => (hl i hi).1) (fun i hi => (hl i hi).2)
      ((hsame q).mp hq) with hq | ⟨l, -, rfl⟩ | hq
    · exact absurd hqr (hst' q hq)
    · obtain ⟨f'', hf'', hle''⟩ := exists_foldl_merge_ge hf' l
      rw [Option.mem_unique hf hf'']
      exact hle'.trans hle''
    · exact (hq f hf).le
  have hkin : ∀ l : List (Interval T), (∀ i ∈ l, i ∈ after) →
      (l.foldl Interval.merge c).Reaches d.sortKey := fun l hl => hkey ▸ (hkc.foldl_merge (fun i hi => (hafter i (hl i hi)).1)
      fun i hi => (hafter i (hl i hi)).2.1).reached
  intro e₁ he₁ p hp₁ hpr
  obtain rfl := Option.mem_unique he he₁
  have hwf : ∀ i ∈ xs.filter fun i => decide (i.sortKey ≤ e), i.WellFormed :=
    fun i hi => hw i (List.mem_filter.mp hi).1
  rw [normalize_eq_scan_of_perm hwf hs hp, hfold, List.mem_reverse] at hp₁
  rcases foldl_push_split c st after with hall | ⟨l₁, b, l₂, rfl, hnr, hopen⟩
  · rw [hall] at hp₁ hsame hends hfold
    rcases List.mem_cons.mp hp₁ with rfl | hp₁
    · cases hc : (after.foldl Interval.merge c).validTo with
      | some f =>
        refine ⟨f, rfl, le_of_not_gt fun hlt => absurd hlt (not_lt.mpr ?_)⟩
        refine hends _ (mem_foldl_push_of_final fun i hi hr => ?_) hpr f hc
        exact absurd (hr f hc) (not_le.mpr (hlt.trans (hl i hi).2))
      | none =>
        exfalso
        rcases hle'.lt_or_eq with hlt | rfl
        · -- an interval of the list ends after `e`, so the top cannot be open
          have hX' := scan_folded hs' fun i hi => hwo i (List.mem_filter.mp (hp'.mem_iff.mp hi)).1
          have hN' := scan_folded hs fun i hi => hwf i (hp.mem_iff.mp hi)
          rw [hscan'] at hX'
          rw [hfold] at hN'
          obtain ⟨i, hi, -, hif⟩ := hX'.ends c' (List.mem_cons_self ..)
          obtain ⟨hi, hie⟩ := List.mem_filter.mp (hp'.mem_iff.mp hi)
          rcases List.mem_append.mp hi with hi | hi
          · obtain ⟨-, g, hg, hge⟩ := hout i hi
            rw [Option.mem_unique hg (hif ▸ hf')] at hge
            exact absurd hlt (not_lt.mpr hge)
          · have hearly : ∀ j ∈ before ++ k :: after, j.sortKey ≤ e := fun j hj =>
              of_decide_eq_true (List.mem_filter.mp (hp.mem_iff.mp hj)).2
            obtain ⟨g, hg⟩ := hN'.exists_top_end hearly
              (hp.mem_iff.mpr (List.mem_filter.mpr ⟨hi, hie⟩)) (hif ▸ hf') hle'
            rw [hc] at hg
            cases hg
        · -- the period of `d` is final, so it is one of the list without `d`
          have hfin : c' ∈ late.foldl push (c' :: st') := mem_foldl_push_of_final fun i hi hr =>
            absurd (hr e hf') (not_le.mpr (hl i hi).2)
          rcases mem_foldl_push_late hls (fun i hi => (hl i hi).1) (fun i hi => (hl i hi).2)
            ((hsame c').mpr hfin) with hq | ⟨l, hll, rfl⟩ | hq
          · exact hst c' hq (hkey ▸ hr')
          · rcases mem_foldl_merge_validTo hf' with hf' | ⟨i, hi, hf'⟩
            · rw [hc] at hf'
              cases hf'
            · exact absurd ((hl i (hll i hi)).1.reaches e hf') (not_le.mpr (hl i (hll i hi)).2)
          · exact lt_irrefl e (hq e hf')
    · exact absurd hpr (hkey ▸ hst p hp₁)
  · -- the top was final although an omitted interval reaches further
    exfalso
    rw [hopen] at hends
    simp only [Interval.Reaches, not_forall, not_le] at hnr
    obtain ⟨f, hf, hlt⟩ := hnr
    have hb := (hafter b (by simp)).2.2
    refine absurd (hends _ ?_ (hkin l₁ fun i hi => by simp [hi]) f hf) (not_le.mpr (hlt.trans_le hb))
    cases hsc : scan (b :: l₂) with
    | nil => exact mem_foldl_push_of_final fun i hi hr =>
        absurd (hr f hf) (not_le.mpr (hlt.trans_le (hb.trans (hl i hi).2.le)))
    | cons u us =>
      rw [foldl_push_append]
      exact List.mem_append_right _ (List.mem_cons_self ..)

/-- Omitting one covered interval leaves another one with the same end covered. -/
theorem Covered.cons_of_same_end {xs : List (Interval T)} {k t d : Interval T} (hk : k ∈ xs)
    (hstart : k.validFrom = t.validFrom) (hw : ∀ i ∈ xs, i.WellFormed) (ht : t.WellFormed)
    (htc : Covered xs t) (hend : t.validTo = d.validTo) (hdc : Covered xs d) :
    Covered (t :: xs) d := by
  intro e he
  have hte : t.sortKey ≤ e := ht.reaches e (hend ▸ he)
  have hkf : k ∈ xs.filter fun i => decide (i.sortKey ≤ e) :=
    List.mem_filter.mpr ⟨hk, decide_eq_true ((Interval.sortKey_congr hstart).trans_le hte)⟩
  have htf : Covered (xs.filter fun i => decide (i.sortKey ≤ e)) t := by
    intro e' he'
    obtain rfl := Option.mem_unique (hend ▸ he') he
    rw [List.filter_filter]
    simpa only [Bool.and_self] using htc e' he'
  rw [List.filter_cons, if_pos (decide_eq_true hte),
    normalize_cons_of_covered hkf hstart (fun i hi => hw i (List.mem_filter.mp hi).1) ht htf]
  exact hdc e he

/-- Covered intervals with one end can be left out together. -/
theorem normalize_append_of_same_end {out xs : List (Interval T)} {m : Option T}
    (hw : ∀ i ∈ xs, i.WellFormed)
    (hout : ∀ t ∈ out, t.WellFormed ∧ t.validTo = m ∧ ∃ k ∈ xs, k.validFrom = t.validFrom)
    (hcov : ∀ t ∈ out, Covered xs t) : normalize (out ++ xs) = normalize xs := by
  induction out generalizing xs with
  | nil => rfl
  | cons t out ih =>
    obtain ⟨ht, hm, k, hk, hstart⟩ := hout t (List.mem_cons_self ..)
    have htc := hcov t (List.mem_cons_self ..)
    have hw' : ∀ i ∈ t :: xs, i.WellFormed := by simpa [ht] using hw
    have hrest : ∀ u ∈ out, u.WellFormed ∧ u.validTo = m ∧ ∃ k ∈ t :: xs, k.validFrom = u.validFrom := by
      intro u hu
      obtain ⟨hu, hum, k, hk, hs⟩ := hout u (List.mem_cons_of_mem _ hu)
      exact ⟨hu, hum, k, List.mem_cons_of_mem _ hk, hs⟩
    rw [← normalize_cons_of_covered hk hstart hw ht htc, ← ih hw' hrest fun u hu => ?_]
    · refine normalize_perm ?_ List.perm_middle.symm
      intro i hi
      rcases List.mem_cons.mp hi with rfl | hi
      · exact ht
      · rcases List.mem_append.mp hi with hi | hi
        · exact (hrest i hi).1
        · exact hw i hi
    · exact htc.cons_of_same_end hk hstart hw ht (hm.trans (hrest u hu).2.1.symm)
        (hcov u (List.mem_cons_of_mem _ hu))

/-- Some interval of a batch ends no later than any other. -/
theorem exists_ends_first {out : List (Interval T)} (hne : out ≠ []) : ∃ d ∈ out, ∀ i ∈ out, ¬i.EndsBefore d := by
  obtain ⟨d, hd, hmin⟩ := out.toFinset.exists_min_image (fun i => i.validTo.getD ⊥)
    (List.toFinset_nonempty_iff _ |>.mpr hne)
  refine ⟨d, List.mem_toFinset.mp hd, ?_⟩
  rintro i hi ⟨e, he, f, hf, hlt⟩
  have hle := hmin i (List.mem_toFinset.mpr hi)
  rw [Option.mem_def] at he hf
  rw [he, hf] at hle
  exact absurd hlt (not_lt.mpr hle)

/-- Enough: a batch of covered intervals can be left out. -/
theorem normalize_append_of_covered {xs out : List (Interval T)} (hw : ∀ i ∈ xs, i.WellFormed)
    (h : Omittable xs out) (hcov : ∀ d ∈ out, Covered (later out d ++ xs) d) :
    normalize (out ++ xs) = normalize xs := by
  induction hn : out.length using Nat.strongRecOn generalizing out with
  | ind n ih =>
    by_cases hne : out = []
    · rw [hne, List.nil_append]
    obtain ⟨d, hd, hmin⟩ := exists_ends_first hne
    have hsub : ∀ i ∈ later out d, i ∈ out := fun i hi => (mem_of_mem_later hi).1
    have hlate : normalize (later out d ++ xs) = normalize xs := by
      refine ih _ (hn ▸ length_later_lt hd) (h.mono hsub fun _ hk => hk) (fun d' hd' => ?_) rfl
      rw [later_later (mem_of_mem_later hd').2]
      exact hcov d' (hsub d' hd')
    have hwl : ∀ i ∈ later out d ++ xs, i.WellFormed :=
      List.forall_mem_append.mpr ⟨fun i hi => h.wellFormed i (hsub i hi), hw⟩
    -- what is not later ends with `d`
    have hties : ∀ t ∈ notLater out d, t.validTo = d.validTo := by
      intro t ht
      obtain ⟨ht, hnot⟩ := mem_notLater.mp ht
      obtain ⟨e, he⟩ := h.closed d hd
      obtain ⟨f, hf⟩ := h.closed t ht
      have hle : ¬e < f := fun hlt => hnot ⟨e, he, f, hf, hlt⟩
      have hge : ¬f < e := fun hlt => hmin t ht ⟨f, hf, e, he, hlt⟩
      rw [he, hf, le_antisymm (not_lt.mp hle) (not_lt.mp hge)]
    have hout : Omittable (later out d ++ xs) (notLater out d) :=
      h.mono (fun t ht => (mem_notLater.mp ht).1) fun k hk => List.mem_append_right _ hk
    rw [← hlate, ← normalize_append_of_same_end hwl
      (fun t ht => ⟨hout.wellFormed t ht, hties t ht, hout.start t ht⟩) fun t ht => ?_]
    · refine normalize_perm (List.forall_mem_append.mpr ⟨h.wellFormed, hw⟩) ?_
      rw [← List.append_assoc]
      exact (notLater_append_later out d).symm.append_right xs
    · have hlater : later out t = later out d :=
        List.filter_congr fun i _ => decide_eq_decide.mpr (by
          rw [Interval.EndsBefore, Interval.EndsBefore, hties t ht])
      exact hlater ▸ hcov t (mem_notLater.mp ht).1

/-- Needed: what can be left out of a batch is covered. -/
theorem covered_of_normalize_append {xs out : List (Interval T)} (hw : ∀ i ∈ xs, i.WellFormed)
    (h : Omittable xs out) (heq : normalize (out ++ xs) = normalize xs) {d : Interval T}
    (hd : d ∈ out) : Covered (later out d ++ xs) d := by
  induction hn : (later out d).length using Nat.strongRecOn generalizing d with
  | ind n ih =>
    have hsub : ∀ i ∈ later out d, i ∈ out := fun i hi => (mem_of_mem_later hi).1
    have hlate : normalize (later out d ++ xs) = normalize xs := by
      refine normalize_append_of_covered hw (h.mono hsub fun _ hk => hk) fun d' hd' => ?_
      have hdd := (mem_of_mem_later hd').2
      rw [later_later hdd]
      refine ih _ ?_ (hsub d' hd') rfl
      rw [← hn, ← later_later hdd]
      exact length_later_lt hd'
    obtain ⟨e, he⟩ := h.closed d hd
    obtain ⟨k, hk, hs⟩ := h.start d hd
    have hperm : (notLater out d ++ (later out d ++ xs)).Perm (out ++ xs) := by
      rw [← List.append_assoc]
      exact (notLater_append_later out d).append_right xs
    have hwo : ∀ i ∈ out ++ xs, i.WellFormed := List.forall_mem_append.mpr ⟨h.wellFormed, hw⟩
    have hwl : ∀ i ∈ later out d ++ xs, i.WellFormed :=
      List.forall_mem_append.mpr ⟨fun i hi => h.wellFormed i (hsub i hi), hw⟩
    have hsame : normalize (notLater out d ++ (later out d ++ xs)) =
        normalize (later out d ++ xs) := by
      rw [normalize_perm (fun i hi => hwo i (hperm.mem_iff.mp hi)) hperm, heq, hlate]
    refine covered_of_normalize_eq (List.mem_append_right _ hk) hs hwl (fun i hi => ?_)
      (mem_notLater.mpr ⟨hd, d.not_endsBefore_self⟩) he hsame
    obtain ⟨hi, hnot⟩ := mem_notLater.mp hi
    obtain ⟨f, hf⟩ := h.closed i hi
    exact ⟨h.wellFormed i hi, f, hf, not_lt.mp fun hlt => hnot ⟨e, he, f, hf, hlt⟩⟩

/-- A batch whose starts all occur in the list can be left out exactly when each of its
intervals is covered by the list and the ones of the batch that end later. -/
theorem normalize_append_eq_iff {xs out : List (Interval T)} (hw : ∀ i ∈ xs, i.WellFormed)
    (hwo : ∀ d ∈ out, d.WellFormed) (hstart : ∀ d ∈ out, ∃ k ∈ xs, k.validFrom = d.validFrom) :
    normalize (out ++ xs) = normalize xs ↔ ∀ d ∈ out, Covered (later out d ++ xs) d := by
  obtain ⟨closed, hclosed⟩ : ∃ closed, closed = out.filter fun d => d.validTo.isSome := ⟨_, rfl⟩
  have hmem : ∀ d, d ∈ closed ↔ d ∈ out ∧ ∃ e, d.validTo = some e := by
    simp [hclosed, Option.isSome_iff_exists]
  have h : Omittable xs closed := ⟨fun d hd => hwo d ((hmem d).mp hd).1,
    fun d hd => ((hmem d).mp hd).2, fun d hd => hstart d ((hmem d).mp hd).1⟩
  have hlater : ∀ d, later closed d = later out d := by
    intro d
    rw [later, hclosed, List.filter_filter]
    refine List.filter_congr fun i _ => ?_
    rw [Bool.and_eq_left_iff_imp, decide_eq_true_eq]
    rintro ⟨e, he, f, hf, hlt⟩
    rw [Option.mem_def.mp hf, Option.isSome_some]
  have hopen : normalize (out ++ xs) = normalize (closed ++ xs) := by
    have hwc : ∀ i ∈ closed ++ xs, i.WellFormed := List.forall_mem_append.mpr ⟨h.wellFormed, hw⟩
    have hsplit : ((out.filter fun d => !d.validTo.isSome) ++ (closed ++ xs)).Perm (out ++ xs) := by
      rw [← List.append_assoc, hclosed]
      exact (List.perm_append_comm.trans (List.filter_append_perm _ out)).append_right xs
    rw [← normalize_perm ?_ hsplit]
    · refine normalize_append_of_same_end hwc (m := none) (fun t ht => ?_) fun t ht => ?_
      · obtain ⟨ht, hn⟩ := List.mem_filter.mp ht
        obtain ⟨k, hk, hs⟩ := hstart t ht
        exact ⟨hwo t ht, by simpa using hn, k, List.mem_append_right _ hk, hs⟩
      · intro e he
        rw [Option.mem_def] at he
        simp [he] at ht
    · exact List.forall_mem_append.mpr ⟨fun i hi => hwo i (List.mem_filter.mp hi).1, hwc⟩
  rw [hopen]
  refine ⟨fun heq d hd => ?_, fun hcov => ?_⟩
  · cases he : d.validTo with
    | none => exact fun e he' => by rw [he] at he'; cases he'
    | some e =>
      rw [← hlater]
      exact covered_of_normalize_append hw h heq ((hmem d).mpr ⟨hd, e, he⟩)
  · refine normalize_append_of_covered hw h fun d hd => ?_
    rw [hlater]
    exact hcov d ((hmem d).mp hd).1

end Maeglagi.Temporal
