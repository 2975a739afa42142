import Maeglagi.Temporal.Batches
import Maeglagi.Temporal.Omitted

/-!
# Where batches must not be normalized

The two ways in which a fold forgets something are the only ones: an unknown start folded
with a later stated one, and an open end folded with a later start. In either case one
more interval, a single instant, tells the batches from the whole.
-/

namespace Maeglagi.Temporal

open Core

variable {T : Type} [LinearOrder T]

/-- The interval that consists of one instant. -/
def Interval.instant (t : T) : Interval T := ⟨some t, some t⟩

theorem Interval.instant_wellFormed (t : T) : (Interval.instant t).WellFormed := by
  intro s e hs he
  cases hs
  cases he
  exact le_rfl

/-- Folding never forgets a known start. -/
theorem exists_foldl_merge_validFrom {c : Interval T} {t : T} (ht : t ∈ c.validFrom)
    (l : List (Interval T)) : ∃ t', (l.foldl Interval.merge c).validFrom = some t' := by
  induction l generalizing c t with
  | nil => exact ⟨t, ht⟩
  | cons i l ih =>
    obtain ⟨t', ht', -⟩ := Interval.exists_merge_validFrom_le (i := i) (Or.inl ht)
    exact ih ht'

variable [OrderBot T]

omit [OrderBot T] in
/-- Of two periods in temporal order, one is the earlier one. -/
theorem before_or_before {ps : List (Interval T)} (h : ps.Pairwise Interval.Before)
    {p q : Interval T} (hp : p ∈ ps) (hq : q ∈ ps) : p = q ∨ p.Before q ∨ q.Before p := by
  induction ps with
  | nil => exact absurd hp List.not_mem_nil
  | cons r ps ih =>
    obtain ⟨hhead, htail⟩ := List.pairwise_cons.mp h
    rcases List.mem_cons.mp hp with hpr | hp' <;> rcases List.mem_cons.mp hq with hqr | hq'
    · exact Or.inl (hpr.trans hqr.symm)
    · exact Or.inr (Or.inl (hpr ▸ hhead q hq'))
    · exact Or.inr (Or.inr (hqr ▸ hhead p hp'))
    · exact ih htail hp' hq'

/-- Of two periods in temporal order, only one starts by an instant and reaches it. -/
theorem eq_of_covers {ps : List (Interval T)} (h : ps.Pairwise Interval.Before) {p q : Interval T}
    (hp : p ∈ ps) (hq : q ∈ ps) {t : T} (hpk : p.sortKey ≤ t) (hpr : p.Reaches t)
    (hqk : q.sortKey ≤ t) (hqr : q.Reaches t) : p = q := by
  have hno : ∀ {a b : Interval T}, a.Reaches t → b.sortKey ≤ t → ¬a.Before b := by
    rintro a b har hbk ⟨e, he, s, hs, hlt⟩
    rw [Interval.sortKey_of_some hs] at hbk
    exact absurd (hbk.trans (har e he)) (not_le.mpr hlt)
  rcases before_or_before h hp hq with heq | hpq | hqp
  · exact heq
  · exact absurd hpq (hno hpr hqk)
  · exact absurd hqp (hno hqr hpk)

/-- When an unknown start overlaps a later stated one, every period has a stated start. -/
theorem start_known_of_overlaps {xs : List (Interval T)} (hw : ∀ i ∈ xs, i.WellFormed)
    {n k : Interval T} {e s : T} (hn : n ∈ xs) (hns : n.validFrom = none) (hne : n.validTo = some e)
    (hk : k ∈ xs) (hks : k.validFrom = some s) (hle : s ≤ e) {p : Interval T}
    (hp : p ∈ normalize xs) : ∃ t, p.validFrom = some t := by
  have hnk : n.sortKey = ⊥ := Interval.sortKey_of_none hns
  obtain ⟨early, c, st, hse, hpe, hscan, hcr, ⟨f, hf, hef⟩, hst⟩ :=
    exists_scan_of_known hw hn (Option.mem_def.mpr hne)
  have hnil : st = [] := List.eq_nil_iff_forall_not_mem.mpr fun o ho =>
    hst o ho (hnk ▸ fun _ _ => bot_le)
  subst hnil
  have hfold := scan_folded hse fun i hi => hw i (List.mem_filter.mp (hpe.mem_iff.mp hi)).1
  rw [hscan] at hfold
  -- the stated start is within the only period by `e`
  have hkin : k ∈ early := hpe.mem_iff.mpr (List.mem_filter.mpr ⟨hk, decide_eq_true (by
    rwa [Interval.sortKey_of_some hks])⟩)
  obtain ⟨q, hq, hkq⟩ := hfold.covers k hkin
  obtain rfl := List.mem_singleton.mp hq
  obtain ⟨t, ht, -⟩ := hkq.start s hks
  obtain ⟨late, hls, hlp, hl⟩ := exists_late hw e
  rw [normalize_eq_scan_of_split hw hse hls hpe hlp, hscan, List.mem_reverse] at hp
  rcases foldl_push_split q [] late with hall | ⟨l₁, b, l₂, hsplit, -, hopen⟩
  · rw [hall, List.mem_singleton] at hp
    exact hp ▸ exists_foldl_merge_validFrom ht _
  · rw [hopen] at hp
    rcases List.mem_append.mp hp with hp | hp
    · rw [hsplit] at hl hls
      have hfold' := scan_folded (l := b :: l₂) (List.pairwise_append.mp hls).2.1
        fun i hi => (hl i (List.mem_append_right _ hi)).1
      obtain ⟨j, hj, -, hjs⟩ := hfold'.starts p hp
      rw [← Option.ne_none_iff_exists', ← hjs]
      intro hnone
      have := (hl j (List.mem_append_right _ hj)).2
      rw [Interval.sortKey_of_none hnone] at this
      exact not_lt_bot this
    · exact List.mem_singleton.mp hp ▸ exists_foldl_merge_validFrom ht _

/-- An unknown start must not overlap a stated one: the earliest instant would tell. -/
theorem overlaps_eq_false_of_normalize {xs : List (Interval T)} (hw : ∀ i ∈ xs, i.WellFormed)
    (hstart : ∀ i ∈ xs, i.validFrom ≠ some ⊥)
    (hlaw : normalize (normalize xs ++ [Interval.instant ⊥]) =
      normalize (xs ++ [Interval.instant ⊥])) {n k : Interval T} (hn : n ∈ xs)
    (hns : n.validFrom = none) {e : T} (hne : n.validTo = some e) (hk : k ∈ xs)
    (hks : k.validFrom ≠ none) : n.overlaps k = false := by
  obtain ⟨s, hks⟩ := Option.ne_none_iff_exists'.mp hks
  by_contra hov
  have hle : s ≤ e := by
    simp only [Interval.overlaps, hns, hne, hks, startsBefore_none_left, Bool.true_and,
      startsBefore_some, Bool.not_eq_false] at hov
    exact hov
  have hpos : ⊥ < e := (bot_lt_iff_ne_bot.mpr fun h => hstart k hk (h ▸ hks)).trans_le hle
  have hknown : ∀ p ∈ normalize xs, ∃ t, p.validFrom = some t ∧ ⊥ < t := by
    intro p hp
    obtain ⟨t, ht⟩ := start_known_of_overlaps hw hn hns hne hk hks hle hp
    obtain ⟨j, hj, -, hjs⟩ := (normalize_folded hw).starts p (List.mem_reverse.mpr hp)
    exact ⟨t, ht, bot_lt_iff_ne_bot.mpr fun h => hstart j hj (hjs.trans (h ▸ ht))⟩
  -- in batches the instant is a period of its own
  have hleft : normalize (normalize xs ++ [Interval.instant ⊥]) =
      Interval.instant ⊥ :: normalize xs := by
    have hwl : ∀ i ∈ Interval.instant ⊥ :: normalize xs, i.WellFormed := by
      simpa [Interval.instant_wellFormed] using normalize_wellFormed hw
    rw [normalize_perm (fun i hi => hwl i ((List.perm_append_singleton _ _).mem_iff.mp hi))
      (List.perm_append_singleton _ _)]
    refine normalize_of_ordered hwl (List.pairwise_cons.mpr ⟨fun p hp => ?_, normalize_ordered hw⟩)
    obtain ⟨t, ht, hlt⟩ := hknown p hp
    exact ⟨⊥, rfl, t, ht, hlt⟩
  -- at once it starts the period of the unknown start
  have hll : (Interval.instant ⊥).Lossless n := by
    refine ⟨bot_le, ?_, Or.inl ?_⟩
    · rw [Interval.sortKey, Interval.sortKey, Interval.merge_validFrom, hns]
      rfl
    · rw [Interval.sortKey_of_none hns]
      rfl
  have hperm : (xs ++ [Interval.instant ⊥]).Perm (Interval.instant ⊥ :: n :: xs.erase n) :=
    (List.perm_append_singleton _ _).trans ((List.perm_cons_erase hn).cons _)
  have hrest : ∀ i ∈ xs.erase n, i.WellFormed := fun i hi => hw i (List.mem_of_mem_erase hi)
  have hwx : ∀ i ∈ xs ++ [Interval.instant ⊥], i.WellFormed :=
    List.forall_mem_append.mpr ⟨hw, by simp [Interval.instant_wellFormed]⟩
  have hright := normalize_lossless hll (Interval.instant_wellFormed ⊥) (hw n hn) hrest
  rw [← normalize_perm hwx hperm, ← hlaw, hleft] at hright
  have hwm : ∀ i ∈ (Interval.instant ⊥).merge n :: xs.erase n, i.WellFormed := by
    simpa [hll.wellFormed (Interval.instant_wellFormed ⊥) (hw n hn)] using hrest
  obtain ⟨q, hq, hin⟩ := (normalize_folded hwm).covers _ (List.mem_cons_self ..)
  rw [hright, List.mem_reverse] at hq
  obtain ⟨t, ht, hbot⟩ := hin.start ⊥ (by
    rw [Interval.merge_validFrom, hns]
    rfl)
  obtain ⟨f, hf, hge⟩ := Interval.exists_merge_validTo_ge (c := Interval.instant ⊥) (Or.inr hne)
  obtain ⟨f', hf', hge'⟩ := hin.finish f hf
  rcases List.mem_cons.mp hq with rfl | hq
  · cases hf'
    exact absurd (hge.trans hge') (not_le.mpr hpos)
  · obtain ⟨t', ht', hlt⟩ := hknown q hq
    rw [Option.mem_unique ht' ht] at hlt
    exact absurd hbot (not_le.mpr hlt)

/-- The top period right after an open interval, when nothing known covers its start. -/
theorem exists_scan_of_open {xs : List (Interval T)} (hw : ∀ i ∈ xs, i.WellFormed)
    {o : Interval T} {s : T} (ho : o ∈ xs) (hos : o.validFrom = some s)
    (hno : ∀ j ∈ xs, j.sortKey ≤ s → ∀ e ∈ j.validTo, e < s) :
    ∃ early c st, StartSorted early ∧
      early.Perm (xs.filter fun i => decide (i.sortKey ≤ s)) ∧ scan early = c :: st ∧
      o.Within c ∧ c.validTo = none := by
  have hok : o.sortKey = s := Interval.sortKey_of_some hos
  obtain ⟨before, after, c, st, hperm, hsorted, hscan, hoc, -, hafter⟩ :=
    exists_scan_at hw ho hok.le
  have hin := hoc.foldl_merge (fun i hi => (hafter i hi).1) fun i hi => (hafter i hi).2.1
  have hkeys : ∀ i ∈ before ++ o :: after, i ∈ xs ∧ i.sortKey ≤ s := by
    intro i hi
    obtain ⟨hi, hle⟩ := List.mem_filter.mp (hperm.mem_iff.mp hi)
    exact ⟨hi, of_decide_eq_true hle⟩
  have hall : after.foldl push (c :: st) = after.foldl Interval.merge c :: st := by
    rcases foldl_push_split c st after with h | ⟨l₁, b, l₂, rfl, hnr, -⟩
    · exact h
    · exfalso
      have hl₁ := hoc.foldl_merge (fun i hi => (hafter i (by simp [hi])).1)
        fun i hi => (hafter i (List.mem_append_left (b :: l₂) hi)).2.1
      refine hnr fun e he => (hafter b (by simp)).2.2.trans ?_
      exact hok ▸ hl₁.reached e he
  have hfinal : scan (before ++ o :: after) = after.foldl Interval.merge c :: st := by
    rw [← hall, ← hscan, scan, scan, ← List.foldl_append, List.append_assoc]
    rfl
  refine ⟨_, _, st, hsorted, hperm, hfinal, hin, Option.eq_none_iff_forall_not_mem.mpr fun e he => ?_⟩
  have hfold := scan_folded hsorted fun i hi => hw i (hkeys i hi).1
  rw [hfinal] at hfold
  obtain ⟨j, hj, -, hje⟩ := hfold.ends _ (List.mem_cons_self ..)
  have hlt := hno j (hkeys j hj).1 (hkeys j hj).2 e (hje ▸ he)
  exact absurd hlt (not_lt.mpr (hok ▸ hin.reached e he))

/-- What starts after an open interval must find its start covered: that instant would
tell. -/
theorem exists_cover_of_normalize {xs : List (Interval T)} (hw : ∀ i ∈ xs, i.WellFormed)
    {o i : Interval T} {s : T} (ho : o ∈ xs) (hos : o.validFrom = some s) (hi : i ∈ xs)
    (hlt : s < i.sortKey) (hlaw : normalize (normalize xs ++ [Interval.instant s]) =
      normalize (xs ++ [Interval.instant s])) :
    ∃ j ∈ xs, j.sortKey ≤ s ∧ ∃ e ∈ j.validTo, s ≤ e := by
  by_contra hnone
  have hno : ∀ j ∈ xs, j.sortKey ≤ s → ∀ e ∈ j.validTo, e < s := by
    intro j hj hjs e he
    by_contra hge
    exact hnone ⟨j, hj, hjs, e, he, not_lt.mp hge⟩
  have hwi : ∀ j ∈ [Interval.instant s], j.WellFormed := by simp [Interval.instant_wellFormed]
  have hwx : ∀ j ∈ xs ++ [Interval.instant s], j.WellFormed := List.forall_mem_append.mpr ⟨hw, hwi⟩
  have hwn := normalize_wellFormed hw
  -- at once, the instant ends the period of the open interval
  obtain ⟨c', hc', hck, hcr, hce⟩ : ∃ c ∈ normalize (xs ++ [Interval.instant s]), c.sortKey ≤ s ∧
      c.Reaches s ∧ c.validTo = some s := by
    obtain ⟨early, c, st, hse, hpe, hscan, hr, ⟨f, hf, hle⟩, -⟩ :=
      exists_scan_of_known hwx (List.mem_append_right xs (List.mem_singleton_self _)) rfl
    have hmem : ∀ j ∈ early, j ∈ xs ++ [Interval.instant s] ∧ j.sortKey ≤ s := by
      intro j hj
      obtain ⟨hj, hjs⟩ := List.mem_filter.mp (hpe.mem_iff.mp hj)
      exact ⟨hj, of_decide_eq_true hjs⟩
    have hfold := scan_folded hse fun j hj => hwx j (hmem j hj).1
    rw [hscan] at hfold
    have hfs : f = s := by
      obtain ⟨j, hj, -, hje⟩ := hfold.ends c (List.mem_cons_self ..)
      rcases List.mem_append.mp (hmem j hj).1 with hjx | hjx
      · exact absurd (hno j hjx (hmem j hj).2 f (hje ▸ hf)) (not_lt.mpr hle)
      · rw [List.mem_singleton.mp hjx] at hje
        exact Option.mem_unique hf (hje ▸ rfl)
    subst hfs
    refine ⟨c, ?_, hfold.sortKey_le (fun j hj => (hmem j hj).2) (List.mem_cons_self ..), hr, hf⟩
    obtain ⟨late, hls, hlp, hl⟩ := exists_late hwx f
    rw [normalize_eq_scan_of_split hwx hse hls hpe hlp, hscan, List.mem_reverse]
    exact mem_foldl_push_of_final fun j hj hrj => absurd (hrj f hf) (not_le.mpr (hl j hj).2)
  -- in batches, its period has folded a later start
  obtain ⟨p, hp, hop, hpe⟩ : ∃ p ∈ normalize xs, o.Within p ∧ ∀ f ∈ p.validTo, s < f := by
    obtain ⟨early, c, st, hse, hpe, hscan, hoc, hce⟩ := exists_scan_of_open hw ho hos hno
    obtain ⟨late, hls, hlp, hl⟩ := exists_late hw s
    obtain ⟨q, hq, l, hsub, rfl⟩ : ∃ q ∈ late.foldl push (c :: st), ∃ l : List (Interval T),
        (∀ i ∈ l, i ∈ late) ∧ q = l.foldl Interval.merge c := by
      rcases foldl_push_split c st late with h | ⟨l₁, b, l₂, hsplit, -, h⟩
      · exact ⟨_, h ▸ List.mem_cons_self .., _, fun _ hi => hi, rfl⟩
      · exact ⟨_, h ▸ List.mem_append_right _ (List.mem_cons_self ..), l₁,
          fun i hi => hsplit ▸ List.mem_append_left _ hi, rfl⟩
    refine ⟨_, ?_, hoc.foldl_merge (fun i hi => (hl i (hsub i hi)).1) fun i hi => ?_, fun f hf => ?_⟩
    · rw [normalize_eq_scan_of_split hw hse hls hpe hlp, hscan, List.mem_reverse]
      exact hq
    · rw [Interval.sortKey_of_some hos]
      exact (hl i (hsub i hi)).2.le
    · rcases mem_foldl_merge_validTo hf with hf | ⟨i, hi, hf⟩
      · rw [hce] at hf
        cases hf
      · have hi' := hl i (hsub i hi)
        exact hi'.2.trans_le (hi'.1.reaches f hf)
  have hok : o.sortKey = s := Interval.sortKey_of_some hos
  obtain ⟨s', hs', hle'⟩ := hop.start s hos
  have hpk : p.sortKey ≤ s := (Interval.sortKey_of_some hs').trans_le hle'
  cases hpe' : p.validTo with
  | some f =>
    -- the instant is then lost in the period
    have hin : (Interval.instant s).Within p := by
      refine ⟨fun t ht => ?_, fun e he => ?_, ?_⟩
      · cases ht
        exact ⟨s', hs', hle'⟩
      · cases he
        exact ⟨f, hpe', (hpe f hpe').le⟩
      · exact hok ▸ hop.reached
    have hll : p.Lossless (Interval.instant s) :=
      ⟨hpk, by rw [hin.merge_eq], Or.inr ⟨f, hpe', (hpe f hpe').le⟩⟩
    have hrest : ∀ i ∈ (normalize xs).erase p, i.WellFormed :=
      fun i hi => hwn i (List.mem_of_mem_erase hi)
    have h := normalize_lossless hll (hwn p hp) (Interval.instant_wellFormed s) hrest
    rw [hin.merge_eq, normalize_perm (fun i hi => hwn i ((List.perm_cons_erase hp).mem_iff.mpr hi))
      (List.perm_cons_erase hp).symm, normalize_normalize hw] at h
    have hleft : normalize (normalize xs ++ [Interval.instant s]) = normalize xs := by
      refine (normalize_perm (List.forall_mem_append.mpr ⟨hwn, hwi⟩) ?_).trans h.symm
      exact (List.perm_append_singleton _ _).trans
        (((List.perm_cons_erase hp).cons _).trans (List.Perm.swap ..))
    rw [← hlaw, hleft] at hc'
    obtain rfl := eq_of_covers (normalize_ordered hw) hc' hp hck hcr hpk (hok ▸ hop.reached)
    exact lt_irrefl s (hpe s hce)
  | none =>
    -- the period is the last one, and nothing starts after the instant
    have hkeys : ∀ q ∈ normalize xs, q.sortKey ≤ s := by
      intro q hq
      rcases before_or_before (normalize_ordered hw) hq hp with rfl | ⟨e, he, t, ht, hlt'⟩ | ⟨e, he, _⟩
      · exact hpk
      · rw [Interval.sortKey_of_some ht] at hpk
        exact ((hwn q hq).reaches e he).trans (hlt'.le.trans hpk)
      · rw [hpe'] at he
        cases he
    have hleft : ∀ q ∈ normalize (xs ++ [Interval.instant s]), q.sortKey ≤ s := by
      intro q hq
      rw [← hlaw] at hq
      refine (normalize_folded (List.forall_mem_append.mpr ⟨hwn, hwi⟩)).sortKey_le (t := s)
        (List.forall_mem_append.mpr ⟨hkeys, ?_⟩) (List.mem_reverse.mpr hq)
      intro j hj
      rw [List.mem_singleton.mp hj]
      exact le_rfl
    obtain ⟨q, hq, hin⟩ := (normalize_folded hwx).covers i (List.mem_append_left _ hi)
    have hq := List.mem_reverse.mp hq
    have hqr : q.Reaches s := fun e he => hlt.le.trans (hin.reached e he)
    obtain rfl := eq_of_covers (normalize_ordered hwx) hq hc' (hleft q hq) hqr hck hcr
    exact absurd (hin.reached s hce) (not_le.mpr hlt)

/-- Batches tell nothing from the whole exactly when the stated intervals keep their unknown
bounds; starts at the earliest instant, which sort as unknown ones do, apart. -/
theorem keepsUnknown_of_normalize {xs : List (Interval T)} (hw : ∀ i ∈ xs, i.WellFormed)
    (hstart : ∀ i ∈ xs, i.validFrom ≠ some ⊥)
    (hlaw : ∀ ys : List (Interval T), (∀ i ∈ ys, i.WellFormed) →
      normalize (normalize xs ++ ys) = normalize (xs ++ ys)) : KeepsUnknown (stated xs) := by
  have hinstant : ∀ t, normalize (normalize xs ++ [Interval.instant t]) =
      normalize (xs ++ [Interval.instant t]) :=
    fun t => hlaw _ (by simp [Interval.instant_wellFormed])
  have hstated : ∀ i ∈ stated xs, i ∈ xs ∧ ¬i.Unstated := fun i hi => by simpa [stated] using hi
  refine ⟨fun n hn hns k hk hks => ?_, fun o ho hoe i hi hlt => ?_⟩
  · obtain ⟨hn, hnu⟩ := hstated n hn
    obtain ⟨e, hne⟩ := Option.ne_none_iff_exists'.mp fun h => hnu ⟨hns, h⟩
    exact overlaps_eq_false_of_normalize hw hstart (hinstant ⊥) hn hns hne (hstated k hk).1 hks
  · obtain ⟨ho, hou⟩ := hstated o ho
    obtain ⟨s, hos⟩ := Option.ne_none_iff_exists'.mp fun h => hou ⟨h, hoe⟩
    rw [Interval.sortKey_of_some hos] at hlt ⊢
    obtain ⟨j, hj, hjs, e, he, hle⟩ :=
      exists_cover_of_normalize hw ho hos (hstated i hi).1 hlt (hinstant s)
    refine ⟨j, ?_, hjs, e, he, hle⟩
    simp only [stated, List.mem_filter, Bool.not_eq_true', decide_eq_false_iff_not]
    refine ⟨hj, fun hu => ?_⟩
    rw [hu.2] at he
    cases he

end Maeglagi.Temporal
