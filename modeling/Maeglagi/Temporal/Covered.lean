import Maeglagi.Temporal.Batches

/-!
# Intervals that normalization does not miss

Leaving an interval out of a list changes nothing when another interval has its start
and the periods that its start can belong to are known to end no earlier than it does,
already among the intervals that start by its end.
-/

namespace Maeglagi.Temporal

open Core

variable {T : Type} [LinearOrder T]

/-- The newer of the two is on record to end after the older one. -/
def Interval.EndsBefore (older newer : Interval T) : Prop :=
  ∃ e ∈ older.validTo, ∃ f ∈ newer.validTo, e < f

instance (older newer : Interval T) : Decidable (older.EndsBefore newer) :=
  inferInstanceAs (Decidable (∃ e ∈ older.validTo, ∃ f ∈ newer.validTo, e < f))

variable [OrderBot T]

/-- Every period of the list that the start of `d` can belong to is known to end no
earlier than `d`, counting only what starts by the end of `d`. -/
def Covered (xs : List (Interval T)) (d : Interval T) : Prop :=
  ∀ e ∈ d.validTo, ∀ p ∈ normalize (xs.filter fun i => decide (i.sortKey ≤ e)),
    p.Reaches d.sortKey → ∃ f ∈ p.validTo, e ≤ f

/-- Folding an interval into a period that already contains it changes nothing. -/
theorem Interval.Within.merge_eq {d c : Interval T} (h : d.Within c) : c.merge d = c := by
  refine Interval.ext ?_ ?_
  · rw [merge_validFrom]
    cases hd : d.validFrom with
    | none => cases c.validFrom <;> rfl
    | some s =>
      obtain ⟨s', hs', hle⟩ := h.start s hd
      rw [Option.mem_def.mp hs']
      exact congrArg some (min_eq_left hle)
  · rw [merge_validTo]
    cases hd : d.validTo with
    | none => cases c.validTo <;> rfl
    | some e =>
      obtain ⟨e', he', hle⟩ := h.finish e hd
      rw [Option.mem_def.mp he']
      exact congrArg some (max_eq_left hle)

theorem Interval.Within.foldl_merge {j c : Interval T} (h : j.Within c) {l : List (Interval T)}
    (hw : ∀ i ∈ l, i.WellFormed) (hkey : ∀ i ∈ l, j.sortKey ≤ i.sortKey) :
    j.Within (l.foldl Interval.merge c) := by
  induction l generalizing c with
  | nil => exact h
  | cons i l ih =>
    exact ih (h.merge_left (hw i (List.mem_cons_self ..)) (hkey i (List.mem_cons_self ..)))
      (fun j hj => hw j (List.mem_cons_of_mem _ hj)) fun j hj => hkey j (List.mem_cons_of_mem _ hj)

omit [OrderBot T] in
/-- Folding never moves a known end earlier. -/
theorem exists_foldl_merge_ge {c : Interval T} {e : T} (he : e ∈ c.validTo)
    (l : List (Interval T)) : ∃ f ∈ (l.foldl Interval.merge c).validTo, e ≤ f := by
  induction l generalizing c e with
  | nil => exact ⟨e, he, le_rfl⟩
  | cons i l ih =>
    obtain ⟨e', he', hle⟩ := Interval.exists_merge_validTo_ge (i := i) (Or.inl he)
    obtain ⟨f, hf, hle'⟩ := ih he'
    exact ⟨f, hf, hle.trans hle'⟩

omit [OrderBot T] in
/-- A folded end is an end of one of the intervals. -/
theorem mem_foldl_merge_validTo {c : Interval T} {l : List (Interval T)} {f : T}
    (h : f ∈ (l.foldl Interval.merge c).validTo) : f ∈ c.validTo ∨ ∃ i ∈ l, f ∈ i.validTo := by
  induction l generalizing c with
  | nil => exact Or.inl h
  | cons i l ih =>
    rcases ih h with hf | ⟨j, hj, hf⟩
    · rcases Interval.merge_validTo_eq_or c i with he | he
      · exact Or.inl (he ▸ hf)
      · exact Or.inr ⟨i, List.mem_cons_self .., he ▸ hf⟩
    · exact Or.inr ⟨j, List.mem_cons_of_mem _ hj, hf⟩

theorem foldl_push_append (c : Interval T) (st below l : List (Interval T)) :
    l.foldl push (c :: st ++ below) = l.foldl push (c :: st) ++ below := by
  induction l generalizing c st with
  | nil => rfl
  | cons i l ih =>
    rw [List.foldl_cons, List.foldl_cons, push_append]
    cases hp : push (c :: st) i with
    | nil => exact absurd hp (push_ne_nil _ i)
    | cons c' st' => exact ih c' st'

/-- Either everything folds into the top of the stack, or some interval is out of its
reach; the top is then final and the scan starts over above it. -/
theorem foldl_push_split (c : Interval T) (st l : List (Interval T)) :
    l.foldl push (c :: st) = l.foldl Interval.merge c :: st ∨
      ∃ l₁ b l₂, l = l₁ ++ b :: l₂ ∧ ¬(l₁.foldl Interval.merge c).Reaches b.sortKey ∧
        l.foldl push (c :: st) = scan (b :: l₂) ++ l₁.foldl Interval.merge c :: st := by
  induction l generalizing c with
  | nil => exact Or.inl rfl
  | cons b l ih =>
    by_cases hr : c.Reaches b.sortKey
    · rw [List.foldl_cons, push_cons_of_reaches _ hr]
      rcases ih (c.merge b) with h | ⟨l₁, b', l₂, rfl, hnr, h⟩
      · exact Or.inl h
      · exact Or.inr ⟨b :: l₁, b', l₂, rfl, hnr, h⟩
    · refine Or.inr ⟨[], b, l, rfl, hr, ?_⟩
      rw [List.foldl_cons, push_cons_of_not_reaches _ hr]
      exact foldl_push_append b [] (c :: st) l

/-- The top of the stack contains the interval just scanned. -/
theorem exists_push_eq_cons (stack : List (Interval T)) {i : Interval T} (hi : i.WellFormed) :
    ∃ c st, push stack i = c :: st ∧ i.Within c := by
  cases stack with
  | nil => exact ⟨i, [], rfl, hi.within_self⟩
  | cons c st =>
    by_cases hr : c.Reaches i.sortKey
    · exact ⟨_, _, push_cons_of_reaches _ hr, Interval.within_merge_right hi hr⟩
    · exact ⟨_, _, push_cons_of_not_reaches _ hr, hi.within_self⟩

/-- Below the top, no period reaches an instant that the top starts by. -/
theorem Folded.not_reaches_of_tail {done st : List (Interval T)} {c : Interval T}
    (h : Folded done (c :: st)) {t : T} (hkey : c.sortKey ≤ t) {o : Interval T} (ho : o ∈ st) :
    ¬o.Reaches t := by
  obtain ⟨e, he, s, hs, hlt⟩ := (List.pairwise_cons.mp h.ordered).1 o ho
  rw [Interval.sortKey_of_some hs] at hkey
  exact fun hr => absurd (hkey.trans (hr e he)) (not_le.mpr hlt)

/-- A list may be scanned in two parts, what starts by an instant first. -/
theorem normalize_eq_scan_of_split {xs early late : List (Interval T)} {e : T}
    (hw : ∀ i ∈ xs, i.WellFormed) (hse : StartSorted early) (hsl : StartSorted late)
    (hearly : early.Perm (xs.filter fun i => decide (i.sortKey ≤ e)))
    (hlate : late.Perm (xs.filter fun i => !decide (i.sortKey ≤ e))) :
    normalize xs = (late.foldl push (scan early)).reverse := by
  have hp : (early ++ late).Perm xs := (hearly.append hlate).trans (List.filter_append_perm _ xs)
  have hs : StartSorted (early ++ late) := by
    refine List.pairwise_append.mpr ⟨hse, hsl, fun a ha b hb => ?_⟩
    have ha' := (List.mem_filter.mp (hearly.mem_iff.mp ha)).2
    have hb' := (List.mem_filter.mp (hlate.mem_iff.mp hb)).2
    simp only [Bool.not_eq_true', decide_eq_false_iff_not, not_le, decide_eq_true_eq] at ha' hb'
    exact ha'.trans hb'.le
  rw [normalize_eq_scan_of_perm hw hs hp, scan, List.foldl_append]
  rfl

/-- The scan of what starts by `e`, at a given member: what is scanned after the member
starts between it and `e`, the stack's top contains it, and the periods below do not
reach its start. -/
theorem exists_scan_at {xs : List (Interval T)} (hw : ∀ i ∈ xs, i.WellFormed) {k : Interval T}
    (hk : k ∈ xs) {e : T} (hke : k.sortKey ≤ e) :
    ∃ before after c st, (before ++ k :: after).Perm (xs.filter fun i => decide (i.sortKey ≤ e)) ∧
      StartSorted (before ++ k :: after) ∧ scan (before ++ [k]) = c :: st ∧ k.Within c ∧
      (∀ o ∈ st, ¬o.Reaches k.sortKey) ∧
      ∀ i ∈ after, i.WellFormed ∧ k.sortKey ≤ i.sortKey ∧ i.sortKey ≤ e := by
  have hmem : k ∈ sortIntervals (xs.filter fun i => decide (i.sortKey ≤ e)) :=
    (sortIntervals_perm _).mem_iff.mpr (List.mem_filter.mpr ⟨hk, decide_eq_true hke⟩)
  obtain ⟨before, after, hsplit⟩ := List.append_of_mem hmem
  have hperm := sortIntervals_perm (xs.filter fun i => decide (i.sortKey ≤ e))
  have hsorted := sortIntervals_sorted (xs.filter fun i => decide (i.sortKey ≤ e))
  rw [hsplit] at hperm hsorted
  have hin : ∀ i ∈ before ++ k :: after, i.WellFormed ∧ i.sortKey ≤ e := by
    intro i hi
    obtain ⟨hi, hle⟩ := List.mem_filter.mp (hperm.mem_iff.mp hi)
    exact ⟨hw i hi, of_decide_eq_true hle⟩
  obtain ⟨c, st, hpush, hkc⟩ := exists_push_eq_cons (scan before) (hw k hk)
  have hscan : scan (before ++ [k]) = c :: st := by
    rw [← hpush, scan, List.foldl_append]
    rfl
  have hpre : StartSorted (before ++ [k]) :=
    hsorted.sublist ((List.Sublist.refl before).append
      (List.singleton_sublist.mpr (List.mem_cons_self ..)))
  have hfold := scan_folded hpre fun i hi =>
    (hin i (by simp only [List.mem_append, List.mem_cons] at hi ⊢; tauto)).1
  rw [hscan] at hfold
  have hc : c.sortKey ≤ k.sortKey := hfold.sortKey_le (fun j hj => by
    rcases List.mem_append.mp hj with hj | hj
    · exact (List.pairwise_append.mp hsorted).2.2 j hj k (List.mem_cons_self ..)
    · rw [List.mem_singleton.mp hj]) (List.mem_cons_self ..)
  refine ⟨before, after, c, st, hperm, hsorted, hscan, hkc,
    fun o ho => hfold.not_reaches_of_tail hc ho, fun i hi => ?_⟩
  have hi' := hin i (List.mem_append_right _ (List.mem_cons_of_mem _ hi))
  exact ⟨hi'.1, List.rel_of_pairwise_cons (List.pairwise_append.mp hsorted).2.1 hi, hi'.2⟩

/-- A period of the list, once an interval with the same start and a later end than the
ones known so far is added next to the member `k`. -/
theorem scan_at_insert {before after st : List (Interval T)} {k d c : Interval T}
    (hscan : scan (before ++ [k]) = c :: st) (hkc : k.Within c)
    (hkey : d.sortKey = k.sortKey) {e : T} (he : e ∈ d.validTo)
    (hafter : ∀ i ∈ after, i.sortKey ≤ e) :
    scan (before ++ k :: d :: after) = (after.foldl Interval.merge c).merge d :: st := by
  have hr : c.Reaches d.sortKey := hkey ▸ hkc.reached
  obtain ⟨e', he', hle⟩ := Interval.exists_merge_validTo_ge (c := c) (Or.inr he)
  have hstep : scan (before ++ k :: d :: after) = after.foldl push (push (c :: st) d) := by
    rw [← hscan, scan, scan, ← List.foldl_cons, ← List.foldl_append, List.append_assoc]
    rfl
  rw [hstep, push_cons_of_reaches _ hr,
    (foldl_push_of_known he' st fun i hi => (hafter i hi).trans hle).1, foldl_merge_right_comm]

/-- An interval without a stated end may be left out when another one has its start. -/
theorem normalize_cons_of_open {xs : List (Interval T)} {k d : Interval T} (hk : k ∈ xs)
    (hstart : k.validFrom = d.validFrom) (hw : ∀ i ∈ xs, i.WellFormed) (hd : d.WellFormed)
    (hopen : d.validTo = none) : normalize (d :: xs) = normalize xs := by
  have hkey : d.sortKey = k.sortKey := Interval.sortKey_congr hstart.symm
  have hin : d.Within k := by
    refine ⟨fun s hs => ⟨s, hstart ▸ hs, le_rfl⟩, fun e he => ?_, hkey ▸ (hw k hk).reaches⟩
    rw [hopen] at he
    cases he
  have hll : k.Lossless d := ⟨hkey.ge, by rw [hin.merge_eq], Or.inl hkey⟩
  have hperm : xs.Perm (k :: xs.erase k) := List.perm_cons_erase hk
  have hrest : ∀ i ∈ xs.erase k, i.WellFormed := fun i hi => hw i (List.mem_of_mem_erase hi)
  have h := normalize_lossless hll (hw k hk) hd hrest
  rw [hin.merge_eq, ← normalize_perm hw hperm] at h
  rw [h]
  exact normalize_perm (by simpa [hd] using hw) ((hperm.cons d).trans (List.Perm.swap k d _))

/-- A covered interval may be left out when another interval has its start. -/
theorem normalize_cons_of_covered {xs : List (Interval T)} {k d : Interval T} (hk : k ∈ xs)
    (hstart : k.validFrom = d.validFrom) (hw : ∀ i ∈ xs, i.WellFormed) (hd : d.WellFormed)
    (hcov : Covered xs d) : normalize (d :: xs) = normalize xs := by
  have hkey : d.sortKey = k.sortKey := Interval.sortKey_congr hstart.symm
  have hwd : ∀ i ∈ d :: xs, i.WellFormed := by simpa [hd] using hw
  cases he : d.validTo with
  | none => exact normalize_cons_of_open hk hstart hw hd he
  | some e =>
    have hde : d.sortKey ≤ e := hd.reaches e he
    obtain ⟨before, after, c, st, hperm, hsorted, hscan, hkc, -, hafter⟩ :=
      exists_scan_at hw hk (hkey ▸ hde)
    have hfold : scan (before ++ k :: after) = after.foldl push (c :: st) := by
      rw [← hscan, scan, scan, ← List.foldl_append, List.append_assoc]
      rfl
    have hwf : ∀ i ∈ xs.filter fun i => decide (i.sortKey ≤ e), i.WellFormed :=
      fun i hi => hw i (List.mem_filter.mp hi).1
    have hcovered : ∀ p ∈ after.foldl push (c :: st), p.Reaches d.sortKey →
        ∃ f ∈ p.validTo, e ≤ f := by
      intro p hp
      refine hcov e he p ?_
      rw [normalize_eq_scan_of_perm hwf hsorted hperm, hfold]
      exact List.mem_reverse.mpr hp
    have hsame : scan (before ++ k :: d :: after) = scan (before ++ k :: after) := by
      rw [scan_at_insert hscan hkc hkey he fun i hi => (hafter i hi).2.2, hfold]
      rcases foldl_push_split c st after with hall | ⟨l₁, b, l₂, rfl, hnr, hopen⟩
      · have hkin := hkc.foldl_merge (fun i hi => (hafter i hi).1) fun i hi => (hafter i hi).2.1
        obtain ⟨f, hf, hle⟩ := hcovered (after.foldl Interval.merge c)
          (hall ▸ List.mem_cons_self ..) (hkey ▸ hkin.reached)
        have hdin : d.Within (after.foldl Interval.merge c) :=
          ⟨fun s hs => hkin.start s (hstart ▸ hs),
            fun e' he' => ⟨f, hf, Option.mem_unique he' he ▸ hle⟩, hkey ▸ hkin.reached⟩
        rw [hall, hdin.merge_eq]
      · -- the top was final although it contains the start and was not covered
        exfalso
        have hkin : k.Within (l₁.foldl Interval.merge c) :=
          hkc.foldl_merge (fun i hi => (hafter i (by simp [hi])).1)
            fun i hi => (hafter i (by simp [hi])).2.1
        obtain ⟨f, hf, hle⟩ := hcovered (l₁.foldl Interval.merge c)
          (by rw [hopen]; simp) (hkey ▸ hkin.reached)
        refine hnr fun f' hf' => ?_
        rw [Option.mem_unique hf' hf]
        exact (hafter b (by simp)).2.2.trans hle
    have hlate : (d :: xs).filter (fun i => !decide (i.sortKey ≤ e)) =
        xs.filter fun i => !decide (i.sortKey ≤ e) := by simp [hde]
    have hearly : (before ++ k :: d :: after).Perm
        ((d :: xs).filter fun i => decide (i.sortKey ≤ e)) := by
      have hmid : (before ++ k :: d :: after).Perm (d :: (before ++ k :: after)) := by
        have h : ((before ++ [k]) ++ d :: after).Perm (d :: ((before ++ [k]) ++ after)) :=
          List.perm_middle
        simpa using h
      rw [List.filter_cons, if_pos (decide_eq_true hde)]
      exact hmid.trans (hperm.cons d)
    have hsorted' : StartSorted (before ++ k :: d :: after) := by
      simp only [StartSorted, SortedBy, List.pairwise_append, List.pairwise_cons,
        List.mem_cons] at hsorted ⊢
      grind
    rw [normalize_eq_scan_of_split hwd hsorted' (sortIntervals_sorted _) hearly
        (by rw [hlate]; exact sortIntervals_perm _), hsame,
      ← normalize_eq_scan_of_split hw hsorted (sortIntervals_sorted _) hperm
        (sortIntervals_perm _)]

end Maeglagi.Temporal
