import Mathlib.Data.List.Induction
import Maeglagi.Temporal.Periods

/-!
# Normalizing in batches

A period folded early has forgotten which of its bounds were unknown. Folding two
intervals is lossless when the folded interval starts where the first one did and
its end was known to reach the second; then no later interval can tell the
difference. A list all of whose folds are lossless can be normalized first and
merged with any other list afterwards.
-/

namespace Maeglagi.Temporal

open Core

section

variable {T : Type} [LinearOrder T]

theorem foldl_merge_right_comm (c b : Interval T) (mid : List (Interval T)) :
    mid.foldl Interval.merge (c.merge b) = (mid.foldl Interval.merge c).merge b := by
  induction mid generalizing c with
  | nil => rfl
  | cons m mid ih => rw [List.foldl_cons, List.foldl_cons, Interval.merge_right_comm, ih]

variable [OrderBot T]

/-- Folding `b` into `a` forgets nothing that a third interval could depend on. -/
structure Interval.Lossless (a b : Interval T) : Prop where
  ordered : a.sortKey ≤ b.sortKey
  start : (a.merge b).sortKey = a.sortKey
  link : b.sortKey = a.sortKey ∨ ∃ e ∈ a.validTo, b.sortKey ≤ e

theorem Interval.Lossless.reaches {a b : Interval T} (h : a.Lossless b) (ha : a.WellFormed) :
    a.Reaches b.sortKey := by
  rcases h.link with hk | ⟨e, he, hle⟩
  · exact hk ▸ ha.reaches
  · intro e' he'
    rwa [Option.mem_unique he' he]

theorem Interval.Lossless.wellFormed {a b : Interval T} (h : a.Lossless b) (ha : a.WellFormed)
    (hb : b.WellFormed) : (a.merge b).WellFormed :=
  wellFormed_of_reaches (h.start ▸ ha.reaches.merge fun e he => h.ordered.trans (hb.reaches e he))

/-- A folded pair enters the stack exactly where its first interval would. -/
theorem push_merge (stack : List (Interval T)) {a b : Interval T}
    (h : (a.merge b).sortKey = a.sortKey) : ∃ c st, push stack a = c :: st ∧
      push stack (a.merge b) = c.merge b :: st ∧
      (c = a ∨ ∃ d : Interval T, d.Reaches a.sortKey ∧ c = d.merge a) := by
  cases stack with
  | nil => exact ⟨a, [], rfl, rfl, Or.inl rfl⟩
  | cons d st =>
    by_cases hr : d.Reaches a.sortKey
    · refine ⟨d.merge a, st, push_cons_of_reaches _ hr, ?_, Or.inr ⟨d, hr, rfl⟩⟩
      rw [push_cons_of_reaches _ (h ▸ hr), Interval.merge_assoc]
    · refine ⟨a, d :: st, push_cons_of_not_reaches _ hr, ?_, Or.inl rfl⟩
      rw [push_cons_of_not_reaches _ (h ▸ hr)]

/-- A period with a known end folds everything that starts no later than it. -/
theorem foldl_push_of_known {c : Interval T} {e : T} (he : e ∈ c.validTo) (st : List (Interval T))
    {mid : List (Interval T)} (hmid : ∀ m ∈ mid, m.sortKey ≤ e) :
    mid.foldl push (c :: st) = mid.foldl Interval.merge c :: st ∧
      ∃ e' ∈ (mid.foldl Interval.merge c).validTo, e ≤ e' := by
  induction mid generalizing c e with
  | nil => exact ⟨rfl, e, he, le_rfl⟩
  | cons m mid ih =>
    have hr : c.Reaches m.sortKey := by
      intro e' he'
      rw [Option.mem_unique he' he]
      exact hmid m (List.mem_cons_self ..)
    obtain ⟨e₁, he₁, hle⟩ := Interval.exists_merge_validTo_ge (i := m) (Or.inl he)
    obtain ⟨hfold, e₂, he₂, hle₂⟩ :=
      ih he₁ fun n hn => (hmid n (List.mem_cons_of_mem _ hn)).trans hle
    rw [List.foldl_cons, push_cons_of_reaches _ hr]
    exact ⟨hfold, e₂, he₂, hle.trans hle₂⟩

/-- The scan of a lossless pair, with the intervals that start between the two. -/
theorem foldl_push_lossless {a b : Interval T} (h : a.Lossless b) (ha : a.WellFormed)
    (stack : List (Interval T)) {mid : List (Interval T)}
    (hmid : ∀ m ∈ mid, m.sortKey < b.sortKey) (hmid' : ∀ m ∈ mid, a.sortKey ≤ m.sortKey) :
    (a :: (mid ++ [b])).foldl push stack = (a.merge b :: mid).foldl push stack := by
  obtain ⟨c, st, hpush, hpush', hc⟩ := push_merge stack h.start
  have hreach : c.Reaches b.sortKey ∧ (mid ≠ [] → ∃ e ∈ c.validTo, b.sortKey ≤ e) := by
    rcases h.link with hk | ⟨e, he, hle⟩
    · have hnil : mid = [] := by
        cases mid with
        | nil => rfl
        | cons m mid =>
          have hlt := hmid m (List.mem_cons_self ..)
          exact absurd (hk ▸ hlt) (not_lt.mpr (hmid' m (List.mem_cons_self ..)))
      refine ⟨?_, fun hne => absurd hnil hne⟩
      rcases hc with rfl | ⟨d, hd, rfl⟩
      · exact h.reaches ha
      · exact hk ▸ hd.merge ha.reaches
    · have hknown : ∃ e ∈ c.validTo, b.sortKey ≤ e := by
        rcases hc with rfl | ⟨d, _, rfl⟩
        · exact ⟨e, he, hle⟩
        · obtain ⟨e', he', hle'⟩ := Interval.exists_merge_validTo_ge (c := d) (Or.inr he)
          exact ⟨e', he', hle.trans hle'⟩
      obtain ⟨e', he', hle'⟩ := hknown
      exact ⟨fun e'' he'' => Option.mem_unique he'' he' ▸ hle', fun _ => ⟨e', he', hle'⟩⟩
  rw [List.foldl_cons, List.foldl_cons, hpush, hpush', List.foldl_append, List.foldl_cons,
    List.foldl_nil]
  by_cases hnil : mid = []
  · rw [hnil, List.foldl_nil, List.foldl_nil, push_cons_of_reaches _ hreach.1]
  · obtain ⟨e, he, hle⟩ := hreach.2 hnil
    obtain ⟨e', he', hle'⟩ := Interval.exists_merge_validTo_ge (i := b) (Or.inl he)
    obtain ⟨hfold, e₁, he₁, hle₁⟩ :=
      foldl_push_of_known he st fun m hm => (hmid m hm).le.trans hle
    have hle₂ : ∀ m ∈ mid, m.sortKey ≤ e' := fun m hm => ((hmid m hm).le.trans hle).trans hle'
    have hfold' := (foldl_push_of_known he' st hle₂).1
    have hr : (mid.foldl Interval.merge c).Reaches b.sortKey := by
      intro e₂ he₂
      rw [Option.mem_unique he₂ he₁]
      exact hle.trans hle₁
    rw [hfold, hfold', push_cons_of_reaches _ hr, foldl_merge_right_comm]

/-- A list sorts into what starts before one instant, between two, and after both. -/
theorem exists_startSorted_split (rest : List (Interval T)) (s t : T) :
    ∃ before mid late : List (Interval T), (before ++ (mid ++ late)).Perm rest ∧
      StartSorted before ∧ StartSorted mid ∧ StartSorted late ∧
      (∀ i ∈ before, i.sortKey < s) ∧ (∀ i ∈ mid, s ≤ i.sortKey ∧ i.sortKey < t) ∧
      ∀ i ∈ late, s ≤ i.sortKey ∧ t ≤ i.sortKey := by
  have hsorted := sortIntervals_sorted rest
  refine ⟨(sortIntervals rest).filter fun i => i.sortKey < s,
    ((sortIntervals rest).filter fun i => !decide (i.sortKey < s)).filter fun i => i.sortKey < t,
    ((sortIntervals rest).filter fun i => !decide (i.sortKey < s)).filter
      fun i => !decide (i.sortKey < t), ?_, ?_, ?_, ?_, ?_, ?_, ?_⟩
  · exact ((List.Perm.refl _).append (List.filter_append_perm _ _)).trans
      ((List.filter_append_perm _ (sortIntervals rest)).trans (sortIntervals_perm rest))
  · exact hsorted.sublist List.filter_sublist
  · exact hsorted.sublist (List.filter_sublist.trans List.filter_sublist)
  · exact hsorted.sublist (List.filter_sublist.trans List.filter_sublist)
  · simp
  · simp +contextual
  · simp +contextual

/-- A losslessly folded pair may stand for its two intervals in any list. -/
theorem normalize_lossless {a b : Interval T} (h : a.Lossless b) (ha : a.WellFormed)
    (hb : b.WellFormed) {rest : List (Interval T)} (hw : ∀ i ∈ rest, i.WellFormed) :
    normalize (a.merge b :: rest) = normalize (a :: b :: rest) := by
  obtain ⟨before, mid, late, hperm, hsb, hsm, hsl, hbefore, hmid, hlate⟩ :=
    exists_startSorted_split rest a.sortKey b.sortKey
  have hpair : (before ++ (a :: (mid ++ [b])) ++ late).Perm (a :: b :: rest) := by
    have h₁ : (before ++ (a :: (mid ++ [b])) ++ late).Perm
        (a :: b :: (before ++ (mid ++ late))) := by
      simp only [List.append_assoc, List.cons_append, List.nil_append]
      refine List.perm_middle.trans (List.Perm.cons _ ?_)
      rw [← List.append_assoc, ← List.append_assoc]
      exact List.perm_middle
    exact h₁.trans ((hperm.cons b).cons a)
  have hpair' : (before ++ (a.merge b :: mid) ++ late).Perm (a.merge b :: rest) := by
    simp only [List.append_assoc, List.cons_append]
    exact List.perm_middle.trans (hperm.cons _)
  have hab := h.ordered
  have hord : StartSorted (before ++ (a :: (mid ++ [b])) ++ late) := by
    simp only [StartSorted, SortedBy, List.pairwise_append, List.pairwise_cons, List.mem_append,
      List.mem_cons, List.not_mem_nil, or_false] at hsb hsm hsl ⊢
    grind
  have hord' : StartSorted (before ++ (a.merge b :: mid) ++ late) := by
    have hstart := h.start
    simp only [StartSorted, SortedBy, List.pairwise_append, List.pairwise_cons, List.mem_append,
      List.mem_cons] at hsb hsm hsl ⊢
    grind
  have hw₁ : ∀ i ∈ a :: b :: rest, i.WellFormed := by simpa [ha, hb] using hw
  have hw₂ : ∀ i ∈ a.merge b :: rest, i.WellFormed := by simpa [h.wellFormed ha hb] using hw
  rw [normalize_eq_scan_of_perm hw₂ hord' hpair', normalize_eq_scan_of_perm hw₁ hord hpair,
    scan, scan, List.foldl_append, List.foldl_append, List.foldl_append, List.foldl_append,
    foldl_push_lossless h ha _ (fun m hm => (hmid m hm).2) fun m hm => (hmid m hm).1]

/-- No fold within the list meets an unknown bound it would forget: unknown starts
never overlap stated starts, and an interval without a stated end is the last to
start unless another interval with a stated end covers its start. -/
structure KeepsUnknown (xs : List (Interval T)) : Prop where
  starts : ∀ n ∈ xs, n.validFrom = none → ∀ k ∈ xs, k.validFrom ≠ none → n.overlaps k = false
  ends : ∀ o ∈ xs, o.validTo = none → ∀ i ∈ xs, o.sortKey < i.sortKey →
    ∃ j ∈ xs, j.sortKey ≤ o.sortKey ∧ ∃ e ∈ j.validTo, o.sortKey ≤ e

instance (xs : List (Interval T)) : Decidable (KeepsUnknown xs) :=
  decidable_of_iff ((∀ n ∈ xs, n.validFrom = none → ∀ k ∈ xs, k.validFrom ≠ none →
      n.overlaps k = false) ∧
    ∀ o ∈ xs, o.validTo = none → ∀ i ∈ xs, o.sortKey < i.sortKey →
      ∃ j ∈ xs, j.sortKey ≤ o.sortKey ∧ ∃ e ∈ j.validTo, o.sortKey ≤ e)
    ⟨fun h => ⟨h.1, h.2⟩, fun h => ⟨h.starts, h.ends⟩⟩

/-- Every fold the scan makes in such a list is lossless. -/
theorem KeepsUnknown.lossless {xs done st : List (Interval T)} {c i : Interval T}
    (h : KeepsUnknown xs) (hf : Folded done (c :: st)) (hdone : ∀ j ∈ done, j ∈ xs)
    (hi : i ∈ xs) (hiw : i.WellFormed) (hkey : ∀ j ∈ done, j.sortKey ≤ i.sortKey)
    (hrest : ∀ j ∈ xs, j.sortKey < i.sortKey → j ∈ done) (hr : c.Reaches i.sortKey) :
    c.Lossless i := by
  have hc := List.mem_cons_self (a := c) (l := st)
  have hck : c.sortKey ≤ i.sortKey := hf.sortKey_le hkey hc
  have hstart : c.validFrom = none → i.validFrom = none := by
    intro hn
    by_contra hik
    obtain ⟨j, hj, hw, hje⟩ := hf.ends c hc
    have hjn : j.validFrom = none := by
      cases hjs : j.validFrom with
      | none => rfl
      | some s =>
        obtain ⟨s', hs', _⟩ := hw.start s hjs
        rw [hn] at hs'
        cases hs'
    have hov := h.starts j (hdone j hj) hjn i hi hik
    have hjr : j.Reaches i.sortKey := fun e he => hr e (hje ▸ he)
    rw [(Interval.overlaps_iff_reaches (hkey j hj) hiw).mpr hjr] at hov
    cases hov
  refine ⟨hck, ?_, ?_⟩
  · cases hcv : c.validFrom with
    | none =>
      rw [Interval.sortKey_of_none (Interval.merge_validFrom_eq_none.mpr ⟨hcv, hstart hcv⟩),
        Interval.sortKey_of_none hcv]
    | some s =>
      refine Interval.sortKey_congr ((Interval.merge_validFrom_of_le hcv fun t ht => ?_).trans
        hcv.symm)
      rwa [Interval.sortKey_of_some hcv, Interval.sortKey_of_some ht] at hck
  · cases hce : c.validTo with
    | some e => exact Or.inr ⟨e, rfl, hr e hce⟩
    | none =>
      refine Or.inl (le_antisymm (le_of_not_gt fun hlt => ?_) hck)
      -- the interval that gave the period its start has no stated end either
      obtain ⟨o, ho, how, hos⟩ := hf.starts c hc
      have hoe : o.validTo = none := by
        cases hoe : o.validTo with
        | none => rfl
        | some e =>
          obtain ⟨e', he', _⟩ := how.finish e hoe
          rw [hce] at he'
          cases he'
      have hok : o.sortKey = c.sortKey := Interval.sortKey_congr hos
      obtain ⟨j, hj, hjo, e, he, hle⟩ := h.ends o (hdone o ho) hoe i hi (hok ▸ hlt)
      obtain ⟨p, hp, hw⟩ := hf.covers j (hrest j hj ((hjo.trans_eq hok).trans_lt hlt))
      obtain ⟨e', he', hle'⟩ := hw.finish e he
      rcases List.mem_cons.mp hp with rfl | hp
      · rw [hce] at he'
        cases he'
      · obtain ⟨e'', he'', s, hs, hlt'⟩ := (List.pairwise_cons.mp hf.ordered).1 p hp
        rw [Option.mem_unique he'' he', ← Interval.sortKey_of_some hs, ← hok] at hlt'
        exact absurd hlt' (not_lt.mpr (hle.trans hle'))

/-- Along the scan of such a list, the periods so far may stand for what they folded. -/
theorem KeepsUnknown.normalize_scan_append {xs : List (Interval T)} (h : KeepsUnknown xs)
    (hw : ∀ i ∈ xs, i.WellFormed) {ys : List (Interval T)} (hwy : ∀ i ∈ ys, i.WellFormed)
    (done todo : List (Interval T)) (hsplit : sortIntervals xs = done ++ todo) :
    normalize (scan done ++ todo ++ ys) = normalize (xs ++ ys) := by
  have hmem : ∀ i, i ∈ xs ↔ i ∈ done ++ todo := fun i =>
    hsplit ▸ ((sortIntervals_perm xs).mem_iff (a := i)).symm
  have hsorted : StartSorted (done ++ todo) := hsplit ▸ sortIntervals_sorted xs
  induction done using List.reverseRecOn generalizing todo with
  | nil =>
    refine normalize_perm ?_ (List.Perm.append_right ys ?_)
    · simp only [scan, List.foldl_nil, List.nil_append, List.mem_append] at hmem ⊢
      rintro i (hi | hi)
      · exact hw i ((hmem i).mpr hi)
      · exact hwy i hi
    · rw [scan, List.foldl_nil, ← hsplit]
      exact sortIntervals_perm xs
  | append_singleton done i ih =>
    have hsplit' : done ++ [i] ++ todo = done ++ i :: todo := by simp
    rw [hsplit'] at hsplit hsorted
    simp only [hsplit'] at hmem
    have hprev := ih (i :: todo) hsplit hmem hsorted
    have hin : ∀ j ∈ done ++ i :: todo, j ∈ xs := fun j hj => (hmem j).mpr hj
    have hixs : i ∈ xs := hin i (by simp)
    have hiw : i.WellFormed := hw i hixs
    have hwd : ∀ j ∈ done, j.WellFormed := fun j hj => hw j (hin j (by simp [hj]))
    have hwt : ∀ j ∈ todo ++ ys, j.WellFormed := by
      intro j hj
      rcases List.mem_append.mp hj with hj | hj
      · exact hw j (hin j (by simp [hj]))
      · exact hwy j hj
    obtain ⟨hsd, hst, hcross⟩ := List.pairwise_append.mp hsorted
    have hf := scan_folded hsd hwd
    have hkey : ∀ j ∈ done, j.sortKey ≤ i.sortKey := fun j hj => hcross j hj i (by simp)
    have hrest : ∀ j ∈ xs, j.sortKey < i.sortKey → j ∈ done := by
      intro j hj hlt
      rcases List.mem_append.mp ((hmem j).mp hj) with hj | hj
      · exact hj
      · rcases List.mem_cons.mp hj with rfl | hj
        · exact absurd hlt (lt_irrefl _)
        · exact absurd hlt (not_lt.mpr (List.rel_of_pairwise_cons hst hj))
    rw [← hprev]
    have hscan : scan (done ++ [i]) = push (scan done) i := by
      rw [scan, List.foldl_append]
      rfl
    rw [hscan]
    cases hstack : scan done with
    | nil => simp
    | cons c st =>
      rw [hstack] at hf
      have hcw : c.WellFormed := hf.wellFormed c (List.mem_cons_self ..)
      have hws : ∀ j ∈ st, j.WellFormed := fun j hj => hf.wellFormed j (List.mem_cons_of_mem _ hj)
      have hws' : ∀ j ∈ st ++ (todo ++ ys), j.WellFormed := by
        intro j hj
        rcases List.mem_append.mp hj with hj | hj
        · exact hws j hj
        · exact hwt j hj
      have hall : ∀ j ∈ c :: st ++ i :: todo ++ ys, j.WellFormed := by
        intro j hj
        simp only [List.mem_append, List.mem_cons] at hj hws' hwt
        grind
      have hswap : (c :: i :: (st ++ (todo ++ ys))).Perm (c :: st ++ i :: todo ++ ys) := by
        simp only [List.cons_append, List.append_assoc]
        exact (List.perm_middle.symm).cons c
      by_cases hr : c.Reaches i.sortKey
      · have hll := h.lossless hf (fun j hj => hin j (by simp [hj])) hixs hiw hkey hrest hr
        rw [push_cons_of_reaches _ hr]
        simp only [List.cons_append, List.append_assoc]
        rw [normalize_lossless hll hcw hiw hws']
        simp only [List.cons_append, List.append_assoc] at hswap hall
        exact (normalize_perm hall hswap.symm).symm
      · rw [push_cons_of_not_reaches _ hr]
        refine (normalize_perm hall ?_).symm
        rw [List.append_assoc, List.append_assoc]
        exact List.perm_middle

/-- Such a list may be normalized before it is merged with any other list. -/
theorem KeepsUnknown.normalize_append {xs ys : List (Interval T)} (h : KeepsUnknown xs)
    (hw : ∀ i ∈ xs, i.WellFormed) (hwy : ∀ i ∈ ys, i.WellFormed) :
    normalize (normalize xs ++ ys) = normalize (xs ++ ys) := by
  have hscan := h.normalize_scan_append hw hwy (sortIntervals xs) [] (by simp)
  rw [List.append_nil] at hscan
  rw [← hscan]
  refine normalize_perm ?_ ?_
  · intro i hi
    rcases List.mem_append.mp hi with hi | hi
    · exact normalize_wellFormed hw i hi
    · exact hwy i hi
  · rw [normalize_eq_scan hw]
    exact (List.reverse_perm _).append_right ys

end

/-!
## Intervals that state nothing

An interval without a stated start or end folds into any other interval and leaves no
trace, so a list may be normalized before it is merged with others as soon as its stated
intervals may.
-/

section

variable {T : Type} [LinearOrder T]

/-- Neither bound is stated. -/
def Interval.Unstated (i : Interval T) : Prop := i.validFrom = none ∧ i.validTo = none

instance (i : Interval T) : Decidable i.Unstated :=
  inferInstanceAs (Decidable (i.validFrom = none ∧ i.validTo = none))

/-- The intervals that state a bound. -/
def stated (xs : List (Interval T)) : List (Interval T) := xs.filter fun i => !decide i.Unstated

theorem Interval.Unstated.wellFormed {i : Interval T} (h : i.Unstated) : i.WellFormed := by
  intro s e hs
  rw [h.1] at hs
  cases hs

theorem Interval.Unstated.merge_eq {n : Interval T} (h : n.Unstated) (i : Interval T) :
    n.merge i = i := by
  refine Interval.ext ?_ ?_
  · rw [merge_validFrom, h.1]
    cases i.validFrom <;> rfl
  · rw [merge_validTo, h.2]
    cases i.validTo <;> rfl

variable [OrderBot T]

/-- An interval that states nothing may be left out of a list with others. -/
theorem normalize_cons_of_unstated {n : Interval T} (hn : n.Unstated) {xs : List (Interval T)}
    (hw : ∀ i ∈ xs, i.WellFormed) (hne : xs ≠ []) : normalize (n :: xs) = normalize xs := by
  have hperm := sortIntervals_perm xs
  have hsorted := sortIntervals_sorted xs
  have hwn : ∀ i ∈ n :: xs, i.WellFormed := by simpa [hn.wellFormed] using hw
  have hsn : StartSorted (n :: sortIntervals xs) :=
    List.pairwise_cons.mpr ⟨fun i _ => by rw [Interval.sortKey_of_none hn.1]; exact bot_le, hsorted⟩
  rw [normalize_eq_scan_of_perm hwn hsn (hperm.cons n), normalize_eq_scan hw]
  cases hx : sortIntervals xs with
  | nil => exact absurd (List.nil_perm.mp (hx ▸ hperm)) hne
  | cons x rest =>
    have hr : n.Reaches x.sortKey := fun e he => by rw [hn.2] at he; cases he
    have hpush : push [n] x = push [] x := by
      rw [push_cons_of_reaches _ hr, hn.merge_eq, push_nil]
    rw [scan, scan, List.foldl_cons, List.foldl_cons, List.foldl_cons, push_nil, hpush]

theorem normalize_append_of_unstated {ns xs : List (Interval T)} (hns : ∀ n ∈ ns, n.Unstated)
    (hw : ∀ i ∈ xs, i.WellFormed) (hne : xs ≠ []) : normalize (ns ++ xs) = normalize xs := by
  induction ns with
  | nil => rfl
  | cons n ns ih =>
    have hns' : ∀ m ∈ ns, m.Unstated := fun m hm => hns m (List.mem_cons_of_mem _ hm)
    rw [List.cons_append, normalize_cons_of_unstated (hns n (List.mem_cons_self ..))
      (List.forall_mem_append.mpr ⟨fun m hm => (hns' m hm).wellFormed, hw⟩) (by simp [hne]),
      ih hns']

/-- Normalizing intervals that state nothing gives one that states nothing. -/
theorem normalize_of_unstated {ns : List (Interval T)} (hns : ∀ n ∈ ns, n.Unstated) :
    ∀ p ∈ normalize ns, p.Unstated := by
  intro p hp
  have hf := normalize_folded fun n hn => (hns n hn).wellFormed
  obtain ⟨j, hj, -, hs⟩ := hf.starts p (List.mem_reverse.mpr hp)
  obtain ⟨k, hk, -, he⟩ := hf.ends p (List.mem_reverse.mpr hp)
  exact ⟨hs ▸ (hns j hj).1, he ▸ (hns k hk).2⟩

/-- A list whose stated intervals keep their unknown bounds may be normalized before it is
merged with any other list. -/
theorem normalize_append_of_stated {xs ys : List (Interval T)} (h : KeepsUnknown (stated xs))
    (hw : ∀ i ∈ xs, i.WellFormed) (hwy : ∀ i ∈ ys, i.WellFormed) :
    normalize (normalize xs ++ ys) = normalize (xs ++ ys) := by
  obtain ⟨ns, hns⟩ : ∃ ns, ns = xs.filter fun i => decide i.Unstated := ⟨_, rfl⟩
  have hunstated : ∀ n ∈ ns, n.Unstated := by
    intro n hn
    rw [hns] at hn
    exact of_decide_eq_true (List.mem_filter.mp hn).2
  have hsplit : (ns ++ stated xs).Perm xs := hns ▸ List.filter_append_perm _ xs
  have hws : ∀ i ∈ stated xs, i.WellFormed := fun i hi => hw i (List.mem_filter.mp hi).1
  have hwa : ∀ i ∈ xs ++ ys, i.WellFormed := List.forall_mem_append.mpr ⟨hw, hwy⟩
  have hall : normalize (xs ++ ys) = normalize (ns ++ (stated xs ++ ys)) := by
    rw [← List.append_assoc]
    exact normalize_perm hwa (hsplit.symm.append_right ys)
  by_cases hys : ys = []
  · rw [hys, List.append_nil, List.append_nil, normalize_normalize hw]
  have hysn : ∀ l : List (Interval T), l ++ ys ≠ [] := fun l hl => hys (List.append_eq_nil_iff.mp hl).2
  rw [hall, normalize_append_of_unstated hunstated (List.forall_mem_append.mpr ⟨hws, hwy⟩) (hysn _)]
  by_cases hsn : stated xs = []
  · have hxs : ∀ i ∈ xs, i.Unstated := by simpa [stated] using hsn
    rw [hsn, List.nil_append]
    exact normalize_append_of_unstated (normalize_of_unstated hxs) hwy hys
  · rw [← h.normalize_append hws hwy, normalize_perm hw hsplit.symm,
      normalize_append_of_unstated hunstated hws hsn]

end

end Maeglagi.Temporal
