import Mathlib.Data.List.Nodup
import Mathlib.Data.List.Perm.Basic
import Mathlib.Data.List.Sort
import Mathlib.Order.Basic

/-!
# Stable sorts by a key
-/

namespace Maeglagi.Core

/-!
## Sorting by a key that may not compare

A stable sort by a key asks for the order of keys only. Where two keys have none the sort fails,
and where the keys are the numbers from zero on, each item ends up at the position of its key.
-/

section

variable {α κ : Type} {less : κ → κ → Option Bool} {key : α → κ} {items sorted : List α}

/-- Every two of the keys can be compared. -/
def Comparable (less : κ → κ → Option Bool) (keys : List κ) : Prop :=
  keys.Pairwise fun a b => (less a b).isSome ∧ (less b a).isSome

instance (less : κ → κ → Option Bool) (keys : List κ) : Decidable (Comparable less keys) :=
  inferInstanceAs (Decidable (List.Pairwise _ _))

/-- `sorted(items, key=key)`, without a result where two keys cannot be compared. -/
def sortedBy (less : κ → κ → Option Bool) (key : α → κ) (items : List α) : Option (List α) :=
  if Comparable less (items.map key) then
    some (items.insertionSort fun a b => less (key b) (key a) ≠ some true)
  else none

theorem exists_sortedBy_iff :
    (∃ sorted, sortedBy less key items = some sorted) ↔ Comparable less (items.map key) := by
  unfold sortedBy
  split_ifs with h <;> simp [h]

theorem perm_of_sortedBy (h : sortedBy less key items = some sorted) : sorted.Perm items := by
  unfold sortedBy at h
  split_ifs at h
  obtain rfl := Option.some.inj h
  exact List.perm_insertionSort _ _

/-- Keys that stand for numbers are sorted by these. -/
theorem map_rank_of_sortedBy {rank : α → Nat}
    (hless : ∀ a ∈ items, ∀ b ∈ items, less (key a) (key b) = some (decide (rank a < rank b)))
    (h : sortedBy less key items = some sorted) :
    sorted.map rank = (items.map rank).insertionSort (· ≤ ·) := by
  unfold sortedBy at h
  split_ifs at h
  obtain rfl := Option.some.inj h
  refine List.map_insertionSort _ _ rank items fun a ha b hb => ?_
  rw [hless b hb a ha]
  simp

/-- Items with the numbers from zero on as keys are sorted to the positions of their keys. -/
theorem map_of_sortedBy {rank : α → Nat}
    (hless : ∀ a ∈ items, ∀ b ∈ items, less (key a) (key b) = some (decide (rank a < rank b)))
    (hranks : (items.map rank).Perm (List.range items.length))
    (h : sortedBy less key items = some sorted) :
    sorted.map rank = List.range items.length := by
  rw [map_rank_of_sortedBy hless h]
  refine ((List.perm_insertionSort _ _).trans hranks).eq_of_pairwise
    (fun a b _ _ => Nat.le_antisymm) ?_ List.pairwise_le_range
  exact List.pairwise_insertionSort (· ≤ ·) _

/-- A list that has as many different members as items has each of them once. -/
theorem perm_map_range_of_covers {β : Type} {f : Nat → β} (hf : Function.Injective f) {l : List β}
    (h : ∀ i < l.length, f i ∈ l) : l.Perm ((List.range l.length).map f) := by
  have hnodup : ((List.range l.length).map f).Nodup := List.nodup_range.map hf
  have hsub : ((List.range l.length).map f).Subperm l := by
    refine List.subperm_of_subset hnodup fun b hb => ?_
    obtain ⟨i, hi, rfl⟩ := List.mem_map.mp hb
    exact h i (List.mem_range.mp hi)
  exact (hsub.perm_of_length_le (by simp)).symm

end

/-!
## Folds over lists sorted by a key

A stable sort leaves the order of equal keys to the input. A loop over the sorted
list is independent of that order as soon as its step commutes on equal keys, so
its result is a function of the multiset of items.
-/

section

variable {α β κ : Type}

/-- A run of items with one key can be taken after an item with the same key. -/
theorem foldl_tie_swap {key : α → κ} {step : β → α → β} {P : α → Prop}
    (hcomm : ∀ s a b, P a → P b → key a = key b → step (step s a) b = step (step s b) a)
    (a : α) (ha : P a) (run : List α) (hrun : ∀ b ∈ run, P b ∧ key b = key a) (s : β) :
    (run ++ [a]).foldl step s = (a :: run).foldl step s := by
  induction run generalizing s with
  | nil => rfl
  | cons b run ih =>
    have hb := hrun b (List.mem_cons_self ..)
    have hrest : ∀ c ∈ run, P c ∧ key c = key a := fun c hc => hrun c (List.mem_cons_of_mem _ hc)
    rw [List.cons_append, List.foldl_cons, ih hrest, List.foldl_cons, List.foldl_cons,
      List.foldl_cons, hcomm s b a hb.1 ha hb.2]

variable [LinearOrder κ]

/-- Sorted by the key, equal keys in any order. -/
def SortedBy (key : α → κ) (l : List α) : Prop := l.Pairwise fun a b => key a ≤ key b

/-- Two sorted arrangements of the same items give the same result. -/
theorem foldl_eq_of_perm_sortedBy {key : α → κ} {step : β → α → β} {P : α → Prop}
    (hcomm : ∀ s a b, P a → P b → key a = key b → step (step s a) b = step (step s b) a)
    {l l' : List α} (hp : l.Perm l') (hl : SortedBy key l) (hl' : SortedBy key l')
    (hP : ∀ a ∈ l, P a) (s : β) : l.foldl step s = l'.foldl step s := by
  induction l generalizing l' s with
  | nil => rw [List.nil_perm.mp hp]
  | cons a t ih =>
    obtain ⟨run, rest, rfl⟩ := List.append_of_mem (hp.subset (List.mem_cons_self ..))
    have hle : ∀ b ∈ run, key b = key a := by
      intro b hb
      apply le_antisymm
      · exact List.pairwise_append.mp hl' |>.2.2 b hb a (List.mem_cons_self ..)
      · have hmem : b ∈ a :: t := hp.mem_iff.mpr (List.mem_append_left _ hb)
        rcases List.mem_cons.mp hmem with rfl | hmem
        · exact le_rfl
        · exact List.rel_of_pairwise_cons hl hmem
    have hrun : ∀ b ∈ run, P b ∧ key b = key a := fun b hb =>
      ⟨hP b (hp.mem_iff.mpr (List.mem_append_left _ hb)), hle b hb⟩
    have hswap := foldl_tie_swap hcomm a (hP a (List.mem_cons_self ..)) run hrun s
    have ht : t.Perm (run ++ rest) :=
      List.Perm.cons_inv (hp.trans List.perm_middle)
    have hsub : (run ++ rest).Sublist (run ++ a :: rest) :=
      (List.Sublist.refl run).append (List.sublist_cons_self a rest)
    calc (a :: t).foldl step s = (run ++ rest).foldl step (step s a) :=
          ih ht (List.Pairwise.of_cons hl) (hl'.sublist hsub)
            (fun b hb => hP b (List.mem_cons_of_mem _ hb)) _
      _ = rest.foldl step ((a :: run).foldl step s) := by
          rw [List.foldl_append, List.foldl_cons]
      _ = (run ++ a :: rest).foldl step s := by
          rw [← hswap, ← List.foldl_append, List.append_assoc, List.singleton_append]

end

/-!
## The last of a stable sort

After a stable sort by a key, the last item with a property is the one with the greatest
key, and among those the one listed last.
-/

section

variable {α κ : Type}

/-- In a list without repetitions two items come in one order only. -/
theorem eq_of_pair_sublist {l : List α} (hnd : l.Nodup) {a b : α} (h : [a, b].Sublist l)
    (h' : [b, a].Sublist l) : a = b := by
  induction l with
  | nil => cases h
  | cons c l ih =>
    rw [List.nodup_cons] at hnd
    cases h with
    | cons _ h =>
      cases h' with
      | cons _ h' => exact ih hnd.2 h h'
      | cons_cons _ h' =>
        exact absurd (h.subset (List.mem_cons_of_mem _ (List.mem_singleton_self _))) hnd.1
    | cons_cons _ h =>
      cases h' with
      | cons _ h' =>
        exact absurd (h'.subset (List.mem_cons_of_mem _ (List.mem_singleton_self _))) hnd.1
      | cons_cons _ h' => rfl

/-- Two items of a list come in one order or the other. -/
theorem pair_sublist_or {l : List α} {a b : α} (ha : a ∈ l) (hb : b ∈ l) :
    a = b ∨ [a, b].Sublist l ∨ [b, a].Sublist l := by
  obtain ⟨before, after, rfl⟩ := List.append_of_mem ha
  rcases List.mem_append.mp hb with hb | hb
  · right; right
    have hpair := (List.singleton_sublist.mpr hb).append
      (List.singleton_sublist.mpr (List.mem_cons_self (a := a) (l := after)))
    exact hpair
  · rcases List.mem_cons.mp hb with rfl | hb
    · exact Or.inl rfl
    · right; left
      exact ((List.singleton_sublist.mpr hb).cons_cons a).trans (List.sublist_append_right _ _)

/-- Every other item of a list comes before its last one. -/
theorem pair_sublist_getLast {l : List α} {y z : α} (hy : l.getLast? = some y) (hz : z ∈ l)
    (hne : z ≠ y) : [z, y].Sublist l := by
  obtain ⟨front, rfl⟩ := List.getLast?_eq_some_iff.mp hy
  rcases List.mem_append.mp hz with hz | hz
  · exact (List.singleton_sublist.mpr hz).append (List.Sublist.refl [y])
  · exact absurd (List.mem_singleton.mp hz) hne

variable [LinearOrder κ]

/-- Of the items of the list with the property, none has a greater key, and none with the
same key is listed later. -/
def LastOf (key : α → κ) (p : α → Bool) (l : List α) (y : α) : Prop :=
  (y ∈ l ∧ p y = true) ∧ ∀ z ∈ l, p z = true →
    key z ≤ key y ∧ (key z = key y → z = y ∨ [z, y].Sublist l)

/-- A list without repetitions has one last item. -/
theorem LastOf.unique {key : α → κ} {p : α → Bool} {l : List α} (hnd : l.Nodup) {y y' : α}
    (h : LastOf key p l y) (h' : LastOf key p l y') : y = y' := by
  obtain ⟨hle, htie⟩ := h.2 y' h'.1.1 h'.1.2
  obtain ⟨hle', htie'⟩ := h'.2 y h.1.1 h.1.2
  have heq := le_antisymm hle' hle
  rcases htie heq.symm with rfl | hsub
  · rfl
  rcases htie' heq with rfl | hsub'
  · rfl
  exact eq_of_pair_sublist hnd hsub' hsub

/-- The list sorted by the key; items with one key keep their order. -/
def sortBy (key : α → κ) (l : List α) : List α :=
  l.insertionSort fun a b => key a ≤ key b

theorem mem_sortBy {key : α → κ} {l : List α} {x : α} : x ∈ sortBy key l ↔ x ∈ l :=
  List.mem_insertionSort _

/-- The last item of a stable sort with the property is the last of the list. -/
theorem lastOf_sortBy {key : α → κ} {p : α → Bool} {l : List α} (hnd : l.Nodup) {y : α}
    (hy : ((sortBy key l).filter p).getLast? = some y) : LastOf key p l y := by
  have hmem := List.mem_filter.mp (List.mem_of_getLast? hy)
  refine ⟨⟨mem_sortBy.mp hmem.1, hmem.2⟩, fun z hz hpz => ?_⟩
  by_cases hne : z = y
  · exact ⟨(congrArg key hne).le, fun _ => Or.inl hne⟩
  have hpair : [z, y].Sublist (sortBy key l) :=
    (pair_sublist_getLast hy (List.mem_filter.mpr ⟨mem_sortBy.mpr hz, hpz⟩) hne).trans
      List.filter_sublist
  have hsorted : (sortBy key l).Pairwise fun a b => key a ≤ key b :=
    List.pairwise_insertionSort _ _
  have htwo : [z, y].Pairwise fun a b => key a ≤ key b := hsorted.sublist hpair
  have hle : key z ≤ key y := by simpa using htwo
  refine ⟨hle, fun heq => Or.inr ?_⟩
  rcases pair_sublist_or hz (mem_sortBy.mp hmem.1) with rfl | hsub | hsub
  · exact absurd rfl hne
  · exact hsub
  · -- the sort is stable
    have hstable : [y, z].Sublist (sortBy key l) :=
      List.pair_sublist_insertionSort heq.ge hsub
    have hnd' : (sortBy key l).Nodup := (List.perm_insertionSort _ _).nodup_iff.mpr hnd
    exact absurd (eq_of_pair_sublist hnd' hpair hstable) hne

/-- The last item of a stable sort with the property, and the last of the list, are the same. -/
theorem getLast?_sortBy_filter {key : α → κ} {p : α → Bool} {l : List α} (hnd : l.Nodup) {y : α} :
    ((sortBy key l).filter p).getLast? = some y ↔ LastOf key p l y := by
  refine ⟨lastOf_sortBy hnd, fun h => ?_⟩
  have hmem : y ∈ (sortBy key l).filter p := List.mem_filter.mpr ⟨mem_sortBy.mpr h.1.1, h.1.2⟩
  cases hlast : ((sortBy key l).filter p).getLast? with
  | none =>
    rw [List.getLast?_eq_none_iff.mp hlast] at hmem
    cases hmem
  | some y' => rw [(lastOf_sortBy hnd hlast).unique hnd h]

/-- A list that has an item with the property has a last one. -/
theorem exists_lastOf {key : α → κ} {p : α → Bool} {l : List α} (hnd : l.Nodup) {x : α}
    (hx : x ∈ l) (hp : p x = true) : ∃ y, LastOf key p l y := by
  have hmem : x ∈ (sortBy key l).filter p := List.mem_filter.mpr ⟨mem_sortBy.mpr hx, hp⟩
  cases hlast : ((sortBy key l).filter p).getLast? with
  | none =>
    rw [List.getLast?_eq_none_iff.mp hlast] at hmem
    cases hmem
  | some y => exact ⟨y, lastOf_sortBy hnd hlast⟩

end

end Maeglagi.Core
