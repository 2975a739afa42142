import Mathlib.Data.List.Induction
import Maeglagi.Core.Dict

/-!
# The last item of each key

Collecting items in a dictionary under a key keeps the last item of each key. The others
are overwritten.
-/

namespace Maeglagi.Core

variable {α β κ μ : Type} [DecidableEq κ] [DecidableEq μ]

/-- The items that no later item with their key replaces. -/
def lasts (key : α → κ) : List α → List α
  | [] => []
  | x :: l => if key x ∈ l.map key then lasts key l else x :: lasts key l

/-- The items that a later item with their key replaces. -/
def overwritten (key : α → κ) : List α → List α
  | [] => []
  | x :: l => if key x ∈ l.map key then x :: overwritten key l else overwritten key l

/-- Every item is either kept or overwritten. -/
theorem overwritten_append_lasts (key : α → κ) (l : List α) :
    (overwritten key l ++ lasts key l).Perm l := by
  induction l with
  | nil => exact List.Perm.nil
  | cons x l ih =>
    unfold overwritten lasts
    split
    · exact ih.cons x
    · exact List.perm_middle.trans (ih.cons x)

theorem mem_of_mem_lasts {key : α → κ} {l : List α} {x : α} (h : x ∈ lasts key l) : x ∈ l :=
  (overwritten_append_lasts key l).mem_iff.mp (List.mem_append_right _ h)

theorem mem_of_mem_overwritten {key : α → κ} {l : List α} {x : α} (h : x ∈ overwritten key l) :
    x ∈ l := (overwritten_append_lasts key l).mem_iff.mp (List.mem_append_left _ h)

/-- Every key keeps an item. -/
theorem mem_map_lasts (key : α → κ) (l : List α) (k : κ) :
    k ∈ (lasts key l).map key ↔ k ∈ l.map key := by
  induction l with
  | nil => rfl
  | cons x l ih =>
    unfold lasts
    split
    · next hx =>
      rw [ih, List.map_cons, List.mem_cons]
      exact ⟨Or.inr, fun h => h.elim (fun he => he ▸ hx) id⟩
    · rw [List.map_cons, List.map_cons, List.mem_cons, List.mem_cons, ih]

/-- An overwritten item has the key of a kept one. -/
theorem exists_lasts_of_overwritten {key : α → κ} {l : List α} {x : α}
    (h : x ∈ overwritten key l) : ∃ y ∈ lasts key l, key y = key x :=
  List.mem_map.mp ((mem_map_lasts key l (key x)).mpr
    (List.mem_map_of_mem (mem_of_mem_overwritten h)))

/-- The kept items have different keys. -/
theorem nodup_map_lasts (key : α → κ) (l : List α) : ((lasts key l).map key).Nodup := by
  induction l with
  | nil => exact List.nodup_nil
  | cons x l ih =>
    unfold lasts
    split
    · exact ih
    · next hx =>
      rw [List.map_cons, List.nodup_cons]
      exact ⟨fun hk => hx ((mem_map_lasts key l _).mp hk), ih⟩

/-- A condition on the key may be tested before or after. -/
theorem filter_lasts {key : α → κ} {p : α → Bool} {l : List α}
    (hp : ∀ x ∈ l, ∀ y ∈ l, key x = key y → p x = p y) :
    (lasts key l).filter p = lasts key (l.filter p) := by
  induction l with
  | nil => rfl
  | cons x l ih =>
    have ih' := ih fun a ha b hb => hp a (List.mem_cons_of_mem _ ha) b (List.mem_cons_of_mem _ hb)
    cases hx : p x with
    | false =>
      rw [List.filter_cons_of_neg (by simp [hx]), ← ih', lasts]
      split
      · rfl
      · rw [List.filter_cons_of_neg (by simp [hx])]
    | true =>
      have hmem : key x ∈ l.map key ↔ key x ∈ (l.filter p).map key := by
        constructor
        · intro h
          obtain ⟨y, hy, hk⟩ := List.mem_map.mp h
          have hpy := hp y (List.mem_cons_of_mem _ hy) x (List.mem_cons_self ..) hk
          exact List.mem_map.mpr ⟨y, List.mem_filter.mpr ⟨hy, hpy.trans hx⟩, hk⟩
        · intro h
          obtain ⟨y, hy, hk⟩ := List.mem_map.mp h
          exact List.mem_map.mpr ⟨y, (List.mem_filter.mp hy).1, hk⟩
      rw [List.filter_cons_of_pos hx, lasts, lasts]
      by_cases h : key x ∈ l.map key
      · rw [if_pos h, if_pos (hmem.mp h), ih']
      · rw [if_neg h, if_neg fun h' => h (hmem.mpr h'), List.filter_cons_of_pos hx, ih']

/-- Only which items share a key matters. -/
theorem map_lasts {key : α → κ} {key' : β → μ} {f : α → β} {l : List α}
    (hf : ∀ x ∈ l, ∀ y ∈ l, key x = key y ↔ key' (f x) = key' (f y)) :
    (lasts key l).map f = lasts key' (l.map f) := by
  induction l with
  | nil => rfl
  | cons x l ih =>
    have ih' := ih fun a ha b hb => hf a (List.mem_cons_of_mem _ ha) b (List.mem_cons_of_mem _ hb)
    have hmem : key x ∈ l.map key ↔ key' (f x) ∈ (l.map f).map key' := by
      simp only [List.mem_map, exists_exists_and_eq_and]
      exact exists_congr fun y => and_congr_right fun hy =>
        hf y (List.mem_cons_of_mem _ hy) x (List.mem_cons_self ..)
    rw [List.map_cons, lasts, lasts]
    by_cases h : key x ∈ l.map key
    · rw [if_pos h, if_pos (hmem.mp h), ih']
    · rw [if_neg h, if_neg fun h' => h (hmem.mpr h'), List.map_cons, ih']

theorem mem_lasts_append_singleton {key : α → κ} {l : List α} {x y : α} :
    x ∈ lasts key (l ++ [y]) ↔ x = y ∨ (x ∈ lasts key l ∧ key x ≠ key y) := by
  induction l with
  | nil => simp [lasts]
  | cons z l ih =>
    simp only [List.cons_append, lasts, List.map_append, List.mem_append, List.map_cons,
      List.map_nil, List.mem_singleton]
    by_cases hz : key z ∈ l.map key
    · simp only [hz, true_or, if_true, ih]
    · by_cases hzy : key z = key y
      · have hy : ¬key y ∈ l.map key := hzy ▸ hz
        simp only [hzy, or_true, if_true, ih, hy, if_false, List.mem_cons]
        refine or_congr_right ⟨fun h => ⟨Or.inr h.1, h.2⟩, ?_⟩
        rintro ⟨rfl | h, hne⟩
        · exact absurd hzy hne
        · exact ⟨h, hne⟩
      · simp only [hz, hzy, or_self, if_false, List.mem_cons, ih]
        constructor
        · rintro (rfl | rfl | h)
          · exact Or.inr ⟨Or.inl rfl, hzy⟩
          · exact Or.inl rfl
          · exact Or.inr ⟨Or.inr h.1, h.2⟩
        · rintro (rfl | ⟨rfl | h, hne⟩)
          · exact Or.inr (Or.inl rfl)
          · exact Or.inl rfl
          · exact Or.inr (Or.inr ⟨h, hne⟩)

namespace Dict

/-- The items collected under their keys. -/
def collect (key : α → κ) (l : List α) : Dict κ α :=
  l.foldl (fun d x => d.set (key x) x) empty

theorem collect_append_singleton (key : α → κ) (l : List α) (x : α) :
    collect key (l ++ [x]) = (collect key l).set (key x) x := by
  rw [collect, List.foldl_append]
  rfl

/-- The dictionary has the last item of each key. -/
theorem get?_collect {key : α → κ} {l : List α} {k : κ} {x : α} :
    (collect key l).get? k = some x ↔ key x = k ∧ x ∈ lasts key l := by
  induction l using List.reverseRecOn with
  | nil => simp [collect, lasts]
  | append_singleton l y ih =>
    rw [collect_append_singleton, get?_set, mem_lasts_append_singleton]
    split
    · next hk =>
      subst hk
      simp only [Option.some.injEq]
      constructor
      · rintro rfl
        exact ⟨rfl, Or.inl rfl⟩
      · rintro ⟨hxy, rfl | ⟨_, hne⟩⟩
        · rfl
        · exact absurd hxy hne
    · next hk =>
      rw [ih]
      refine and_congr_right fun hx => ⟨fun h => Or.inr ⟨h, fun he => hk (hx.symm.trans he)⟩, ?_⟩
      rintro (rfl | h)
      · exact absurd hx.symm hk
      · exact h.1

/-- Collecting keeps exactly the last item of each key. -/
theorem values_collect (key : α → κ) (l : List α) :
    (collect key l).values.Perm (lasts key l) := by
  have hmem : ∀ e ∈ (collect key l).entries, key e.2 = e.1 := fun e he =>
    (get?_collect.mp (get?_eq_some_iff.mpr he)).1
  have hkeys : (collect key l).values.map key = (collect key l).keys := by
    rw [values, keys, List.map_map]
    exact List.map_congr_left hmem
  have hnd : (collect key l).values.Nodup := List.Nodup.of_map key (hkeys ▸ (collect key l).nodup)
  refine (List.perm_ext_iff_of_nodup hnd (List.Nodup.of_map key (nodup_map_lasts key l))).mpr
    fun x => ?_
  rw [values, List.mem_map]
  constructor
  · rintro ⟨e, he, rfl⟩
    exact (get?_collect.mp (get?_eq_some_iff.mpr he)).2
  · intro hx
    exact ⟨(key x, x), get?_eq_some_iff.mp (get?_collect.mpr ⟨rfl, hx⟩), rfl⟩

end Dict

end Maeglagi.Core
