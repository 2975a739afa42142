import Mathlib.Data.List.Basic

/-!
# Slices and joins

A list cut into slices of one size, taken at the multiples of the size, and texts joined by a
separator that none of them contains.
-/

namespace Maeglagi.Core

variable {α : Type}

/-- The slices of a list that start at the first multiples of their size. -/
def firstSlices (size count : Nat) (l : List α) : List (List α) :=
  (List.range count).map fun i => (l.drop (size * i)).take size

/-- A list cut into slices of one size; the last one is shorter. -/
def slices (size : Nat) (l : List α) : List (List α) :=
  firstSlices size ((l.length + size - 1) / size) l

theorem flatten_firstSlices (size count : Nat) (l : List α) :
    (firstSlices size count l).flatten = l.take (size * count) := by
  induction count with
  | zero => simp [firstSlices]
  | succ count ih =>
    rw [firstSlices] at ih
    rw [firstSlices, List.range_succ, List.map_append, List.flatten_append, ih, Nat.mul_succ,
      List.take_add]
    simp

/-- The slices put together are the list. -/
theorem flatten_slices {size : Nat} (hsize : 0 < size) (l : List α) :
    (slices size l).flatten = l := by
  rw [slices, flatten_firstSlices, List.take_of_length_le]
  have hdiv := Nat.div_add_mod (l.length + size - 1) size
  have hmod := Nat.mod_lt (l.length + size - 1) hsize
  omega

theorem length_le_of_mem_slices {size : Nat} {l s : List α} (hs : s ∈ slices size l) :
    s.length ≤ size := by
  obtain ⟨i, -, rfl⟩ := List.mem_map.mp hs
  rw [List.length_take]
  exact Nat.min_le_left ..

/-- No slice is empty. -/
theorem length_pos_of_mem_slices {size : Nat} (hsize : 0 < size) {l s : List α}
    (hs : s ∈ slices size l) : 0 < s.length := by
  obtain ⟨i, hi, rfl⟩ := List.mem_map.mp hs
  rw [List.mem_range] at hi
  have hstart : size * i < l.length := by
    have hmul : size * (i + 1) ≤ l.length + size - 1 :=
      Nat.le_trans (Nat.mul_le_mul_left size hi) (Nat.mul_div_le _ _)
    rw [Nat.mul_succ] at hmul
    omega
  rw [List.length_take, List.length_drop]
  omega

variable [DecidableEq α]

/-- The join of texts that are not empty is empty for no texts only. -/
theorem eq_nil_of_intercalate_eq_nil {separator : α} {l : List (List α)}
    (hl : ∀ t ∈ l, t ≠ [] ∧ separator ∉ t) (h : [separator].intercalate l = []) : l = [] := by
  by_contra hne
  have hsplit := List.splitOn_intercalate separator (fun t ht => (hl t ht).2) hne
  rw [h, List.splitOn_nil] at hsplit
  exact (hl [] (by simp [← hsplit])).1 rfl

/-- Texts that are not empty and do not contain the separator are read back from their join. -/
theorem intercalate_injective {separator : α} {l l' : List (List α)}
    (hl : ∀ t ∈ l, t ≠ [] ∧ separator ∉ t) (hl' : ∀ t ∈ l', t ≠ [] ∧ separator ∉ t)
    (h : [separator].intercalate l = [separator].intercalate l') : l = l' := by
  by_cases hnil : l = []
  · subst hnil
    exact (eq_nil_of_intercalate_eq_nil hl' h.symm).symm
  · by_cases hnil' : l' = []
    · subst hnil'
      exact eq_nil_of_intercalate_eq_nil hl h
    · rw [← List.splitOn_intercalate separator (fun t ht => (hl t ht).2) hnil, h,
        List.splitOn_intercalate separator (fun t ht => (hl' t ht).2) hnil']

end Maeglagi.Core
