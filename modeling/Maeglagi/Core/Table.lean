import Mathlib.Data.List.Count
import Mathlib.Data.List.Nodup

/-!
# Tables

A table is a list of rows. A conditional update changes the rows that satisfy its condition
and no other; it keeps the columns that the change keeps.
-/

namespace Maeglagi.Core

variable {α β : Type}

/-- `UPDATE ... SET change WHERE cond` -/
def updateWhere (cond : α → Bool) (change : α → α) (rows : List α) : List α :=
  rows.map fun x => if cond x then change x else x

theorem mem_updateWhere {cond : α → Bool} {change : α → α} {rows : List α} {y : α} :
    y ∈ updateWhere cond change rows ↔ ∃ x ∈ rows, (if cond x then change x else x) = y :=
  List.mem_map

/-- A row that the condition spares stays. -/
theorem mem_updateWhere_of_neg {cond : α → Bool} {change : α → α} {rows : List α} {x : α}
    (hx : x ∈ rows) (hcond : cond x = false) : x ∈ updateWhere cond change rows :=
  mem_updateWhere.mpr ⟨x, hx, by rw [hcond]; rfl⟩

/-- An update keeps every column that the change keeps. -/
theorem map_updateWhere {cond : α → Bool} {change : α → α} {rows : List α} (column : α → β)
    (h : ∀ x ∈ rows, cond x = true → column (change x) = column x) :
    (updateWhere cond change rows).map column = rows.map column := by
  rw [updateWhere, List.map_map]
  apply List.map_congr_left
  intro x hx
  by_cases hcond : cond x = true
  · simp [hcond, h x hx hcond]
  · simp [hcond]

/-- An update after which no new row satisfies a property does not raise its count. -/
theorem countP_updateWhere_le {cond : α → Bool} {change : α → α} {rows : List α} {p q : α → Bool}
    (hchange : ∀ x ∈ rows, cond x = true → p (change x) = true → q x = true)
    (hkeep : ∀ x ∈ rows, cond x = false → p x = true → q x = true) :
    (updateWhere cond change rows).countP p ≤ rows.countP q := by
  rw [updateWhere, List.countP_map]
  apply List.countP_mono_left
  intro x hx h
  cases hcond : cond x with
  | true => exact hchange x hx hcond (by simpa [hcond] using h)
  | false => exact hkeep x hx hcond (by simpa [hcond] using h)

/-- Rows with distinct keys are told apart by their key. -/
theorem eq_of_key_eq {key : α → β} {rows : List α} (hnd : (rows.map key).Nodup) {x y : α}
    (hx : x ∈ rows) (hy : y ∈ rows) (h : key x = key y) : x = y :=
  List.inj_on_of_nodup_map hnd hx hy h

end Maeglagi.Core
