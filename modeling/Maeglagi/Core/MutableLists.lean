import Mathlib.Data.List.Basic

/-!
# Mutable lists

A memory of lists that are made, read and assigned to in place. A computation that only
assigns to lists it has made itself leaves every list that was there as it was.
-/

namespace Maeglagi.Core

variable {α : Type}

/-- A memory of lists; the address of a list is its position. -/
structure MutableLists (α : Type) where
  contents : List (List α)

namespace MutableLists

/-- The number of lists that have been made. -/
def size (m : MutableLists α) : Nat := m.contents.length

/-- The list at an address. -/
def get (m : MutableLists α) (address : Nat) : List α := m.contents[address]?.getD []

/-- A new list, and its address. -/
def make (m : MutableLists α) (items : List α) : MutableLists α × Nat :=
  (⟨m.contents ++ [items]⟩, m.size)

/-- The list at an address is changed in place. -/
def assign (m : MutableLists α) (address : Nat) (items : List α) : MutableLists α :=
  ⟨m.contents.set address items⟩

/-- The lists that were there are as they were. -/
structure Keeps (m m' : MutableLists α) : Prop where
  size : m.size ≤ m'.size
  get : ∀ address < m.size, m'.get address = m.get address

theorem Keeps.refl (m : MutableLists α) : m.Keeps m := ⟨Nat.le_refl _, fun _ _ => rfl⟩

/-- The lists that were there are as they were, and the items are in a list made since. -/
structure Owns (m m' : MutableLists α) (address : Nat) (items : List α) : Prop
    extends m.Keeps m' where
  made : m.size ≤ address
  lt : address < m'.size
  items : m'.get address = items

/-- A new list is the maker's own. -/
theorem Keeps.owns_make {m m' : MutableLists α} (h : m.Keeps m') (items : List α) :
    m.Owns (m'.make items).1 (m'.make items).2 items where
  size := Nat.le_trans h.size (by simp [make, MutableLists.size])
  get address hlt := by
    rw [← h.get address hlt]
    have hold : address < m'.contents.length := Nat.lt_of_lt_of_le hlt h.size
    simp [make, MutableLists.get, List.getElem?_append_left hold]
  made := h.size
  lt := by simp [make, MutableLists.size]
  items := by simp [make, MutableLists.get, MutableLists.size]

/-- An own list may be changed in place. -/
theorem Owns.assign {m m' : MutableLists α} {address : Nat} {items : List α}
    (h : m.Owns m' address items) (items' : List α) :
    m.Owns (m'.assign address items') address items' where
  size := by simpa [MutableLists.assign, MutableLists.size] using h.size
  get other hlt := by
    have hne : address ≠ other := fun heq => by
      have := h.made
      omega
    rw [← h.get other hlt]
    simp [MutableLists.assign, MutableLists.get, List.getElem?_set_ne hne]
  made := h.made
  lt := by simpa [MutableLists.assign, MutableLists.size] using h.lt
  items := by
    have hlt : address < m'.contents.length := h.lt
    simp [MutableLists.assign, MutableLists.get, hlt]

end MutableLists

end Maeglagi.Core
