import Mathlib.Data.List.Nodup

/-!
# Insertion-ordered dictionaries

A dictionary keeps its keys in the order of their first insertion. Assigning to a
key it already has replaces the value in place. That the keys are distinct is part
of the type, so reading a key and finding an entry are the same thing.
-/

namespace Maeglagi.Core

variable {κ α β : Type}

/-- A finite map whose keys are kept in insertion order. -/
@[ext] structure Dict (κ α : Type) where
  entries : List (κ × α)
  nodup : (entries.map Prod.fst).Nodup
  deriving DecidableEq

namespace Dict

/-- The dictionary without entries. -/
def empty : Dict κ α := ⟨[], List.nodup_nil⟩

/-- The keys in insertion order. -/
def keys (d : Dict κ α) : List κ := d.entries.map Prod.fst

/-- The values in insertion order of their keys. -/
def values (d : Dict κ α) : List α := d.entries.map Prod.snd

variable [DecidableEq κ]

/-- The first value recorded for a key. -/
def read (entries : List (κ × α)) (k : κ) : Option α :=
  match entries with
  | [] => none
  | e :: rest => if e.1 = k then some e.2 else read rest k

/-- The value of a key, if it has one. -/
def get? (d : Dict κ α) (k : κ) : Option α := read d.entries k

/-- The value of a key, with a default. -/
def getD (d : Dict κ α) (k : κ) (default : α) : α := (d.get? k).getD default

/-- The entries after an assignment. -/
def assign (entries : List (κ × α)) (k : κ) (v : α) : List (κ × α) :=
  match entries with
  | [] => [(k, v)]
  | e :: rest => if e.1 = k then (k, v) :: rest else e :: assign rest k v

theorem map_fst_assign (entries : List (κ × α)) (k : κ) (v : α) :
    (assign entries k v).map Prod.fst =
      if k ∈ entries.map Prod.fst then entries.map Prod.fst else entries.map Prod.fst ++ [k] := by
  induction entries with
  | nil => simp [assign]
  | cons e rest ih =>
    by_cases he : e.1 = k
    · simp [assign, he]
    · by_cases hk : k ∈ rest.map Prod.fst <;> simp_all [assign, Ne.symm he]

/-- Assign a value to a key: in place, or at the end for a new key. -/
def set (d : Dict κ α) (k : κ) (v : α) : Dict κ α where
  entries := assign d.entries k v
  nodup := by
    rw [map_fst_assign]
    split
    · exact d.nodup
    · next hk => exact d.nodup.append (List.nodup_singleton k) (by simpa using hk)

/-- A key that is already there keeps its place, a new one goes to the end. -/
theorem keys_set (d : Dict κ α) (k : κ) (v : α) :
    (d.set k v).keys = if k ∈ d.keys then d.keys else d.keys ++ [k] :=
  map_fst_assign d.entries k v

@[simp] theorem get?_empty (k : κ) : (empty : Dict κ α).get? k = none := rfl

@[simp] theorem get?_set_self (d : Dict κ α) (k : κ) (v : α) : (d.set k v).get? k = some v := by
  obtain ⟨entries, _⟩ := d
  simp only [get?, set]
  induction entries with
  | nil => simp [assign, read]
  | cons e rest ih => by_cases he : e.1 = k <;> simp_all [assign, read]

theorem get?_set_ne (d : Dict κ α) {k k' : κ} (v : α) (h : k' ≠ k) :
    (d.set k v).get? k' = d.get? k' := by
  obtain ⟨entries, _⟩ := d
  simp only [get?, set]
  induction entries with
  | nil => simp [assign, read, Ne.symm h]
  | cons e rest ih =>
    by_cases he : e.1 = k
    · simp [assign, read, he, Ne.symm h]
    · simp_all [assign, read]

/-- Reading after an assignment. -/
theorem get?_set (d : Dict κ α) (k k' : κ) (v : α) :
    (d.set k v).get? k' = if k' = k then some v else d.get? k' := by
  split
  · next h => rw [h, get?_set_self]
  · next h => rw [get?_set_ne d v h]

/-- A key has a value exactly when the pair is an entry. -/
theorem get?_eq_some_iff {d : Dict κ α} {k : κ} {v : α} :
    d.get? k = some v ↔ (k, v) ∈ d.entries := by
  obtain ⟨entries, hnd⟩ := d
  simp only [get?]
  induction entries with
  | nil => simp [read]
  | cons e rest ih =>
    rw [List.map_cons, List.nodup_cons] at hnd
    by_cases he : e.1 = k
    · subst he
      have hnot : (e.1, v) ∉ rest := fun hmem =>
        hnd.1 (List.mem_map.mpr ⟨_, hmem, rfl⟩)
      simp [read, hnot, Prod.ext_iff, eq_comm]
    · simp [read, he, ih hnd.2, Prod.ext_iff, Ne.symm he]

/-- A key without a value is not among the keys. -/
theorem get?_eq_none_iff {d : Dict κ α} {k : κ} : d.get? k = none ↔ k ∉ d.keys := by
  rw [← not_iff_not, not_not, ← ne_eq, Option.ne_none_iff_exists', keys, List.mem_map]
  constructor
  · rintro ⟨v, hv⟩
    exact ⟨(k, v), get?_eq_some_iff.mp hv, rfl⟩
  · rintro ⟨⟨_, v⟩, he, rfl⟩
    exact ⟨v, get?_eq_some_iff.mpr he⟩

/-- A key has a value exactly when it is among the keys. -/
theorem mem_keys_iff {d : Dict κ α} {k : κ} : k ∈ d.keys ↔ ∃ v, d.get? k = some v := by
  rw [← Option.ne_none_iff_exists', ne_eq, get?_eq_none_iff, not_not]

/-- The values are those that some key has. -/
theorem mem_values_iff {d : Dict κ α} {v : α} : v ∈ d.values ↔ ∃ k, d.get? k = some v := by
  simp only [get?_eq_some_iff, values, List.mem_map]
  constructor
  · rintro ⟨⟨k, _⟩, hmem, rfl⟩
    exact ⟨k, hmem⟩
  · rintro ⟨k, hmem⟩
    exact ⟨(k, v), hmem, rfl⟩

/-- The keys after an assignment, as a set. -/
theorem mem_keys_set {d : Dict κ α} {k k' : κ} {v : α} :
    k' ∈ (d.set k v).keys ↔ k' = k ∨ k' ∈ d.keys := by
  rw [keys_set]
  split
  · next h => exact ⟨Or.inr, fun hk => hk.elim (fun he => he ▸ h) id⟩
  · simp [or_comm]

theorem read_eq_none {entries : List (κ × α)} {k : κ} (h : k ∉ entries.map Prod.fst) :
    read entries k = none := by
  induction entries with
  | nil => rfl
  | cons e rest ih =>
    simp only [List.map_cons, List.mem_cons, not_or] at h
    simp only [read, Ne.symm h.1, if_false, ih h.2]

/-- An entry with a new key goes to the end. -/
theorem assign_of_notMem {entries : List (κ × α)} {k : κ} (h : k ∉ entries.map Prod.fst) (v : α) :
    assign entries k v = entries ++ [(k, v)] := by
  induction entries with
  | nil => rfl
  | cons e rest ih =>
    simp only [List.map_cons, List.mem_cons, not_or] at h
    rw [assign, if_neg (Ne.symm h.1), ih h.2, List.cons_append]

private theorem eq_of_read_eq {l l' : List (κ × α)} (hnd : (l.map Prod.fst).Nodup)
    (hk : l.map Prod.fst = l'.map Prod.fst) (hg : ∀ k, read l k = read l' k) : l = l' := by
  induction l generalizing l' with
  | nil => exact (List.map_eq_nil_iff.mp hk.symm).symm
  | cons e rest ih =>
    cases l' with
    | nil => simp at hk
    | cons e' rest' =>
      simp only [List.map_cons, List.cons.injEq] at hk
      rw [List.map_cons, List.nodup_cons] at hnd
      have hhead : e.2 = e'.2 := by simpa [read, hk.1] using hg e.1
      have htail : rest = rest' := by
        refine ih hnd.2 hk.2 fun k => ?_
        by_cases he : e.1 = k
        · rw [← he, read_eq_none hnd.1, read_eq_none (hk.2 ▸ hnd.1)]
        · have he' : ¬e'.1 = k := hk.1 ▸ he
          simpa only [read, he, he', if_false] using hg k
      rw [htail, Prod.ext hk.1 hhead]

/-- Dictionaries with the same key order and the same reads are equal. -/
theorem ext_get? {d d' : Dict κ α} (hk : d.keys = d'.keys) (hg : ∀ k, d.get? k = d'.get? k) :
    d = d' := Dict.ext (eq_of_read_eq d.nodup hk hg)

/-- Keep the keys and change every value. -/
def mapValues (d : Dict κ α) (f : κ → α → β) : Dict κ β where
  entries := d.entries.map fun e => (e.1, f e.1 e.2)
  nodup := by
    rw [List.map_map]
    exact d.nodup

omit [DecidableEq κ] in
@[simp] theorem keys_mapValues (d : Dict κ α) (f : κ → α → β) :
    (d.mapValues f).keys = d.keys := by
  simp only [keys, mapValues, List.map_map]
  rfl

@[simp] theorem get?_mapValues (d : Dict κ α) (f : κ → α → β) (k : κ) :
    (d.mapValues f).get? k = (d.get? k).map (f k) := by
  obtain ⟨entries, _⟩ := d
  simp only [get?, mapValues]
  induction entries with
  | nil => rfl
  | cons e rest ih => by_cases he : e.1 = k <;> simp_all [read]

/-- Assign a list of pairs, first to last. -/
def setMany (d : Dict κ α) (pairs : List (κ × α)) : Dict κ α :=
  pairs.foldl (fun d e => d.set e.1 e.2) d

/-- A value is an old one or one of the pairs. -/
theorem mem_of_get?_setMany {d : Dict κ α} {pairs : List (κ × α)} {k : κ} {v : α}
    (h : (d.setMany pairs).get? k = some v) : d.get? k = some v ∨ (k, v) ∈ pairs := by
  induction pairs generalizing d with
  | nil => exact .inl h
  | cons e pairs ih =>
    rcases ih h with hset | hmem
    · rw [get?_set] at hset
      split_ifs at hset with hk
      · cases hset
        subst hk
        exact .inr (List.mem_cons_self ..)
      · exact .inl hset
    · exact .inr (List.mem_cons_of_mem _ hmem)

/-- The keys after an assignment are the old ones and those of the pairs. -/
theorem mem_keys_setMany {d : Dict κ α} {pairs : List (κ × α)} {k : κ} :
    k ∈ (d.setMany pairs).keys ↔ k ∈ d.keys ∨ k ∈ pairs.map Prod.fst := by
  induction pairs generalizing d with
  | nil => simp [setMany]
  | cons e pairs ih =>
    have hrest := ih (d := d.set e.1 e.2)
    rw [mem_keys_set] at hrest
    rw [List.map_cons, List.mem_cons, ← or_assoc, or_comm (a := k ∈ d.keys)]
    exact hrest

end Dict

end Maeglagi.Core
