import Mathlib.Data.List.Nodup
import Maeglagi.Core.Dict
import Maeglagi.Core.Fallible

/-!
# What stands first under a key
-/

namespace Maeglagi.Core

/-!
## First elements under a key

A list without the elements whose key was seen before them, or is given as seen.
-/

section

variable {α κ : Type} [DecidableEq κ] {key : α → κ} {seen : List κ} {l : List α} {a : α}

/-- The first element under each key that is not seen yet. -/
def firsts (key : α → κ) (seen : List κ) : List α → List α
  | [] => []
  | a :: l => if key a ∈ seen then firsts key seen l else a :: firsts key (key a :: seen) l

theorem firsts_sublist (key : α → κ) (seen : List κ) (l : List α) :
    (firsts key seen l).Sublist l := by
  induction l generalizing seen with
  | nil => exact List.Sublist.slnil
  | cons a l ih =>
    rw [firsts]
    split_ifs
    · exact (ih seen).cons a
    · exact (ih (key a :: seen)).cons_cons a

theorem mem_of_mem_firsts (h : a ∈ firsts key seen l) : a ∈ l :=
  (firsts_sublist key seen l).subset h

/-- What is seen is not a first element. -/
theorem notMem_of_mem_firsts (h : a ∈ firsts key seen l) : key a ∉ seen := by
  induction l generalizing seen with
  | nil => exact absurd h List.not_mem_nil
  | cons b l ih =>
    rw [firsts] at h
    split_ifs at h with hb
    · exact ih h
    · rcases List.mem_cons.mp h with rfl | h
      · exact hb
      · exact fun hmem => ih h (List.mem_cons_of_mem _ hmem)

/-- The keys of the first elements are distinct. -/
theorem nodup_map_firsts (key : α → κ) (seen : List κ) (l : List α) :
    ((firsts key seen l).map key).Nodup := by
  induction l generalizing seen with
  | nil => exact List.nodup_nil
  | cons a l ih =>
    rw [firsts]
    split_ifs
    · exact ih seen
    · rw [List.map_cons, List.nodup_cons]
      refine ⟨fun hmem => ?_, ih _⟩
      obtain ⟨b, hb, heq⟩ := List.mem_map.mp hmem
      exact notMem_of_mem_firsts hb (heq ▸ List.mem_cons_self ..)

/-- A list with distinct keys, none of them seen, is its own list of first elements. -/
theorem firsts_eq_self (hl : (l.map key).Nodup) (hseen : ∀ b ∈ l, key b ∉ seen) :
    firsts key seen l = l := by
  induction l generalizing seen with
  | nil => rfl
  | cons a l ih =>
    rw [List.map_cons, List.nodup_cons] at hl
    rw [List.forall_mem_cons] at hseen
    rw [firsts, if_neg hseen.1, ih hl.2]
    intro b hb hmem
    rcases List.mem_cons.mp hmem with heq | hmem
    · exact hl.1 (heq ▸ List.mem_map_of_mem hb)
    · exact hseen.2 b hb hmem

theorem firsts_congr {seen' : List κ} (h : ∀ k, k ∈ seen ↔ k ∈ seen') (l : List α) :
    firsts key seen l = firsts key seen' l := by
  induction l generalizing seen seen' with
  | nil => rfl
  | cons a l ih =>
    have hcons (k : κ) : k ∈ key a :: seen ↔ k ∈ key a :: seen' := by
      rw [List.mem_cons, List.mem_cons, h]
    rw [firsts, firsts, ih h, ih hcons]
    simp only [h]

/-- The keys of the first elements are the keys that are not seen yet. -/
theorem mem_map_firsts {k : κ} : k ∈ (firsts key seen l).map key ↔ k ∈ l.map key ∧ k ∉ seen := by
  induction l generalizing seen with
  | nil => simp [firsts]
  | cons a l ih =>
    rw [firsts]
    split_ifs with ha
    · rw [ih, List.map_cons, List.mem_cons]
      constructor
      · exact fun h => ⟨.inr h.1, h.2⟩
      · rintro ⟨rfl | hk, hseen⟩
        · exact absurd ha hseen
        · exact ⟨hk, hseen⟩
    · rw [List.map_cons, List.map_cons, List.mem_cons, List.mem_cons, ih, List.mem_cons, not_or]
      constructor
      · rintro (rfl | ⟨hk, -, hseen⟩)
        · exact ⟨.inl rfl, ha⟩
        · exact ⟨.inr hk, hseen⟩
      · rintro ⟨rfl | hk, hseen⟩
        · exact .inl rfl
        · by_cases heq : k = key a
          · exact .inl heq
          · exact .inr ⟨hk, heq, hseen⟩

/-- An element goes to the end, unless one with its key is there. -/
def addFirst (key : α → κ) (items : List α) (a : α) : List α :=
  if items.any fun b => decide (key b = key a) then items else items ++ [a]

/-- Elements that are added one by one leave the first one under each key. -/
theorem foldl_addFirst (items : List α) :
    l.foldl (addFirst key) items = items ++ firsts key (items.map key) l := by
  induction l generalizing items with
  | nil => exact (List.append_nil items).symm
  | cons a l ih =>
    rw [List.foldl_cons, ih, addFirst, firsts]
    have hany : (items.any fun b => decide (key b = key a)) = true ↔ key a ∈ items.map key := by
      simp [List.any_eq_true, List.mem_map]
    split_ifs with h h' h'
    · rfl
    · exact absurd (hany.mp h) h'
    · exact absurd (hany.mpr h') h
    · rw [List.append_assoc, List.singleton_append]
      refine congrArg (fun rest => items ++ a :: rest) (firsts_congr (fun k => ?_) l)
      rw [List.map_append, List.mem_append, List.map_singleton, List.mem_singleton, List.mem_cons,
        or_comm]

end

/-!
## Records made once

A fallible loop that gives each key the record of the first element under it. What it records
and when it succeeds are read off the list.
-/

section

variable {ε κ α β γ : Type} [DecidableEq κ]

/-- Record what an element becomes under its key, unless the key is taken. -/
def recordFirst (slot : α → Option κ) (build : κ → α → Except ε β) (records : Dict κ β) (a : α) :
    Except ε (Dict κ β) :=
  match slot a with
  | none => .ok records
  | some key =>
    if key ∈ records.keys then .ok records
    else do
      let record ← build key a
      return records.set key record

/-- The element is the first one of the list under the key. -/
def FirstUnder (slot : α → Option κ) (l : List α) (key : κ) (a : α) : Prop :=
  ∃ before after, l = before ++ a :: after ∧ slot a = some key ∧ ∀ b ∈ before, slot b ≠ some key

theorem firstUnder_iff {slot : α → Option κ} {l : List α} {key : κ} {a : α} :
    FirstUnder slot l key a ↔ l.find? (fun b => decide (slot b = some key)) = some a := by
  rw [List.find?_eq_some_iff_append]
  simp only [decide_eq_true_eq, Bool.not_eq_true', decide_eq_false_iff_not, FirstUnder, ne_eq]
  constructor
  · rintro ⟨before, after, hl, ha, hbefore⟩
    exact ⟨ha, before, after, hl, hbefore⟩
  · rintro ⟨ha, before, after, hl, hbefore⟩
    exact ⟨before, after, hl, ha, hbefore⟩

omit [DecidableEq κ] in
/-- The first element under a key, by its position. -/
theorem firstUnder_iff_getElem? {slot : α → Option κ} {l : List α} {key : κ} {a : α} :
    FirstUnder slot l key a ↔ ∃ i : Nat, l[i]? = some a ∧ slot a = some key ∧
      ∀ (j : Nat) (b : α), j < i → l[j]? = some b → slot b ≠ some key := by
  constructor
  · rintro ⟨before, after, rfl, ha, hbefore⟩
    refine ⟨before.length, by simp, ha, fun j b hj hb => hbefore b ?_⟩
    rw [List.getElem?_append_left hj] at hb
    exact List.mem_of_getElem? hb
  · rintro ⟨i, hi, ha, hbefore⟩
    obtain ⟨hlt, rfl⟩ := List.getElem?_eq_some_iff.mp hi
    refine ⟨l.take i, l.drop (i + 1), ?_, ha, fun b hb => ?_⟩
    · rw [List.getElem_cons_drop, List.take_append_drop]
    · obtain ⟨j, hj⟩ := List.mem_iff_getElem?.mp hb
      have hji : j < i := by
        by_contra hge
        rw [List.getElem?_take, if_neg hge] at hj
        cases hj
      rw [List.getElem?_take_of_lt hji] at hj
      exact hbefore j b hji hj

/-- Under a new element, the first one is that element or the first one after it. -/
theorem firstUnder_cons {slot : α → Option κ} {l : List α} {key : κ} {a b : α} :
    FirstUnder slot (b :: l) key a ↔
      (slot b = some key ∧ a = b) ∨ (slot b ≠ some key ∧ FirstUnder slot l key a) := by
  simp only [firstUnder_iff, List.find?_cons]
  by_cases h : slot b = some key
  · simp [h, eq_comm]
  · simp [h]

theorem recordFirst_eq_ok {slot : α → Option κ} {build : κ → α → Except ε β}
    {records next : Dict κ β} {a : α} : recordFirst slot build records a = .ok next ↔
      ((∀ key, slot a = some key → key ∈ records.keys) ∧ next = records) ∨
        ∃ key record, slot a = some key ∧ key ∉ records.keys ∧ build key a = .ok record ∧
          next = records.set key record := by
  unfold recordFirst
  split
  · next hslot => simp [hslot, eq_comm]
  · next key hslot =>
    split
    · next hmem => simp [hslot, hmem, eq_comm]
    · next hmem =>
      rw [bind_eq_ok]
      simp only [pure_eq_ok]
      simp [hslot, hmem, eq_comm]

/-- A successful loop leaves the records it began with and adds, for every other key, what the
first element under it became. -/
theorem get?_foldlM_recordFirst {slot : α → Option κ} {build : κ → α → Except ε β} {l : List α}
    {records next : Dict κ β} (h : l.foldlM (recordFirst slot build) records = .ok next)
    {key : κ} {record : β} : next.get? key = some record ↔ records.get? key = some record ∨
      (key ∉ records.keys ∧ ∃ a, FirstUnder slot l key a ∧ build key a = .ok record) := by
  induction l generalizing records with
  | nil =>
    rw [List.foldlM_nil, pure_eq_ok] at h
    simp [h, firstUnder_iff]
  | cons b l ih =>
    rw [List.foldlM_cons, bind_eq_ok] at h
    obtain ⟨mid, hmid, hrest⟩ := h
    rw [ih hrest]
    simp only [firstUnder_cons]
    rcases recordFirst_eq_ok.mp hmid with ⟨htaken, rfl⟩ | ⟨slotKey, made, hslot, hnew, hmade, rfl⟩
    · have hne : key ∉ mid.keys → slot b ≠ some key := fun hnot heq => hnot (htaken key heq)
      constructor
      · rintro (hget | ⟨hnot, a, hfirst, hbuild⟩)
        · exact .inl hget
        · exact .inr ⟨hnot, a, .inr ⟨hne hnot, hfirst⟩, hbuild⟩
      · rintro (hget | ⟨hnot, a, ⟨heq, -⟩ | ⟨-, hfirst⟩, hbuild⟩)
        · exact .inl hget
        · exact absurd heq (hne hnot)
        · exact .inr ⟨hnot, a, hfirst, hbuild⟩
    · rw [Dict.get?_set, Dict.mem_keys_set, hslot]
      by_cases hkey : key = slotKey
      · subst hkey
        have hget : records.get? key = none := Dict.get?_eq_none_iff.mpr hnew
        simp [hnew, hget, hmade]
      · simp [hkey, Ne.symm hkey]

/-- The loop succeeds when the first element under each key it has not begun with does. -/
theorem exists_foldlM_recordFirst {slot : α → Option κ} {build : κ → α → Except ε β} {l : List α}
    {records : Dict κ β} : (∃ next, l.foldlM (recordFirst slot build) records = .ok next) ↔
      ∀ key a, key ∉ records.keys → FirstUnder slot l key a →
        ∃ record, build key a = .ok record := by
  induction l generalizing records with
  | nil => simp [firstUnder_iff, pure, Except.pure]
  | cons b l ih =>
    simp only [List.foldlM_cons, bind_eq_ok, firstUnder_cons]
    constructor
    · rintro ⟨next, mid, hmid, hrest⟩ key a hnot hfirst
      have hrec := ih.mp ⟨next, hrest⟩ key a
      rcases recordFirst_eq_ok.mp hmid with ⟨htaken, rfl⟩ | ⟨slotKey, made, hslot, -, hmade, rfl⟩
      · rcases hfirst with ⟨heq, -⟩ | ⟨-, hfirst⟩
        · exact absurd (htaken key heq) hnot
        · exact hrec hnot hfirst
      · rcases hfirst with ⟨heq, rfl⟩ | ⟨hne, hfirst⟩
        · obtain rfl := Option.some.inj (hslot.symm.trans heq)
          exact ⟨made, hmade⟩
        · refine hrec ?_ hfirst
          rw [Dict.mem_keys_set, not_or]
          exact ⟨fun heq => hne (heq ▸ hslot), hnot⟩
    · intro h
      by_cases hnew : ∃ key, slot b = some key ∧ key ∉ records.keys
      · obtain ⟨key, hslot, hnot⟩ := hnew
        obtain ⟨made, hmade⟩ := h key b hnot (.inl ⟨hslot, rfl⟩)
        have hstep : recordFirst slot build records b = .ok (records.set key made) :=
          recordFirst_eq_ok.mpr (.inr ⟨key, made, hslot, hnot, hmade, rfl⟩)
        have hrest : ∃ next,
            l.foldlM (recordFirst slot build) (records.set key made) = .ok next := by
          refine ih.mpr fun other a hother hfirst => ?_
          rw [Dict.mem_keys_set, not_or] at hother
          refine h other a hother.2 (.inr ⟨fun heq => hother.1 ?_, hfirst⟩)
          exact Option.some.inj (heq.symm.trans hslot)
        exact ⟨hrest.choose, _, hstep, hrest.choose_spec⟩
      · have htaken : ∀ key, slot b = some key → key ∈ records.keys := fun key hslot => by
          by_contra hnot
          exact hnew ⟨key, hslot, hnot⟩
        obtain ⟨next, hnext⟩ := ih.mpr fun other a hother hfirst =>
          h other a hother (.inr ⟨fun heq => hother (htaken other heq), hfirst⟩)
        exact ⟨next, records, recordFirst_eq_ok.mpr (.inl ⟨htaken, rfl⟩), hnext⟩

/-- Records with a mark of their elements are the records with marks added. -/
theorem foldlM_recordFirst_map (slot : α → Option κ) (build : κ → α → Except ε β)
    (l : List (α × γ)) (records : Dict κ (β × γ)) :
    (l.map Prod.fst).foldlM (recordFirst slot build) (records.mapValues fun _ v => v.1) =
      (l.foldlM (recordFirst (fun a => slot a.1) fun key a => (build key a.1).map (·, a.2))
        records).map fun next => next.mapValues fun _ v => v.1 := by
  induction l generalizing records with
  | nil => rfl
  | cons a l ih =>
    rw [List.map_cons, List.foldlM_cons, List.foldlM_cons]
    have hstep : recordFirst slot build (records.mapValues fun _ v => v.1) a.1 =
        (recordFirst (fun a => slot a.1) (fun key a => (build key a.1).map (·, a.2)) records
          a).map fun next => next.mapValues fun _ v => v.1 := by
      simp only [recordFirst, Dict.keys_mapValues]
      split
      · rfl
      · next key hslot =>
        split
        · rfl
        · cases hbuild : build key a.1 with
          | error e => simp [Except.map, bind, Except.bind]
          | ok record =>
            simp only [Except.map, bind, Except.bind, pure, Except.pure, Except.ok.injEq]
            refine Dict.ext_get? ?_ fun k => ?_
            · simp only [Dict.keys_set, Dict.keys_mapValues]
            · rw [Dict.get?_set, Dict.get?_mapValues, Dict.get?_mapValues, Dict.get?_set]
              split <;> rfl
    rw [hstep]
    cases hmid : recordFirst (fun a => slot a.1) (fun key a => (build key a.1).map (·, a.2))
        records a with
    | error e => rfl
    | ok mid => exact ih mid

end

end Maeglagi.Core
