import Mathlib.Data.List.Basic

/-!
# Gathering items around a leader

One turn of a greedy merge over a list: the first item that satisfies `lead` takes
in every other item satisfying `lead`, then those satisfying `also`, and is
finished in its own place; the absorbed items leave the list. Without a leader a
fresh item is appended. The turn commutes with every projection of the items that
respects its parameters.
-/

namespace Maeglagi.Core

variable {α β : Type}

/-- Split a list at its first item satisfying the test. -/
def splitFirst (p : α → Bool) : List α → Option (List α × α × List α)
  | [] => none
  | x :: xs => if p x then some ([], x, xs) else
      (splitFirst p xs).map fun (before, y, after) => (x :: before, y, after)

/-- The items a turn joins: the leader's like first, then the others. -/
def gathered (lead also : α → Bool) (rest : List α) : List α :=
  rest.filter lead ++ rest.filter fun x => !lead x && also x

/-- One turn of the greedy merge. -/
def gather (lead also : α → Bool) (absorb : α → α → α) (finish : α → α) (fresh : α)
    (items : List α) : List α :=
  match splitFirst lead items with
  | none => items ++ [fresh]
  | some (before, x, after) =>
    let keep := fun y => !(lead y || also y)
    before.filter keep ++
      [finish ((gathered lead also (before ++ after)).foldl absorb x)] ++ after.filter keep

theorem splitFirst_eq_none {p : α → Bool} {l : List α} :
    splitFirst p l = none ↔ ∀ x ∈ l, p x = false := by
  induction l with
  | nil => simp [splitFirst]
  | cons x xs ih =>
    by_cases hx : p x = true
    · simp [splitFirst, hx]
    · simp [splitFirst, hx, ih]

/-- The split point is the first item that passes. -/
theorem splitFirst_eq_some {p : α → Bool} {l before after : List α} {x : α}
    (h : splitFirst p l = some (before, x, after)) :
    l = before ++ x :: after ∧ p x = true ∧ ∀ y ∈ before, p y = false := by
  induction l generalizing before with
  | nil => simp [splitFirst] at h
  | cons y ys ih =>
    by_cases hy : p y = true
    · simp only [splitFirst, hy, if_true, Option.some.injEq, Prod.mk.injEq] at h
      obtain ⟨rfl, rfl, rfl⟩ := h
      exact ⟨rfl, hy, by simp⟩
    · simp only [splitFirst, hy, Bool.false_eq_true, if_false, Option.map_eq_some_iff,
        Prod.exists, Prod.mk.injEq] at h
      obtain ⟨before', y', after', hs, rfl, rfl, rfl⟩ := h
      obtain ⟨rfl, hp, hb⟩ := ih hs
      refine ⟨rfl, hp, ?_⟩
      rintro z (_ | ⟨_, hz⟩)
      · simpa using hy
      · exact hb z hz

theorem splitFirst_map {f : α → β} {p : β → Bool} (l : List α) :
    splitFirst p (l.map f) =
      (splitFirst (p ∘ f) l).map fun (before, y, after) => (before.map f, f y, after.map f) := by
  induction l with
  | nil => rfl
  | cons x xs ih =>
    by_cases hx : p (f x) = true
    · simp [splitFirst, hx]
    · simp only [List.map_cons, splitFirst, hx, Function.comp, if_false, ih, Option.map_map,
        Bool.false_eq_true]
      rfl

/-- A projection that respects the parameters of a turn commutes with it. -/
theorem map_gather (f : α → β) {lead also : β → Bool} {absorb : α → α → α}
    {absorb' : β → β → β} {finish : α → α} {finish' : β → β} {fresh : α}
    (habsorb : ∀ x y, f (absorb x y) = absorb' (f x) (f y))
    (hfinish : ∀ x, f (finish x) = finish' (f x)) (items : List α) :
    (gather (lead ∘ f) (also ∘ f) absorb finish fresh items).map f =
      gather lead also absorb' finish' (f fresh) (items.map f) := by
  have hfold : ∀ (l : List α) (x : α), f (l.foldl absorb x) = (l.map f).foldl absorb' (f x) := by
    intro l
    induction l with
    | nil => intro x; rfl
    | cons y ys ih =>
      intro x
      rw [List.foldl_cons, ih, habsorb, List.map_cons, List.foldl_cons]
  rw [gather, gather, splitFirst_map]
  cases splitFirst (lead ∘ f) items with
  | none => simp
  | some s =>
    obtain ⟨before, x, after⟩ := s
    simp only [Option.map_some, List.map_append, List.map_cons, List.map_nil, hfinish, hfold,
      gathered, List.filter_append, List.filter_map]
    rfl

/-- What a turn does: `joined` is what it takes out of the list, `kept` what it leaves,
and `new` the item it puts in. -/
structure Gathered (lead also : α → Bool) (absorb : α → α → α) (finish : α → α) (fresh : α)
    (items next joined kept : List α) (new : α) : Prop where
  before : items.Perm (joined ++ kept)
  after : next.Perm (new :: kept)
  item : (joined = [] ∧ new = fresh ∧ ∀ x ∈ items, lead x = false) ∨
    ∃ x rest, joined = x :: rest ∧ new = finish (rest.foldl absorb x) ∧
      (∃ y ∈ items, lead y = true) ∧ (∀ y ∈ joined, lead y = true ∨ also y = true) ∧
      ∀ y ∈ kept, lead y = false ∧ also y = false

private theorem filter_join_perm (lead also : α → Bool) (rest : List α) :
    rest.Perm (gathered lead also rest ++ rest.filter fun y => !(lead y || also y)) := by
  have h₁ := (List.filter_append_perm lead rest).symm
  have h₂ := (List.filter_append_perm also (rest.filter fun y => !lead y)).symm
  refine h₁.trans (((List.Perm.refl _).append h₂).trans (List.Perm.of_eq ?_))
  rw [gathered, List.filter_filter, List.filter_filter, List.append_assoc]
  congr 2
  · exact List.filter_congr fun y _ => Bool.and_comm _ _
  · exact List.filter_congr fun y _ => by rw [Bool.not_or, Bool.and_comm]

/-- Every turn either opens a fresh item or joins the items its tests select. -/
theorem gather_gathered (lead also : α → Bool) (absorb : α → α → α) (finish : α → α) (fresh : α)
    (items : List α) : ∃ joined kept new, Gathered lead also absorb finish fresh items
      (gather lead also absorb finish fresh items) joined kept new := by
  unfold gather
  cases h : splitFirst lead items with
  | none =>
    exact ⟨[], items, fresh, List.Perm.refl _, List.perm_append_singleton _ _,
      Or.inl ⟨rfl, rfl, splitFirst_eq_none.mp h⟩⟩
  | some s =>
    obtain ⟨before, x, after⟩ := s
    obtain ⟨rfl, hlead, -⟩ := splitFirst_eq_some h
    refine ⟨x :: gathered lead also (before ++ after),
      (before ++ after).filter fun y => !(lead y || also y), _, ?_, ?_,
      Or.inr ⟨x, _, rfl, rfl, ⟨x, by simp, hlead⟩, ?_, ?_⟩⟩
    · exact List.perm_middle.trans ((filter_join_perm lead also _).cons x)
    · rw [List.filter_append]
      exact List.Perm.trans (List.Perm.of_eq (by simp)) List.perm_middle
    · intro y hy
      simp only [gathered, List.mem_cons, List.mem_append, List.mem_filter, Bool.and_eq_true] at hy
      rcases hy with rfl | hy | hy
      · exact Or.inl hlead
      · exact Or.inl hy.2
      · exact Or.inr hy.2.2
    · intro y hy
      simpa using (List.mem_filter.mp hy).2

end Maeglagi.Core
