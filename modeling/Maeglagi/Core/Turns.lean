import Maeglagi.Core.Fallible

/-!
# Generators that read a stream

A generator takes the items of a stream in turn. Each turn yields at most one piece and may end
the generator, by a return or an exception; a generator that is not ended before the stream is
goes on behind its loop.
-/

namespace Maeglagi.Core

/-- What a generator does with one item: the piece it yields, and how it ends if it does. -/
structure Turn (ε β : Type) where
  yielded : Option β
  ended : Option (Except ε Unit)

variable {α β ε : Type} {p : ε → Prop} {turn : α → Turn ε β} {atEnd : Except ε Unit}
  {items : List α}

/-- What a generator yields over a stream, and how it ends: `atEnd` if the stream ends first. -/
def drained (turn : α → Turn ε β) (atEnd : Except ε Unit) :
    List α → List β × Except ε Unit
  | [] => ([], atEnd)
  | item :: items =>
    match (turn item).ended with
    | some outcome => ((turn item).yielded.toList, outcome)
    | none =>
      let rest := drained turn atEnd items
      ((turn item).yielded.toList ++ rest.1, rest.2)

/-- Every item up to the first one that stops is `ok`. -/
def UpTo (stop ok : α → Prop) : List α → Prop
  | [] => True
  | item :: items => ok item ∧ (stop item ∨ UpTo stop ok items)

theorem UpTo.congr {stop stop' ok ok' : α → Prop} (hok : ∀ i ∈ items, (ok i ↔ ok' i))
    (hstop : ∀ i ∈ items, ok i → (stop i ↔ stop' i)) :
    UpTo stop ok items ↔ UpTo stop' ok' items := by
  induction items with
  | nil => exact Iff.rfl
  | cons item items ih =>
    rw [List.forall_mem_cons] at hok hstop
    have hrest := ih hok.2 hstop.2
    constructor
    · rintro ⟨h, hnext⟩
      exact ⟨hok.1.mp h, hnext.imp (hstop.1 h).mp hrest.mp⟩
    · rintro ⟨h, hnext⟩
      exact ⟨hok.1.mpr h, hnext.imp (hstop.1 (hok.1.mpr h)).mpr hrest.mpr⟩

/-- A generator ends as its first turn that ends it. -/
theorem drained_ended (turn : α → Turn ε β) (atEnd : Except ε Unit) (items : List α) :
    (drained turn atEnd items).2 = (items.findSome? fun i => (turn i).ended).getD atEnd := by
  induction items with
  | nil => rfl
  | cons item items ih =>
    rw [drained, List.findSome?_cons]
    cases (turn item).ended with
    | some outcome => rfl
    | none => exact ih

/-- A generator returns at an item that makes it, or behind its loop. -/
theorem returned_of_drained (h : (drained turn atEnd items).2 = .ok ()) :
    (∃ i ∈ items, (turn i).ended = some (.ok ())) ∨
      atEnd = .ok () ∧ ∀ i ∈ items, (turn i).ended = none := by
  rw [drained_ended] at h
  cases hfound : items.findSome? fun i => (turn i).ended with
  | some outcome =>
    rw [hfound, Option.getD_some] at h
    obtain ⟨i, hi, hended⟩ := List.exists_of_findSome?_eq_some hfound
    exact .inl ⟨i, hi, h ▸ hended⟩
  | none =>
    rw [hfound, Option.getD_none] at h
    exact .inr ⟨h, List.findSome?_eq_none_iff.mp hfound⟩

/-- Which exceptions a generator raises: those of the items up to the one that ends it, and
behind its loop if none does. -/
theorem raisesOnly_drained : RaisesOnly p (drained turn atEnd items).2 ↔
    UpTo (fun i => (turn i).ended ≠ none) (fun i => ∀ r, (turn i).ended = some r → RaisesOnly p r)
      items ∧ ((∀ i ∈ items, (turn i).ended = none) → RaisesOnly p atEnd) := by
  induction items with
  | nil => simp [drained, UpTo]
  | cons item items ih =>
    rw [drained, UpTo, List.forall_mem_cons]
    cases (turn item).ended with
    | some outcome => simp
    | none => simp [ih]

/-- A generator raises the expected exceptions only when every item up to the one that ends it is
as it should be. -/
theorem raisesOnly_drained_iff {stop ok : α → Prop}
    (hends : ∀ i, (∀ r, (turn i).ended = some r → RaisesOnly p r) ↔ ok i)
    (hstop : ∀ i, ok i → ((turn i).ended ≠ none ↔ stop i)) (hend : RaisesOnly p atEnd) :
    RaisesOnly p (drained turn atEnd items).2 ↔ UpTo stop ok items := by
  rw [raisesOnly_drained]
  have hcongr : UpTo (fun i => (turn i).ended ≠ none)
      (fun i => ∀ r, (turn i).ended = some r → RaisesOnly p r) items ↔ UpTo stop ok items :=
    UpTo.congr (fun i _ => hends i) fun i _ h => hstop i ((hends i).mp h)
  rw [hcongr]
  exact and_iff_left fun _ => hend

/-- Where nothing stops every item is as it should be. -/
theorem UpTo.forall_mem {stop ok : α → Prop} (h : UpTo stop ok items)
    (hstop : ∀ i ∈ items, ¬stop i) : ∀ i ∈ items, ok i := by
  induction items with
  | nil => exact nofun
  | cons item items ih =>
    rw [List.forall_mem_cons] at hstop ⊢
    exact ⟨h.1, ih (h.2.resolve_left hstop.1) hstop.2⟩

end Maeglagi.Core
