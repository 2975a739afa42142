import Mathlib.Data.List.Basic
import Mathlib.Data.List.Forall2

/-!
# Computations that may raise
-/

namespace Maeglagi.Core

/-!
## Loops that may raise

What a successful run of a fallible computation says about its parts, and the
induction rule for the invariant of a fallible loop.
-/

section

variable {ε α β σ : Type}

/-- A sequence of two computations succeeds when both do. -/
theorem bind_eq_ok {x : Except ε α} {f : α → Except ε β} {b : β} :
    (x >>= f) = .ok b ↔ ∃ a, x = .ok a ∧ f a = .ok b := by
  cases x <;> simp [bind, Except.bind]

@[simp] theorem pure_eq_ok {a b : α} : (pure a : Except ε α) = .ok b ↔ a = b := by
  simp [pure, Except.pure]

/-- A sequence of two computations fails where one of them does. -/
theorem bind_eq_error {x : Except ε α} {f : α → Except ε β} {e : ε} :
    (x >>= f) = .error e ↔ x = .error e ∨ ∃ a, x = .ok a ∧ f a = .error e := by
  cases x <;> simp [bind, Except.bind]

/-- A traversal fails as one of its elements does. -/
theorem exists_of_mapM_eq_error {f : α → Except ε β} {l : List α} {e : ε}
    (h : l.mapM f = .error e) : ∃ a ∈ l, f a = .error e := by
  induction l with
  | nil => cases h
  | cons a l ih =>
    rw [List.mapM_cons, bind_eq_error] at h
    rcases h with ha | ⟨b, -, h⟩
    · exact ⟨a, List.mem_cons_self .., ha⟩
    · rcases bind_eq_error.mp h with hl | ⟨bs, -, h⟩
      · obtain ⟨a', ha', he⟩ := ih hl
        exact ⟨a', List.mem_cons_of_mem _ ha', he⟩
      · cases h

/-- A loop over elements that all succeed succeeds. -/
theorem exists_mapM_ok {f : α → Except ε β} {l : List α} (h : ∀ a ∈ l, ∃ b, f a = .ok b) :
    ∃ bs, l.mapM f = .ok bs := by
  induction l with
  | nil => exact ⟨[], rfl⟩
  | cons a l ih =>
    obtain ⟨b, hb⟩ := h a (List.mem_cons_self ..)
    obtain ⟨bs, hbs⟩ := ih fun a' ha' => h a' (List.mem_cons_of_mem _ ha')
    exact ⟨b :: bs, by rw [List.mapM_cons, hb, hbs]; rfl⟩

/-- A loop over elements succeeds exactly when it does on each of them. -/
theorem exists_mapM_ok_iff {f : α → Except ε β} {l : List α} :
    (∃ bs, l.mapM f = .ok bs) ↔ ∀ a ∈ l, ∃ b, f a = .ok b := by
  refine ⟨fun h => ?_, exists_mapM_ok⟩
  obtain ⟨bs, h⟩ := h
  induction l generalizing bs with
  | nil => simp
  | cons a l ih =>
    rw [List.mapM_cons, bind_eq_ok] at h
    obtain ⟨b, hb, h⟩ := h
    rw [bind_eq_ok] at h
    obtain ⟨bs', hbs, -⟩ := h
    exact List.forall_mem_cons.mpr ⟨⟨b, hb⟩, ih bs' hbs⟩

/-- A property that every successful turn keeps holds after a successful loop. -/
theorem foldlM_induct {step : σ → α → Except ε σ} {P : σ → Prop} {l : List α} {s s' : σ}
    (hstep : ∀ s x s', x ∈ l → P s → step s x = .ok s' → P s') (h : l.foldlM step s = .ok s')
    (hs : P s) : P s' := by
  induction l generalizing s with
  | nil =>
    rw [List.foldlM_nil, pure_eq_ok] at h
    exact h ▸ hs
  | cons x l ih =>
    rw [List.foldlM_cons, bind_eq_ok] at h
    obtain ⟨mid, hmid, hrest⟩ := h
    exact ih (fun s y s' hy => hstep s y s' (List.mem_cons_of_mem _ hy)) hrest
      (hstep s x mid (List.mem_cons_self ..) hs hmid)

/-- The results of a successful traversal, position by position. -/
theorem getElem?_of_mapM_eq_ok {f : α → Except ε β} {l : List α} {ys : List β}
    (h : l.mapM f = .ok ys) (i : Nat) : ys[i]? = l[i]?.bind fun x => (f x).toOption := by
  induction l generalizing ys i with
  | nil =>
    rw [List.mapM_nil, pure_eq_ok] at h
    simp [← h]
  | cons x l ih =>
    rw [List.mapM_cons, bind_eq_ok] at h
    obtain ⟨y, hy, h⟩ := h
    rw [bind_eq_ok] at h
    obtain ⟨ys', hys, h⟩ := h
    rw [pure_eq_ok] at h
    subst h
    cases i with
    | zero => simp [hy, Except.toOption]
    | succ i => simpa using ih hys i

/-- Every result of a successful traversal is that of an element. -/
theorem exists_of_mem_mapM_ok {f : α → Except ε β} {l : List α} {ys : List β} {y : β}
    (h : l.mapM f = .ok ys) (hy : y ∈ ys) : ∃ x ∈ l, f x = .ok y := by
  obtain ⟨i, hi⟩ := List.mem_iff_getElem?.mp hy
  rw [getElem?_of_mapM_eq_ok h] at hi
  obtain ⟨x, hx, hfx⟩ := Option.bind_eq_some_iff.mp hi
  refine ⟨x, List.mem_of_getElem? hx, ?_⟩
  cases hf : f x with
  | error e =>
    rw [hf] at hfx
    cases hfx
  | ok y' =>
    rw [hf] at hfx
    exact congrArg Except.ok (Option.some.inj hfx)

/-- A check over a list that succeeds has checked each element. -/
theorem ok_of_forM_ok {f : α → Except ε Unit} {l : List α} (h : l.forM f = .ok ()) :
    ∀ a ∈ l, f a = .ok () := by
  induction l with
  | nil => simp
  | cons a l ih =>
    obtain ⟨⟨⟩, ha, hl⟩ := bind_eq_ok.mp h
    exact List.forall_mem_cons.mpr ⟨ha, ih hl⟩

end

/-!
## Which exceptions a computation raises

A computation raises only exceptions of a kind when each exception it ends with is of
that kind. The rule for a sequence splits a computation into its steps; the rule for a
handler moves the kind behind the exceptions that the handler replaces.
-/

section

variable {ε α β : Type} {p q : ε → Prop}

/-- The computation returns or raises an exception of the kind. -/
def RaisesOnly (p : ε → Prop) (x : Except ε α) : Prop := ∀ e, x = .error e → p e

/-- `try: x except caught: raise f(e)` -/
def handling (caught : ε → Bool) (f : ε → ε) (x : Except ε α) : Except ε α :=
  match x with
  | .ok a => .ok a
  | .error e => .error (if caught e then f e else e)

/-- `try: x except caught: default` -/
def recovering (caught : ε → Bool) (default : α) (x : Except ε α) : Except ε α :=
  match x with
  | .ok a => .ok a
  | .error e => if caught e then .ok default else .error e

@[simp] theorem raisesOnly_ok {a : α} : RaisesOnly p (.ok a : Except ε α) := by
  rintro e ⟨⟩

@[simp] theorem raisesOnly_pure {a : α} : RaisesOnly p (pure a : Except ε α) := by
  rintro e ⟨⟩

@[simp] theorem raisesOnly_error {e : ε} : RaisesOnly p (.error e : Except ε α) ↔ p e := by
  refine ⟨fun h => h e rfl, fun h => ?_⟩
  rintro e' ⟨⟩
  exact h

@[simp] theorem raisesOnly_throw {e : ε} : RaisesOnly p (throw e : Except ε α) ↔ p e :=
  raisesOnly_error

theorem RaisesOnly.mono {x : Except ε α} (h : RaisesOnly p x) (hpq : ∀ e, p e → q e) :
    RaisesOnly q x := fun e he => hpq e (h e he)

/-- A sequence raises what its first part raises and what the rest raises after it. -/
theorem raisesOnly_bind {x : Except ε α} {f : α → Except ε β} :
    RaisesOnly p (x >>= f) ↔ RaisesOnly p x ∧ ∀ a, x = .ok a → RaisesOnly p (f a) := by
  cases x <;> simp [bind, Except.bind]

@[simp] theorem handling_ok {caught : ε → Bool} {f : ε → ε} {a : α} :
    handling caught f (.ok a : Except ε α) = .ok a := rfl

@[simp] theorem handling_eq_ok {caught : ε → Bool} {f : ε → ε} {x : Except ε α} {a : α} :
    handling caught f x = .ok a ↔ x = .ok a := by
  cases x <;> simp [handling]

/-- A handler replaces the exceptions it catches and lets the others pass. -/
theorem raisesOnly_handling {caught : ε → Bool} {f : ε → ε} {x : Except ε α} :
    RaisesOnly p (handling caught f x) ↔
      RaisesOnly (fun e => p (if caught e then f e else e)) x := by
  cases x <;> simp [handling]

end

/-!
## Traversals, item by item

A traversal of a list succeeds with the list of the results of its items.
-/

section

variable {ε α β γ : Type}

/-- A traversal that may have no result has one when each item has. -/
theorem mapM_eq_some_iff {f : α → Option β} {l : List α} {ys : List β} :
    l.mapM f = some ys ↔ List.Forall₂ (fun x y => f x = some y) l ys := by
  induction l generalizing ys with
  | nil => simp [eq_comm]
  | cons x l ih =>
    rw [List.mapM_cons, List.forall₂_cons_left_iff]
    simp only [Option.bind_eq_bind, Option.bind_eq_some_iff, Option.pure_def, Option.some.injEq, ih]
    constructor
    · rintro ⟨y, hy, ys, hys, rfl⟩
      exact ⟨y, ys, hy, hys, rfl⟩
    · rintro ⟨y, ys, hy, hys, rfl⟩
      exact ⟨y, hy, ys, hys, rfl⟩

/-- A traversal that may raise returns when each item does. -/
theorem mapM_eq_ok_iff {f : α → Except ε β} {l : List α} {ys : List β} :
    l.mapM f = .ok ys ↔ List.Forall₂ (fun x y => f x = .ok y) l ys := by
  induction l generalizing ys with
  | nil => simp [pure, Except.pure, eq_comm]
  | cons x l ih =>
    rw [List.mapM_cons, List.forall₂_cons_left_iff]
    simp only [bind_eq_ok, pure_eq_ok, ih]
    constructor
    · rintro ⟨y, hy, ys, hys, rfl⟩
      exact ⟨y, ys, hy, hys, rfl⟩
    · rintro ⟨y, ys, hy, hys, rfl⟩
      exact ⟨y, hy, ys, hys, rfl⟩

/-- Each item is related to some item of a second list when it is to something at all. -/
theorem exists_forall₂_iff {R : α → β → Prop} {l : List α} :
    (∃ ys, List.Forall₂ R l ys) ↔ ∀ x ∈ l, ∃ y, R x y := by
  induction l with
  | nil => simp
  | cons x l ih =>
    rw [List.forall_mem_cons, ← ih]
    constructor
    · rintro ⟨_, h⟩
      obtain ⟨y, ys, hy, hys, rfl⟩ := List.forall₂_cons_left_iff.mp h
      exact ⟨⟨y, hy⟩, ys, hys⟩
    · rintro ⟨⟨y, hy⟩, ys, hys⟩
      exact ⟨y :: ys, .cons hy hys⟩

/-- Two lists are related item by item over a list in between. -/
theorem forall₂_comp_iff {R : α → β → Prop} {S : β → γ → Prop} {l : List α} {n : List γ} :
    List.Forall₂ (fun x z => ∃ y, R x y ∧ S y z) l n ↔
      ∃ m, List.Forall₂ R l m ∧ List.Forall₂ S m n := by
  constructor
  · intro h
    induction h with
    | nil => exact ⟨[], .nil, .nil⟩
    | cons hxz _ ih =>
      obtain ⟨y, hxy, hyz⟩ := hxz
      obtain ⟨m, hm, hm'⟩ := ih
      exact ⟨y :: m, .cons hxy hm, .cons hyz hm'⟩
  · rintro ⟨m, h, h'⟩
    induction h generalizing n with
    | nil => exact List.forall₂_nil_left_iff.mp h' ▸ .nil
    | cons hxy _ ih =>
      obtain ⟨z, n, hyz, hrest, rfl⟩ := List.forall₂_cons_left_iff.mp h'
      exact .cons ⟨_, hxy, hyz⟩ (ih hrest)

theorem exists_getElem?_of_forall₂ {R : α → β → Prop} {l : List α} {m : List β}
    (h : List.Forall₂ R l m) {i : Nat} {y : β} (hy : m[i]? = some y) :
    ∃ x, l[i]? = some x ∧ R x y := by
  induction h generalizing i with
  | nil => simp at hy
  | cons hxy _ ih =>
    cases i with
    | zero =>
      obtain rfl := Option.some.inj hy
      exact ⟨_, rfl, hxy⟩
    | succ i => exact ih hy

theorem exists_mem_of_forall₂ {R : α → β → Prop} {l : List α} {m : List β}
    (h : List.Forall₂ R l m) {x : α} (hx : x ∈ l) : ∃ y ∈ m, R x y := by
  induction h with
  | nil => cases hx
  | cons hxy _ ih =>
    rcases List.mem_cons.mp hx with rfl | hx
    · exact ⟨_, List.mem_cons_self .., hxy⟩
    · obtain ⟨y, hy, hxy⟩ := ih hx
      exact ⟨y, List.mem_cons_of_mem _ hy, hxy⟩

/-- A test of the items of a list that may raise finds none when it clears each item. -/
theorem anyM_eq_ok_false_iff {f : α → Except ε Bool} {l : List α} :
    l.anyM f = .ok false ↔ ∀ x ∈ l, f x = .ok false := by
  induction l with
  | nil => simp [List.anyM, pure, Except.pure]
  | cons x l ih =>
    rw [List.forall_mem_cons, ← ih]
    cases hx : f x with
    | error e => simp [List.anyM, hx, bind, Except.bind]
    | ok b => cases b <;> simp [List.anyM, hx, bind, Except.bind, pure, Except.pure]

end

end Maeglagi.Core
