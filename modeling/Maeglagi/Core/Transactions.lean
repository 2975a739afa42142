import Mathlib.Logic.Function.Basic
import Mathlib.Logic.Relation
import Mathlib.Order.Defs.Unbundled
import Maeglagi.Core.Machine

/-!
# Locks and transactions
-/

namespace Maeglagi.Core

/-!
## Exclusive locks

Each lock has at most one holder, and a party may wait for one lock. Where every party waits
only for locks that come after all it holds, no chain of waiting parties closes.
-/

section

variable {π κ : Type}

/-- Who holds each lock and which lock each party waits for. -/
structure Locks (π κ : Type) where
  holder : κ → Option π
  wanted : π → Option κ

/-- The first party waits for a lock that the second one holds. -/
def Locks.Waits (l : Locks π κ) (p q : π) : Prop :=
  ∃ k, l.wanted p = some k ∧ l.holder k = some q

/-- Every party waits only for locks that come after all it holds. -/
def Locks.Ordered (l : Locks π κ) (before : κ → κ → Prop) : Prop :=
  ∀ p k held, l.wanted p = some k → l.holder held = some p → before held k

/-- Parties that wait for each other in a circle. -/
def Locks.Deadlocked (l : Locks π κ) : Prop := ∃ p, Relation.TransGen l.Waits p p

variable {before : κ → κ → Prop} [IsStrictOrder κ before]

/-- Along a chain of waiting parties the locks they wait for only come later. -/
theorem Locks.Ordered.wanted_before {l : Locks π κ} (h : l.Ordered before) {p q : π}
    (hchain : Relation.TransGen l.Waits p q) {k k' : κ} (hp : l.wanted p = some k)
    (hq : l.wanted q = some k') : before k k' := by
  induction hchain generalizing k' with
  | single hwaits =>
    obtain ⟨held, hwanted, hheld⟩ := hwaits
    rw [hp, Option.some.injEq] at hwanted
    exact hwanted ▸ h _ _ _ hq hheld
  | tail _ hwaits ih =>
    obtain ⟨held, hwanted, hheld⟩ := hwaits
    exact trans_of before (ih hwanted) (h _ _ _ hq hheld)

/-- Locks that are taken in order never deadlock. -/
theorem Locks.Ordered.not_deadlocked {l : Locks π κ} (h : l.Ordered before) : ¬l.Deadlocked := by
  rintro ⟨p, hcircle⟩
  have hwaiting : ∃ k, l.wanted p = some k := by
    obtain ⟨_, ⟨k, hk, -⟩, -⟩ := Relation.TransGen.head'_iff.mp hcircle
    exact ⟨k, hk⟩
  obtain ⟨k, hk⟩ := hwaiting
  exact irrefl_of before k (h.wanted_before hcircle hk hk)

end

/-!
## Transactions over locked rows

A transaction reads a database, locks rows one after another and ends in a write or an error.
The transactions of any number of parties interleave: a row belongs to one party until its
transaction ends, and a party that asks for it meanwhile waits.
-/

section

variable {π κ δ ε γ α β : Type}

/-- A transaction over databases with named rows. What follows a read or a lock sees the
database as it is then. -/
inductive Txn (κ δ ε α : Type) where
  | pure (value : α)
  | refuse (error : ε)
  | read (next : δ → Txn κ δ ε α)
  | lock (row : κ) (next : δ → Txn κ δ ε α)

/-- One transaction after another, as a single one. -/
def Txn.bind : Txn κ δ ε α → (α → Txn κ δ ε β) → Txn κ δ ε β
  | .pure value, f => f value
  | .refuse error, _ => .refuse error
  | .read next, f => .read fun db => (next db).bind f
  | .lock row next, f => .lock row fun db => (next db).bind f

instance Txn.instMonad : Monad (Txn κ δ ε) where
  pure := .pure
  bind := .bind

theorem Txn.pure_eq (value : α) : (Pure.pure value : Txn κ δ ε α) = .pure value := rfl

theorem Txn.bind_eq (t : Txn κ δ ε α) (f : α → Txn κ δ ε β) : t >>= f = t.bind f := rfl

theorem Txn.bind_pure (t : Txn κ δ ε α) : t.bind .pure = t := by
  induction t with
  | pure value => rfl
  | refuse error => rfl
  | read next ih => exact congrArg Txn.read (funext ih)
  | lock row next ih => exact congrArg (Txn.lock row) (funext ih)

theorem Txn.bind_assoc {γ : Type} (t : Txn κ δ ε α) (f : α → Txn κ δ ε β)
    (g : β → Txn κ δ ε γ) : (t.bind f).bind g = t.bind fun value => (f value).bind g := by
  induction t with
  | pure value => rfl
  | refuse error => rfl
  | read next ih => exact congrArg Txn.read (funext ih)
  | lock row next ih => exact congrArg (Txn.lock row) (funext ih)

instance Txn.instLawfulMonad : LawfulMonad (Txn κ δ ε) :=
  LawfulMonad.mk' (Txn κ δ ε) Txn.bind_pure (fun _ _ => rfl) Txn.bind_assoc

/-- A computation that needs no database. -/
def Txn.of : Except ε α → Txn κ δ ε α
  | .ok value => .pure value
  | .error error => .refuse error

/-- The result of a transaction that runs alone. -/
def Txn.alone : Txn κ δ ε α → δ → Except ε α
  | .pure value, _ => .ok value
  | .refuse error, _ => .error error
  | .read next, db => (next db).alone db
  | .lock _ next, db => (next db).alone db

@[simp] theorem Txn.alone_pure (value : α) (db : δ) :
    (Pure.pure value : Txn κ δ ε α).alone db = .ok value := rfl

@[simp] theorem Txn.alone_refuse (error : ε) (db : δ) :
    (Txn.refuse error : Txn κ δ ε α).alone db = .error error := rfl

@[simp] theorem Txn.alone_read (next : δ → Txn κ δ ε α) (db : δ) :
    (Txn.read next).alone db = (next db).alone db := rfl

@[simp] theorem Txn.alone_lock (row : κ) (next : δ → Txn κ δ ε α) (db : δ) :
    (Txn.lock row next).alone db = (next db).alone db := rfl

@[simp] theorem Txn.alone_of (x : Except ε α) (db : δ) :
    (Txn.of x : Txn κ δ ε α).alone db = x := by
  cases x <;> rfl

/-- Alone, a transaction after another one gets what the first one returns. -/
@[simp] theorem Txn.alone_bind (t : Txn κ δ ε α) (f : α → Txn κ δ ε β) (db : δ) :
    (t >>= f).alone db = t.alone db >>= fun value => (f value).alone db := by
  rw [Txn.bind_eq]
  induction t with
  | pure value => rfl
  | refuse error => rfl
  | read next ih => exact ih db
  | lock row next ih => exact ih db

/-- Alone, a loop of transactions is the loop of their results. -/
@[simp] theorem Txn.alone_mapM (f : α → Txn κ δ ε β) (l : List α) (db : δ) :
    (l.mapM f).alone db = l.mapM fun a => (f a).alone db := by
  induction l with
  | nil => rfl
  | cons a l ih =>
    simp only [List.mapM_cons, Txn.alone_bind, ih]
    rfl

/-- A transaction under way: what is left of it, and whether it waits. -/
structure Ongoing (κ δ ε : Type) where
  rest : Txn κ δ ε (δ → δ)
  waiting : Bool

/-- The row that a transaction under way waits for. -/
def Ongoing.wanted : Ongoing κ δ ε → Option κ
  | ⟨.lock row _, true⟩ => some row
  | _ => none

@[simp] theorem Ongoing.wanted_going (t : Txn κ δ ε (δ → δ)) :
    (Ongoing.mk t false).wanted = none := by
  cases t <;> rfl

@[simp] theorem Ongoing.wanted_waiting (row : κ) (next : δ → Txn κ δ ε (δ → δ)) :
    (Ongoing.mk (.lock row next) true).wanted = some row := rfl

/-- A database, the party that holds each row, and the transactions under way. -/
structure Traffic (π κ δ ε : Type) where
  db : δ
  holder : κ → Option π
  ongoing : π → Option (Ongoing κ δ ε)

/-- Nothing is under way. -/
def Traffic.idle (db : δ) : Traffic π κ δ ε := ⟨db, fun _ => none, fun _ => none⟩

/-- Who holds each row and which row each party waits for. -/
def Traffic.locks (s : Traffic π κ δ ε) : Locks π κ where
  holder := s.holder
  wanted p := (s.ongoing p).bind Ongoing.wanted

/-- What may happen: a party begins a call, executes its next statement, or is cut off. -/
inductive Move (π γ : Type) where
  | start (p : π) (call : γ)
  | advance (p : π)
  | abort (p : π)

variable [DecidableEq π] [DecidableEq κ]

/-- The transaction of a party goes on. -/
def Traffic.goesOn (s : Traffic π κ δ ε) (p : π) (next : Ongoing κ δ ε) : Traffic π κ δ ε :=
  { s with ongoing := Function.update s.ongoing p (some next) }

/-- The transaction of a party is over: its rows are released. -/
def Traffic.released (s : Traffic π κ δ ε) (p : π) : Traffic π κ δ ε :=
  { s with
    holder := fun row => if s.holder row = some p then none else s.holder row
    ongoing := Function.update s.ongoing p none }

/-- The next statement of a party's transaction. A row that does not exist is not locked, and
a row that another party holds is waited for. -/
def Traffic.executed (present : δ → κ → Bool) (s : Traffic π κ δ ε) (p : π) :
    Txn κ δ ε (δ → δ) → Traffic π κ δ ε
  | .pure write => { s.released p with db := write s.db }
  | .refuse _ => s.released p
  | .read next => s.goesOn p ⟨next s.db, false⟩
  | .lock row next =>
    if present s.db row then
      if s.holder row = none ∨ s.holder row = some p then
        { s.goesOn p ⟨next s.db, false⟩ with
          holder := Function.update s.holder row (some p) }
      else s.goesOn p ⟨.lock row next, true⟩
    else s.goesOn p ⟨next s.db, false⟩

section Locking

variable {present : δ → κ → Bool} {s : Traffic π κ δ ε} {row : κ}

end Locking

/-- One step of the traffic of calls to given programs. -/
def Traffic.step (program : γ → Txn κ δ ε (δ → δ)) (present : δ → κ → Bool)
    (s : Traffic π κ δ ε) : Move π γ → Option (Traffic π κ δ ε)
  | .start p call =>
    if (s.ongoing p).isNone then some (s.goesOn p ⟨program call, false⟩) else none
  | .advance p => (s.ongoing p).map fun o => s.executed present p o.rest
  | .abort p => (s.ongoing p).map fun _ => s.released p

section Runs

variable {program : γ → Txn κ δ ε (δ → δ)} {present : δ → κ → Bool} {before : κ → κ → Prop}

end Runs

end

/-!
## An answer that is waited for

A party locks rows and, still holding them, waits for the answer of another one, which locks rows
of its own before it answers. Where the two have a row in common, the answer never comes.
-/

section

variable {κ : Type}

inductive Side where
  | asker | answerer
  deriving DecidableEq, Repr

/-- How far the party that asks has come. -/
inductive Asker where
  | working | waiting | answered | failed
  deriving DecidableEq, Repr

/-- How far the party that answers has come. -/
inductive Answerer where
  | idle | working | finished | cancelled
  deriving DecidableEq, Repr

/-- The two parties, the rows that they still have to lock, and who holds each row. -/
structure Exchange (κ : Type) where
  asker : Asker
  askerRows : List κ
  answerer : Answerer
  answererRows : List κ
  holder : κ → Option Side

namespace Exchange

/-- What may happen. -/
inductive Event where
  | lock (side : Side)
  | ask
  /-- The answerer commits. -/
  | finish
  | cancel
  | answer
  /-- The asker waits no longer, or an error ends its work. -/
  | fail
  deriving DecidableEq, Repr

/-- Before the first row is locked. -/
def start (askerRows answererRows : List κ) : Exchange κ :=
  ⟨.working, askerRows, .idle, answererRows, fun _ => none⟩

/-- A party releases its rows. -/
def released (s : Exchange κ) (side : Side) : Exchange κ :=
  { s with holder := fun row => if s.holder row = some side then none else s.holder row }

variable [DecidableEq κ]

/-- One thing that happens. A row that the other party holds is not locked. -/
def step (s : Exchange κ) : Event → Option (Exchange κ)
  | .lock .asker =>
    match s.asker, s.askerRows with
    | .working, row :: rows =>
      if s.holder row = some .answerer then none
      else
        some { s with
          askerRows := rows
          holder := Function.update s.holder row (some .asker) }
    | _, _ => none
  | .lock .answerer =>
    match s.answerer, s.answererRows with
    | .working, row :: rows =>
      if s.holder row = some .asker then none
      else
        some { s with
          answererRows := rows
          holder := Function.update s.holder row (some .answerer) }
    | _, _ => none
  | .ask =>
    if s.asker = .working ∧ s.askerRows = [] then
      some { s with asker := .waiting, answerer := .working }
    else none
  | .finish =>
    if s.answerer = .working ∧ s.answererRows = [] then
      some { s.released .answerer with answerer := .finished }
    else none
  | .cancel =>
    if s.answerer = .working then some { s.released .answerer with answerer := .cancelled }
    else none
  | .answer =>
    if s.asker = .waiting ∧ s.answerer = .finished then some { s with asker := .answered }
    else none
  | .fail =>
    if s.asker = .working ∨ s.asker = .waiting then
      some { s.released .asker with asker := .failed }
    else none

/-- The asker is answered in some run. -/
def Answerable (askerRows answererRows : List κ) : Prop :=
  ∃ s, RunOf step anyEvent (start askerRows answererRows) s ∧ s.asker = .answered

/-- A row of both is the asker's until it fails, and the answerer has it still to lock. -/
def Kept (row : κ) (s : Exchange κ) : Prop :=
  match s.asker with
  | .working =>
    s.answerer = .idle ∧ row ∈ s.answererRows ∧
      (row ∈ s.askerRows ∨ s.holder row = some .asker)
  | .waiting => s.answerer ≠ .finished ∧ row ∈ s.answererRows ∧ s.holder row = some .asker
  | .answered => False
  | .failed => True

theorem kept_step {row : κ} {s s' : Exchange κ} {e : Event} (h : Kept row s)
    (hstep : s.step e = some s') : Kept row s' := by
  cases e with
  | lock side =>
    cases side with
    | asker =>
      rw [step] at hstep
      split at hstep
      · next first rows hasker hrows =>
        split_ifs at hstep with hheld
        cases hstep
        unfold Kept at h ⊢
        rw [hasker] at h ⊢
        obtain ⟨hidle, hmem, hrow⟩ := h
        refine ⟨hidle, hmem, ?_⟩
        rw [hrows, List.mem_cons] at hrow
        by_cases heq : row = first
        · exact .inr (by rw [heq]; exact Function.update_self ..)
        · refine (hrow.imp_left fun hrow => hrow.resolve_left heq).imp_right fun hrow => ?_
          exact (Function.update_of_ne heq ..).trans hrow
      · cases hstep
    | answerer =>
      rw [step] at hstep
      split at hstep
      · next first rows hanswerer hrows =>
        split_ifs at hstep with hheld
        cases hstep
        unfold Kept at h ⊢
        cases hasker : s.asker with
        | working =>
          rw [hasker] at h
          have hidle := h.1
          rw [hanswerer] at hidle
          cases hidle
        | waiting =>
          rw [hasker] at h
          obtain ⟨-, hmem, hrow⟩ := h
          have hne : row ≠ first := fun heq => hheld (heq ▸ hrow)
          rw [hrows, List.mem_cons] at hmem
          refine ⟨?_, hmem.resolve_left hne, ?_⟩
          · dsimp only
            rw [hanswerer]
            nofun
          · dsimp only
            rwa [Function.update_of_ne hne]
        | answered =>
          rw [hasker] at h
          exact h
        | failed => trivial
      · cases hstep
  | ask =>
    rw [step] at hstep
    split_ifs at hstep with hready
    cases hstep
    unfold Kept at h
    rw [hready.1, hready.2] at h
    obtain ⟨-, hmem, hrow⟩ := h
    exact ⟨nofun, hmem, hrow.resolve_left List.not_mem_nil⟩
  | finish =>
    rw [step] at hstep
    split_ifs at hstep with hready
    cases hstep
    unfold Kept at h ⊢
    dsimp only [released] at h ⊢
    cases hasker : s.asker with
    | working =>
      rw [hasker, hready.1] at h
      exact absurd h.1 nofun
    | waiting =>
      rw [hasker, hready.2] at h
      exact absurd h.2.1 List.not_mem_nil
    | answered =>
      rw [hasker] at h
      exact h
    | failed => trivial
  | cancel =>
    rw [step] at hstep
    split_ifs at hstep with hready
    cases hstep
    unfold Kept at h ⊢
    dsimp only [released] at h ⊢
    cases hasker : s.asker with
    | working =>
      rw [hasker, hready] at h
      exact absurd h.1 nofun
    | waiting =>
      rw [hasker] at h
      refine ⟨nofun, h.2.1, ?_⟩
      rw [h.2.2, if_neg nofun]
    | answered =>
      rw [hasker] at h
      exact h
    | failed => trivial
  | answer =>
    rw [step] at hstep
    split_ifs at hstep with hready
    unfold Kept at h
    rw [hready.1] at h
    exact absurd hready.2 h.1
  | fail =>
    rw [step] at hstep
    split_ifs at hstep with hready
    cases hstep
    trivial

/-- A row in common, and the answer never comes. -/
theorem not_answered {askerRows answererRows : List κ} {row : κ} (hasker : row ∈ askerRows)
    (hanswerer : row ∈ answererRows) {s : Exchange κ}
    (h : RunOf step anyEvent (start askerRows answererRows) s) : s.asker ≠ .answered := by
  have hkept : Kept row s := h.invariant (fun s e s' hs _ hstep => kept_step hs hstep)
    ⟨rfl, hanswerer, .inl hasker⟩
  intro hanswered
  unfold Kept at hkept
  rw [hanswered] at hkept
  exact hkept

/-- Where no row is in common, one run goes through: the asker locks its rows and asks, and the
answerer locks its own, commits and answers. -/
theorem run_asker (rows : List κ) {s : Exchange κ} (hworking : s.asker = .working)
    (hidle : s.answerer = .idle) (hrows : s.askerRows = rows)
    (hfree : ∀ row, s.holder row ≠ some .answerer) :
    ∃ s', RunOf step anyEvent s s' ∧ s'.asker = .waiting ∧ s'.answerer = .working ∧
      s'.answererRows = s.answererRows ∧
      ∀ row, s'.holder row = some .asker → s.holder row = some .asker ∨ row ∈ rows := by
  induction rows generalizing s with
  | nil =>
    have hstep : s.step .ask = some { s with asker := .waiting, answerer := .working } := by
      rw [step, if_pos ⟨hworking, hrows⟩]
    exact ⟨_, .single ⟨_, trivial, hstep⟩, rfl, rfl, rfl, fun _ h => .inl h⟩
  | cons row rows ih =>
    have hstep : s.step (.lock .asker) = some { s with
        askerRows := rows
        holder := Function.update s.holder row (some .asker) } := by
      rw [step, hworking, hrows]
      exact if_neg (hfree row)
    have hnext (r : κ) : Function.update s.holder row (some .asker) r ≠ some .answerer := by
      by_cases hr : r = row
      · rw [hr, Function.update_self]
        nofun
      · rw [Function.update_of_ne hr]
        exact hfree r
    obtain ⟨s', hrun, hwaiting, hanswerer, hanswererRows, hheld⟩ := ih (s := { s with
        askerRows := rows
        holder := Function.update s.holder row (some .asker) }) hworking hidle rfl hnext
    refine ⟨s', .head ⟨_, trivial, hstep⟩ hrun, hwaiting, hanswerer, hanswererRows, fun r hr => ?_⟩
    rcases hheld r hr with hold | hmem
    · by_cases heq : r = row
      · exact .inr (heq ▸ List.mem_cons_self ..)
      · exact .inl ((Function.update_of_ne heq ..).symm.trans hold)
    · exact .inr (List.mem_cons_of_mem _ hmem)

theorem run_answerer (rows : List κ) {s : Exchange κ} (hwaiting : s.asker = .waiting)
    (hworking : s.answerer = .working) (hrows : s.answererRows = rows)
    (hfree : ∀ row ∈ rows, s.holder row ≠ some .asker) :
    ∃ s', RunOf step anyEvent s s' ∧ s'.asker = .answered := by
  induction rows generalizing s with
  | nil =>
    have hfinish : s.step .finish = some { s.released .answerer with answerer := .finished } := by
      rw [step, if_pos ⟨hworking, hrows⟩]
    have hanswer : step { s.released .answerer with answerer := .finished } .answer =
        some { s.released .answerer with answerer := .finished, asker := .answered } := by
      rw [step, if_pos ⟨hwaiting, rfl⟩]
    exact ⟨_, .tail (.single ⟨_, trivial, hfinish⟩) ⟨_, trivial, hanswer⟩, rfl⟩
  | cons row rows ih =>
    rw [List.forall_mem_cons] at hfree
    have hstep : s.step (.lock .answerer) = some { s with
        answererRows := rows
        holder := Function.update s.holder row (some .answerer) } := by
      rw [step, hworking, hrows]
      exact if_neg hfree.1
    obtain ⟨s', hrun, hanswered⟩ := ih (s := { s with
        answererRows := rows
        holder := Function.update s.holder row (some .answerer) }) hwaiting hworking rfl
      (fun r hr => by
        dsimp only
        by_cases heq : r = row
        · rw [heq, Function.update_self]
          nofun
        · rw [Function.update_of_ne heq]
          exact hfree.2 r hr)
    exact ⟨s', .head ⟨_, trivial, hstep⟩ hrun, hanswered⟩

/-- The asker can be answered just when the two parties have no row in common. -/
theorem answerable_iff {askerRows answererRows : List κ} :
    Answerable askerRows answererRows ↔ ∀ row ∈ askerRows, row ∉ answererRows := by
  constructor
  · rintro ⟨s, hrun, hanswered⟩ row hasker hanswerer
    exact not_answered hasker hanswerer hrun hanswered
  · intro happart
    obtain ⟨s, hrun, hwaiting, hworking, hrows, hheld⟩ :=
      run_asker askerRows (s := start askerRows answererRows) rfl rfl rfl nofun
    obtain ⟨s', hrest, hanswered⟩ := run_answerer answererRows hwaiting hworking hrows
      fun row hrow hasker => (hheld row hasker).elim nofun fun hmem => happart row hmem hrow
    exact ⟨s', hrun.trans hrest, hanswered⟩

end Exchange

end

end Maeglagi.Core
