import Mathlib.Data.List.Count
import Mathlib.Tactic.SplitIfs

/-!
# Locks and semaphores of an event loop

`asyncio.Lock` and `asyncio.Semaphore`. A task that has to wait puts a future into the queue and
reads its outcome when it runs again, at some later moment: a permit that was handed over may
meanwhile be unwanted, since the task was cancelled.
-/

namespace Maeglagi.Core.Asyncio

variable {T : Type} [DecidableEq T]

/-- `asyncio.Future`, of which a waiter reads only whether and how it is done. -/
inductive Future where
  | pending | resolved | cancelled
  deriving DecidableEq

/-- A future in a queue, with the task that awaits it. -/
structure Waiter (T : Type) where
  task : T
  future : Future
  deriving DecidableEq

/-- A waiter whose future has its result. -/
def Waiter.isResolved (waiter : Waiter T) : Bool := decide (waiter.future = .resolved)

/-- The future that a task awaits. -/
def futureOf (waiters : List (Waiter T)) (task : T) : Option Future :=
  (waiters.find? fun waiter => decide (waiter.task = task)).map Waiter.future

/-- `self._waiters.remove(fut)` -/
def remove (waiters : List (Waiter T)) (task : T) : List (Waiter T) :=
  waiters.eraseP fun waiter => decide (waiter.task = task)

/-- `fut.cancel()`, which a future that is done ignores. -/
def cancel (waiters : List (Waiter T)) (task : T) : List (Waiter T) :=
  waiters.map fun waiter =>
    if waiter.task = task ∧ waiter.future = .pending then { waiter with future := .cancelled }
    else waiter

/-- All waiters were cancelled, so that none is in the way of a newcomer. -/
def allCancelled (waiters : List (Waiter T)) : Bool :=
  waiters.all fun waiter => decide (waiter.future = .cancelled)

/-- `asyncio.Lock` -/
structure Lock (T : Type) where
  locked : Bool
  waiters : List (Waiter T)
  deriving DecidableEq

namespace Lock

/-- `Lock()` -/
def new : Lock T := ⟨false, []⟩

/-- `_wake_up_first` -/
def wakeUpFirst (l : Lock T) : Lock T :=
  match l.waiters with
  | [] => l
  | first :: rest =>
    if first.future = .pending then
      { l with waiters := { first with future := .resolved } :: rest }
    else l

/-- The fast path of `acquire`. -/
def tryAcquire (l : Lock T) : Option (Lock T) :=
  if l.locked = false ∧ allCancelled l.waiters = true then some { l with locked := true } else none

/-- `acquire`, up to its `await`. -/
def enqueue (l : Lock T) (task : T) : Lock T :=
  { l with waiters := l.waiters ++ [⟨task, .pending⟩] }

/-- `acquire`, when the future has its result. -/
def resumed (l : Lock T) (task : T) : Lock T :=
  { l with locked := true, waiters := remove l.waiters task }

/-- `acquire`, when it is cancelled. -/
def thrown (l : Lock T) (task : T) : Lock T :=
  let rest := { l with waiters := remove l.waiters task }
  if l.locked then rest else rest.wakeUpFirst

/-- `release` -/
def release (l : Lock T) : Lock T := { l with locked := false }.wakeUpFirst

/-- A waiting task is cancelled. -/
def cancelled (l : Lock T) (task : T) : Lock T := { l with waiters := cancel l.waiters task }

end Lock

/-- `asyncio.Semaphore` -/
structure Semaphore (T : Type) where
  value : Int
  waiters : List (Waiter T)
  deriving DecidableEq

namespace Semaphore

/-- `Semaphore(value)` -/
def new (value : Int) : Semaphore T := ⟨value, []⟩

/-- The first waiter that is not done gets its result, if there is one. -/
def resolveFirst : List (Waiter T) → Option (List (Waiter T))
  | [] => none
  | waiter :: rest =>
    if waiter.future = .pending then some ({ waiter with future := .resolved } :: rest)
    else (resolveFirst rest).map (waiter :: ·)

/-- `_wake_up_next`, without a value where there was no one to wake up. -/
def wakeUpNext (s : Semaphore T) : Option (Semaphore T) :=
  (resolveFirst s.waiters).map fun waiters => ⟨s.value - 1, waiters⟩

/-- `while self._value > 0: if not self._wake_up_next(): break`, for so many rounds. -/
def wakeUp (s : Semaphore T) : Nat → Semaphore T
  | 0 => s
  | rounds + 1 =>
    if 0 < s.value then
      match s.wakeUpNext with
      | some next => next.wakeUp rounds
      | none => s
    else s

/-- The loop behind the wait; each round leaves one waiter less that is not done. -/
def wakeUpAll (s : Semaphore T) : Semaphore T := s.wakeUp (s.waiters.length + 1)

/-- The fast path of `acquire`, unless the semaphore is `locked()`. -/
def tryAcquire (s : Semaphore T) : Option (Semaphore T) :=
  if s.value = 0 ∨ allCancelled s.waiters = false then none
  else some { s with value := s.value - 1 }

/-- `acquire`, up to its `await`. -/
def enqueue (s : Semaphore T) (task : T) : Semaphore T :=
  { s with waiters := s.waiters ++ [⟨task, .pending⟩] }

/-- `acquire`, when the future has its result. -/
def resumed (s : Semaphore T) (task : T) : Semaphore T :=
  { s with waiters := remove s.waiters task }.wakeUpAll

/-- `acquire`, when it is cancelled; a permit that it got is returned. -/
def thrown (s : Semaphore T) (task : T) : Semaphore T :=
  { value := if futureOf s.waiters task = some .resolved then s.value + 1 else s.value
    waiters := remove s.waiters task : Semaphore T }.wakeUpAll

/-- `release` -/
def release (s : Semaphore T) : Semaphore T :=
  let returned := { s with value := s.value + 1 }
  returned.wakeUpNext.getD returned

/-- A waiting task is cancelled. -/
def cancelled (s : Semaphore T) (task : T) : Semaphore T :=
  { s with waiters := cancel s.waiters task }

end Semaphore

/-- How many waiters have been handed what they wait for, and have not run since. -/
def handed (waiters : List (Waiter T)) : Nat := waiters.countP Waiter.isResolved

omit [DecidableEq T] in
@[simp] theorem handed_concat_pending (waiters : List (Waiter T)) (task : T) :
    handed (waiters ++ [⟨task, .pending⟩]) = handed waiters := by
  simp [handed, Waiter.isResolved]

theorem futureOf_cons (waiter : Waiter T) (rest : List (Waiter T)) (task : T) :
    futureOf (waiter :: rest) task =
      if waiter.task = task then some waiter.future else futureOf rest task := by
  unfold futureOf
  split_ifs with h
  · simp [h]
  · simp [h]

theorem remove_cons (waiter : Waiter T) (rest : List (Waiter T)) (task : T) :
    remove (waiter :: rest) task =
      if waiter.task = task then rest else waiter :: remove rest task := by
  unfold remove
  split_ifs with h
  · simp [h]
  · simp [h]

/-- Who leaves the queue takes along what was handed over. -/
theorem handed_remove (waiters : List (Waiter T)) (task : T) :
    handed (remove waiters task) +
      (if futureOf waiters task = some .resolved then 1 else 0) = handed waiters := by
  induction waiters with
  | nil => simp [handed, remove, futureOf]
  | cons waiter rest ih =>
    rw [futureOf_cons, remove_cons]
    by_cases htask : waiter.task = task
    · simp [handed, htask, List.countP_cons, Waiter.isResolved]
    · rw [if_neg htask, if_neg htask]
      simp only [handed, List.countP_cons] at ih ⊢
      omega

@[simp] theorem handed_cancel (waiters : List (Waiter T)) (task : T) :
    handed (cancel waiters task) = handed waiters := by
  unfold handed cancel
  rw [List.countP_map]
  refine List.countP_congr fun waiter _ => ?_
  simp only [Function.comp_apply, Waiter.isResolved]
  split_ifs with h
  · simp [h.2]
  · rfl

omit [DecidableEq T] in
theorem handed_resolveFirst {waiters waiters' : List (Waiter T)}
    (h : Semaphore.resolveFirst waiters = some waiters') : handed waiters' = handed waiters + 1 := by
  induction waiters generalizing waiters' with
  | nil => cases h
  | cons waiter rest ih =>
    unfold Semaphore.resolveFirst at h
    split_ifs at h with hpending
    · obtain rfl := Option.some.inj h
      simp [handed, Waiter.isResolved, hpending]
    · rw [Option.map_eq_some_iff] at h
      obtain ⟨rest', hrest, rfl⟩ := h
      have := ih hrest
      simp only [handed, List.countP_cons] at this ⊢
      omega

namespace Semaphore

/-- The permits of a semaphore: those that are free, those handed to a waiter and those held. -/
structure Counts (s : Semaphore T) (permits held : Nat) : Prop where
  nonneg : 0 ≤ s.value
  total : s.value + handed s.waiters + held = permits

variable {s s' : Semaphore T} {permits held : Nat} {task : T}

omit [DecidableEq T] in
theorem Counts.held_le (h : s.Counts permits held) : held ≤ permits := by
  have := h.nonneg
  have := h.total
  omega

omit [DecidableEq T] in
theorem counts_new (permits : Nat) : (new permits : Semaphore T).Counts permits 0 where
  nonneg := Int.natCast_nonneg permits
  total := by simp [new, handed]

omit [DecidableEq T] in
theorem Counts.tryAcquire (h : s.Counts permits held) (hs : s.tryAcquire = some s') :
    s'.Counts permits (held + 1) := by
  have hnonneg := h.nonneg
  have htotal := h.total
  unfold Semaphore.tryAcquire at hs
  split_ifs at hs with hlocked
  obtain rfl := Option.some.inj hs
  rw [not_or] at hlocked
  refine ⟨?_, ?_⟩
  · dsimp only
    omega
  · push_cast
    omega

omit [DecidableEq T] in
theorem Counts.enqueue (h : s.Counts permits held) (task : T) :
    (s.enqueue task).Counts permits held :=
  ⟨h.nonneg, by simpa [Semaphore.enqueue] using h.total⟩

omit [DecidableEq T] in
/-- A permit that is free is handed to a waiter. -/
theorem Counts.wakeUpNext (h : s.Counts permits held) (hpositive : 0 < s.value)
    (hs : s.wakeUpNext = some s') : s'.Counts permits held := by
  have htotal := h.total
  unfold Semaphore.wakeUpNext at hs
  rw [Option.map_eq_some_iff] at hs
  obtain ⟨waiters, hwaiters, rfl⟩ := hs
  have := handed_resolveFirst hwaiters
  refine ⟨?_, ?_⟩
  · dsimp only
    omega
  · dsimp only
    omega

omit [DecidableEq T] in
theorem Counts.wakeUp (h : s.Counts permits held) (rounds : Nat) :
    (s.wakeUp rounds).Counts permits held := by
  induction rounds generalizing s with
  | zero => exact h
  | succ rounds ih =>
    unfold Semaphore.wakeUp
    split_ifs with hpositive
    · split
      · exact ih (h.wakeUpNext hpositive ‹_›)
      · exact h
    · exact h

theorem Counts.resumed (h : s.Counts permits held)
    (hfuture : futureOf s.waiters task = some .resolved) :
    (s.resumed task).Counts permits (held + 1) := by
  have htotal := h.total
  have hremove := handed_remove s.waiters task
  rw [if_pos hfuture] at hremove
  unfold Semaphore.resumed wakeUpAll
  apply Counts.wakeUp
  refine ⟨h.nonneg, ?_⟩
  push_cast
  omega

/-- A task that is cancelled returns what it was handed. -/
theorem Counts.thrown (h : s.Counts permits held) (task : T) :
    (s.thrown task).Counts permits held := by
  have hnonneg := h.nonneg
  have htotal := h.total
  have hremove := handed_remove s.waiters task
  unfold Semaphore.thrown wakeUpAll
  refine Counts.wakeUp ⟨?_, ?_⟩ _
  · dsimp only
    split_ifs
    · omega
    · omega
  · dsimp only
    split_ifs at hremove ⊢
    · omega
    · omega

omit [DecidableEq T] in
theorem Counts.release (h : s.Counts permits (held + 1)) : s.release.Counts permits held := by
  have hnonneg := h.nonneg
  have htotal := h.total
  have hreturned : ({ s with value := s.value + 1 } : Semaphore T).Counts permits held := by
    refine ⟨?_, ?_⟩
    · dsimp only
      omega
    · push_cast at htotal
      dsimp only
      omega
  unfold Semaphore.release
  dsimp only
  cases hnext : ({ s with value := s.value + 1 } : Semaphore T).wakeUpNext with
  | none => exact hreturned
  | some next =>
    refine hreturned.wakeUpNext ?_ hnext
    dsimp only
    omega

theorem Counts.cancelled (h : s.Counts permits held) (task : T) :
    (s.cancelled task).Counts permits held :=
  ⟨h.nonneg, by simpa [Semaphore.cancelled] using h.total⟩

end Semaphore

namespace Lock

/-- A lock is held by the one who locked it. Only the first waiter may have been handed it, and
it is free until that waiter runs. -/
structure Counts (l : Lock T) (held : Nat) : Prop where
  held : held = if l.locked then 1 else 0
  first : handed l.waiters.tail = 0
  free : 0 < handed l.waiters → l.locked = false

variable {l l' : Lock T} {held : Nat} {task : T}

omit [DecidableEq T] in
theorem Counts.held_le (h : l.Counts held) : held ≤ 1 := by
  rw [h.held]
  split_ifs
  · exact Nat.le_refl 1
  · exact Nat.zero_le 1

omit [DecidableEq T] in
theorem counts_new : (new : Lock T).Counts 0 := ⟨rfl, rfl, fun _ => rfl⟩

omit [DecidableEq T] in
theorem handed_of_allCancelled {waiters : List (Waiter T)} (h : allCancelled waiters = true) :
    handed waiters = 0 := by
  unfold handed
  rw [List.countP_eq_zero]
  intro waiter hmem
  have := List.all_eq_true.mp h waiter hmem
  simp only [decide_eq_true_eq] at this
  simp [Waiter.isResolved, this]

omit [DecidableEq T] in
/-- A newcomer takes a lock that is neither held nor handed over. -/
theorem Counts.tryAcquire (h : l.Counts held) (hl : l.tryAcquire = some l') :
    l'.Counts (held + 1) := by
  unfold Lock.tryAcquire at hl
  split_ifs at hl with hfree
  obtain rfl := Option.some.inj hl
  have hnone := handed_of_allCancelled hfree.2
  have hheld := h.held
  rw [hfree.1] at hheld
  refine ⟨by simp [hheld], h.first, fun hpositive => ?_⟩
  dsimp only at hpositive
  omega

omit [DecidableEq T] in
theorem Counts.enqueue (h : l.Counts held) (task : T) : (l.enqueue task).Counts held := by
  refine ⟨h.held, ?_, fun hpositive => h.free ?_⟩
  · have hfirst := h.first
    cases hwaiters : l.waiters with
    | nil => simp [Lock.enqueue, hwaiters, handed]
    | cons first rest =>
      rw [hwaiters] at hfirst
      simpa [Lock.enqueue, hwaiters] using hfirst
  · simpa [Lock.enqueue] using hpositive

theorem tail_remove (waiters : List (Waiter T)) (task : T) :
    (remove waiters task).tail.Sublist waiters.tail := by
  cases waiters with
  | nil => simp [remove]
  | cons first rest =>
    unfold remove
    rw [List.eraseP_cons]
    cases decide (first.task = task) with
    | true => exact List.tail_sublist rest
    | false => exact List.eraseP_sublist

/-- The queue without a waiter has nobody handed the lock behind its first. -/
theorem Counts.first_remove (h : l.Counts held) (task : T) :
    handed (remove l.waiters task).tail = 0 := by
  have hle := (tail_remove l.waiters task).countP_le (p := Waiter.isResolved)
  have hfirst := h.first
  unfold handed at hfirst ⊢
  omega

omit [DecidableEq T] in
theorem Counts.handed_le (h : l.Counts held) : handed l.waiters ≤ 1 := by
  have hfirst := h.first
  cases hwaiters : l.waiters with
  | nil => simp [handed]
  | cons first rest =>
    rw [hwaiters] at hfirst
    simp only [List.tail_cons, handed] at hfirst
    simp only [handed, List.countP_cons, hfirst]
    split_ifs
    · exact Nat.le_refl 1
    · exact Nat.zero_le 1

omit [DecidableEq T] in
/-- Waking up the first waiter hands over a lock that is free. -/
theorem Counts.wakeUpFirst (h : l.Counts 0) (hfree : l.locked = false) :
    l.wakeUpFirst.Counts 0 := by
  have hfirst := h.first
  unfold Lock.wakeUpFirst
  split
  · exact h
  · rename_i first rest hwaiters
    split_ifs with hpending
    · rw [hwaiters] at hfirst
      exact ⟨by simp [hfree], hfirst, fun _ => hfree⟩
    · exact h

theorem Counts.resumed (h : l.Counts held) (hfuture : futureOf l.waiters task = some .resolved) :
    (l.resumed task).Counts (held + 1) := by
  have hle := h.handed_le
  have hremove := handed_remove l.waiters task
  rw [if_pos hfuture] at hremove
  have hfree := h.free (by omega)
  have hheld := h.held
  rw [hfree] at hheld
  refine ⟨by simp [Lock.resumed, hheld], h.first_remove task, fun hpositive => ?_⟩
  simp only [Lock.resumed] at hpositive
  omega

/-- A task that is cancelled leaves the queue and, if the lock is free, hands it on. -/
theorem Counts.thrown (h : l.Counts held) (task : T) : (l.thrown task).Counts held := by
  have hremove := handed_remove l.waiters task
  have hrest : ({ l with waiters := remove l.waiters task } : Lock T).Counts held := by
    refine ⟨h.held, h.first_remove task, fun hpositive => h.free ?_⟩
    dsimp only at hpositive
    omega
  unfold Lock.thrown
  dsimp only
  split_ifs with hlocked
  · exact hrest
  · have hfree : l.locked = false := by simpa using hlocked
    have hheld := h.held
    rw [hfree] at hheld
    obtain rfl : held = 0 := hheld
    exact hrest.wakeUpFirst hfree

omit [DecidableEq T] in
theorem Counts.release (h : l.Counts (held + 1)) : l.release.Counts held := by
  have hheld := h.held
  split_ifs at hheld with hlocked
  · obtain rfl : held = 0 := by omega
    refine Counts.wakeUpFirst ⟨rfl, h.first, fun _ => rfl⟩ rfl

theorem Counts.cancelled (h : l.Counts held) (task : T) : (l.cancelled task).Counts held := by
  refine ⟨h.held, ?_, fun hpositive => h.free ?_⟩
  · have hfirst := h.first
    simp only [Lock.cancelled, cancel, ← List.map_tail]
    exact (handed_cancel l.waiters.tail task).trans hfirst
  · simpa [Lock.cancelled] using hpositive

end Lock

end Maeglagi.Core.Asyncio
