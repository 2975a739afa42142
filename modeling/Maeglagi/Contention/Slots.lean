import Mathlib.Logic.Function.Basic
import Maeglagi.Core.Asyncio
import Maeglagi.Core.Machine

/-!
# The slots of the analyses

`_analysis_slot` on one event loop: a gate for each workspace that is used, and a capacity that
all of them share. The gates are objects of their own, so that an entry that was dropped and made
again is another gate.
-/

namespace Maeglagi.Contention

open Core Core.Asyncio

variable {W : Type} [DecidableEq W]

/-- `_WorkspaceGate` -/
structure WorkspaceGate where
  lock : Lock Nat
  users : Int

/-- `_LocalGates` -/
structure LocalGates (W : Type) where
  capacity : Semaphore Nat
  workspaces : W → Option Nat
  users : Int

/-- How far an activation of `_analysis_slot` is. At `waitsLock` and `waitsCapacity` it is
suspended, and told whether the task was cancelled after its future was done. -/
inductive Progress where
  | registered
  | waitsLock (mustCancel : Bool)
  | locked
  | waitsCapacity (mustCancel : Bool)
  | inside
  | left
  deriving DecidableEq

/-- An activation of `_analysis_slot`, with the gates it has references to. -/
structure Activation (W : Type) where
  workspace : W
  gates : Nat
  gate : Nat
  progress : Progress

/-- The entry of the loop in `_local_gates`, the gates made so far and the activations, each
named by its place. -/
structure Slots (W : Type) where
  entry : Option Nat
  localGates : Nat → LocalGates W
  madeLocal : Nat
  gates : Nat → WorkspaceGate
  madeGates : Nat
  activations : List (Activation W)

/-- What happens on the loop. -/
inductive SlotEvent (W : Type) where
  /-- A task calls `_analysis_slot` and runs until it has to wait or is inside. -/
  | enter (workspace : W)
  /-- A task whose future has its result runs again. -/
  | resume (i : Nat)
  /-- A task that waits is cancelled. -/
  | cancel (i : Nat)
  /-- A task that was cancelled runs again, with a `CancelledError`. -/
  | throw (i : Nat)
  /-- The body ends, whether with an exception or without. -/
  | leave (i : Nat)

namespace Slots

/-- `_LocalGates()` -/
def newLocalGates : LocalGates W := ⟨.new 4, fun _ => none, 0⟩

/-- `_WorkspaceGate()` -/
def newGate : WorkspaceGate := ⟨.new, 0⟩

/-- No loop has run yet. -/
def start : Slots W where
  entry := none
  localGates := fun _ => newLocalGates
  madeLocal := 0
  gates := fun _ => newGate
  madeGates := 0
  activations := []

/-- An activation gets on. -/
def setProgress (s : Slots W) (i : Nat) (a : Activation W) (progress : Progress) : Slots W :=
  { s with activations := s.activations.set i { a with progress := progress } }

/-- The lock of the activation's gate changes, and how far the activation is. -/
def setLock (s : Slots W) (i : Nat) (a : Activation W) (lock : Lock Nat) (progress : Progress) :
    Slots W :=
  { s with
    gates := Function.update s.gates a.gate { s.gates a.gate with lock := lock }
    activations := s.activations.set i { a with progress := progress } }

/-- The capacity of the activation's gates changes, and how far the activation is. -/
def setCapacity (s : Slots W) (i : Nat) (a : Activation W) (capacity : Semaphore Nat)
    (progress : Progress) : Slots W :=
  { s with
    localGates :=
      Function.update s.localGates a.gates { s.localGates a.gates with capacity := capacity }
    activations := s.activations.set i { a with progress := progress } }

/-- `_local_gates.setdefault(loop, _LocalGates())` -/
def openLocal (s : Slots W) : Nat × Slots W :=
  match s.entry with
  | some g => (g, s)
  | none =>
    (s.madeLocal,
      { s with
        entry := some s.madeLocal
        localGates := Function.update s.localGates s.madeLocal newLocalGates
        madeLocal := s.madeLocal + 1 })

/-- `gates.workspaces.setdefault(workspace_id, _WorkspaceGate())` -/
def openGate (s : Slots W) (g : Nat) (w : W) : Nat × Slots W :=
  match (s.localGates g).workspaces w with
  | some k => (k, s)
  | none =>
    (s.madeGates,
      { s with
        localGates := Function.update s.localGates g
          { s.localGates g with
            workspaces := Function.update (s.localGates g).workspaces w (some s.madeGates) }
        gates := Function.update s.gates s.madeGates newGate
        madeGates := s.madeGates + 1 })

/-- `gates.users += 1` -/
def countLocal (s : Slots W) (g : Nat) : Slots W :=
  { s with
    localGates := Function.update s.localGates g
      { s.localGates g with users := (s.localGates g).users + 1 } }

/-- `workspace_gate.users += 1`, and the activation is one that counts. -/
def join (s : Slots W) (w : W) (g k : Nat) : Slots W :=
  { s with
    gates := Function.update s.gates k { s.gates k with users := (s.gates k).users + 1 }
    activations := s.activations ++ [⟨w, g, k, .registered⟩] }

/-- The part before the `try`. -/
def register (s : Slots W) (w : W) : Slots W :=
  let opened := s.openLocal
  let gated := (opened.2.countLocal opened.1).openGate opened.1 w
  gated.2.join w opened.1 gated.1

/-- `gates.capacity` is entered. -/
def acquireCapacity (s : Slots W) (i : Nat) (a : Activation W) : Slots W :=
  match (s.localGates a.gates).capacity.tryAcquire with
  | some capacity => s.setCapacity i a capacity .inside
  | none =>
    s.setCapacity i a ((s.localGates a.gates).capacity.enqueue i) (.waitsCapacity false)

/-- `workspace_gate.lock` is entered, and `gates.capacity` behind it. -/
def acquireLock (s : Slots W) (i : Nat) (a : Activation W) : Slots W :=
  match (s.gates a.gate).lock.tryAcquire with
  | some lock => (s.setLock i a lock .locked).acquireCapacity i { a with progress := .locked }
  | none => s.setLock i a ((s.gates a.gate).lock.enqueue i) (.waitsLock false)

/-- The `finally`. -/
def unregister (s : Slots W) (i : Nat) (a : Activation W) : Slots W :=
  let gateUsers := (s.gates a.gate).users - 1
  let own := s.localGates a.gates
  let users := own.users - 1
  { s with
    gates := Function.update s.gates a.gate { s.gates a.gate with users := gateUsers }
    localGates := Function.update s.localGates a.gates
      { own with
        workspaces :=
          if gateUsers = 0 then Function.update own.workspaces a.workspace none
          else own.workspaces
        users := users }
    entry := if users = 0 then none else s.entry
    activations := s.activations.set i { a with progress := .left } }

/-- The lock is left, and then the slot. -/
def releaseLock (s : Slots W) (i : Nat) (a : Activation W) : Slots W :=
  (s.setLock i a (s.gates a.gate).lock.release .registered).unregister i
    { a with progress := .registered }

/-- One thing that happens on the loop. -/
def step (s : Slots W) : SlotEvent W → Option (Slots W)
  | .enter w =>
    let registered := s.register w
    match registered.activations[s.activations.length]? with
    | some a => some (registered.acquireLock s.activations.length a)
    | none => none
  | .resume i =>
    match s.activations[i]? with
    | none => none
    | some a =>
      let lock := (s.gates a.gate).lock
      let capacity := (s.localGates a.gates).capacity
      if a.progress = .waitsLock false ∧ futureOf lock.waiters i = some .resolved then
        some ((s.setLock i a (lock.resumed i) .locked).acquireCapacity i
          { a with progress := .locked })
      else if a.progress = .waitsCapacity false ∧
          futureOf capacity.waiters i = some .resolved then
        some (s.setCapacity i a (capacity.resumed i) .inside)
      else none
  | .cancel i =>
    match s.activations[i]? with
    | none => none
    | some a =>
      let lock := (s.gates a.gate).lock
      let capacity := (s.localGates a.gates).capacity
      match a.progress with
      | .waitsLock mustCancel =>
        -- A future that is done cannot be cancelled; the task is told so instead.
        some (s.setLock i a (lock.cancelled i)
          (.waitsLock (mustCancel || decide (futureOf lock.waiters i ≠ some .pending))))
      | .waitsCapacity mustCancel =>
        some (s.setCapacity i a (capacity.cancelled i)
          (.waitsCapacity (mustCancel || decide (futureOf capacity.waiters i ≠ some .pending))))
      | _ => none
  | .throw i =>
    match s.activations[i]? with
    | none => none
    | some a =>
      let lock := (s.gates a.gate).lock
      let capacity := (s.localGates a.gates).capacity
      match a.progress with
      | .waitsLock mustCancel =>
        if mustCancel = true ∨ futureOf lock.waiters i = some .cancelled then
          some ((s.setLock i a (lock.thrown i) .registered).unregister i
            { a with progress := .registered })
        else none
      | .waitsCapacity mustCancel =>
        if mustCancel = true ∨ futureOf capacity.waiters i = some .cancelled then
          some ((s.setCapacity i a (capacity.thrown i) .locked).releaseLock i
            { a with progress := .locked })
        else none
      | _ => none
  | .leave i =>
    match s.activations[i]? with
    | none => none
    | some a =>
      if a.progress = .inside then
        some ((s.setCapacity i a (s.localGates a.gates).capacity.release .locked).releaseLock i
          { a with progress := .locked })
      else none

end Slots

end Maeglagi.Contention
