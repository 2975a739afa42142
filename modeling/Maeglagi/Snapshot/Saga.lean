import Mathlib.Data.List.Basic

/-!
# Restoring a snapshot into three stores

`restore_snapshot` writes objects, a graph and rows, and takes back what it wrote when a call
raises. A schedule says how each call ends; a call that raises may have taken effect. The
commit of the rows may even take effect later, but not while the reservation of the same key
holds.
-/

namespace Maeglagi.Snapshot

variable {Id : Type} [DecidableEq Id]

/-- How a call ends. -/
inductive Reply where
  | ok
  | raised (effect : Bool)
  deriving DecidableEq, Repr

/-- How `storage.write` ends; `transport` tells `httpx.TransportError` from other exceptions. -/
inductive Upload where
  | ok
  | raised (transport effect : Bool)
  deriving DecidableEq, Repr

/-- How the commit of the rows ends. When it raises, the row is visible from the given check
on (`0` the first verification, `1` the reservation, `2` the second verification), or never. -/
inductive Commit where
  | ok
  | raised (lands : Option Nat)
  deriving DecidableEq, Repr

/-- The call took effect. -/
def Reply.effective : Reply → Bool
  | .ok => true
  | .raised effect => effect

def Upload.effective : Upload → Bool
  | .ok => true
  | .raised _ effect => effect

/-- The path of the object is noted. -/
def Upload.noted : Upload → Bool
  | .ok => true
  | .raised transport _ => transport

/-- How each call of a restore ends. A `Bool` call returns or raises, with the work before it;
an `Option Bool` call gives an answer or raises. -/
structure Schedule (Id : Type) where
  targetExists : Option Bool
  reserveRow : Bool
  graphIsEmpty : Option Bool
  upload : Id → Upload
  graphStatements : Bool
  graphCommit : Reply
  rows : Bool
  inTime : Bool
  commit : Commit
  late : Bool
  rollback : Bool
  verify : Bool
  reserveAbsent : Bool
  deleteGraph : Reply
  delete : Id → Reply
  release : Bool
  verifyAgain : Bool
  finalRollback : Bool

/-- What a restore raises. -/
inductive Raised where
  | targetExists
  | original
  | database
  | commitUncertain
  | residualCleanup (errors : List String)
  | dataPreserved
  deriving DecidableEq, Repr

inductive Outcome where
  | returned
  | raised (e : Raised)
  deriving DecidableEq, Repr

/-- What this attempt has in the stores, and its local variables. The last field notes, for
each cleanup, whether the target row was committed. -/
structure Attempt (Id : Type) where
  objects : List Id
  graph : Bool
  paths : List Id
  graphCreated : Bool
  cleanups : List Bool
  deriving DecidableEq, Repr

def Attempt.start : Attempt Id := ⟨[], false, [], false, []⟩

namespace Attempt

/-- The uploads; without a result when one raises. -/
def upload (sched : Schedule Id) (a : Attempt Id) : List Id → Attempt Id × Bool
  | [] => (a, true)
  | s :: rest =>
    let reply := sched.upload s
    let a := { a with
      objects := if reply.effective then a.objects ++ [s] else a.objects
      paths := if reply.noted then a.paths ++ [s] else a.paths }
    if reply = .ok then upload sched a rest else (a, false)

/-- The `try` block up to the commit; without a result when a call raises. -/
def body (sched : Schedule Id) (sources : List Id) : Attempt Id × Bool :=
  if sched.reserveRow then
    if sched.graphIsEmpty = some true then
      let (a, uploaded) := Attempt.start.upload sched sources
      if uploaded then
        -- the transaction of a statement that raises is rolled back
        if sched.graphStatements then
          let a := { a with graphCreated := true, graph := sched.graphCommit.effective }
          (a, decide (sched.graphCommit = .ok) && sched.rows && sched.inTime)
        else (a, false)
      else (a, false)
    else (.start, false)
  else (.start, false)

/-- `_cleanup_created_state`, while the target row is committed or not. -/
def cleanup (sched : Schedule Id) (a : Attempt Id) (rowCommitted : Bool) :
    Attempt Id × List String :=
  let graphErrors := if a.graphCreated && decide (sched.deleteGraph ≠ .ok) then ["graph"] else []
  let objectErrors := (a.paths.filter fun p => decide (sched.delete p ≠ .ok)).map fun _ => "object"
  ({ a with
      graph := a.graph && !(a.graphCreated && sched.deleteGraph.effective)
      objects := a.objects.filter fun o => !(decide (o ∈ a.paths) && (sched.delete o).effective)
      cleanups := a.cleanups ++ [rowCommitted] },
    graphErrors ++ objectErrors)

/-- What is raised after a cleanup, unless the rollback that follows it raises. -/
def reported (errors : List String) (rolledBack : Bool) : Outcome :=
  if rolledBack then
    if errors = [] then .raised .original else .raised (.residualCleanup errors)
  else .raised .database

/-- The target row is visible to a check. -/
def visible (lands : Option Nat) (check : Nat) : Bool := lands.any fun k => decide (k ≤ check)

/-- The handler after a commit that raised. -/
def recover (sched : Schedule Id) (a : Attempt Id) (lands : Option Nat) : Attempt Id × Outcome :=
  if !sched.rollback then (a, .raised .commitUncertain)
  else if !sched.verify then (a, .raised .commitUncertain)
  else if visible lands 0 then (a, .returned)
  -- the key stays taken until the transaction that inserts it ends without it
  else if sched.reserveAbsent && lands.isNone then
    let (cleaned, errors) := a.cleanup sched (visible lands 1)
    (cleaned, reported errors sched.release)
  else if sched.verifyAgain && visible lands 2 then (a, .returned)
  else (a, .raised .commitUncertain)

end Attempt

/-- `restore_snapshot`: what is left of the attempt, and how it ends. -/
def restoreSnapshot (sched : Schedule Id) (sources : List Id) : Attempt Id × Outcome :=
  match sched.targetExists with
  | none => (.start, .raised .original)
  | some true => (.start, .raised .targetExists)
  | some false =>
    let (a, reached) := Attempt.body sched sources
    if reached then
      match sched.commit with
      | .ok => (a, if sched.late then .raised .dataPreserved else .returned)
      | .raised lands => a.recover sched lands
    else
      let (cleaned, errors) := a.cleanup sched false
      (cleaned, Attempt.reported errors sched.finalRollback)

/-- The exception says that something may be left. -/
def Raised.reports : Raised → Bool
  | .commitUncertain | .residualCleanup _ | .dataPreserved => true
  | _ => false

/-- When an exception does not say that something may be left, nothing is. -/
def Honest (result : Attempt Id × Outcome) : Prop :=
  ∀ e, result.2 = .raised e → e.reports = false → result.1.graph = false ∧ result.1.objects = []

namespace Schedule
variable (sched : Schedule Id) (sources : List Id)

/-- The source whose upload raises. -/
def raising : Option Id := sources.find? fun s => decide (sched.upload s ≠ .ok)

/-- The sources uploaded before it. -/
def uploaded : List Id := sources.takeWhile fun s => decide (sched.upload s = .ok)

/-- The restore gets to the uploads. -/
def uploads : Bool :=
  decide (sched.targetExists = some false) && sched.reserveRow &&
    decide (sched.graphIsEmpty = some true)

/-- The restore gets to the commit of the graph. -/
def reachesGraph : Bool := sched.uploads && (sched.raising sources).isNone && sched.graphStatements

/-- The restore gets to the commit of the rows. -/
def reachesCommit : Bool :=
  sched.reachesGraph sources && decide (sched.graphCommit = .ok) && sched.rows && sched.inTime

/-- An upload raises something else than a transport error, although the object is stored. -/
def Unnoted : Prop :=
  sched.uploads = true ∧ ∃ s, sched.raising sources = some s ∧
    sched.upload s = .raised false true

/-- The paths that are noted. -/
def noted : List Id :=
  sched.uploaded sources ++ ((sched.raising sources).filter fun s => (sched.upload s).noted).toList

/-- The objects that are stored. -/
def stored : List Id :=
  sched.uploaded sources ++
    ((sched.raising sources).filter fun s => (sched.upload s).effective).toList

/-- A deletion raises. -/
def DeletionRaises : Prop :=
  sched.uploads = true ∧ ((∃ p ∈ sched.noted sources, sched.delete p ≠ .ok) ∨
    sched.reachesGraph sources = true ∧ sched.deleteGraph ≠ .ok)

/-- A deletion raises and does not delete what is there. -/
def Undeleted : Prop :=
  sched.uploads = true ∧
    ((∃ p ∈ sched.noted sources, p ∈ sched.stored sources ∧ sched.delete p = .raised false) ∨
      sched.reachesGraph sources = true ∧ sched.graphCommit.effective = true ∧
        sched.deleteGraph = .raised false)

/-- The cleanup runs: a call before the commit raises, or the commit raises, does not take
effect, and each check of that succeeds. -/
def CleansUp : Prop :=
  sched.targetExists = some false ∧ (sched.reachesCommit sources = false ∨
    sched.commit = .raised none ∧ sched.rollback = true ∧ sched.verify = true ∧
      sched.reserveAbsent = true)

/-- The rollback after the cleanup raises. -/
def RollbackRaises : Prop :=
  if sched.reachesCommit sources then sched.release = false else sched.finalRollback = false

/-- Something stays and the exception does not say so. -/
def Silent : Prop :=
  sched.CleansUp sources ∧
    (sched.Unnoted sources ∧ ¬ sched.DeletionRaises sources ∨
      sched.RollbackRaises sources ∧ (sched.Unnoted sources ∨ sched.Undeleted sources))

end Schedule

end Maeglagi.Snapshot
