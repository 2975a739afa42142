import Maeglagi.Context.Updater
import Maeglagi.Core.Transactions
import Maeglagi.Sources.System

/-!
# The sources of one workspace

The lives of all sources of a workspace side by side, with the advisory locks that their
attempts take, the sessions in which the attempts read the Context Store, and its record. A
read of the record, the answer of the language model and the commit are steps of their own.
-/

namespace Maeglagi.Context

open Core Jobs

variable {Id H : Type} [DecidableEq Id] [DecidableEq H]

/-- What the attempts in one workspace work with; `leading` reads the first eight bytes of an
id as a big-endian number. -/
structure Site (Id H : Type) where
  env : Env Id H
  workspaceId : Id
  leading : Id → Nat

/-- The keys of the two advisory locks of an attempt, in the order they are taken. -/
structure LockKeys where
  source : Int
  workspace : Int

/-- The keys that `_source_execution_lock` takes. -/
def sourceExecutionLock (site : Site Id H) (sourceId : Id) : LockKeys where
  source := ((site.leading sourceId &&& (1 <<< 63 - 1) : Nat) : Int)
  workspace := ((site.leading site.workspaceId &&& (1 <<< 63 - 1) : Nat) : Int) - 1 <<< 63

/-- `_key` -/
def key (site : Site Id H) (identifier : Id) : Int :=
  ((site.leading identifier &&& (1 <<< 63 - 1) : Nat) : Int)

/-- The keys that `analysis_lock` takes. -/
def analysisLock (site : Site Id H) (sourceId : Id) : LockKeys where
  source := key site sourceId
  workspace := key site site.workspaceId - 1 <<< 63

/-- The keys that an attempt on a source takes: on behalf of the server or of an agent. -/
def lockKeys (site : Site Id H) (sourceId : Id) : AnalysisMode → LockKeys
  | .server => sourceExecutionLock site sourceId
  | .agent => analysisLock site sourceId

/-- On whose behalf an attempt is made. -/
def mode : Sources.Active Id H → AnalysisMode
  | .entering _ => .server
  | .opening _ => .agent
  | .working analyst _ _ => analyst.mode

/-- What the session of an attempt holds of the Context Store: the object of the identity map,
which outlives a commit, and what the last load of this transaction gave. -/
structure Session (Id : Type) where
  cached : Option (ContextStoreRecord Id)
  view : Option (Option (ContextStoreRecord Id))
  deriving DecidableEq

/-- A session that has read nothing. -/
def Session.fresh : Session Id := ⟨none, none⟩

/-- A workspace: its sources, the source whose attempt holds each advisory lock, the sessions
of the attempts, the committed record of the Context Store, the attempt that locked its row,
and the applications committed so far. Every id stands for a source; one that is uploaded
later takes no step before. -/
structure State (Id H : Type) where
  sources : Id → Sources.State Id H
  locks : Int → Option Id
  sessions : Id → Session Id
  store : Option (ContextStoreRecord Id)
  rowLock : Option Id
  applications : List (Application Id)

/-- What may happen in a workspace. -/
inductive Event (Id H : Type) where
  | source (sourceId : Id) (event : Sources.Event Id H)
  | lockWorkspace (sourceId : Id)
  | load (sourceId : Id) (kept : Bool)
  | apply (sourceId : Id) (subject : Text) (output : ContextUpdateOutput) (now : Instant)

/-- One source goes on. -/
def State.put (s : State Id H) (sourceId : Id) (next : Sources.State Id H) : State Id H :=
  { s with sources := Function.update s.sources sourceId next }

/-- The transaction of an attempt ends: the row lock is released. -/
def State.committed (s : State Id H) (sourceId : Id) : State Id H :=
  { s with
    sessions := Function.update s.sessions sourceId { s.sessions sourceId with view := none }
    rowLock := if s.rowLock = some sourceId then none else s.rowLock }

/-- The attempt on a source ends: its locks are released and its session is closed. -/
def State.released (s : State Id H) (sourceId : Id) : State Id H :=
  { s with
    locks := fun k => if s.locks k = some sourceId then none else s.locks k
    sessions := Function.update s.sessions sourceId .fresh
    rowLock := if s.rowLock = some sourceId then none else s.rowLock }

/-- The attempt on a source holds the lock of the workspace. -/
def State.admitted (site : Site Id H) (s : State Id H) (sourceId : Id) : Bool :=
  (s.sources sourceId).active.any fun active =>
    decide (s.locks (lockKeys site sourceId (mode active)).workspace = some sourceId)

/-- The decisions that an event reads from the Context Store, if it reads any. -/
def consulted (source : Sources.State Id H) : Sources.Event Id H → Option (List Text)
  | .receive _ known => if source.source.analysisCheckpoint = none then some known else none
  | .act (.extract _ known) => some known
  | .act (.dispatch provider known) =>
    match source.active with
    | some (.working _ session _) =>
      if provider = true ∧ session.analysisCheckpoint.any (fun c => decide (c.phase = .extracted))
      then some known else none
    | _ => none
  | _ => none

/-- An event of a source may happen now: past its first lock an attempt goes on only under the
lock of the workspace, with the decisions it has loaded. -/
def State.permits (site : Site Id H) (s : State Id H) (sourceId : Id)
    (event : Sources.Event Id H) : Bool :=
  match event with
  | .act (.merge _) => false
  | .enter | .fail _ => s.admitted site sourceId
  | .receive .. | .act _ => s.admitted site sourceId &&
    (consulted (s.sources sourceId) event).all fun known =>
      decide ((s.sessions sourceId).view.map currentDecisions = some known)
  | _ => true

/-- The analysis goes on in the transaction that compared the decisions. -/
def staysOpen (next : Sources.State Id H) : Sources.Event Id H → Bool
  | .act (.dispatch ..) =>
    match next.active with
    | some (.working _ _ (.merging false)) => true
    | _ => false
  | _ => false

/-- What an event of a source leaves of the transaction of its attempt. -/
def State.closed (s : State Id H) (sourceId : Id) (next : Sources.State Id H)
    (event : Sources.Event Id H) : State Id H :=
  match event with
  | .enter | .receive .. | .act _ =>
    if staysOpen next event then
      { s with
        sessions := Function.update s.sessions sourceId { s.sessions sourceId with view := none } }
    else s.committed sourceId
  | _ => s

/-- A source goes on after an event. An attempt that begins takes the lock of its source; one
that ends releases its locks. -/
def State.settled (site : Site Id H) (s : State Id H) (sourceId : Id)
    (event : Sources.Event Id H) (next : Sources.State Id H) : Option (State Id H) :=
  match (s.sources sourceId).active, next.active with
  | none, none => some (s.put sourceId next)
  | none, some active =>
    let taken := (lockKeys site sourceId (mode active)).source
    if s.locks taken = none then
      some { s.put sourceId next with
        locks := Function.update s.locks taken (some sourceId)
        sessions := Function.update s.sessions sourceId .fresh }
    else none
  | some _, none => some ((s.put sourceId next).released sourceId)
  | some _, some _ => some ((s.put sourceId next).closed sourceId next event)

/-- `SqlContextStoreRepository.load`, FOR UPDATE: an object that the identity map has kept is
returned as it was loaded. -/
def State.loaded (s : State Id H) (sourceId : Id) (kept : Bool) : State Id H :=
  match s.store with
  | none =>
    { s with
      sessions := Function.update s.sessions sourceId
        { s.sessions sourceId with view := some none } }
  | some row =>
    let record := if kept then (s.sessions sourceId).cached.getD row else row
    { s with
      sessions := Function.update s.sessions sourceId ⟨some record, some (some record)⟩
      rowLock := some sourceId }

/-- The points at which an attempt loads the record. -/
def loads : Sources.Active Id H → Bool
  | .opening _ => true
  | .working _ _ .analyzing | .working _ _ .extracting | .working _ _ (.merging _) => true
  | _ => false

/-- The row after a session that loaded one record and assigned another one commits. -/
def ContextStoreRecord.flush (loaded assigned current : ContextStoreRecord Id) :
    ContextStoreRecord Id where
  ownerId := written loaded.ownerId assigned.ownerId current.ownerId
  subject := written loaded.subject assigned.subject current.subject
  summary := written loaded.summary assigned.summary current.summary
  currentState := written loaded.currentState assigned.currentState current.currentState
  openIssues := written loaded.openIssues assigned.openIssues current.openIssues
  decisions := written loaded.decisions assigned.decisions current.decisions
  nextActions := written loaded.nextActions assigned.nextActions current.nextActions
  sourceIds := written loaded.sourceIds assigned.sourceIds current.sourceIds
  updatedAt := written loaded.updatedAt assigned.updatedAt current.updatedAt

/-- The commit of a record: an insert where none was loaded, which the unique workspace refuses
when there is one, else an update. -/
def saved (store loaded : Option (ContextStoreRecord Id)) (assigned : ContextStoreRecord Id) :
    Option (ContextStoreRecord Id) :=
  match loaded, store with
  | none, none => some assigned
  | some loaded, some current => some (loaded.flush assigned current)
  | _, _ => none

/-- The application of an attempt whose session has a checkpoint. -/
def application (env : Env Id H) (analyst : Analyst Id H) (session : Source Id H) (fresh : Bool)
    (c : Checkpoint Id H) (subject : Text) (output : ContextUpdateOutput) (now : Instant) :
    Application Id where
  updater := match analyst with
    | .server .. => .model output
    | .agent _ => .keyless
  ownerId := session.ownerId
  sourceId := session.id
  sourceTitle := session.title
  subject
  text := session.analyzed
  result := if fresh then c.result
    else (canonicalizeDirectoryEntities env.rt c.result (analyst.directory session)
      session.analyzed).1
  now

/-- The application that the attempt on a source is about to commit. -/
def State.pending (site : Site Id H) (s : State Id H) (sourceId : Id) (subject : Text)
    (output : ContextUpdateOutput) (now : Instant) : Option (Application Id) :=
  match (s.sources sourceId).active with
  | some (.working analyst session (.merging fresh)) =>
    session.analysisCheckpoint.map fun c =>
      application site.env analyst session fresh c subject output now
  | _ => none

/-- The commit of an application with the phase of its checkpoint. -/
def State.applied (site : Site Id H) (s : State Id H) (sourceId : Id) (a : Application Id) :
    Option (State Id H) :=
  (s.sessions sourceId).view.bind fun loaded =>
    let applied := a.apply site.env.rt loaded
    (saved s.store loaded applied.1).bind fun record =>
      (Sources.step site.env (s.sources sourceId) (.act (.merge applied.2))).map fun next =>
        let s' := (s.put sourceId next).committed sourceId
        { s' with
          sessions := Function.update s'.sessions sourceId ⟨some applied.1, none⟩
          store := some record
          applications := s.applications ++ [a] }

/-- One step in a workspace. -/
def step (site : Site Id H) (s : State Id H) : Event Id H → Option (State Id H)
  | .source sourceId event =>
    if s.permits site sourceId event then
      (Sources.step site.env (s.sources sourceId) event).bind fun next =>
        s.settled site sourceId event next
    else none
  | .lockWorkspace sourceId =>
    (s.sources sourceId).active.bind fun active =>
      let taken := (lockKeys site sourceId (mode active)).workspace
      if s.locks taken = none then
        some { s with locks := Function.update s.locks taken (some sourceId) }
      else none
  | .load sourceId kept =>
    if s.admitted site sourceId = true ∧ (s.sources sourceId).active.any loads = true ∧
        (s.rowLock = none ∨ s.rowLock = some sourceId) then
      some (s.loaded sourceId kept)
    else none
  | .apply sourceId subject output now =>
    if s.admitted site sourceId then
      (s.pending site sourceId subject output now).bind (s.applied site sourceId)
    else none

/-- A workspace whose sources are new and whose locks are free. -/
structure Initial (site : Site Id H) (s : State Id H) : Prop where
  sources : ∀ i, Sources.Initial site.env (s.sources i)
  named : ∀ i, (s.sources i).source.id = i ∧
    (s.sources i).source.workspaceId = site.workspaceId
  locks : ∀ k, s.locks k = none
  rowLock : s.rowLock = none
  applications : s.applications = []

/-- The runs that may wait for an advisory lock: the attempt that holds the lock of a source,
and any number of runs that still wait for it. -/
inductive Party (Id : Type) where
  | attempt (sourceId : Id)
  | newcomer (sourceId : Id) (mode : AnalysisMode) (number : Nat)
  deriving DecidableEq

/-- The advisory locks, with the lock that each run waits for. A newcomer waits for the lock of
its source and holds none. -/
def State.lockTable (site : Site Id H) (s : State Id H) : Locks (Party Id) Int where
  holder k := (s.locks k).map .attempt
  wanted
    | .newcomer sourceId mode _ => some (lockKeys site sourceId mode).source
    | .attempt sourceId =>
      (s.sources sourceId).active.bind fun active =>
        let wanted := (lockKeys site sourceId (mode active)).workspace
        if s.locks wanted = some sourceId then none else some wanted

end Maeglagi.Context
