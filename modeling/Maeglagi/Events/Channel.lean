import Maeglagi.Core.Machine
import Maeglagi.Core.Slices
import Maeglagi.Core.Text

/-!
# The channel of source events

One channel of a workspace streams the ids that its subscribers ask for, in batches. A view
or a callback of a subscriber may subscribe and unsubscribe at any time, also while the channel
is in the middle of an operation; what is left of the operation is kept until the callbacks
have returned.
-/

namespace Maeglagi.Events

open Core

/-- The id of a source: it is not empty and has no comma, which separates the ids of a key. -/
abbrev SourceId := { text : Text // text ≠ [] ∧ ',' ∉ text }

/-- `RECONNECTING_AFTER_FAILURES` -/
def reconnectingAfterFailures : Nat := 3

/-- How many ids one stream watches. -/
def batchSize : Nat := 100

/-- `Subscriber`; the key is the identity of the object. -/
structure Subscriber where
  key : Nat
  ids : List SourceId
  deriving DecidableEq

/-- The statuses of `permanentStatus`: 401, 403, 404 and 422. -/
inductive PermanentStatus where
  | unauthorized
  | forbidden
  | notFound
  | unprocessable
  deriving DecidableEq

/-- The status is about ids of the batch and not about the request. -/
def PermanentStatus.divides : PermanentStatus → Bool
  | .unauthorized => false
  | .forbidden => false
  | .notFound => true
  | .unprocessable => true

/-- `SourceEventsConnection` -/
inductive SourceEventsConnection where
  | connected
  | reconnecting
  deriving DecidableEq

/-- A call of `run` that has not returned; the serial is the identity of its `run` object and
`waiting` says that it awaits the delay before the next attempt. -/
structure Run where
  serial : Nat
  ids : List SourceId
  signal : Nat
  generation : Nat
  retry : Nat
  waiting : Bool
  deriving DecidableEq

/-- What a call of `run` does after callbacks: in the loop over the jobs, after a failed
attempt, after a refusal, and for the rest of the ids it marks invalid. -/
inductive Handling where
  | job (run : Run)
  | failed (run : Run)
  | refused (run : Run) (status : PermanentStatus)
  | marking (run : Run) (status : PermanentStatus) (rest : List SourceId)
  deriving DecidableEq

/-- The run that is handled. -/
def Handling.run : Handling → Run
  | .job run => run
  | .failed run => run
  | .refused run _ => run
  | .marking run _ _ => run

/-- `SourceEventChannel`, the calls of `run` that await something, the controllers that were
aborted or made, and the operations whose callbacks have not returned: a run and, in the
callbacks of its own or of a view's call, `sync` with the ids it is about to stream. -/
structure Channel where
  subscribers : List Subscriber
  controller : Option Nat
  idsKey : Text
  generation : Nat
  invalidIds : List (SourceId × PermanentStatus)
  failing : List Nat
  connectionState : SourceEventsConnection
  runs : List Run
  serials : Nat
  aborted : List Nat
  controllers : Nat
  handling : Option Handling
  syncing : List (List SourceId)
  deriving DecidableEq

namespace Channel

/-- A new channel. -/
def new : Channel where
  subscribers := []
  controller := none
  idsKey := []
  generation := 0
  invalidIds := []
  failing := []
  connectionState := .connected
  runs := []
  serials := 0
  aborted := []
  controllers := 0
  handling := none
  syncing := []

/-- The ids that the subscribers ask for. -/
def requested (c : Channel) : List SourceId := c.subscribers.flatMap (·.ids)

/-- The ids that were marked invalid. -/
def invalid (c : Channel) : List SourceId := c.invalidIds.map Prod.fst

/-- The requested ids that are not invalid, sorted by code points; which order it is makes no
difference. -/
def ids (c : Channel) : List SourceId :=
  sortedSet (c.requested.filter fun id => decide (id ∉ c.invalid))

/-- `ids.join(",")` -/
def key (ids : List SourceId) : Text := [','].intercalate (ids.map Subtype.val)

/-- `markRun`, up to its callbacks. -/
def markRun (c : Channel) (run : Nat) (failing : Bool) : Channel :=
  let marked := if failing then (if run ∈ c.failing then c.failing else c.failing ++ [run])
    else c.failing.filter (· ≠ run)
  { c with
    failing := marked
    connectionState := if marked = [] then .connected else .reconnecting }

/-- The change of the connection state is told to some subscriber. -/
def Told (before after : Channel) : Prop :=
  after.connectionState ≠ before.connectionState ∧ after.subscribers ≠ []

instance decidableTold (before after : Channel) : Decidable (Told before after) :=
  inferInstanceAs (Decidable (_ ∧ _))

/-- A call of `run` up to its first await. -/
def start (signal generation : Nat) (c : Channel) (batch : List SourceId) : Channel :=
  if signal ∈ c.aborted ∨ generation ≠ c.generation then c
  else { c with
    runs := c.runs ++ [⟨c.serials, batch, signal, generation, 0, false⟩]
    serials := c.serials + 1 }

/-- The end of `sync`, after the streams that failed are settled. -/
def stream (c : Channel) (ids : List SourceId) : Channel :=
  if ids = [] then c
  else
    (slices batchSize ids).foldl (start c.controllers c.generation)
      { c with controller := some c.controllers, controllers := c.controllers + 1 }

/-- Invalid ids that nobody asks for any more are forgotten. -/
def prune (c : Channel) : Channel :=
  { c with invalidIds := c.invalidIds.filter fun entry => decide (entry.1 ∈ c.requested) }

/-- The streams of another set of ids are given up. -/
def restart (c : Channel) (ids : List SourceId) : Channel :=
  { c with
    idsKey := key ids
    generation := c.generation + 1
    aborted := c.controller.toList ++ c.aborted
    controller := none }

/-- No stream of the generation before counts as failing any more. -/
def settle (c : Channel) : Channel := c.failing.foldl (fun c run => c.markRun run false) c

/-- `sync`, up to the callbacks of the streams it settles. -/
def sync (c : Channel) : Channel :=
  let pruned := c.prune
  let ids := pruned.ids
  if key ids = pruned.idsKey then pruned
  else
    let restarted := pruned.restart ids
    let settled := restarted.settle
    if Told restarted settled then { settled with syncing := ids :: settled.syncing }
    else settled.stream ids

/-- The run goes on. -/
def resume (c : Channel) (run : Run) : Channel := { c with runs := run :: c.runs }

/-- A run that is not of the current generation or whose signal is aborted leaves its loop. -/
def Stale (c : Channel) (run : Run) : Prop :=
  run.signal ∈ c.aborted ∨ run.generation ≠ c.generation

instance decidableStale (c : Channel) (run : Run) : Decidable (c.Stale run) :=
  inferInstanceAs (Decidable (_ ∨ _))

/-- The end of `run`. -/
def finish (c : Channel) (run : Run) : Channel :=
  if run.generation = c.generation then c.markRun run.serial false else c

/-- The end of the loop's body, up to the delay. -/
def delay (c : Channel) (run : Run) : Channel :=
  if c.Stale run then c.finish run else c.resume { run with waiting := true }

/-- The loop over the ids of a refused run that marks them invalid, up to the callbacks of an
id; it ends in `sync`. -/
def mark (run : Run) (status : PermanentStatus) (c : Channel) : List SourceId → Channel
  | [] => c.sync
  | id :: rest =>
    if id ∈ c.invalid then c.mark run status rest
    else
      let marked := { c with invalidIds := c.invalidIds ++ [(id, status)] }
      if c.subscribers.any fun s => decide (id ∈ s.ids) then
        { marked with handling := some (.marking run status rest) }
      else marked.mark run status rest

/-- What a refused run does after it is settled: it is cut in two, or its ids are marked. -/
def refuse (c : Channel) (run : Run) (status : PermanentStatus) : Channel :=
  if status.divides ∧ 1 < run.ids.length then
    let middle := run.ids.length / 2
    (c.start run.signal run.generation (run.ids.take middle)).start run.signal run.generation
      (run.ids.drop middle)
  else c.mark run status run.ids

/-- What follows the callbacks of a run. -/
def proceed (c : Channel) : Handling → Channel
  | .job run => (c.resume { run with retry := 0 }).markRun run.serial false
  | .failed run => c.delay run
  | .refused run status => c.refuse run status
  | .marking run status rest => c.mark run status rest

end Channel

/-- How an attempt of a stream goes on or ends: a job (`none` is one without ids), the normal
end, a failure of the network or of the server, or a permanent status. -/
inductive Outcome where
  | job (sourceId : Option SourceId)
  | ended
  | failed
  | refused (status : PermanentStatus)
  deriving DecidableEq

/-- An outcome for a run that is taken out of the list of runs. -/
def Channel.take (c : Channel) (run : Run) : Outcome → Channel
  | .job sourceId =>
    if c.Stale run then c.finish run
    else
      match sourceId with
      | none => c.resume run
      | some id =>
        if c.subscribers.any fun s => decide (id ∈ s.ids) then { c with handling := some (.job run) }
        else c.proceed (.job run)
  | .ended => c.delay run
  | .failed =>
    if run.signal ∈ c.aborted then c.finish run
    else
      let failed := { run with retry := run.retry + 1 }
      if failed.generation = c.generation ∧ reconnectingAfterFailures ≤ failed.retry then
        let marked := c.markRun run.serial true
        if Channel.Told c marked then { marked with handling := some (.failed failed) }
        else marked.delay failed
      else c.delay failed
  | .refused status =>
    if run.signal ∈ c.aborted then c.finish run
    else if run.generation = c.generation then
      let marked := c.markRun run.serial false
      if Channel.Told c marked then { marked with handling := some (.refused run status) }
      else marked.refuse run status
    else c.delay { run with retry := run.retry + 1 }

/-- What happens to a channel. A callback whose call ends the operation it is made in is not
told apart from a view. -/
inductive ChannelEvent where
  | subscribe (subscriber : Subscriber)
  | unsubscribe (key : Nat)
  | outcome (run : Run) (outcome : Outcome)
  | timer (run : Run)
  | callbacksReturn
  deriving DecidableEq

namespace Channel

/-- `this.subscribers.add(subscriber)` -/
def add (c : Channel) (subscriber : Subscriber) : Channel :=
  if subscriber.key ∈ c.subscribers.map Subscriber.key then c
  else { c with subscribers := c.subscribers ++ [subscriber] }

/-- `this.subscribers.delete(subscriber)` -/
def delete (c : Channel) (key : Nat) : Channel :=
  { c with subscribers := c.subscribers.filter (·.key ≠ key) }

/-- No operation waits for its callbacks. -/
def Idle (c : Channel) : Prop := c.handling = none ∧ c.syncing = []

instance decidableIdle (c : Channel) : Decidable c.Idle := inferInstanceAs (Decidable (_ ∧ _))

/-- One event, if it is possible: streams and timers are heard between two operations. -/
def step (c : Channel) : ChannelEvent → Option Channel
  | .subscribe subscriber => some (c.add subscriber).sync
  | .unsubscribe key => some (c.delete key).sync
  | .outcome run outcome =>
    if c.Idle ∧ run ∈ c.runs ∧ run.waiting = false then
      some (({ c with runs := c.runs.erase run } : Channel).take run outcome)
    else none
  | .timer run =>
    if c.Idle ∧ run ∈ c.runs ∧ run.waiting = true then
      let taken := { c with runs := c.runs.erase run }
      some (if taken.Stale run then taken.finish run else taken.resume { run with waiting := false })
    else none
  | .callbacksReturn =>
    match c.syncing, c.handling with
    | ids :: outer, _ => some (({ c with syncing := outer } : Channel).stream ids)
    | [], some handling => some (({ c with handling := none } : Channel).proceed handling)
    | [], none => none

end Channel

end Maeglagi.Events
