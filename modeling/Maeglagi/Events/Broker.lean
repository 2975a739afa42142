import Mathlib.Logic.Function.Basic
import Maeglagi.Core.Machine

/-!
# The broker of source events and its streams

A commit notifies the listener of the process, which reads the notified message and hands it
to the queues of the open streams. Every await of the listener and of a stream may fail.
-/

namespace Maeglagi.Events

open Core

variable {Id P : Type} [DecidableEq Id] [DecidableEq P]

/-- `QUEUE_SIZE` -/
def queueSize : Nat := 64

/-- `NOTIFICATION_QUEUE_SIZE` -/
def notificationQueueSize : Nat := 2048

/-- `SourceEventKey` -/
structure SourceEventKey (Id : Type) where
  ownerId : Id
  workspaceId : Id
  sourceId : Id
  deriving DecidableEq, Repr

/-- The message of the trigger; the owner and the workspace of a source never change. -/
def message (home : Id → Id × Id) (sourceId : Id) : SourceEventKey Id :=
  ⟨(home sourceId).1, (home sourceId).2, sourceId⟩

/-- Where a stream stands: before its snapshot, with initial payloads left to send and then
at its queue, in the read of a job, or with the payload of that read. -/
inductive Phase (Id P : Type) where
  | loading
  | streaming (toSend : List Id)
  | reading (sourceId : Id)
  | sending (sourceId : Id) (payload : P)

/-- `SourceSubscription` with its stream; `sent` is the last payload a client received. -/
structure Subscription (Id P : Type) where
  ownerId : Id
  workspaceId : Id
  sourceIds : List Id
  queue : List (Option (SourceEventKey Id))
  phase : Phase Id P
  seen : Id → Option P
  sent : Id → Option P

namespace Subscription

/-- `accepts` -/
def accepts (sub : Subscription Id P) (event : SourceEventKey Id) : Bool :=
  decide (sub.ownerId = event.ownerId) && decide (sub.workspaceId = event.workspaceId) &&
    decide (event.sourceId ∈ sub.sourceIds)

/-- `reset` -/
def reset (sub : Subscription Id P) : Subscription Id P := { sub with queue := [none] }

/-- What `_dispatch` does to one subscriber. -/
def offer (event : SourceEventKey Id) (sub : Subscription Id P) : Subscription Id P :=
  if !sub.accepts event then sub
  else if sub.queue.length < queueSize then { sub with queue := sub.queue ++ [some event] }
  else sub.reset

/-- The job that `_load_jobs` returns for a source. -/
def job (home : Id → Id × Id) (jobs : Id → Option P) (sub : Subscription Id P)
    (sourceId : Id) : Option P :=
  if home sourceId = (sub.ownerId, sub.workspaceId) then jobs sourceId else none

end Subscription

/-- What a stream does next; `close` is a disconnect, a deadline or a failure. -/
inductive Action where
  | load
  | sendInitial
  | take
  | read
  | send
  | close

/-- One action of `source_events` and `_stream_events`; the inner `none` ends the stream, the
outer `none` is an action that is not next. -/
def Subscription.act (home : Id → Id × Id) (jobs : Id → Option P) (sub : Subscription Id P) :
    Action → Option (Option (Subscription Id P))
  | .load =>
    match sub.phase with
    | .loading =>
      let initial := fun src => if src ∈ sub.sourceIds then sub.job home jobs src else none
      if sub.sourceIds.all fun src => (initial src).isSome then
        some (some { sub with phase := .streaming sub.sourceIds, seen := initial })
      else some none
    | _ => none
  | .sendInitial =>
    match sub.phase with
    | .streaming (src :: rest) =>
      some (some { sub with phase := .streaming rest,
                            sent := Function.update sub.sent src (sub.seen src) })
    | _ => none
  | .take =>
    match sub.phase, sub.queue with
    | .streaming [], none :: _ => some none
    | .streaming [], some event :: rest =>
      some (some { sub with phase := .reading event.sourceId, queue := rest })
    | _, _ => none
  | .read =>
    match sub.phase with
    | .reading src =>
      match sub.job home jobs src with
      | none => some none
      | some payload => some (some { sub with phase := .sending src payload })
    | _ => none
  | .send =>
    match sub.phase with
    | .sending src payload =>
      if sub.seen src = some payload then some (some { sub with phase := .streaming [] })
      else some (some { sub with phase := .streaming [],
                                 seen := Function.update sub.seen src (some payload),
                                 sent := Function.update sub.sent src (some payload) })
    | _ => none
  | .close => some none

/-- The connection of the listener. -/
inductive Connection where
  | up
  | lost
  | closed
  deriving DecidableEq, Repr

/-- What `_run` awaits: a notification, the message of one, the liveness check with the
notification whose message timed out, the close, the next connection, or nothing any more. -/
inductive Task (Id : Type) where
  | waiting
  | fetching (sourceId : Id)
  | probing (unread : Option Id)
  | closing
  | reconnecting
  | dead

/-- `SourceEventBroker` with the committed jobs, the notifications the server has sent and the
broker has not received, and the subscribers by the order of their arrival. -/
structure Broker (Id P : Type) where
  jobs : Id → Option P
  connection : Connection
  wire : List Id
  notifications : List (Option Id)
  task : Task Id
  healthy : Bool
  subscribers : Nat → Option (Subscription Id P)
  arrivals : Nat

namespace Broker

/-- The broker after `start`. -/
def start (jobs : Id → Option P) : Broker Id P :=
  ⟨jobs, .up, [], [], .waiting, true, fun _ => none, 0⟩

/-- `_reset_subscribers` -/
def resetSubscribers (s : Broker Id P) : Broker Id P :=
  { s with subscribers := fun key => (s.subscribers key).map Subscription.reset }

/-- `_drain_notifications` -/
def drainNotifications (s : Broker Id P) : Broker Id P := { s with notifications := [] }

/-- `_notify` -/
def notify (s : Broker Id P) (sourceId : Id) : Broker Id P :=
  if s.notifications.length < notificationQueueSize then
    { s with notifications := s.notifications ++ [some sourceId] }
  else s.resetSubscribers.drainNotifications

/-- `_terminated` -/
def terminated (s : Broker Id P) : Broker Id P := { s with notifications := [none] }

/-- The handler of `_run` for a failure, up to the close of the connection. -/
def interrupted (s : Broker Id P) : Broker Id P :=
  { s.resetSubscribers.drainNotifications with healthy := false, task := .closing }

/-- `_dispatch` with the message it has read. -/
def dispatch (s : Broker Id P) (event : SourceEventKey Id) : Broker Id P :=
  { s with subscribers := fun key => (s.subscribers key).map (Subscription.offer event) }

/-- `subscribe` -/
def subscribe (s : Broker Id P) (ownerId workspaceId : Id) (sourceIds : List Id) :
    Broker Id P :=
  { s with
    subscribers := Function.update s.subscribers s.arrivals
      (some ⟨ownerId, workspaceId, sourceIds, [], .loading, fun _ => none, fun _ => none⟩)
    arrivals := s.arrivals + 1 }

end Broker

/-- What happens: a commit or a deletion of a source, the server and the connection, the
outcome of each await of the listener, the streams, and the end of the process. -/
inductive Event (Id P : Type) where
  | commit (sourceId : Id) (payload : P)
  | delete (sourceId : Id)
  | deliver
  | lose
  | terminate
  | take
  | idle
  | found
  | gone
  | fetchTimeout
  | fetchFails
  | probed (alive : Bool)
  | closed (clean : Bool)
  | listening
  | connectFails
  | connected
  | subscribe (ownerId workspaceId : Id) (sourceIds : List Id)
  | stream (key : Nat) (action : Action)
  | stop

namespace Broker

/-- One event; `none` is an event that cannot happen in the state. -/
def step (home : Id → Id × Id) (s : Broker Id P) : Event Id P → Option (Broker Id P)
  | .commit src payload =>
    -- the trigger fires only when a column of the payload changes
    if s.jobs src = some payload then none
    else some { s with jobs := Function.update s.jobs src (some payload),
                       wire := if s.connection = .up then s.wire ++ [src] else s.wire }
  | .delete src => some { s with jobs := Function.update s.jobs src none }
  | .deliver =>
    match s.wire with
    | [] => none
    | src :: rest => some (notify { s with wire := rest } src)
  | .lose =>
    if s.connection = .up then some { s with connection := .lost, wire := [] } else none
  | .terminate =>
    -- the callback also follows the close of the connection
    if s.connection = .lost ∨ s.healthy = false then some s.terminated else none
  | .take =>
    match s.task, s.notifications with
    | .waiting, none :: _ => some s.interrupted
    | .waiting, some src :: rest => some { s with notifications := rest, task := .fetching src }
    | _, _ => none
  | .idle =>
    match s.task with
    | .waiting => some { s with task := .probing none }
    | _ => none
  | .found =>
    match s.task with
    | .fetching src => some { s.dispatch (message home src) with task := .waiting }
    | _ => none
  | .gone =>
    match s.task with
    | .fetching _ => some { s.resetSubscribers with task := .waiting }
    | _ => none
  | .fetchTimeout =>
    -- the timeout of the command is the `TimeoutError` that `_run` expects of an idle queue
    match s.task with
    | .fetching src => some { s with task := .probing (some src) }
    | _ => none
  | .fetchFails =>
    match s.task with
    | .fetching _ => some s.interrupted
    | _ => none
  | .probed alive =>
    match s.task with
    | .probing _ => some { (if alive then s else s.terminated) with task := .waiting }
    | _ => none
  | .closed clean =>
    match s.task with
    | .closing =>
      if clean then
        some { s.drainNotifications with connection := .closed, wire := [], task := .reconnecting }
      else some { s with task := .dead }
    | _ => none
  | .listening =>
    match s.task, s.connection with
    | .reconnecting, .closed => some { s with connection := .up }
    | _, _ => none
  | .connectFails =>
    match s.task with
    | .reconnecting => some { s with connection := .closed, wire := [] }
    | _ => none
  | .connected =>
    match s.task with
    | .reconnecting =>
      if s.connection = .closed then none
      else some { s.resetSubscribers with healthy := true, task := .waiting }
    | _ => none
  | .subscribe owner workspace sources =>
    if s.healthy then some (s.subscribe owner workspace sources) else none
  | .stream key action =>
    match s.subscribers key with
    | none => none
    | some sub =>
      match sub.act home s.jobs action with
      | none => none
      | some next => some { s with subscribers := Function.update s.subscribers key next }
  | .stop =>
    some { s.resetSubscribers with connection := .closed, wire := [], healthy := false,
                                   task := .dead }

/-- A state that a fresh process reaches by events that satisfy the condition. -/
abbrev Reaches (home : Id → Id × Id) (ok : Broker Id P → Event Id P → Prop)
    (s : Broker Id P) : Prop :=
  ∃ jobs, RunOf (step home) ok (start jobs) s

end Broker

end Maeglagi.Events
