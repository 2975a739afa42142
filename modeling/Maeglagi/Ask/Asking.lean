import Mathlib.Tactic.SplitIfs
import Maeglagi.Core.JsStrings
import Maeglagi.Core.Machine

/-!
# Questions and answers
-/

namespace Maeglagi.Ask

open Core

/-!
## Questions that were asked

`ask-turns.ts`: the state of a question and what the events of its answer make of it. A turn
that is no longer streaming stays as it is.
-/

section

variable {Src : Type}

/-- `AskTurnStatus` -/
inductive AskTurnStatus where
  | streaming | done | error | aborted | noEvidence
  deriving DecidableEq

/-- What is offered below an error. -/
inductive ErrorAction where
  | settings
  deriving DecidableEq

/-- `AskTurn` -/
structure AskTurn (Src : Type) where
  id : JsString
  question : JsString
  answer : JsString
  sources : List Src
  status : AskTurnStatus
  errorMessage : Option JsString
  errorAction : Option ErrorAction

/-- `AnswerEvent` -/
inductive AnswerEvent (Src : Type) where
  | sources (sources : List Src)
  | token (text : JsString)
  | done
  | error (message : JsString) (code : Option JsString)

/-- `DISCONNECTED_MESSAGE` -/
def disconnectedMessage : JsString := codeUnits "연결이 끊겼습니다. 다시 시도해 주세요.".toList

/-- `ASK_FAILED_MESSAGE` -/
def askFailedMessage : JsString := codeUnits "답변을 받지 못했습니다.".toList

/-- `newTurn` -/
def newTurn (id question : JsString) : AskTurn Src where
  id := id
  question := question
  answer := []
  sources := []
  status := .streaming
  errorMessage := none
  errorAction := none

/-- `isNoEvidenceEvent` -/
def isNoEvidenceEvent (message : JsString) (code : Option JsString) : Bool :=
  decide (code = some (codeUnits "no_evidence".toList)) ||
    decide (codeUnits "근거를 찾지 못했".toList <:+: message)

/-- `reduceTurn` -/
def reduceTurn (turn : AskTurn Src) (event : AnswerEvent Src) : AskTurn Src :=
  if turn.status ≠ .streaming then turn
  else
    match event with
    | .sources sources => { turn with sources := sources }
    | .token text => { turn with answer := turn.answer ++ text }
    | .done => { turn with status := .done }
    | .error message code =>
      if isNoEvidenceEvent message code then { turn with status := .noEvidence }
      else
        { turn with
          status := .error
          errorMessage := some (if message = [] then askFailedMessage else message) }

/-- How a stream ends that said neither `done` nor `error`. -/
inductive Settlement where
  | aborted | disconnected
  deriving DecidableEq

/-- `settleTurn` -/
def settleTurn (turn : AskTurn Src) (reason : Settlement) : AskTurn Src :=
  if turn.status ≠ .streaming then turn
  else
    match reason with
    | .aborted => { turn with status := .aborted }
    | .disconnected => { turn with status := .error, errorMessage := some disconnectedMessage }

/-- `failTurn` -/
def failTurn (turn : AskTurn Src) (message : JsString) (action : Option ErrorAction) :
    AskTurn Src :=
  if turn.status ≠ .streaming then turn
  else { turn with status := .error, errorMessage := some message, errorAction := action }

/-- A settled turn is no longer streaming. -/
theorem status_settleTurn (turn : AskTurn Src) (reason : Settlement) :
    (settleTurn turn reason).status ≠ .streaming := by
  unfold settleTurn
  split_ifs with h
  · exact h
  · cases reason with
    | aborted => simp
    | disconnected => simp

theorem status_failTurn (turn : AskTurn Src) (message : JsString) (action : Option ErrorAction) :
    (failTurn turn message action).status ≠ .streaming := by
  unfold failTurn
  split_ifs with h
  · exact h
  · simp

end

/-!
## Asking

`useAsk`: the conversations of the workspace that is shown and the runs that fetch its answers.
A run that was stopped still finishes, at some later moment, and shares the flags and the
controller with the runs after it.
-/

section

variable {W Src : Type} [DecidableEq W]

/-- `AskConversation`, without its title and its dates. -/
structure AskConversation (Src : Type) where
  id : JsString
  turns : List (AskTurn Src)

/-- `State` -/
structure Stored (W Src : Type) where
  workspaceId : Option W
  activeId : JsString
  conversations : List (AskConversation Src)

/-- A call of `run`, from the flags it raised to its `finally`. -/
structure Run (W Src : Type) where
  workspaceId : W
  /-- The visit of the workspace that it was started in. -/
  visit : Nat
  history : List (JsString × JsString)
  turn : AskTurn Src
  /-- `controller.signal.aborted` -/
  aborted : Bool
  finished : Bool

/-- What the refs and the states of `useAsk` hold. The controller is the run it was made for. -/
structure Asking (W Src : Type) where
  workspaceId : W
  /-- How often another workspace was shown. -/
  visit : Nat
  state : Stored W Src
  isStreaming : Bool
  inFlight : Bool
  controller : Option Nat
  runs : List (Run W Src)

/-- How the loop over the events of an answer ends. -/
inductive Outcome where
  /-- The stream ended, or the loop was left. -/
  | closed
  /-- An `AbortError` was thrown. -/
  | abortError
  /-- Another error was thrown, with what `toUserMessage` makes of it and whether it says that a
  model is missing. -/
  | failed (message : JsString) (needsModel : Bool)

/-- What happens to `useAsk`. A run is named by its place; `id` is what `identifier` draws. -/
inductive Happening (W Src : Type) where
  | switchTo (workspaceId : W)
  | restored (activeId : JsString) (conversations : List (AskConversation Src))
  | ask (id question : JsString)
  | retry (id turnId : JsString)
  | stop
  | progress (i : Nat) (event : AnswerEvent Src)
  | ends (i : Nat) (outcome : Outcome)

/-- `historyBefore` -/
def historyBefore (turns : List (AskTurn Src)) : List (JsString × JsString) :=
  let answered := turns.filter fun turn =>
    decide (turn.status = .done) && decide (trim turn.answer ≠ [])
  (answered.drop (answered.length - 6)).map fun turn => (turn.question, turn.answer.take 4000)

/-- The turn of a run whose loop ended. -/
def Run.settled (run : Run W Src) : Outcome → AskTurn Src
  | .closed => settleTurn run.turn (if run.aborted then .aborted else .disconnected)
  | .abortError => settleTurn run.turn .aborted
  | .failed message needsModel =>
    if run.aborted then settleTurn run.turn .aborted
    else failTurn run.turn message (if needsModel then some .settings else none)

namespace Asking

/-- `useAsk`, rendered for the first time. -/
def start (workspaceId : W) : Asking W Src where
  workspaceId := workspaceId
  visit := 0
  state := { workspaceId := none, activeId := [], conversations := [] }
  isStreaming := false
  inFlight := false
  controller := none
  runs := []

/-- `isRestored` -/
def isRestored (s : Asking W Src) : Prop := s.state.workspaceId = some s.workspaceId

instance (s : Asking W Src) : Decidable s.isRestored :=
  inferInstanceAs (Decidable (s.state.workspaceId = some s.workspaceId))

/-- `turns` -/
def turns (s : Asking W Src) : List (AskTurn Src) :=
  if s.isRestored then
    match s.state.conversations.find? fun item => decide (item.id = s.state.activeId) with
    | some item => item.turns
    | none => []
  else []

/-- `setTurns`, of the render for a workspace. -/
def setTurns (s : Asking W Src) (workspaceId : W)
    (update : List (AskTurn Src) → List (AskTurn Src)) : Asking W Src :=
  if s.state.workspaceId ≠ some workspaceId then s
  else
    { s with
      state :=
        { s.state with
          conversations := s.state.conversations.map fun conversation =>
            if conversation.id = s.state.activeId then
              { conversation with turns := update conversation.turns }
            else conversation } }

/-- A run that is changed where it stands. -/
def setRun (s : Asking W Src) (i : Nat) (run : Run W Src) : Asking W Src :=
  { s with runs := s.runs.set i run }

/-- `commit` -/
def commit (s : Asking W Src) (i : Nat) (run : Run W Src) (next : AskTurn Src) : Asking W Src :=
  (s.setRun i { run with turn := next }).setTurns run.workspaceId fun current =>
    current.map fun item => if item.id = run.turn.id then next else item

/-- `controllerRef.current?.abort()` -/
def abort (s : Asking W Src) : Asking W Src :=
  match s.controller with
  | none => s
  | some i =>
    match s.runs[i]? with
    | none => s
    | some run => s.setRun i { run with aborted := true }

/-- The part of `run` before the events of the answer. -/
def run (s : Asking W Src) (id question : JsString) (replaceId : Option JsString) : Asking W Src :=
  let trimmed := trim question
  if trimmed = [] ∨ s.inFlight = true ∨ ¬s.isRestored then s
  else
    let others := fun turns : List (AskTurn Src) =>
      turns.filter fun item => decide (some item.id ≠ replaceId)
    let turn := newTurn id trimmed
    let shown := s.setTurns s.workspaceId fun current => others current ++ [turn]
    { shown with
      inFlight := true
      isStreaming := true
      controller := some s.runs.length
      runs := s.runs ++
        [{ workspaceId := s.workspaceId
           visit := s.visit
           history := historyBefore (others s.turns)
           turn := turn
           aborted := false
           finished := false }] }

/-- The part of `run` behind the events of the answer, with its `finally`. -/
def finish (s : Asking W Src) (i : Nat) (run : Run W Src) (outcome : Outcome) : Asking W Src :=
  let next := run.settled outcome
  let committed := s.commit i run next
  { committed.setRun i { run with turn := next, finished := true } with
    inFlight := false
    isStreaming := false
    controller := if s.controller = some i then none else s.controller }

/-- One thing that happens. Another workspace is rendered when the effects of the last one have
run; a run is heard of until its `finally`, and reads events while its turn is streaming. -/
def step (s : Asking W Src) : Happening W Src → Option (Asking W Src)
  | .switchTo workspaceId =>
    if s.isRestored ∧ workspaceId ≠ s.workspaceId then
      some { s with workspaceId := workspaceId, visit := s.visit + 1 }
    else none
  | .restored activeId conversations =>
    if s.isRestored then none
    else
      -- The clean-up of the last effect comes before the effect.
      some { s.abort with
        state :=
          { workspaceId := some s.workspaceId
            activeId := activeId
            conversations := conversations }
        isStreaming := false
        inFlight := false }
  | .ask id question => some (s.run id question none)
  | .retry id turnId =>
    match s.turns.find? fun turn => decide (turn.id = turnId) with
    | some target => some (s.run id target.question (some turnId))
    | none => some s
  | .stop => some s.abort
  | .progress i event =>
    match s.runs[i]? with
    | none => none
    | some run =>
      if run.finished = false ∧ run.turn.status = .streaming then
        some (s.commit i run (reduceTurn run.turn event))
      else none
  | .ends i outcome =>
    match s.runs[i]? with
    | none => none
    | some run => if run.finished then none else some (s.finish i run outcome)

end Asking

end

end Maeglagi.Ask
