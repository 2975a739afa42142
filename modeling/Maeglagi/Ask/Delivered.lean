import Maeglagi.Answer.Events
import Maeglagi.Answer.Invented
import Maeglagi.Ask.Guarding
import Maeglagi.Ask.Stored
import Maeglagi.Events.Parsed

/-!
# The answer that is shown

From the model to the conversation: what the model writes is filtered, streamed as events,
parsed by the client and read into the turn that the question was asked with.
-/

namespace Maeglagi.Ask

open Core Core.JsonTexts

variable {Id : Type}

/-! ## What is sent -/

/-- What `model_dump(mode="json")` makes of an identifier and of a float. A finite float is a
number. -/
structure Dump (Id : Type) where
  identifier : Id → Text
  float : PyFloat → Events.Json
  proper : ∀ x, (float (.finite x)).Proper

/-- A whole number. -/
def wholeNumber (n : ℕ) : Events.Json :=
  .number { negative := false, whole := n, fraction := [], exponent := none }

/-- `model_dump(by_alias=True, exclude_none=True, mode="json")` -/
def sourceJson (dump : Dump Id) (source : Answer.AnswerSource Id) : Events.Json :=
  .obj <|
    [("index".toList, wholeNumber source.index),
      ("sourceId".toList, .str (dump.identifier source.sourceId))] ++
      source.chunkId.toList.map (fun id => ("chunkId".toList, .str (dump.identifier id))) ++
      [("kind".toList, .str source.kind), ("title".toList, .str source.title),
        ("excerpt".toList, .str source.excerpt)] ++
      source.timestamp.toList.map fun t => ("timestamp".toList, dump.float t)

/-- `sources_event`, `token_event`, `done_event` and `error_event` -/
def eventFields (dump : Dump Id) : Answer.Event Id → List (Text × Events.Json)
  | .sources sources =>
    [("type".toList, .str "sources".toList),
      ("sources".toList, .arr (sources.map (sourceJson dump)))]
  | .token text => [("type".toList, .str "token".toList), ("text".toList, .str text)]
  | .done => [("type".toList, .str "done".toList)]
  | .error message code =>
    [("type".toList, .str "error".toList), ("message".toList, .str message)] ++
      code.toList.map fun c => ("code".toList, .str c)

/-- The frames of `_sse`. -/
def streamed (dump : Dump Id) (answer : Answer.Generated (Answer.Event Id)) : List Events.Frame :=
  Events.sse (answer.yielded.map (eventFields dump))
    (answer.failure.map fun _ => eventFields dump (.error Answer.internalError none))

/-! ## What is read -/

/-- The turn of an answer that failed. -/
def failed {Src : Type} (turn : AskTurn Src) (message : Text) : AskTurn Src :=
  if isNoEvidenceEvent (codeUnits message) none then { turn with status := .noEvidence }
  else
    { turn with
      status := .error
      errorMessage := some (if message = [] then askFailedMessage else codeUnits message) }

/-- The turn that an answer makes of a turn: the evidence, the text of the model without the
citations of no evidence, and how it ended. -/
def answered (dump : Dump Id) (digits : Answer.Digits) (adapter : Answer.ProviderAdapter)
    (q : Answer.Question Id) (turn : AskTurn JsonValue) : AskTurn JsonValue :=
  if q.retrieval.evidence = [] then { turn with status := .noEvidence }
  else
    let sources := q.retrieval.evidence.map fun item => (sourceJson dump item.source).seen
    match Answer.buildMessages q.question q.retrieval q.store q.history with
    | .error _ => failed { turn with sources := sources } Answer.internalError
    | .ok messages =>
      let generated := (Answer.generate adapter ⟨messages, q.model, 1 / 5⟩).1
      let text := Answer.filtered digits (q.retrieval.evidence.map (·.source.index))
        generated.yielded.flatten
      let turn := { turn with sources := sources, answer := turn.answer ++ codeUnits text }
      match generated.failure with
      | none =>
        if text = [] then failed turn Answer.emptyAnswer else { turn with status := .done }
      | some (.provider message) => failed turn message
      | some _ => failed turn Answer.internalError

/-! ## Events come as they were sent -/

/-- The events that are sent, the report of a failure among them. -/
def sent (answer : Answer.Generated (Answer.Event Id)) : List (Answer.Event Id) :=
  answer.yielded ++ answer.failure.toList.map fun _ => .error Answer.internalError none

namespace Asking

variable {W Src : Type} [DecidableEq W]

/-- No turn of the conversation that is shown has the identifier. -/
def Fresh (s : Asking W Src) (id : JsString) : Prop :=
  ∀ c ∈ s.state.conversations, c.id = s.state.activeId → ∀ turn ∈ c.turns, turn.id ≠ id

end Asking

end Maeglagi.Ask
