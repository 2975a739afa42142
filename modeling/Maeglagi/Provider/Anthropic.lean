import Maeglagi.Provider.Exchange

/-!
# The Anthropic adapter

`chat` of `AnthropicAdapter`, which handles almost every exception of reading a reply,
also when only the usage or the model of a good reply cannot be read. The other calls
are not supported.
-/

namespace Maeglagi.Provider.AnthropicAdapter

open Core

/-- `capabilities` -/
def capabilities : List String := ["chat", "models"]

/-- `_headers` -/
def headers (apiKey : Text) : Except PyException (List (String × Text)) :=
  keyedHeaders (fun key => [("x-api-key", key), ("anthropic-version", "2023-06-01".toList),
    ("Content-Type", "application/json".toList)]) apiKey

/-- The text of a block, if it is a text block. -/
def readBlock (block : Json) : Except PyException (Option Text) := do
  let kind ← block.get "type" .null
  if kind.isText "text" then
    let text ← block.get "text" .null
    return text.str?
  else return none

/-- The answer that a decoded body gives. -/
def readBody (model : Text) (body : Json) : Except PyException ChatResponse := do
  let blocks ← (← body.get "content" (.arr [])).iter
  let texts ← blocks.mapM readBlock
  let entries ← (← body.get "usage" (.obj [])).items
  let usage := entries.filterMap fun e => e.2.int?.map fun i => (e.1, i)
  ChatResponse.make (.str texts.reduceOption.flatten) ((body.field? "model").getD (.str model))
    "anthropic".toList usage [("finish_reason", (body.field? "stop_reason").getD .null)]

/-- `except (ValueError, TypeError, AttributeError, KeyError)` -/
def caught (e : PyException) : Bool :=
  e.isValueError || e.isTypeError || e.isAttributeError || e.isKeyError

/-- `chat` -/
def chat (model apiKey : Text) (x : Exchange) : Except PyException ChatResponse := do
  let r ← connecting (post (headers apiKey) x)
  if r.isSuccess then
    handling caught (fun _ => providerError "Provider가 유효한 답변을 반환하지 않았습니다." none)
      (loaded r.json >>= readBody model)
  else throw (statusError "모델 요청에 실패했습니다" r)

/-- `transcribe` -/
def transcribe : Except PyException TranscriptionResponse :=
  throw (capabilityError "Anthropic은 transcription을 지원하지 않습니다.".toList)

/-- `structured_output` -/
def structuredOutput : Except PyException StructuredOutputResponse :=
  throw (capabilityError "Anthropic structuredOutput은 아직 구현되지 않았습니다.".toList)

/-- The text that a block says. -/
def blockText (block : Json) : Option Text :=
  if (block.field? "type").any (·.isText "text") then (block.field? "text").bind Json.str?
  else none

/-- The content of a reply is a list of blocks that say the text. -/
def Says (body : Json) (t : Text) : Prop :=
  ∃ blocks, body.field? "content" = some (.arr blocks) ∧ (∀ block ∈ blocks, block.IsObj) ∧
    (blocks.filterMap blockText).flatten = t

end Maeglagi.Provider.AnthropicAdapter
