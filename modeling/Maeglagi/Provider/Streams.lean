import Maeglagi.Core.Turns
import Maeglagi.Provider.Failures

/-!
# Streamed answers

`stream` of the three adapters. Each reads the body of a good reply line by line and yields the
pieces of the answer. A body may end anywhere, also with a failure of the transport.
-/

namespace Maeglagi.Provider

open Core

/-- A reply whose body is read line by line; the transport may fail before the body ends. -/
structure StreamReply where
  response : Response
  lines : List Text
  broken : Bool

/-- The outcome of a request for a stream. -/
inductive StreamExchange where
  | httpError
  | reply (r : StreamReply)

/-- What the environment decides in one call of `stream`. -/
structure StreamExchanges where
  connected : Bool
  tags : Exchange
  details : Exchange
  reply : StreamExchange

/-- The exchanges ahead of the stream. -/
def StreamExchanges.lookups (w : StreamExchanges) : Exchanges :=
  ⟨w.connected, w.tags, w.details, .httpError⟩

/-- The pieces that a generator yields, and how it ends. -/
abbrev Streamed := List Json × Except PyException Unit

/-- A generator that raises before it yields anything. -/
def Streamed.raised (e : PyException) : Streamed := ([], .error e)

/-- `except caught` around the body of a generator -/
def Streamed.handled (caught : PyException → Bool) (message : String) (s : Streamed) : Streamed :=
  (s.1, handling caught (fun _ => providerError message none) s.2)

/-- The failure of the transport behind the last line, if there is one. -/
def StreamReply.atEnd (r : StreamReply) (outcome : Except PyException Unit) :
    Except PyException Unit :=
  if r.broken then .error .httpError else outcome

/-- The turn that goes on without a piece. -/
def skip : Turn PyException Json := ⟨none, none⟩

/-- The turn that raises. -/
def raising (e : PyException) : Turn PyException Json := ⟨none, some (.error e)⟩

namespace OpenAICompatibleAdapter

variable (lib : Decoder)

/-- The text of a `data:` line. -/
def frameData (line : Text) : Option Text :=
  let line := strip line
  if "data:".toList.isPrefixOf line then some (strip (line.drop 5)) else none

/-- The data that ends a stream. -/
def doneMark : Text := "[DONE]".toList

/-- `(chunk.get("choices") or [{}])[0].get("delta", {}).get("content")` -/
def readDelta (chunk : Json) : Except PyException Json := do
  let choices ← chunk.get "choices" .null
  let choice ← (if choices.truthy then choices else .arr [.obj []]).first
  let delta ← choice.get "delta" (.obj [])
  delta.get "content" .null

/-- One turn of the loop over the lines. -/
def lineTurn (line : Text) : Turn PyException Json :=
  match frameData line with
  | none => skip
  | some data =>
    if data = doneMark then ⟨none, some (.ok ())⟩
    else match lib.loads data with
      | .error .jsonDecodeError => skip
      | .error failure => raising failure.exception
      | .ok chunk => match readDelta chunk with
        | .error e => raising e
        | .ok delta => ⟨if delta.truthy then some delta else none, none⟩

/-- `stream` -/
def stream (apiKey : Text) (x : StreamExchange) : Streamed :=
  Streamed.handled PyException.isHttpError "Provider에 연결하지 못했습니다." <|
    match headers apiKey, x with
    | .error e, _ => .raised e
    | .ok _, .httpError => .raised .httpError
    | .ok _, .reply r =>
      if r.response.isSuccess then drained (lineTurn lib) (r.atEnd (.ok ())) r.lines
      else ([], r.atEnd (.error (statusError "모델 요청에 실패했습니다" r.response)))

end OpenAICompatibleAdapter

namespace AnthropicAdapter

variable (lib : Decoder)

/-- The texts that `_events` decodes: the data lines up to an empty line. -/
def payloads (data : List Text) : List Text → List Text
  | [] => []
  | line :: lines =>
    if "data:".toList.isPrefixOf line then
      payloads (data ++ [(line.drop 5).dropWhile fun c => decide (c = ' ')]) lines
    else if line = [] ∧ data ≠ [] then ['\n'].intercalate data :: payloads [] lines
    else payloads data lines

/-- The type of an event. -/
def hasType (event : Json) (kind : String) : Bool := (event.field? "type").any (·.isText kind)

/-- The block of an event that says a part of the text. -/
def block (event : Json) : Option Json :=
  if hasType event "content_block_delta" then
    (event.field? "delta").filter fun delta => hasType delta "text_delta"
  else if hasType event "content_block_start" then
    (event.field? "content_block").filter fun content => hasType content "text"
  else none

/-- `raise ProviderError("Provider가 유효하지 않은 스트림을 반환했습니다.")` -/
def invalidStream : PyException :=
  providerError "Provider가 유효하지 않은 스트림을 반환했습니다." none

/-- What the loop over the events does with an event. -/
def eventTurn (event : Json) : Turn PyException Json :=
  if hasType event "error" then
    raising (providerError "Provider 스트리밍 중 오류가 발생했습니다." none)
  else if hasType event "message_stop" then ⟨none, some (.ok ())⟩
  else match block event with
    | none => skip
    | some content => match content.field? "text" with
      | some (.str text) => ⟨if text.isEmpty then none else some (.str text), none⟩
      | _ => raising invalidStream

/-- One turn of `_events` and of the loop over its events. -/
def payloadTurn (payload : Text) : Turn PyException Json :=
  match lib.loads payload with
  | .error .recursionError => raising .recursionError
  | .error _ => raising invalidStream
  | .ok (.obj fields) => eventTurn (.obj fields)
  | .ok _ => raising invalidStream

/-- `stream` -/
def stream (apiKey : Text) (x : StreamExchange) : Streamed :=
  Streamed.handled PyException.isHttpError "Provider에 연결하지 못했습니다." <|
    match headers apiKey, x with
    | .error e, _ => .raised e
    | .ok _, .httpError => .raised .httpError
    | .ok _, .reply r =>
      if r.response.isSuccess then
        drained (payloadTurn lib) (r.atEnd (.error (providerError
          "Provider 답변 스트림이 완료 전에 종료됐습니다." none))) (payloads [] r.lines)
      else .raised (statusError "모델 요청에 실패했습니다" r.response)

end AnthropicAdapter

namespace OllamaAdapter

variable (lib : Decoder)

/-- `raise ProviderError("Ollama 스트림이 유효하지 않습니다.")` -/
def invalidStream : PyException := providerError "Ollama 스트림이 유효하지 않습니다." none

/-- The field is there and true in a condition. -/
def isSet (chunk : Json) (key : String) : Bool := (chunk.field? key).any Json.truthy

/-- `chunk.get("done") is True` -/
def isDone (chunk : Json) : Bool :=
  match chunk.field? "done" with
  | some (.bool b) => b
  | _ => false

/-- `chunk.get("message")` is there and no dictionary. -/
def badMessage (chunk : Json) : Bool :=
  match chunk.field? "message" with
  | none | some .null | some (.obj _) => false
  | _ => true

/-- What the loop over the lines does with a chunk. -/
def chunkTurn (chunk : Json) : Turn PyException Json :=
  let ended := if isDone chunk then some (.ok ()) else none
  if isSet chunk "error" then
    raising (providerError "Ollama 스트리밍 중 오류가 발생했습니다." none)
  else if badMessage chunk then raising invalidStream
  else if (content chunk).truthy then
    match content chunk with
    | .str text => ⟨some (.str text), ended⟩
    | _ => raising invalidStream
  else ⟨none, ended⟩

/-- One turn of the loop over the lines. -/
def lineTurn (line : Text) : Turn PyException Json :=
  if strip line = [] then skip
  else match lib.loads line with
    | .error .recursionError => raising .recursionError
    | .error _ => raising invalidStream
    | .ok (.obj fields) => chunkTurn (.obj fields)
    | .ok _ => raising invalidStream

/-- `except (httpx.HTTPError, ValueError)` -/
def streamCaught (e : PyException) : Bool := e.isHttpError || e.isValueError

/-- `stream` -/
def stream (model : Text) (w : StreamExchanges) : Streamed :=
  Streamed.handled streamCaught "Ollama 서버에 연결하지 못했습니다." <|
    if w.connected then
      match requireLocalModel lib model w.lookups, w.reply with
      | .error e, _ => .raised e
      | .ok (), .httpError => .raised .httpError
      | .ok (), .reply r =>
        if r.response.isSuccess then
          drained (lineTurn lib) (r.atEnd (.error (providerError
            "Ollama 응답 스트림이 완료 전에 종료됐습니다." none))) r.lines
        else .raised (.providerError .providerError
          (statusMessage "Ollama 모델 요청에 실패했습니다" r.response) none)
    else .raised .valueError

end OllamaAdapter

namespace Adapter

variable (lib : Decoder)

/-- `stream` -/
def stream (adapter : Adapter) (model apiKey : Text) (w : StreamExchanges) : Streamed :=
  match adapter with
  | .openAICompatible _ => OpenAICompatibleAdapter.stream lib apiKey w.reply
  | .anthropic => AnthropicAdapter.stream lib apiKey w.reply
  | .ollama => OllamaAdapter.stream lib model w

/-- The lines bring the terminal marker of the provider. -/
def Marked (adapter : Adapter) (lines : List Text) : Prop :=
  match adapter with
  | .openAICompatible _ => ∃ line ∈ lines,
      OpenAICompatibleAdapter.frameData line = some OpenAICompatibleAdapter.doneMark
  | .anthropic => ∃ payload ∈ AnthropicAdapter.payloads [] lines, ∃ event,
      lib.loads payload = .ok event ∧ AnthropicAdapter.hasType event "message_stop" = true
  | .ollama => ∃ line ∈ lines, ∃ chunk,
      lib.loads line = .ok chunk ∧ OllamaAdapter.isDone chunk = true

end Adapter

/-- The generator returns only after the terminal marker, and otherwise raises a
`ProviderError`. -/
structure Complete (lib : Decoder) (adapter : Adapter) (model apiKey : Text)
    (w : StreamExchanges) : Prop where
  marked : (adapter.stream lib model apiKey w).2 = .ok () →
    ∃ r, w.reply = .reply r ∧ adapter.Marked lib r.lines
  typed : RaisesOnly IsProviderError (adapter.stream lib model apiKey w).2

end Maeglagi.Provider
