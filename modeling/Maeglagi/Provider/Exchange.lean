import Maeglagi.Provider.Json

/-!
# Responses and exchanges
-/

namespace Maeglagi.Provider

open Core

/-!
## Responses of an adapter

The pydantic models that the adapters return. Each is built from fields of a decoded
reply, so building one may fail: the exception counts the fields that are refused.
-/

section

/-- `ChatResponse` -/
structure ChatResponse where
  text : Text
  model : Text
  provider : Text
  usage : List (Text × Int)
  providerMetadata : List (String × Json)

/-- `StructuredOutputResponse` -/
structure StructuredOutputResponse where
  data : Json
  model : Text
  provider : Text
  usage : List (Text × Int)
  providerMetadata : List (String × Json)

/-- `TranscriptionSegment` -/
structure TranscriptionSegment where
  text : Text
  startSeconds : PyFloat
  endSeconds : PyFloat
  speaker : Option Text

/-- `TranscriptionResponse` -/
structure TranscriptionResponse where
  text : Text
  model : Text
  provider : Text
  language : Option Text
  durationSeconds : Option PyFloat
  segments : List TranscriptionSegment

/-- An optional text as a value. -/
def optionalText (t : Option Text) : Json :=
  match t with
  | none => .null
  | some t => .str t

/-- `provider_metadata.get(key)` -/
def metadataField (metadata : List (String × Json)) (key : String) : Json :=
  (Dict.read metadata key).getD .null

/-- The exception for a model of which the marked fields are refused. -/
def refusedFields (refused : List Bool) : PyException :=
  .validationError (refused.count true)

/-- `ChatResponse(text=..., model=..., ...)` -/
def ChatResponse.make (text model : Json) (provider : Text) (usage : List (Text × Int))
    (providerMetadata : List (String × Json)) : Except PyException ChatResponse :=
  match text.str?, model.str? with
  | some text, some model => .ok ⟨text, model, provider, usage, providerMetadata⟩
  | text, model => .error (refusedFields [text.isNone, model.isNone])

/-- `StructuredOutputResponse(data=..., model=..., ...)` -/
def StructuredOutputResponse.make (data model : Json) (provider : Text)
    (usage : List (Text × Int)) (providerMetadata : List (String × Json)) :
    Except PyException StructuredOutputResponse :=
  match model.str? with
  | some model => .ok ⟨data, model, provider, usage, providerMetadata⟩
  | none => .error (refusedFields [true])

/-- A field of type `str | None`, without a result where it is refused. -/
def optionalStr : Json → Option (Option Text)
  | .null => some none
  | v => v.str?.map some

/-- A field of type `float | None`, without a result where it is refused. -/
def optionalFloat (lib : Decoder) : Json → Option (Option PyFloat)
  | .null => some none
  | v => (lib.asFloat v).map some

/-- `TranscriptionResponse(text=..., model=..., ...)` -/
def TranscriptionResponse.make (lib : Decoder) (text model provider : Text)
    (language duration : Json) (segments : List TranscriptionSegment) :
    Except PyException TranscriptionResponse :=
  match optionalStr language, optionalFloat lib duration with
  | some language, some duration => .ok ⟨text, model, provider, language, duration, segments⟩
  | language, duration => .error (refusedFields [language.isNone, duration.isNone])

variable {p : PyException → Prop} {valid : Prop}

/-- The model of a reply, or the one asked for, is a text. -/
theorem isStr_model_iff {body : Json} (model : Text) :
    ((body.field? "model").getD (.str model)).IsStr ↔ body.Field "model" Json.IsStr := by
  cases h : body.field? "model" <;> simp [Json.Field, Json.IsStr, h]

end

/-!
## HTTP exchanges

An exchange with a provider ends with a reply or a transport failure. A request needs a
key that fits into a header. The two ways the adapters send one differ in who sees a
transport failure: `connected` turns it into a `ProviderError`, `sent` lets it pass.
-/

section

/-- One reply to a request: `response.json()` returns or fails, and `x-request-id` may be set. -/
structure Response where
  status : Nat
  json : Except LoadsFailure Json
  requestId : Option Text

/-- The outcome of one HTTP exchange: a transport failure or a reply. -/
inductive Exchange where
  | httpError
  | response (r : Response)

/-- `response.is_success` -/
def Response.isSuccess (r : Response) : Bool := decide (200 ≤ r.status ∧ r.status ≤ 299)

/-- `await client.post(...)` -/
def Exchange.send : Exchange → Except PyException Response
  | .httpError => .error .httpError
  | .response r => .ok r

/-- The exchange brought the body `body` with a success status. -/
def Exchange.Brings (x : Exchange) (body : Json) : Prop :=
  ∃ r, x = .response r ∧ r.isSuccess = true ∧ r.json = .ok body

theorem Exchange.Brings.unique {x : Exchange} {body body' : Json} (h : x.Brings body)
    (h' : x.Brings body') : body = body' := by
  obtain ⟨r, rfl, -, hjson⟩ := h
  obtain ⟨r', hr, -, hjson'⟩ := h'
  obtain rfl := Exchange.response.inj hr
  exact Except.ok.inj (hjson.symm.trans hjson')

/-- The exchange brought a body with a success status that is nested too deep to decode. -/
def Exchange.TooDeep (x : Exchange) : Prop :=
  ∃ r, x = .response r ∧ r.isSuccess = true ∧ r.json = .error .recursionError

/-- What the environment decides in one call of an adapter: the outcome of the request
itself, and before it, for the Ollama adapter, whether the server address can be used and
the outcomes of the two lookups of the model. -/
structure Exchanges where
  connected : Bool
  tags : Exchange
  details : Exchange
  reply : Exchange

/-- The message of `api_key_format_error`, if the key is refused. -/
def apiKeyFormatError (value : Text) : Option String :=
  if value.isEmpty then some "API 키를 입력해 주세요."
  else if value.any fun c => !(decide (33 ≤ c.toNat) && decide (c.toNat ≤ 126)) then
    some "API 키에 공백이나 지원하지 않는 문자가 있습니다. 키를 확인해 주세요."
  else none

/-- The key can be sent in a header. -/
def KeyFits (value : Text) : Prop := apiKeyFormatError value = none

instance (value : Text) : Decidable (KeyFits value) := inferInstanceAs (Decidable (_ = none))

/-- A message that ends with the status of the reply. -/
def statusMessage (message : String) (r : Response) : Text :=
  message.toList ++ " (".toList ++ Nat.toDigits 10 r.status ++ ").".toList

/-- A `ProviderError` that carries the status of the reply. -/
def statusError (message : String) (r : Response) : PyException :=
  .providerError .providerError (statusMessage message r) (some r.status)

/-- `UnsupportedStructuredFormatError` -/
def unsupportedFormat : PyException :=
  .providerError .unsupportedStructuredFormatError
    "이 모델은 native JSON schema 형식을 지원하지 않습니다.".toList none

/-- `_headers`: the headers of a request, when the key fits into them. -/
def keyedHeaders (build : Text → List (String × Text)) (apiKey : Text) :
    Except PyException (List (String × Text)) :=
  match apiKeyFormatError apiKey with
  | some error => .error (providerError error none)
  | none => .ok (build apiKey)

/-- `client.post(...)`: the headers are made before anything is sent. -/
def post (headers : Except PyException (List (String × Text))) (x : Exchange) :
    Except PyException Response := do
  let _ ← headers
  x.send

/-- `except httpx.HTTPError` around a request. -/
def connecting (sent : Except PyException Response) : Except PyException Response :=
  handling PyException.isHttpError
    (fun _ => providerError "Provider에 연결하지 못했습니다." none) sent

variable {build : Text → List (String × Text)} {apiKey : Text} {x : Exchange} {lax : Prop}
  {α : Type}

@[simp] theorem post_eq_ok {r : Response} :
    post (keyedHeaders build apiKey) x = .ok r ↔ KeyFits apiKey ∧ x = .response r := by
  unfold post keyedHeaders KeyFits
  cases apiKeyFormatError apiKey <;> cases x <;> simp [bind, Except.bind, Exchange.send]

end

end Maeglagi.Provider
