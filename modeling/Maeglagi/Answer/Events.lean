import Maeglagi.Answer.Citations
import Maeglagi.Context.Store

/-!
# The answer to a question

`answer_events` and the stream around it: the evidence first, then the answer as the model
writes it, then how it ended. The model and the way its stream ends are arguments.
-/

namespace Maeglagi.Answer

open Core Context

variable {Id : Type}

/-- `AnswerSource` -/
structure AnswerSource (Id : Type) where
  index : Nat
  sourceId : Id
  chunkId : Option Id
  kind : Text
  title : Text
  excerpt : Text
  timestamp : Option PyFloat
  deriving DecidableEq

/-- `Evidence` -/
structure Evidence (Id : Type) where
  source : AnswerSource Id
  text : Text
  deriving DecidableEq

/-- `GraphFact` -/
structure GraphFact where
  source : Text
  kind : Text
  target : Text
  superseded : List Text
  deriving DecidableEq

/-- The parts of a `RetrievalResult` that an answer reads. -/
structure RetrievalResult (Id : Type) where
  evidence : List (Evidence Id)
  facts : List GraphFact
  deriving DecidableEq

/-- `ChatMessage` -/
structure ChatMessage where
  role : Text
  content : Text
  deriving DecidableEq

/-- The fields of `ChatRequest` that an answer sets. -/
structure ChatRequest where
  messages : List ChatMessage
  model : Text
  temperature : Rat
  deriving DecidableEq

/-- How a call of the model, or the code around it, raises. -/
inductive Failure where
  | provider (message : Text)
  | notImplemented
  | other
  deriving DecidableEq

/-- What an asynchronous generator yields, and the exception it ends with, if any. -/
structure Generated (α : Type) where
  yielded : List α
  failure : Option Failure
  deriving DecidableEq

/-- The two calls of a `ProviderAdapter` that an answer makes. -/
structure ProviderAdapter where
  stream : ChatRequest → Generated Text
  chat : ChatRequest → Except Failure Text

/-- `NO_EVIDENCE` -/
def noEvidence : Text :=
  "질문과 관련된 근거를 찾지 못했습니다. 회의나 문서를 올린 뒤 다시 물어봐 주세요.".toList

/-- `EMPTY_ANSWER` -/
def emptyAnswer : Text :=
  "모델이 답변을 만들지 못했습니다. 잠시 후 다시 시도해 주세요.".toList

/-- `INTERNAL_ERROR` -/
def internalError : Text :=
  "답변을 만드는 중 문제가 생겼습니다. 잠시 후 다시 시도해 주세요.".toList

/-- `SYSTEM_PROMPT` -/
def systemPrompt : Text :=
  ("당신은 '맥락이'입니다. 팀의 회의와 문서에서 뽑은 근거만으로 질문에 답합니다.\n" ++
    "규칙:\n" ++
    "1. 아래 [근거]에 적힌 내용으로만 답합니다. 근거에 없는 사실, 담당자, 날짜, 이유는 만들지 " ++
    "않습니다. 근거가 부족하면 부족하다고 말합니다.\n" ++
    "2. 근거를 인용할 때마다 문장 끝에 [1]처럼 근거 번호를 붙입니다. 목록에 없는 번호는 " ++
    "쓰지 않습니다.\n" ++
    "3. [현재 상황]의 '유효한 결정'에 없는 결정, 또는 '대체됨'으로 표시된 결정은 지금의 방침이라고 " ++
    "단정하지 않습니다. 이후 바뀌었을 수 있다고 밝히고, 무엇으로 대체됐는지 근거가 있으면 " ++
    "함께 말합니다.\n" ++
    "4. [현재 상황]과 [관계]는 방향을 잡는 참고일 뿐입니다. 사실 주장은 반드시 [근거]로 " ++
    "뒷받침합니다.\n" ++
    "5. 한국어로, 짧고 분명하게 답합니다." ++
    "\n6. [이전 대화]는 대명사와 질문 의도를 이해하는 참고일 뿐 사실의 근거가 아닙니다. " ++
    "현재 [근거]로 확인되지 않은 과거 답변의 내용은 사실로 반복하지 않습니다.").toList

/-- The text, unless it is empty. -/
def orDefault (text : Text) (default : String) : Text := if text = [] then default.toList else text

/-- `f"{_:02d}"` -/
def twoDigits (n : Int) : Text :=
  let printed := (toString n).toList
  if printed.length < 2 then '0' :: printed else printed

/-- `_format_time` -/
def formatTime (seconds : Option PyFloat) : Except Failure Text :=
  match seconds with
  | none => .ok []
  | some seconds =>
    match seconds.toInt with
    | none => .error .other
    | some total =>
      .ok (", ".toList ++ twoDigits (total.fdiv 60) ++ ':' :: twoDigits (total.fmod 60))

/-- `", ".join` of titles, or `없음` for none. -/
def titles (names : List Text) : Text := orDefault (joined names) "없음"

/-- `_store_section` -/
def storeSection (store : Option ContextStoreState) : Text :=
  match store with
  | none => "(아직 정리된 현재 상황이 없습니다.)".toList
  | some store =>
    if store.currentState = [] ∧ store.decisions = [] ∧ store.openIssues = [] then
      "(아직 정리된 현재 상황이 없습니다.)".toList
    else
      let state := if store.currentState = [] then []
        else ["현재 상태: ".toList ++ store.currentState]
      "\n".toList.intercalate (["프로젝트: ".toList ++ store.subject] ++ state ++
        ["유효한 결정: ".toList ++ titles (store.decisions.map (·.title)),
          "열린 이슈: ".toList ++ titles (store.openIssues.map (·.title)),
          "다음 할 일: ".toList ++ titles (store.nextActions.map (·.title))])

/-- `_facts_section` -/
def factsSection (facts : List GraphFact) : Text :=
  if facts = [] then "(찾은 관계가 없습니다.)".toList
  else "\n".toList.intercalate (facts.map fun fact =>
    let note := if fact.superseded = [] then []
      else " (대체됨: ".toList ++ joined fact.superseded ++ [')']
    "- ".toList ++ fact.source ++ " -".toList ++ fact.kind ++ "-> ".toList ++ fact.target ++ note)

/-- One piece of evidence in the prompt. -/
def evidenceSection (item : Evidence Id) : Except Failure Text := do
  let time ← formatTime item.source.timestamp
  let kind := if item.source.kind = "meeting".toList then "회의" else "문서"
  return '[' :: (toString item.source.index).toList ++ "] (".toList ++ kind.toList ++ ": ".toList ++
    item.source.title ++ time ++ ")\n".toList ++ item.text

/-- `build_messages` -/
def buildMessages (question : Text) (retrieval : RetrievalResult Id)
    (store : Option ContextStoreState) (history : List (Text × Text)) :
    Except Failure (List ChatMessage) := do
  let evidence ← retrieval.evidence.mapM evidenceSection
  let previous := "\n".toList.intercalate ((history.drop (history.length - 6)).map fun turn =>
    "질문: ".toList ++ turn.1 ++ "\n답변: ".toList ++ turn.2)
  let user := "[이전 대화]\n".toList ++ orDefault previous "(없음)" ++ "\n\n[현재 상황]\n".toList ++
    storeSection store ++ "\n\n[관계]\n".toList ++ factsSection retrieval.facts ++
    "\n\n[근거]\n".toList ++ "\n\n".toList.intercalate evidence ++ "\n\n질문: ".toList ++ question
  return [⟨"system".toList, systemPrompt⟩, ⟨"user".toList, user⟩]

/-- The events of an answer. -/
inductive Event (Id : Type) where
  | sources (sources : List (AnswerSource Id))
  | token (text : Text)
  | done
  | error (message : Text) (code : Option Text)
  deriving DecidableEq

/-- A call of the model. -/
inductive Call where
  | stream
  | chat
  deriving DecidableEq

/-- `_generate`: the pieces of the answer, and the calls it took. -/
def generate (adapter : ProviderAdapter) (request : ChatRequest) :
    Generated Text × List Call :=
  let streamed := adapter.stream request
  match streamed.failure with
  | some .notImplemented =>
    match adapter.chat request with
    | .ok text => (⟨streamed.yielded ++ [text], none⟩, [.stream, .chat])
    | .error failure => (⟨streamed.yielded, some failure⟩, [.stream, .chat])
  | _ => (streamed, [.stream])

/-- What `answer_events` is called with. -/
structure Question (Id : Type) where
  model : Text
  question : Text
  history : List (Text × Text)
  retrieval : RetrievalResult Id
  store : Option ContextStoreState

/-- A frame of the event stream: an event, or the `[DONE]` that ends it. -/
inductive Frame (Id : Type) where
  | data (event : Event Id)
  | finish
  deriving DecidableEq

/-- `_sse` -/
def sse (events : Generated (Event Id)) : List (Frame Id) :=
  events.yielded.map .data ++
    (match events.failure with
      | none => []
      | some _ => [.data (.error internalError none)]) ++ [.finish]

end Maeglagi.Answer
