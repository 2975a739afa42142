import Mathlib.Data.List.Sort
import Maeglagi.Ask.Asking
import Maeglagi.Core.JsonTexts

/-!
# Stored conversations

`ask-conversations.ts` and the end of `ask-turns.ts`: conversations are written as one text, in
which the turns have a version of their own, and are read from any text that the storage may hold.
-/

namespace Maeglagi.Ask

open Core Core.JsonTexts

/-- `SourceKind` -/
inductive SourceKind where
  | document | meeting
  deriving DecidableEq

/-- `AnswerSource` -/
structure AnswerSource where
  index : JsNumber
  sourceId : JsString
  chunkId : Option JsString
  kind : SourceKind
  title : JsString
  excerpt : JsString
  timestamp : Option JsNumber

/-- `AskConversation` -/
structure Conversation where
  id : JsString
  title : JsString
  createdAt : JsString
  updatedAt : JsString
  turns : List (AskTurn AnswerSource)

/-! ## Values as they are stringified -/

/-- A name of a property or a constant. -/
def word (s : String) : JsString := codeUnits s.toList

/-- A property of which `undefined` is left out. -/
def optional (name : String) (value : Option JsonValue) : List (JsString × JsonValue) :=
  value.toList.map fun v => (word name, v)

def SourceKind.text : SourceKind → JsString
  | .document => word "document"
  | .meeting => word "meeting"

def AnswerSource.toJson (source : AnswerSource) : JsonValue :=
  .object <|
    [(word "index", .number source.index), (word "sourceId", .string source.sourceId)] ++
      optional "chunkId" (source.chunkId.map .string) ++
      [(word "kind", .string source.kind.text), (word "title", .string source.title),
        (word "excerpt", .string source.excerpt)] ++
      optional "timestamp" (source.timestamp.map .number)

def AskTurnStatus.text : AskTurnStatus → JsString
  | .streaming => word "streaming"
  | .done => word "done"
  | .error => word "error"
  | .aborted => word "aborted"
  | .noEvidence => word "no_evidence"

def ErrorAction.text : ErrorAction → JsString
  | .settings => word "settings"

def AskTurn.toJson (turn : AskTurn AnswerSource) : JsonValue :=
  .object <|
    [(word "id", .string turn.id), (word "question", .string turn.question),
      (word "answer", .string turn.answer), (word "sources", .array (turn.sources.map (·.toJson))),
      (word "status", .string turn.status.text)] ++
      optional "errorMessage" (turn.errorMessage.map .string) ++
      optional "errorAction" (turn.errorAction.map fun action => .string action.text)

/-- `STORAGE_VERSION` and `VERSION` -/
def storageVersion : JsonValue := .number (.finite .one)

/-- `{ version, turns }`, of which the turns may be `undefined`. -/
def turnsEnvelope (turns : Option JsonValue) : JsonValue :=
  .object ((word "version", storageVersion) :: optional "turns" turns)

/-- A conversation with other turns. -/
def Conversation.toJson (conversation : Conversation) (turns : Option JsonValue) :
    JsonValue :=
  .object <|
    [(word "id", .string conversation.id), (word "title", .string conversation.title),
      (word "createdAt", .string conversation.createdAt),
      (word "updatedAt", .string conversation.updatedAt)] ++
      optional "turns" turns

/-! ## Properties of values that were parsed -/

/-- A property of a value other than `null`, unless it is `undefined`. -/
def prop (v : JsonValue) (name : String) : Option JsonValue :=
  match v with
  | .object fields => Dict.read fields (word name)
  | _ => none

/-- A property that is a string. -/
def stringProp (v : JsonValue) (name : String) : Option JsString :=
  match prop v name with
  | some (.string s) => some s
  | _ => none

/-- `typeof _ === "number"` of a property. -/
def hasNumber (v : JsonValue) (name : String) : Bool :=
  match prop v name with
  | some (.number _) => true
  | _ => false

/-- A property that is an array. -/
def arrayProp (v : JsonValue) (name : String) : Option (List JsonValue) :=
  match prop v name with
  | some (.array items) => some items
  | _ => none

/-- `_.version === STORAGE_VERSION` -/
def hasVersion (v : JsonValue) : Bool :=
  match prop v "version" with
  | some (.number n) => n = .finite .one
  | _ => false

/-! ## Turns -/

/-- `STORED_TURN_LIMIT` -/
def storedTurnLimit : ℕ := 30

/-- The finished turns that are stored: the last ones, up to the limit. -/
def storedTurns (turns : List (AskTurn AnswerSource)) : List (AskTurn AnswerSource) :=
  let finished := turns.filter fun turn => turn.status ≠ .streaming
  finished.drop (finished.length - storedTurnLimit)

/-- `serializeTurns` -/
def serializeTurns (turns : List (AskTurn AnswerSource)) : JsString :=
  (turnsEnvelope (some (.array ((storedTurns turns).map (·.toJson))))).stringify

/-- `RESTORABLE` -/
def restorable : List JsString := [word "done", word "error", word "aborted", word "no_evidence"]

/-- `isSource` -/
def isSource (v : JsonValue) : Bool :=
  hasNumber v "index" && (stringProp v "sourceId").isSome && (stringProp v "title").isSome &&
    (stringProp v "excerpt").isSome &&
    (stringProp v "kind" = some (word "meeting") || stringProp v "kind" = some (word "document"))

/-- `isTurn` -/
def isTurn (v : JsonValue) : Bool :=
  (stringProp v "id").isSome && (stringProp v "question").isSome &&
    (stringProp v "answer").isSome && (stringProp v "status").any (· ∈ restorable) &&
    (arrayProp v "sources").any (·.all isSource)

/-- `parseTurns` -/
def parseTurns (raw : Option JsString) : List JsonValue :=
  match raw with
  | none | some [] => []
  | some (c :: rest) =>
    match JsonValue.parse (c :: rest) with
    | none => []
    | some parsed =>
      if hasVersion parsed then
        match arrayProp parsed "turns" with
        | none => []
        | some turns => turns.filter isTurn
      else []

/-! ## Conversations -/

/-- `MAX_CONVERSATIONS` -/
def maxConversations : ℕ := 10

section

variable (localeCompare : JsString → JsString → ℤ)

/-- `recentConversations` -/
def recentConversations (conversations : List Conversation) : List Conversation :=
  (conversations.insertionSort fun a b => localeCompare b.updatedAt a.updatedAt ≤ 0).take
    maxConversations

/-- What `serializeConversations` makes of a conversation, without a value where `JSON.parse` or
the read of `turns` throws. -/
def storedConversation (conversation : Conversation) : Option JsonValue :=
  match JsonValue.parse (serializeTurns conversation.turns) with
  | none | some .null => none
  | some parsed => some (conversation.toJson (prop parsed "turns"))

/-- `serializeConversations` -/
def serializeConversations (conversations : List Conversation) (activeId : JsString) :
    Option JsString :=
  ((recentConversations localeCompare conversations).mapM storedConversation).map fun stored =>
    (JsonValue.object [(word "version", storageVersion), (word "activeId", .string activeId),
      (word "conversations", .array stored)]).stringify

end

/-- The conversations that were restored; the turns of each passed `isTurn`. -/
structure StoredConversations where
  activeId : JsString
  conversations : List JsonValue

/-- `item is AskConversation` -/
def isConversation (item : JsonValue) : Bool :=
  (stringProp item "id").isSome && (stringProp item "title").isSome &&
    (stringProp item "createdAt").isSome && (stringProp item "updatedAt").isSome

/-- `{ ...item, turns }` of an item that has an id, and so is an object. -/
def withTurns (item : JsonValue) (turns : List JsonValue) : JsonValue :=
  match item with
  | .object fields => .object (Dict.assign fields (word "turns") (.array turns))
  | _ => item

/-- A conversation with those of its turns that can be restored. -/
def restoredConversation (item : JsonValue) : JsonValue :=
  withTurns item (parseTurns (some (turnsEnvelope (prop item "turns")).stringify))

/-- The active one of the ids of some conversations. -/
def activeAmong (conversations : List JsonValue) (first : JsonValue) (active : Option JsString) :
    JsString :=
  match active with
  | some a =>
    if conversations.any fun item => stringProp item "id" = some a then a
    else (stringProp first "id").getD []
  | none => (stringProp first "id").getD []

/-- `parseConversations` -/
def parseConversations (raw : Option JsString) : Option StoredConversations :=
  match raw with
  | none | some [] => none
  | some (c :: rest) =>
    match JsonValue.parse (c :: rest) with
    | none => none
    | some parsed =>
      if hasVersion parsed then
        match arrayProp parsed "conversations" with
        | none => none
        | some items =>
          match ((items.filter isConversation).take maxConversations).map restoredConversation with
          | [] => none
          | first :: more =>
            some
              { activeId := activeAmong (first :: more) first (stringProp parsed "activeId")
                conversations := first :: more }
      else none

end Maeglagi.Ask
