import Mathlib.Algebra.Order.Ring.Rat
import Mathlib.Data.Rat.Defs
import Maeglagi.Core.JsStrings
import Maeglagi.Core.Machine

/-!
# The capture of a meeting

`MeetingCapture` with the recognition of the browser, `mergeTranscript` and the roster of the
speakers. A recognition session reports all its results at each event; they are merged, with the
rows that were there when the session started, into the draft that its user edits.
-/

namespace Maeglagi.Drafts

open Core

variable {K : Type} [DecidableEq K]

/-- `TranscriptSegment`, with what else a row hands over when it is merged again. -/
structure Segment (K : Type) where
  id : Int
  text : JsString
  isFinal : Bool
  startSeconds : Option Rat
  endSeconds : Option Rat
  personId : Option K
  edited : Bool
  deriving DecidableEq

/-- A `TranscriptTurn` of the capture. -/
structure LiveTurn (K : Type) extends Segment K where
  speaker : K
  deriving DecidableEq

/-- `MeetingSpeaker` -/
structure MeetingSpeaker (K : Type) where
  id : K
  name : JsString
  deriving DecidableEq

/-- What `addRoster` reads of a person. -/
structure RosterPerson (K : Type) where
  id : K
  name : JsString
  email : Option JsString
  deriving DecidableEq

/-- The segment of an id in the map that `mergeTranscript` builds: the last one. -/
def updateFor (incoming : List (Segment K)) (id : Int) : Option (Segment K) :=
  incoming.reverse.find? fun segment => segment.id = id

/-- What the first loop of `mergeTranscript` makes of a row. -/
def keptTurn (incoming : List (Segment K)) (row : LiveTurn K) : Option (LiveTurn K) :=
  if row.id < 0 then some row
  else
    match updateFor incoming row.id with
    | some update => some { row with
        text := if row.edited then row.text else update.text
        isFinal := update.isFinal
        startSeconds := row.startSeconds.or update.startSeconds
        endSeconds := update.endSeconds.or row.endSeconds }
    | none => if row.edited || row.isFinal then some row else none

/-- A turn of the second loop: the rows, and the ids that exist. -/
def addSegment (activeSpeaker : K) (state : List (LiveTurn K) × List Int) (segment : Segment K) :
    List (LiveTurn K) × List Int :=
  if segment.id ∈ state.2 then state
  else (state.1 ++ [{ segment with speaker := activeSpeaker }], state.2 ++ [segment.id])

/-- `mergeTranscript` -/
def mergeTranscript (current : List (LiveTurn K)) (incoming : List (Segment K))
    (activeSpeaker : K) : List (LiveTurn K) :=
  (incoming.foldl (addSegment activeSpeaker)
    (current.filterMap (keptTurn incoming), current.map fun row => row.id)).1

/-- `화자 ` -/
def speakerPrefix : JsString := codeUnits "화자 ".toList

/-- The number in an automatic name. -/
def speakerNumber (name : JsString) : Option Nat :=
  let name := trim name
  let digits := name.drop speakerPrefix.length
  if speakerPrefix <+: name ∧ digits ≠ [] ∧ digits.all isJsDigit = true ∧
      digits.head? ≠ some 48 then
    some (digits.foldl (fun value c => 10 * value + (c.toNat - 48)) 0)
  else none

/-- The decimal digits of a number. -/
def decimal (n : Nat) : JsString := codeUnits (Nat.toDigits 10 n)

/-- `nextLocalSpeakerName`: the first number that no name has. -/
def nextLocalSpeakerName (speakers : List (MeetingSpeaker K)) : JsString :=
  let used := speakers.filterMap fun speaker => speakerNumber speaker.name
  let number := ((List.range' 1 (used.length + 1)).find? fun n => n ∉ used).getD 1
  speakerPrefix ++ decimal number

/-- The key of an email address; an empty one is none. The lower case is the browser's. -/
def emailKey (lower : JsString → JsString) (person : RosterPerson K) : Option JsString :=
  (person.email.map fun email => lower (trim email)).filter fun email => email ≠ []

/-- The body of the loop of `addRoster`, on the speakers, the ids and the emails seen. -/
def addMember (lower : JsString → JsString)
    (state : List (MeetingSpeaker K) × List K × List JsString) (person : RosterPerson K) :
    List (MeetingSpeaker K) × List K × List JsString :=
  let (next, seen, seenEmails) := state
  if person.id ∈ seen ∨ (emailKey lower person).any (fun email => email ∈ seenEmails) = true then
    state
  else (next ++ [⟨person.id, person.name⟩], seen ++ [person.id],
    seenEmails ++ (emailKey lower person).toList)

/-- `addRoster` -/
def addRoster (lower : JsString → JsString) (speakers : List (MeetingSpeaker K))
    (roster directory : List (RosterPerson K)) : List (MeetingSpeaker K) :=
  let seen := speakers.map MeetingSpeaker.id
  let seenEmails := (directory.filter fun person => person.id ∈ seen).filterMap (emailKey lower)
  (roster.foldl (addMember lower) (speakers, seen, seenEmails)).1

/-- What `removeSpeaker` returns. -/
structure Removal (K : Type) where
  speakers : List (MeetingSpeaker K)
  rows : List (LiveTurn K)
  currentSpeaker : K
  replacement : Option (MeetingSpeaker K)

/-- A row of a removed speaker goes to another one. -/
def reassign (removedId replacementId : K) (row : LiveTurn K) : LiveTurn K :=
  if row.speaker = removedId then { row with speaker := replacementId, personId := none } else row

/-- `removeSpeaker` -/
def removeSpeaker (speakers : List (MeetingSpeaker K)) (rows : List (LiveTurn K))
    (currentSpeaker removedId replacementId : K) : Removal K :=
  match speakers.findIdx? fun speaker => speaker.id = removedId with
  | none => ⟨speakers, rows, currentSpeaker, none⟩
  | some index =>
    let reassigned := (rows.filter fun row => row.speaker = removedId).length
    let others := speakers.filter fun speaker => speaker.id ≠ removedId
    if 0 < reassigned ∨ currentSpeaker = removedId ∨ speakers.length = 1 then
      let replacement := ⟨replacementId, nextLocalSpeakerName speakers⟩
      ⟨others.take index ++ replacement :: others.drop index,
        rows.map (reassign removedId replacementId),
        if currentSpeaker = removedId then replacementId else currentSpeaker, some replacement⟩
    else ⟨others, rows, currentSpeaker, none⟩

/-- A result of a recognition. -/
structure RecognitionResult where
  transcript : JsString
  isFinal : Bool
  deriving DecidableEq

/-- A recognition session: when it started, the ids and the times of its results, and what it
reported last. -/
structure Recognition where
  startedAt : Rat
  resultIds : List Nat
  resultStarts : List Rat
  results : List RecognitionResult

/-- The state of `MeetingCapture`. -/
structure Capture (K : Type) where
  draft : Option (List (LiveTurn K))
  previousSegments : List (LiveTurn K)
  deletedIds : List Int
  manualId : Int
  nextId : Nat
  sessions : List Recognition
  listening : Bool
  duration : Rat
  speakers : List (MeetingSpeaker K)
  speaker : K

/-- What happens during a capture. A session is named by its place among those started. -/
inductive CaptureEvent (K : Type) where
  | start (now : Rat) (started restarted : Bool)
  | result (session : Nat) (now : Rat) (results : List RecognitionResult)
  | ended (seconds : Rat)
  | update (id : Int) (text : Option JsString) (speaker : Option K)
  | delete (id : Int)
  | addTurn
  | pickSpeaker (id : K)
  | addPerson (directory : List (RosterPerson K)) (person : RosterPerson K)
  | loadProjectPeople (directory roster : List (RosterPerson K))
  | addLocalSpeaker (id : K) (name : JsString)
  | renameSpeaker (id : K) (name : JsString)
  | deleteSpeaker (id replacementId : K)

namespace Recognition

/-- The session after an event: results that it reports for the first time get ids and times. -/
def reported (session : Recognition) (nextId : Nat) (now : Rat) (results : List RecognitionResult) :
    Recognition :=
  let fresh := results.length - session.resultIds.length
  { session with
    resultIds := session.resultIds ++ List.range' nextId fresh
    resultStarts := session.resultStarts ++ List.replicate fresh (max 0 (now - session.startedAt))
    results }

/-- The segments that a session hands on; `duration` is what was captured before. -/
def segments (session : Recognition) (duration now : Rat) : List (Segment K) :=
  ((session.results.zip (session.resultIds.zip session.resultStarts)).map
    fun (result, id, start) =>
      { id := id
        text := trim result.transcript
        isFinal := result.isFinal
        startSeconds := some (start + duration)
        endSeconds :=
          if result.isFinal then some (max start (now - session.startedAt) + duration) else none
        personId := none
        edited := false }).filter fun segment => segment.text ≠ []

end Recognition

namespace Capture

/-- A capture before its recording; the first speaker is a local one. -/
def initial (first : K) : Capture K where
  draft := none
  previousSegments := []
  deletedIds := []
  manualId := -1
  nextId := 0
  sessions := []
  listening := false
  duration := 0
  speakers := [⟨first, speakerPrefix ++ decimal 1⟩]
  speaker := first

/-- The rows of the draft. -/
def rows (s : Capture K) : List (LiveTurn K) := s.draft.getD []

/-- The ids of the speakers. -/
def speakerIds (s : Capture K) : List K := s.speakers.map MeetingSpeaker.id

/-- The recognition starts, or its start fails. -/
def start (s : Capture K) (now : Rat) (started restarted : Bool) : Option (Capture K) :=
  if started && s.listening then none
  else some { s with
    previousSegments := s.rows
    sessions := if started then s.sessions ++ [⟨now, [], [], []⟩] else s.sessions
    listening := s.listening || started
    draft := if started && !restarted then some s.rows else s.draft }

/-- The segments of a session that are merged, with those of the rows before it. -/
def incoming (s : Capture K) (session : Recognition) (now : Rat) : List (Segment K) :=
  (s.previousSegments.map LiveTurn.toSegment ++ session.segments s.duration now).filter
    fun segment => segment.id ∉ s.deletedIds

/-- `onresult`, and what the capture does with the segments. -/
def result (s : Capture K) (i : Nat) (now : Rat) (results : List RecognitionResult) :
    Option (Capture K) := do
  let before ← s.sessions[i]?
  let session := before.reported s.nextId now results
  return { s with
    nextId := s.nextId + (results.length - before.resultIds.length)
    sessions := s.sessions.set i session
    draft := some (mergeTranscript s.rows (s.incoming session now) s.speaker) }

/-- `update` -/
def update (s : Capture K) (id : Int) (text : Option JsString) (speaker : Option K) : Capture K :=
  { s with draft := s.draft.map fun rows => rows.map fun row =>
      if row.id = id then
        { row with text := text.getD row.text, speaker := speaker.getD row.speaker, edited := true }
      else row }

/-- `deleteSpeaker` -/
def deleteSpeaker (s : Capture K) (id replacementId : K) : Capture K :=
  let result := removeSpeaker s.speakers s.rows s.speaker id replacementId
  { s with
    speakers := result.speakers
    draft := s.draft.map fun _ => result.rows
    previousSegments :=
      match result.replacement with
      | none => s.previousSegments
      | some replacement => s.previousSegments.map (reassign id replacement.id)
    speaker := result.currentSpeaker }

/-- One event, if it is possible. The editor offers the speakers of the list. -/
def step (lower : JsString → JsString) (s : Capture K) : CaptureEvent K → Option (Capture K)
  | .start now started restarted => s.start now started restarted
  | .result i now results => s.result i now results
  | .ended seconds =>
    if s.listening then
      some { s with
        listening := false
        duration := s.duration + seconds
        draft := some s.rows }
    else none
  | .update id text speaker =>
    if ∀ k ∈ speaker, k ∈ s.speakerIds then some (s.update id text speaker) else none
  | .delete id =>
    if id ∈ s.rows.map fun row => row.id then
      some { s with
        deletedIds := s.deletedIds ++ [id]
        draft := s.draft.map fun rows => rows.filter fun row => row.id ≠ id }
    else none
  | .addTurn => some { s with
      manualId := s.manualId - 1
      draft := some (s.rows ++ [⟨⟨s.manualId, [], true, none, none, none, true⟩, s.speaker⟩]) }
  | .pickSpeaker id => if id ∈ s.speakerIds then some { s with speaker := id } else none
  | .addPerson directory person =>
    if person.id ∈ s.speakerIds then some s
    else some { s with speakers := addRoster lower s.speakers [person] directory }
  | .loadProjectPeople directory roster =>
    some { s with speakers := addRoster lower s.speakers roster directory }
  | .addLocalSpeaker id name =>
    let name := if trim name = [] then nextLocalSpeakerName s.speakers else trim name
    some { s with speakers := s.speakers ++ [⟨id, name⟩] }
  | .renameSpeaker id name =>
    some { s with speakers := s.speakers.map fun speaker =>
      if speaker.id = id then { speaker with name } else speaker }
  | .deleteSpeaker id replacementId => some (s.deleteSpeaker id replacementId)

/-- The id of a result of a session. -/
def idAt (s : Capture K) (i j : Nat) : Option Nat :=
  s.sessions[i]?.bind fun session => session.resultIds[j]?

/-- A result that a session reported last. -/
def resultAt (s : Capture K) (i j : Nat) : Option RecognitionResult :=
  s.sessions[i]?.bind fun session => session.results[j]?

/-- A session reports all its results at each event: what was final is there as it was. -/
def Reports (s : Capture K) : CaptureEvent K → Prop
  | .result i _ results =>
    ∀ j r, s.resultAt i j = some r → r.isFinal = true → results[j]? = some r
  | _ => True

/-- The id of a new local speaker, `crypto.randomUUID`, is not the id of a speaker. -/
def Fresh (s : Capture K) : CaptureEvent K → Prop
  | .addLocalSpeaker id _ => id ∉ s.speakerIds
  | .deleteSpeaker _ replacementId => replacementId ∉ s.speakerIds
  | _ => True

end Capture

end Maeglagi.Drafts
