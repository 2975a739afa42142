import Maeglagi.Core.Machine
import Maeglagi.Sources.Attempt
import Maeglagi.Sources.Review

/-!
# Drafts and the dialog that reviews them
-/

namespace Maeglagi.Drafts

open Core

/-!
## The transcript of a draft

`transcript-draft.ts` and what the review dialog makes of the utterances it is served: a row
has a local number, under which the id of a served utterance is kept.
-/

section

variable {Id : Type} [DecidableEq Id]

/-- The id of a speaker option: a person of the directory, or one of the dialog's own keys
`local-n` and `raw-n`. -/
inductive SpeakerKey (Id : Type) where
  | person (id : Id)
  | unregistered (n : Nat)
  | raw (n : Nat)
  deriving DecidableEq

/-- `SpeakerOption` -/
structure SpeakerOption (Id : Type) where
  id : SpeakerKey Id
  name : Text
  deriving DecidableEq

/-- `TranscriptTurn` -/
structure TranscriptTurn (Id : Type) where
  id : Int
  speaker : SpeakerKey Id
  personId : Option Id
  text : Text
  startSeconds : Option Rat
  endSeconds : Option Rat
  deriving DecidableEq

/-- The person an id of a speaker option stands for. -/
def personOf (people : List (WorkspacePerson Id)) (speaker : SpeakerKey Id) :
    Option (WorkspacePerson Id) :=
  people.find? fun item => decide (SpeakerKey.person item.id = speaker)

/-- `unresolvedReviewPeople` -/
def unresolvedReviewPeople (rows : List (TranscriptTurn Id)) (people : List (WorkspacePerson Id)) :
    List Int :=
  (rows.filter fun row =>
    (personOf people row.speaker).any (·.archived) ||
      (decide (row.personId.map .person = some row.speaker) &&
        (personOf people row.speaker).isNone)).map TranscriptTurn.id

/-- The id of an utterance that no server gave one. -/
def manualId (id : Int) : Text := "manual-".toList ++ Nat.toDigits 10 id.natAbs

/-- The id under which a row is saved. -/
def utteranceId (ids : Dict Int Text) (row : TranscriptTurn Id) : Text :=
  (ids.get? row.id).getD (manualId row.id)

/-- The first of two names that is not empty. -/
def nameOr (name : Option Text) (other : Text) : Text :=
  match name with
  | some (c :: rest) => c :: rest
  | _ => other

/-- `reviewUtterances` -/
def reviewUtterances (rows : List (TranscriptTurn Id)) (people : List (WorkspacePerson Id))
    (speakers : List (SpeakerOption Id)) (ids : Dict Int Text) : List (Utterance Id) :=
  rows.map fun row =>
    let person := personOf people row.speaker
    let speaker := speakers.find? fun item => decide (item.id = row.speaker)
    { id := utteranceId ids row
      personId :=
        match person with
        | some person => some person.id
        | none => if row.personId.map .person = some row.speaker then row.personId else none
      speakerName :=
        nameOr (person.map (·.name)) (nameOr (speaker.map SpeakerOption.name) defaultSpeaker)
      text := row.text
      startSeconds := row.startSeconds
      endSeconds := row.endSeconds }

/-- The option of a person of the directory; the suggested ones are marked. -/
def personOption (suggested : List Id) (item : WorkspacePerson Id) : SpeakerOption Id :=
  ⟨.person item.id, item.name ++
    (if item.archived then " (보관됨)".toList
    else if item.id ∈ suggested then " · 프로젝트 참여자".toList else [])⟩

/-- The options for the people of the directory, the suggested ones first. -/
def rosterOptions (roster : List (WorkspacePerson Id)) (suggested : List Id) :
    List (SpeakerOption Id) :=
  (roster.filter (fun item => decide (item.id ∈ suggested)) ++
    roster.filter fun item => decide (item.id ∉ suggested)).map (personOption suggested)

/-- The options for people that utterances name and the directory lacks. -/
def missingOptions (roster : List (WorkspacePerson Id)) (options : List (SpeakerOption Id))
    (utterances : List (Utterance Id)) : List (SpeakerOption Id) :=
  utterances.foldl (fun options item =>
    match item.personId with
    | none => options
    | some id =>
      if (roster.any fun person => decide (person.id = id)) ||
        options.any fun speaker => decide (speaker.id = .person id) then options
      else options ++ [⟨.person id, item.speakerName ++ " (목록에 없음)".toList⟩]) options

/-- The names of the unregistered speakers, in the order of their first utterance. -/
def unregisteredNames (utterances : List (Utterance Id)) : List Text :=
  ((utterances.filter fun item => item.personId.isNone && decide (item.speakerName ≠ [])).map
    Utterance.speakerName).eraseDups

/-- The key of an unregistered speaker: their names are numbered from one. -/
def assignedKey (names : List Text) (name : Text) : Option (SpeakerKey Id) :=
  if name ∈ names then some (.unregistered (names.idxOf name + 1)) else none

/-- The speaker options of a review. -/
def reviewOptions (roster : List (WorkspacePerson Id)) (suggested : List Id)
    (utterances : List (Utterance Id)) : List (SpeakerOption Id) :=
  let options := missingOptions roster (rosterOptions roster suggested) utterances ++
    (unregisteredNames utterances).zipIdx.map fun entry => ⟨.unregistered (entry.2 + 1), entry.1⟩
  if options = [] then [⟨.unregistered 1, defaultSpeaker⟩] else options

/-- `options[0].id` of a list of options that is not empty. -/
def firstKey (options : List (SpeakerOption Id)) : SpeakerKey Id :=
  (options.head?.map SpeakerOption.id).getD (.unregistered 1)

/-- The ids of served utterances, under the numbers of their rows. -/
def servedIds (utterances : List (Utterance Id)) : Dict Int Text :=
  utterances.zipIdx.foldl (fun ids entry => ids.set (entry.2 + 1) entry.1.id) Dict.empty

/-- The rows of served utterances. -/
def servedRows (keyOf : Utterance Id → SpeakerKey Id) (keepPerson : Bool)
    (utterances : List (Utterance Id)) : List (TranscriptTurn Id) :=
  utterances.mapIdx fun i item =>
    { id := i + 1
      speaker := keyOf item
      personId := if keepPerson then item.personId else none
      text := item.text
      startSeconds := item.startSeconds
      endSeconds := item.endSeconds }

end

/-!
## The review dialog

`MeetingReviewDialog` with the meeting it reviews. An answer of the server may be late, so that
the dialog loads any version the meeting had, and others may write the meeting at any time.
-/

section

variable {Id H : Type} [DecidableEq Id] [DecidableEq H]

/-- The state of `MeetingReviewDialog`. -/
structure Dialog (Id : Type) where
  review : Option (ReviewResponse Id)
  people : List (WorkspacePerson Id)
  rows : List (TranscriptTurn Id)
  projectIds : List Id
  speakers : List (SpeakerOption Id)
  activeSpeaker : SpeakerKey Id
  dirty : Bool
  conflict : Bool
  idMap : Dict Int Text
  nextId : Int

namespace Dialog

/-- The dialog when its page is loaded. -/
def mounted : Dialog Id where
  review := none
  people := []
  rows := []
  projectIds := []
  speakers := [⟨.unregistered 1, defaultSpeaker⟩]
  activeSpeaker := .unregistered 1
  dirty := false
  conflict := false
  idMap := Dict.empty
  nextId := -1

/-- What `load` does with the answers it gets. -/
def loaded (dialog : Dialog Id) (data : ReviewResponse Id) (roster : List (WorkspacePerson Id))
    (suggested : List Id) : Dialog Id :=
  let options := reviewOptions roster suggested data.utterances
  let names := unregisteredNames data.utterances
  { dialog with
    review := some data
    people := roster
    speakers := options
    activeSpeaker := firstKey options
    idMap := servedIds data.utterances
    rows := servedRows (fun item =>
      ((item.personId.map SpeakerKey.person).or (assignedKey names item.speakerName)).getD
        (firstKey options)) true data.utterances
    projectIds := data.projectIds
    dirty := false
    conflict := false }

/-- The names of the unregistered speakers of the raw transcript. -/
def rawNames (utterances : List (Utterance Id)) : List Text :=
  ((utterances.filter fun item => item.personId.isNone).map Utterance.speakerName).eraseDups

/-- `replaceFromRaw`, confirmed. -/
def replaceFromRaw (dialog : Dialog Id) : Dialog Id :=
  match dialog.review with
  | none => dialog
  | some review =>
    if review.rawUtterances = [] then dialog
    else
      let names := rawNames review.rawUtterances
      let options := (dialog.speakers.filter fun speaker =>
          match speaker.id with
          | .raw _ => false
          | _ => true) ++
        names.zipIdx.map fun entry => ⟨.raw entry.2, entry.1⟩
      { dialog with
        speakers := options
        idMap := servedIds review.rawUtterances
        rows := servedRows (fun item =>
          ((item.personId.map SpeakerKey.person).or
            (if item.speakerName ∈ names then some (.raw (names.idxOf item.speakerName))
              else none)).getD (firstKey options)) false review.rawUtterances
        dirty := true }

/-- `onAdd` -/
def add (dialog : Dialog Id) : Dialog Id :=
  { dialog with
    rows := dialog.rows ++ [⟨dialog.nextId, dialog.activeSpeaker, none, [], none, none⟩]
    nextId := dialog.nextId - 1
    dirty := true }

/-- `onChange`, which changes the speaker or the text of a row. -/
def change (dialog : Dialog Id) (id : Int) (speaker : Option (SpeakerKey Id))
    (text : Option Text) : Dialog Id :=
  { dialog with
    rows := dialog.rows.map fun row =>
      if row.id = id then
        { row with speaker := speaker.getD row.speaker, text := text.getD row.text }
      else row
    dirty := true }

/-- `onDelete` -/
def delete (dialog : Dialog Id) (id : Int) : Dialog Id :=
  { dialog with rows := dialog.rows.filter fun row => decide (row.id ≠ id), dirty := true }

/-- A new unregistered speaker; its key is the time. -/
def addSpeaker (dialog : Dialog Id) (time : Nat) (name : Text) : Dialog Id :=
  if strip name = [] then dialog
  else { dialog with
    speakers := dialog.speakers ++ [⟨.unregistered time, strip name⟩]
    activeSpeaker := .unregistered time }

/-- An unregistered speaker under another name. -/
def renameSpeaker (dialog : Dialog Id) (id : SpeakerKey Id) (name : Text) : Dialog Id :=
  { dialog with
    speakers := dialog.speakers.map fun item => if item.id = id then { item with name } else item
    dirty := true }

/-- `utterances()` -/
def utterances (dialog : Dialog Id) : List (Utterance Id) :=
  reviewUtterances dialog.rows dialog.people dialog.speakers dialog.idMap

/-- The request of `save`, when its button is enabled. -/
def saveRequest (dialog : Dialog Id) : Option (ReviewPatch Id) :=
  match dialog.review with
  | none => none
  | some review =>
    if dialog.dirty && !dialog.conflict &&
        decide (unresolvedReviewPeople dialog.rows dialog.people = []) then
      some ⟨review.revision, dialog.projectIds.head?, some dialog.projectIds, dialog.utterances⟩
    else none

end Dialog

/-- A meeting and the directory of its workspace, as the server has them. -/
structure Meeting (Id H : Type) where
  source : Source Id H
  directory : Directory Id

/-- The dialog, the meeting, and the versions that the meeting had before. -/
structure Session (Id H : Type) where
  meeting : Meeting Id H
  earlier : List (Meeting Id H)
  dialog : Dialog Id

/-- What a user does, what the server answers, and what others write; in between the same dialog
may show another meeting and add rows there. -/
inductive SessionEvent (Id H : Type) where
  | reloadPage
  | otherMeeting (adds : Nat)
  | load (version : Nat) (suggested : List Id)
  | recovered (version : Nat)
  | add
  | change (id : Int) (speaker : Option (SpeakerKey Id)) (text : Option Text)
  | delete (id : Int)
  | replaceFromRaw
  | pickSpeaker (id : SpeakerKey Id)
  | addSpeaker (time : Nat) (name : Text)
  | renameSpeaker (id : SpeakerKey Id) (name : Text)
  | pickProjects (ids : List Id)
  | save (answered : Bool)
  | written (meeting : Meeting Id H)

namespace Session

/-- The page is open and nothing is loaded yet. -/
def start (meeting : Meeting Id H) : Session Id H := ⟨meeting, [], Dialog.mounted⟩

/-- A version of the meeting, the current one first. -/
def version (s : Session Id H) (n : Nat) : Option (Meeting Id H) := (s.meeting :: s.earlier)[n]?

/-- The meeting is written. -/
def write (s : Session Id H) (meeting : Meeting Id H) : Session Id H :=
  { s with meeting, earlier := s.meeting :: s.earlier }

/-- `save`: the draft is stored or refused, and the dialog may not hear of it. -/
def save (s : Session Id H) (answered : Bool) : Option (Session Id H) := do
  let request ← s.dialog.saveRequest
  match saveReview s.meeting.directory s.meeting.source request with
  | .ok source =>
    let stored := s.write { s.meeting with source }
    match answered, getReview source with
    | true, .ok review =>
      return { stored with
        dialog := { s.dialog with review := some review, dirty := false, conflict := false } }
    | _, _ => return stored
  | .error error =>
    match error with
    | .http 409 _ =>
      return { s with dialog := { s.dialog with conflict := s.dialog.conflict || answered } }
    | _ => return s

/-- One event; a load that fails leaves the rows as they are. -/
def step (s : Session Id H) : SessionEvent Id H → Option (Session Id H)
  | .reloadPage => some { s with dialog := Dialog.mounted }
  | .otherMeeting adds =>
    some { s with dialog := { Dialog.mounted with nextId := s.dialog.nextId - adds } }
  | .load version suggested => do
    let meeting ← s.version version
    match getReview meeting.source with
    | .ok review =>
      return { s with dialog := s.dialog.loaded review meeting.directory.people suggested }
    | .error _ => return s
  | .recovered version => do
    let meeting ← s.version version
    match getReview meeting.source with
    | .ok review => return { s with dialog := { s.dialog with review := some review } }
    | .error _ => return s
  | .add => some { s with dialog := s.dialog.add }
  | .change id speaker text => some { s with dialog := s.dialog.change id speaker text }
  | .delete id => some { s with dialog := s.dialog.delete id }
  | .replaceFromRaw => some { s with dialog := s.dialog.replaceFromRaw }
  | .pickSpeaker id => some { s with dialog := { s.dialog with activeSpeaker := id } }
  | .addSpeaker time name => some { s with dialog := s.dialog.addSpeaker time name }
  | .renameSpeaker id name => some { s with dialog := s.dialog.renameSpeaker id name }
  | .pickProjects ids =>
    some { s with dialog := { s.dialog with projectIds := ids, dirty := true } }
  | .save answered => s.save answered
  | .written meeting => some (s.write meeting)

end Session

end

end Maeglagi.Drafts
