import Mathlib.Logic.Function.Basic
import Maeglagi.Core.JsStrings
import Maeglagi.Core.Machine

/-!
# The upload queue

`useSourceUpload`: rows for documents, recordings and transcripts, the transfers that fill them,
and what is kept to cancel, retry and reuse them. A row can be dismissed and cancelled only by
the button that it shows.
-/

namespace Maeglagi.Uploads

open Core

variable {B J : Type}

/-- `UploadItemStatus` -/
inductive UploadItemStatus where
  | uploading | uploaded | failed | cancelled
  deriving DecidableEq, Repr

/-- `UploadItem`, named by the number in its id. -/
structure UploadItem (J : Type) where
  id : ℕ
  fileName : JsString
  sizeBytes : ℕ
  status : UploadItemStatus
  progress : Rat
  durationSeconds : Option ℕ
  job : Option J
  errorMessage : Option JsString
  canRetry : Bool
  deriving DecidableEq

/-- What a transfer sends. -/
inductive Content (B : Type) where
  | document (file : B)
  | recording (audio : B)
  deriving DecidableEq

/-- A call of `transfer`, with the signal of its controller. -/
structure Transfer (B : Type) where
  id : ℕ
  content : Content B
  aborted : Bool
  ended : Bool
  deriving DecidableEq

/-- A call of `uploadTranscript`, which has no controller. -/
structure Transcript where
  id : ℕ
  ended : Bool
  deriving DecidableEq

/-- The state and the refs of `useSourceUpload`. A controller is the place of its transfer. -/
structure Queue (B J : Type) where
  items : List (UploadItem J)
  sequence : ℕ
  controllers : ℕ → Option ℕ
  retries : ℕ → Option (Content B)
  recordingItems : B → Option ℕ
  failedTranscriptItem : Option ℕ
  transfers : List (Transfer B)
  transcripts : List Transcript

/-- How a request ends. -/
inductive Sent (J : Type) where
  | resolved (job : J)
  /-- The error may be an `AbortError`; the message is what `toUserMessage` makes of it. -/
  | rejected (abortError : Bool) (message : JsString)
  deriving DecidableEq

/-- A file that is added, with its name and its size. -/
structure Picked (B : Type) where
  content : B
  name : JsString
  size : ℕ
  deriving DecidableEq

/-- What happens to the queue. -/
inductive Happening (B J : Type) where
  /-- The files that `validateDocuments` accepted are uploaded. -/
  | documents (accepted : List (Picked B))
  | recording (audio : Picked B) (durationSeconds : ℕ) (ownedByCaller : Bool)
  /-- A transcript with some text is uploaded. -/
  | transcript (fileName : JsString) (sizeBytes : ℕ) (durationSeconds : Option ℕ)
  | cancel (id : ℕ)
  | retry (id : ℕ)
  | dismiss (id : ℕ)
  | progress (t : ℕ) (ratio : Rat)
  | ends (t : ℕ) (sent : Sent J)
  | transcriptEnds (t : ℕ) (sent : Sent J)

namespace Queue

def empty : Queue B J where
  items := []
  sequence := 0
  controllers _ := none
  retries _ := none
  recordingItems _ := none
  failedTranscriptItem := none
  transfers := []
  transcripts := []

/-- `patch` -/
def patch (s : Queue B J) (id : ℕ) (change : UploadItem J → UploadItem J) : Queue B J :=
  { s with items := s.items.map fun item => if item.id = id then change item else item }

/-- `enqueue`: the item gets the next number. -/
def enqueue (s : Queue B J) (fileName : JsString) (sizeBytes : ℕ) (durationSeconds : Option ℕ)
    (canRetry : Bool) : Queue B J :=
  { s with
    items :=
      { id := s.sequence + 1
        fileName := fileName
        sizeBytes := sizeBytes
        status := .uploading
        progress := 0
        durationSeconds := durationSeconds
        job := none
        errorMessage := none
        canRetry := canRetry } :: s.items
    sequence := s.sequence + 1 }

/-- An item whose transfer begins. -/
def started (item : UploadItem J) : UploadItem J :=
  { item with status := .uploading, progress := 0, errorMessage := none }

/-- The part of `transfer` before its request. -/
def start (s : Queue B J) (id : ℕ) (content : Content B) : Queue B J :=
  { s.patch id started with
    controllers := Function.update s.controllers id (some s.transfers.length)
    transfers := s.transfers ++ [⟨id, content, false, false⟩] }

/-- A task that the queue retries is kept. -/
def keepRetry (s : Queue B J) (id : ℕ) (content : Content B) : Queue B J :=
  { s with retries := Function.update s.retries id (some content) }

/-- `uploadDocuments`: a row for every file first, and then their transfers. -/
def enqueueDocuments (s : Queue B J) : List (Picked B) → Queue B J × List (ℕ × B)
  | [] => (s, [])
  | file :: files =>
    let row := (s.enqueue file.name file.size none true).keepRetry (s.sequence + 1)
      (.document file.content)
    let rest := row.enqueueDocuments files
    (rest.1, (s.sequence + 1, file.content) :: rest.2)

def startDocuments (s : Queue B J) (rows : List (ℕ × B)) : Queue B J :=
  rows.foldl (fun s row => s.start row.1 (.document row.2)) s

/-- `uploadDocuments` -/
def uploadDocuments (s : Queue B J) (accepted : List (Picked B)) : Queue B J :=
  let enqueued := s.enqueueDocuments accepted
  enqueued.1.startDocuments enqueued.2

/-- `uploadRecording` -/
def uploadRecording [DecidableEq B] (s : Queue B J) (audio : Picked B) (durationSeconds : ℕ)
    (ownedByCaller : Bool) : Queue B J :=
  if audio.size = 0 then s
  else
    let content := Content.recording audio.content
    match s.recordingItems audio.content with
    | some id =>
      (if ownedByCaller then s else s.keepRetry id content).start id content
    | none =>
      let id := s.sequence + 1
      let duration := if durationSeconds = 0 then none else some durationSeconds
      let enqueued := s.enqueue audio.name audio.size duration (!ownedByCaller)
      let row := { enqueued with
        recordingItems := Function.update s.recordingItems audio.content (some id) }
      (if ownedByCaller then row else row.keepRetry id content).start id content

/-- `uploadTranscript`: the row of a transcript that failed is used again. -/
def uploadTranscript (s : Queue B J) (fileName : JsString) (sizeBytes : ℕ)
    (durationSeconds : Option ℕ) : Queue B J :=
  match s.failedTranscriptItem with
  | none =>
    { s.enqueue fileName sizeBytes durationSeconds false with
      transcripts := s.transcripts ++ [⟨s.sequence + 1, false⟩] }
  | some id =>
    { s.patch id fun item =>
        { started item with
          fileName := fileName
          sizeBytes := sizeBytes
          durationSeconds := durationSeconds } with
      failedTranscriptItem := none
      transcripts := s.transcripts ++ [⟨id, false⟩] }

/-- `controllers.current.get(id)?.abort()` -/
def abort (s : Queue B J) (id : ℕ) : Queue B J :=
  match s.controllers id with
  | none => s
  | some t =>
    { s with transfers := s.transfers.modify t fun transfer => { transfer with aborted := true } }

/-- `retry` -/
def retry (s : Queue B J) (id : ℕ) : Queue B J :=
  match s.controllers id, s.retries id with
  | none, some content => s.start id content
  | _, _ => s

/-- `dismiss` -/
def dismiss (s : Queue B J) (id : ℕ) : Queue B J :=
  { s.abort id with
    retries := Function.update s.retries id none
    recordingItems := fun audio =>
      if s.recordingItems audio = some id then none else s.recordingItems audio
    failedTranscriptItem :=
      if s.failedTranscriptItem = some id then none else s.failedTranscriptItem
    items := s.items.filter fun item => decide (item.id ≠ id) }

/-- The item of a transfer that ended. -/
def received (aborted : Bool) (sent : Sent J) (item : UploadItem J) : UploadItem J :=
  match sent with
  | .resolved job => { item with status := .uploaded, progress := 1, job := some job }
  | .rejected abortError message =>
    if aborted || abortError then { item with status := .cancelled, errorMessage := none }
    else { item with status := .failed, errorMessage := some message }

/-- The part of `transfer` behind its request, and `finish` of a recording. -/
def finish [DecidableEq B] (s : Queue B J) (t : ℕ) (transfer : Transfer B) (sent : Sent J) :
    Queue B J :=
  { s.patch transfer.id (received transfer.aborted sent) with
    controllers :=
      if s.controllers transfer.id = some t then Function.update s.controllers transfer.id none
      else s.controllers
    recordingItems :=
      match transfer.content, sent with
      | .recording audio, .resolved _ => Function.update s.recordingItems audio none
      | _, _ => s.recordingItems
    transfers := s.transfers.set t { transfer with ended := true } }

/-- The part of `uploadTranscript` behind its request. -/
def finishTranscript (s : Queue B J) (t : ℕ) (transcript : Transcript) (sent : Sent J) :
    Queue B J :=
  let ended := s.transcripts.set t { transcript with ended := true }
  match sent with
  | .resolved job =>
    { s.patch transcript.id fun item =>
        { item with status := .uploaded, progress := 1, job := some job } with
      transcripts := ended }
  | .rejected _ message =>
    { s.patch transcript.id fun item =>
        { item with status := .failed, errorMessage := some message } with
      transcripts := ended
      failedTranscriptItem := some transcript.id }

/-- The row is shown, with a button for what its status allows. -/
def Shows (s : Queue B J) (id : ℕ) (allows : UploadItem J → Bool) : Prop :=
  ∃ item ∈ s.items, item.id = id ∧ allows item = true

instance (s : Queue B J) (id : ℕ) (allows : UploadItem J → Bool) :
    Decidable (s.Shows id allows) :=
  List.decidableBEx _ _

/-- One thing that happens, if it can happen. -/
def step [DecidableEq B] (s : Queue B J) : Happening B J → Option (Queue B J)
  | .documents accepted => some (s.uploadDocuments accepted)
  | .recording audio durationSeconds ownedByCaller =>
    some (s.uploadRecording audio durationSeconds ownedByCaller)
  | .transcript fileName sizeBytes durationSeconds =>
    some (s.uploadTranscript fileName sizeBytes durationSeconds)
  | .cancel id =>
    if s.Shows id fun item => item.status = .uploading then some (s.abort id) else none
  | .retry id =>
    if s.Shows id fun item =>
        item.canRetry && (item.status = .failed || item.status = .cancelled) then
      some (s.retry id)
    else none
  | .dismiss id =>
    if s.Shows id fun item => item.status ≠ .uploading then some (s.dismiss id) else none
  | .progress t ratio =>
    match s.transfers[t]? with
    | none => none
    | some transfer =>
      if transfer.ended then none
      else if s.controllers transfer.id = some t then
        some (s.patch transfer.id fun item => { item with progress := ratio })
      else some s
  | .ends t sent =>
    match s.transfers[t]? with
    | none => none
    | some transfer => if transfer.ended then none else some (s.finish t transfer sent)
  | .transcriptEnds t sent =>
    match s.transcripts[t]? with
    | none => none
    | some transcript =>
      if transcript.ended then none else some (s.finishTranscript t transcript sent)

theorem getElem?_concat {α : Type} {xs : List α} {x y : α} {t : ℕ}
    (h : (xs ++ [x])[t]? = some y) : xs[t]? = some y ∨ t = xs.length ∧ y = x := by
  rw [List.getElem?_append] at h
  split_ifs at h with ht
  · exact .inl h
  · obtain ⟨hlt, rfl⟩ := List.getElem?_eq_some_iff.mp h
    rw [List.length_singleton] at hlt
    exact .inr ⟨by omega, List.getElem_singleton ..⟩

/-! ## The status of a row -/

/-- The status of the row of an id, if there is one. -/
def statusOf (s : Queue B J) (i : ℕ) : Option UploadItemStatus :=
  (s.items.find? fun item => decide (item.id = i)).map (·.status)

variable {s s' : Queue B J} {i id : ℕ}

theorem statusOf_patch {change : UploadItem J → UploadItem J}
    {status : UploadItemStatus → UploadItemStatus} (hid : ∀ item, (change item).id = item.id)
    (hstatus : ∀ item, (change item).status = status item.status) :
    (s.patch id change).statusOf i =
      if i = id then (s.statusOf i).map status else s.statusOf i := by
  unfold statusOf patch
  dsimp only
  induction s.items with
  | nil => simp
  | cons item items ih =>
    by_cases hitem : item.id = i
    · by_cases hi : i = id
      · simp [hitem, hi, hid, hstatus]
      · simp [hitem, hi]
    · have hchanged : (if item.id = id then change item else item).id ≠ i := by
        split_ifs
        · rwa [hid]
        · exact hitem
      rw [List.map_cons, List.find?_cons_of_neg (by simpa using hchanged),
        List.find?_cons_of_neg (by simpa using hitem)]
      exact ih

theorem ids_patch {change : UploadItem J → UploadItem J}
    (hid : ∀ item, (change item).id = item.id) :
    (s.patch id change).items.map (·.id) = s.items.map (·.id) := by
  unfold patch
  rw [List.map_map]
  refine List.map_congr_left fun item _ => ?_
  rw [Function.comp_apply]
  split_ifs
  · exact hid item
  · rfl

theorem statusOf_eq_none : s.statusOf i = none ↔ i ∉ s.items.map (·.id) := by
  simp [statusOf, List.find?_eq_none]

/-- Where the ids are distinct, an item has the status of its id. -/
theorem statusOf_item (hnodup : (s.items.map (·.id)).Nodup) {item : UploadItem J}
    (hitem : item ∈ s.items) : s.statusOf item.id = some item.status := by
  unfold statusOf
  generalize s.items = items at hnodup hitem
  induction items with
  | nil => cases hitem
  | cons first items ih =>
    rw [List.map_cons, List.nodup_cons] at hnodup
    rcases List.mem_cons.mp hitem with rfl | hmem
    · simp
    · have hne : first.id ≠ item.id := fun heq =>
        hnodup.1 (heq ▸ List.mem_map_of_mem hmem)
      rw [List.find?_cons_of_neg (by simpa using hne)]
      exact ih hnodup.2 hmem

theorem statusOf_enqueue {fileName : JsString} {sizeBytes : ℕ} {durationSeconds : Option ℕ}
    {canRetry : Bool} :
    (s.enqueue fileName sizeBytes durationSeconds canRetry).statusOf i =
      if i = s.sequence + 1 then some .uploading else s.statusOf i := by
  unfold statusOf enqueue
  by_cases hi : i = s.sequence + 1
  · simp [hi]
  · rw [if_neg hi, List.find?_cons_of_neg (by simpa using fun h => hi h.symm)]

theorem statusOf_start {content : Content B} :
    (s.start id content).statusOf i =
      if i = id then (s.statusOf i).map fun _ => .uploading else s.statusOf i :=
  statusOf_patch (s := s) (fun _ => rfl) fun _ => rfl

theorem controllers_start {content : Content B} :
    (s.start id content).controllers i =
      if i = id then some s.transfers.length else s.controllers i :=
  Function.update_apply ..

theorem retries_keepRetry {content : Content B} :
    (s.keepRetry id content).retries i = if i = id then some content else s.retries i :=
  Function.update_apply ..

theorem statusOf_dismiss :
    (s.dismiss id).statusOf i = if i = id then none else s.statusOf i := by
  unfold statusOf dismiss
  dsimp only
  rw [List.find?_filter]
  split_ifs with hi
  · rw [List.find?_eq_none.mpr, Option.map_none]
    intro item _
    simp [hi]
  · congr 2
    funext item
    by_cases hitem : item.id = i
    · simp [hitem, hi]
    · simp [hitem]

end Queue

end Maeglagi.Uploads
