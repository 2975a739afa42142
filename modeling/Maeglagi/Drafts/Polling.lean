import Maeglagi.Drafts.Dialog
import Maeglagi.Sources.Edits

/-!
# The polls of the review dialog

While a meeting is transcribed, `MeetingReviewDialog` reads it again every three seconds. Its
loads are in flight together and are answered in any order; an answer is shown if the meeting
it is about is the open one.
-/

namespace Maeglagi.Drafts

open Core Sources

variable {S Id H : Type} [DecidableEq S] [DecidableEq Id]

/-- Who starts a load: the interval, the button that checks the status, or the dialog after its
user opened it, retried, recovered or asked for the latest transcript. -/
inductive LoadOrigin where
  | poll | refresh | user
  deriving DecidableEq

/-- What a load reads of the meeting and of its workspace. -/
structure Answer (Id : Type) where
  data : ReviewResponse Id
  roster : List (WorkspacePerson Id)
  suggested : List Id

/-- A load in flight; with an answer it waits for the job of a meeting that is read only. -/
structure Load (S Id : Type) where
  source : S
  origin : LoadOrigin
  /-- The edits that were made before it started. -/
  edits : Nat
  answer : Option (Answer Id)

/-- The argument `silent` of `load`. -/
def Load.silent (load : Load S Id) : Bool := decide (load.origin ≠ .user)

/-- `PendingAction`, with the meeting it was started for. -/
inductive PendingAction (S Id : Type) where
  | save (source : S) (request : ReviewPatch Id)
  | confirm (source : S)
  | retryAnalysis (source : S)
  | retryTranscription (source : S)

/-- The dialog, its loads and the action in progress. `edits` counts the edits of rows, and
`kept` those that were made when the rows were last replaced. -/
structure Screen (S Id : Type) where
  openId : Option S
  dialog : Dialog Id
  loading : Bool
  loadError : Bool
  refreshing : Bool
  pending : Option (PendingAction S Id)
  loads : List (Load S Id)
  edits : Nat
  kept : Nat

/-- The buttons that start an action. -/
inductive ActionKind where
  | save | confirm | retryAnalysis | retryTranscription

/-- What a user does to the rows. -/
inductive RowEdit (Id : Type) where
  | add
  | change (id : Int) (speaker : Option (SpeakerKey Id)) (text : Option Text)
  | delete (id : Int)
  | replaceFromRaw

/-- What a user does to the speakers and the projects. -/
inductive Selection (Id : Type) where
  | pickSpeaker (id : SpeakerKey Id)
  | addSpeaker (time : Nat) (name : Text)
  | renameSpeaker (id : SpeakerKey Id) (name : Text)
  | pickProjects (ids : List Id)

/-- What happens to the dialog. A load is named by its place among those in flight. -/
inductive ScreenEvent (S Id H : Type) where
  | openSource (id : S)
  | close
  | tick
  | refresh
  | retryLoad
  | reloadAfterConflict
  | answered (i : Nat) (answer : Answer Id)
  | jobAnswered (i : Nat)
  | failed (i : Nat)
  | edit (edit : RowEdit Id)
  | select (selection : Selection Id)
  | act (kind : ActionKind)
  | saved (directory : Directory Id) (source : Source Id H)
  | conflicted
  | reloads
  | settled
  | recovered (next : ReviewResponse Id)

namespace Dialog

/-- The rows after an edit. -/
def edited (dialog : Dialog Id) : RowEdit Id → Dialog Id
  | .add => dialog.add
  | .change id speaker text => dialog.change id speaker text
  | .delete id => dialog.delete id
  | .replaceFromRaw => dialog.replaceFromRaw

/-- The dialog after a selection, which leaves the rows as they are. -/
def selected (dialog : Dialog Id) : Selection Id → Dialog Id
  | .pickSpeaker id => { dialog with activeSpeaker := id }
  | .addSpeaker time name => dialog.addSpeaker time name
  | .renameSpeaker id name => dialog.renameSpeaker id name
  | .pickProjects ids => { dialog with projectIds := ids, dirty := true }

omit [DecidableEq Id] in
theorem review_edited (dialog : Dialog Id) (edit : RowEdit Id) :
    (dialog.edited edit).review = dialog.review := by
  cases edit with
  | add => rfl
  | change id speaker text => rfl
  | delete id => rfl
  | replaceFromRaw =>
    simp only [edited, replaceFromRaw]
    split
    · rfl
    · split
      · rfl
      · rfl

theorem rows_selected (dialog : Dialog Id) (selection : Selection Id) :
    (dialog.selected selection).rows = dialog.rows := by
  cases selection with
  | addSpeaker time name =>
    simp only [selected, addSpeaker]
    split
    · rfl
    · rfl
  | _ => rfl

theorem review_selected (dialog : Dialog Id) (selection : Selection Id) :
    (dialog.selected selection).review = dialog.review := by
  cases selection with
  | addSpeaker time name =>
    simp only [selected, addSpeaker]
    split
    · rfl
    · rfl
  | _ => rfl

end Dialog

/-- `isReadOnlyReview` -/
def isReadOnlyReview (review : ReviewResponse Id) : Bool := decide (review.reviewState = .confirmed)

/-- The transcript is still made and was not given up, so that the interval runs. -/
def isPolled (review : ReviewResponse Id) : Bool :=
  decide (review.reviewState = .transcribing ∧ review.status ≠ .failed)

/-- The transcription failed on the server and may be retried. -/
def isRetryable (review : ReviewResponse Id) : Bool :=
  decide (review.reviewState = .transcribing ∧ review.status = .failed ∧
    review.analysisMode ≠ .agent)

namespace Screen

/-- The dialog before a meeting is opened. -/
def start : Screen S Id where
  openId := none
  dialog := Dialog.mounted
  loading := false
  loadError := false
  refreshing := false
  pending := none
  loads := []
  edits := 0
  kept := 0

/-- The review on screen awaits its reviewer, so that its rows are editable. -/
def Awaiting (s : Screen S Id) : Prop :=
  ∃ review, s.dialog.review = some review ∧ review.reviewState = .awaitingReview

/-- The review that the page shows; a load its user waits for or an error hides it. -/
def shown (s : Screen S Id) : Option (ReviewResponse Id) :=
  if s.openId.isSome && !s.loading && !s.loadError then s.dialog.review else none

/-- `load`, called for a meeting. -/
def load (s : Screen S Id) (id : S) (origin : LoadOrigin) : Screen S Id :=
  { s with
    loading := if origin = .user then true else s.loading
    loadError := if origin = .user then false else s.loadError
    refreshing := if origin = .refresh then true else s.refreshing
    loads := s.loads ++ [⟨id, origin, s.edits, none⟩] }

/-- The end of a load for the open meeting. -/
def ended (s : Screen S Id) (i : Nat) (load : Load S Id) : Screen S Id :=
  { s with
    loads := s.loads.eraseIdx i
    loading := if load.origin = .user then false else s.loading
    refreshing := if load.origin = .refresh then false else s.refreshing }

/-- The answer of a load is shown. -/
def applied (s : Screen S Id) (i : Nat) (load : Load S Id) (answer : Answer Id) : Screen S Id :=
  { s.ended i load with
    dialog := s.dialog.loaded answer.data answer.roster answer.suggested
    loadError := false
    kept := s.edits }

/-- The load whose answer an event shows, with the answer. -/
def landing (s : Screen S Id) : ScreenEvent S Id H → Option (Load S Id × Answer Id)
  | .answered i answer => do
    let load ← s.loads[i]?
    if load.answer.isNone ∧ s.openId = some load.source ∧ isReadOnlyReview answer.data = false then
      return (load, answer)
    else none
  | .jobAnswered i => do
    let load ← s.loads[i]?
    let answer ← load.answer
    if s.openId = some load.source then return (load, answer) else none
  | _ => none

/-- The meeting is answered, or its job after it. -/
def answered (s : Screen S Id) (i : Nat) (answer : Answer Id) : Option (Screen S Id) := do
  let load ← s.loads[i]?
  if load.answer.isSome then none
  else if s.openId ≠ some load.source then return { s with loads := s.loads.eraseIdx i }
  else if isReadOnlyReview answer.data then
    return { s with loads := s.loads.set i { load with answer := some answer } }
  else return s.applied i load answer

/-- The job of a meeting that is read only is answered, if it has one. -/
def jobAnswered (s : Screen S Id) (i : Nat) : Option (Screen S Id) := do
  let load ← s.loads[i]?
  let answer ← load.answer
  if s.openId ≠ some load.source then return { s with loads := s.loads.eraseIdx i }
  else return s.applied i load answer

/-- A load fails; if it is silent, what is shown stays. -/
def failed (s : Screen S Id) (i : Nat) : Option (Screen S Id) := do
  let load ← s.loads[i]?
  if load.answer.isSome then none
  else if s.openId ≠ some load.source then return { s with loads := s.loads.eraseIdx i }
  else return { s.ended i load with loadError := if load.silent then s.loadError else true }

/-- Whether the rows may be edited so. The raw transcript may replace them while an action is in
progress. -/
def allows (s : Screen S Id) (edit : RowEdit Id) : Bool :=
  match s.shown with
  | none => false
  | some review => decide (review.reviewState = .awaitingReview) &&
    match edit with
    | .replaceFromRaw => decide (review.rawTranscriptText.getD [] ≠ [])
    | _ => s.pending.isNone

/-- Whether the speakers and the projects may be changed so. -/
def allowsSelection (s : Screen S Id) (selection : Selection Id) : Bool :=
  match s.shown with
  | none => false
  | some review => decide (review.reviewState = .awaitingReview) &&
    match selection with
    | .pickSpeaker _ | .addSpeaker _ _ => true
    | .renameSpeaker _ _ | .pickProjects _ => s.pending.isNone

/-- The action that a button starts, if it is enabled. -/
def action (s : Screen S Id) (kind : ActionKind) : Option (PendingAction S Id) := do
  let review ← s.shown
  let id ← s.openId
  match kind with
  | .save =>
    if review.reviewState = .awaitingReview then s.dialog.saveRequest.map (.save id) else none
  | .confirm =>
    if review.reviewState = .awaitingReview ∧ s.dialog.dirty = false ∧ s.dialog.conflict = false ∧
        unresolvedReviewPeople s.dialog.rows s.dialog.people = [] ∧
        s.dialog.rows.any (fun row => decide (strip row.text ≠ [])) = true then
      some (.confirm id)
    else none
  | .retryAnalysis =>
    if isReadOnlyReview review = true ∧ review.analysisMode ≠ .agent then some (.retryAnalysis id) else none
  | .retryTranscription => if isRetryable review then some (.retryTranscription id) else none

/-- One event, if it is possible. -/
def step (s : Screen S Id) : ScreenEvent S Id H → Option (Screen S Id)
  | .openSource id => some ({ s with openId := some id, refreshing := false }.load id .user)
  | .close => some { s with
      openId := none
      dialog := { s.dialog with review := none, rows := [] }
      loadError := false
      refreshing := false
      kept := s.edits }
  | .tick => do
    let id ← s.openId
    let review ← s.dialog.review
    if isPolled review then return s.load id .poll else none
  | .refresh => do
    let id ← s.openId
    let review ← s.shown
    if review.reviewState = .transcribing ∧ s.refreshing = false ∧
        (review.status = .failed → s.pending.isNone) then
      return s.load id .refresh
    else none
  | .retryLoad => do
    let id ← s.openId
    if s.loading = false ∧ (s.loadError = true ∨ s.dialog.review.isNone) then
      return s.load id .user
    else none
  | .reloadAfterConflict => do
    let id ← s.openId
    if s.shown.isSome ∧ s.dialog.conflict = true ∧ s.pending.isNone then return s.load id .user
    else none
  | .answered i answer => s.answered i answer
  | .jobAnswered i => s.jobAnswered i
  | .failed i => s.failed i
  | .edit edit =>
    if s.allows edit then some { s with dialog := s.dialog.edited edit, edits := s.edits + 1 }
    else none
  | .select selection =>
    if s.allowsSelection selection then
      some { s with dialog := s.dialog.selected selection }
    else none
  | .act kind =>
    if s.pending.isSome then none
    else (s.action kind).map fun action => { s with pending := some action }
  | .saved directory source =>
    match s.pending with
    | some (.save _ request) =>
      match saveReview directory source request with
      | .ok stored =>
        match getReview stored with
        | .ok next => some { s with
            dialog := { s.dialog with review := some next, dirty := false, conflict := false }
            pending := none }
        | .error _ => none
      | .error _ => none
    | _ => none
  | .conflicted =>
    match s.pending with
    | none | some (.retryTranscription _) => none
    | some _ => some { s with dialog := { s.dialog with conflict := true }, pending := none }
  | .reloads =>
    match s.pending with
    | none | some (.save ..) => none
    | some (.confirm id) | some (.retryAnalysis id) | some (.retryTranscription id) =>
      some (s.load id .user)
  | .settled => if s.pending.isSome then some { s with pending := none } else none
  | .recovered next => do
    let id ← s.openId
    let review ← s.shown
    if isRetryable review then
      return { s with dialog := { s.dialog with review := some next } }.load id .user
    else none


variable {s s' : Screen S Id} {e : ScreenEvent S Id H}

/-- What a step does to the rows, to the review and to the count of edits. -/
inductive Effect (s s' : Screen S Id) (e : ScreenEvent S Id H) : Prop
  | none (hrows : s'.dialog.rows = s.dialog.rows) (hreview : s'.dialog.review = s.dialog.review)
      (hkept : s'.kept = s.kept) (hedits : s'.edits = s.edits)
  | saved (hrows : s'.dialog.rows = s.dialog.rows) (hawaiting : s'.Awaiting)
  | recovered (hrows : s'.dialog.rows = s.dialog.rows) (hawaiting : ¬s.Awaiting)
      (hkept : s'.kept = s.kept) (hedits : s'.edits = s.edits)
  | edited (edit : RowEdit Id) (hevent : e = .edit edit) (hawaiting : s'.Awaiting)
  | closed (hevent : e = .close) (hkept : s'.kept = s'.edits)
  | landed (load : Load S Id) (answer : Answer Id) (hlanding : s.landing e = some (load, answer))
      (hkept : s'.kept = s'.edits)

omit [DecidableEq S] [DecidableEq Id] in
theorem eq_some_of_shown {review : ReviewResponse Id} (h : s.shown = some review) :
    s.dialog.review = some review := by
  unfold shown at h
  split at h
  · exact h
  · cases h

/-- What a save is answered with awaits its review. -/
theorem awaiting_of_saved {directory : Directory Id} {source stored : Source Id H}
    {request : ReviewPatch Id} {next : ReviewResponse Id}
    (hsave : saveReview directory source request = .ok stored) (hnext : getReview stored = .ok next) :
    next.reviewState = .awaitingReview := by
  obtain ⟨-, hstate, -, -, utterances, ids, revision, -, -, -, rfl⟩ := saveReview_eq_ok hsave
  simp only [getReview, reviewPayload, bind_eq_ok, pure_eq_ok, hstate] at hnext
  obtain ⟨-, -, utterances, -, raw, -, rfl⟩ := hnext
  rfl

theorem effect_of_answered {i : Nat} {answer : Answer Id} (h : s.answered i answer = some s') :
    Effect s s' (.answered i answer : ScreenEvent S Id H) := by
  simp only [answered, Option.bind_eq_bind, Option.bind_eq_some_iff] at h
  obtain ⟨load, hload, h⟩ := h
  split_ifs at h with hwaits hopen hread
  · obtain rfl := Option.some.inj h
    exact .none rfl rfl rfl rfl
  · obtain rfl := Option.some.inj h
    exact .none rfl rfl rfl rfl
  · obtain rfl := Option.some.inj h
    refine .landed load answer ?_ rfl
    simp only [landing, hload, Option.bind_eq_bind, Option.bind_some]
    rw [if_pos ⟨by simpa using hwaits, not_not.mp hopen, by simpa using hread⟩]
    rfl

theorem effect_of_jobAnswered {i : Nat} (h : s.jobAnswered i = some s') :
    Effect s s' (.jobAnswered i : ScreenEvent S Id H) := by
  simp only [jobAnswered, Option.bind_eq_bind, Option.bind_eq_some_iff] at h
  obtain ⟨load, hload, answer, hanswer, h⟩ := h
  split_ifs at h with hopen
  · obtain rfl := Option.some.inj h
    exact .none rfl rfl rfl rfl
  · obtain rfl := Option.some.inj h
    refine .landed load answer ?_ rfl
    simp only [landing, hload, hanswer, Option.bind_eq_bind, Option.bind_some]
    rw [if_pos (not_not.mp hopen)]
    rfl

/-- Every step has one of these effects. -/
theorem effect_of_step (h : s.step e = some s') : Effect s s' e := by
  cases e with
  | openSource id =>
    obtain rfl := Option.some.inj h
    exact .none rfl rfl rfl rfl
  | close =>
    obtain rfl := Option.some.inj h
    exact .closed rfl rfl
  | tick =>
    simp only [step, Option.bind_eq_bind, Option.bind_eq_some_iff] at h
    obtain ⟨id, -, review, -, h⟩ := h
    split_ifs at h
    obtain rfl := Option.some.inj h
    exact .none rfl rfl rfl rfl
  | refresh =>
    simp only [step, Option.bind_eq_bind, Option.bind_eq_some_iff] at h
    obtain ⟨id, -, review, -, h⟩ := h
    split_ifs at h
    obtain rfl := Option.some.inj h
    exact .none rfl rfl rfl rfl
  | retryLoad =>
    simp only [step, Option.bind_eq_bind, Option.bind_eq_some_iff] at h
    obtain ⟨id, -, h⟩ := h
    split_ifs at h
    obtain rfl := Option.some.inj h
    exact .none rfl rfl rfl rfl
  | reloadAfterConflict =>
    simp only [step, Option.bind_eq_bind, Option.bind_eq_some_iff] at h
    obtain ⟨id, -, h⟩ := h
    split_ifs at h
    obtain rfl := Option.some.inj h
    exact .none rfl rfl rfl rfl
  | answered i answer => exact effect_of_answered h
  | jobAnswered i => exact effect_of_jobAnswered h
  | failed i =>
    simp only [step, failed, Option.bind_eq_bind, Option.bind_eq_some_iff] at h
    obtain ⟨load, -, h⟩ := h
    split_ifs at h
    · obtain rfl := Option.some.inj h
      exact .none rfl rfl rfl rfl
    · obtain rfl := Option.some.inj h
      exact .none rfl rfl rfl rfl
    · obtain rfl := Option.some.inj h
      exact .none rfl rfl rfl rfl
  | edit edit =>
    simp only [step] at h
    split_ifs at h with hallows
    obtain rfl := Option.some.inj h
    refine .edited edit rfl ?_
    unfold allows at hallows
    split at hallows
    · cases hallows
    · next review hshown =>
      rw [Bool.and_eq_true, decide_eq_true_eq] at hallows
      refine ⟨review, ?_, hallows.1⟩
      rw [Dialog.review_edited]
      exact eq_some_of_shown hshown
  | select selection =>
    simp only [step] at h
    split_ifs at h
    obtain rfl := Option.some.inj h
    exact .none (Dialog.rows_selected ..) (Dialog.review_selected ..) rfl rfl
  | act kind =>
    simp only [step] at h
    split_ifs at h
    obtain ⟨action, -, rfl⟩ := Option.map_eq_some_iff.mp h
    exact .none rfl rfl rfl rfl
  | saved directory source =>
    simp only [step] at h
    split at h
    · split at h
      · next stored hsave =>
        split at h
        · next next hnext =>
          obtain rfl := Option.some.inj h
          exact .saved rfl ⟨next, rfl, awaiting_of_saved hsave hnext⟩
        · cases h
      · cases h
    · cases h
  | conflicted =>
    simp only [step] at h
    split at h
    · cases h
    · cases h
    · obtain rfl := Option.some.inj h
      exact .none rfl rfl rfl rfl
  | reloads =>
    simp only [step] at h
    split at h
    · cases h
    · cases h
    all_goals
      obtain rfl := Option.some.inj h
      exact .none rfl rfl rfl rfl
  | settled =>
    simp only [step] at h
    split_ifs at h
    obtain rfl := Option.some.inj h
    exact .none rfl rfl rfl rfl
  | recovered next =>
    simp only [step, Option.bind_eq_bind, Option.bind_eq_some_iff] at h
    obtain ⟨id, -, review, hshown, h⟩ := h
    split_ifs at h with hretry
    obtain rfl := Option.some.inj h
    refine .recovered rfl ?_ rfl rfl
    rintro ⟨review', hreview, hstate⟩
    obtain rfl := Option.some.inj ((eq_some_of_shown hshown).symm.trans hreview)
    simp [isRetryable, hstate] at hretry

/-- In every run, rows that carry edits are those of a review that awaits its reviewer. -/
theorem awaiting_of_edited (h : RunOf (step (H := H)) anyEvent (start : Screen S Id) s)
    (hedited : s.kept < s.edits) : s.Awaiting := by
  refine RunOf.invariant (P := fun s => s.kept < s.edits → s.Awaiting)
    (fun s e s' hs _ hstep hedited => ?_) h (fun hedited => absurd hedited (Nat.lt_irrefl 0)) hedited
  rcases effect_of_step hstep with ⟨-, hreview, hkept, hedits⟩ | ⟨-, hawaiting⟩ |
    ⟨-, hawaiting, hkept, hedits⟩ | ⟨edit, -, hawaiting⟩ | ⟨-, hkept⟩ | ⟨load, answer, -, hkept⟩
  · obtain ⟨review, hsome, hstate⟩ := hs (by omega)
    exact ⟨review, hreview.trans hsome, hstate⟩
  · exact hawaiting
  · exact absurd (hs (by omega)) hawaiting
  · exact hawaiting
  · omega
  · omega

/-- The rows are replaced by their user: edited, or given up with the dialog. -/
def ByUser : ScreenEvent S Id H → Prop
  | .edit _ | .close => True
  | _ => False

/-- Edited rows are replaced only by their user, or by a load that the user started; by one the
status button started, only if it started after the edits. -/
def KeepsEdits (s s' : Screen S Id) (e : ScreenEvent S Id H) : Prop :=
  s.kept < s.edits → s'.dialog.rows = s.dialog.rows ∨ ByUser e ∨
    ∃ load answer, s.landing e = some (load, answer) ∧
      (load.origin = .user ∨ load.origin = .refresh ∧ load.edits = s.edits)

/-- A silent load is not shown over a review that awaits its reviewer. -/
def Undisturbed (s : Screen S Id) (e : ScreenEvent S Id H) : Prop :=
  ∀ load answer, s.landing e = some (load, answer) → load.silent = true → ¬s.Awaiting

/-- From every state of a run, an undisturbed step keeps the edits of its user. -/
theorem keepsEdits_of_undisturbed
    (h : RunOf (step (H := H)) anyEvent (start : Screen S Id) s) (hstep : s.step e = some s')
    (hundisturbed : s.Undisturbed e) : s.KeepsEdits s' e := by
  intro hedited
  rcases effect_of_step hstep with ⟨hrows, -⟩ | ⟨hrows, -⟩ | ⟨hrows, -⟩ | ⟨edit, rfl, -⟩ | ⟨rfl, -⟩ |
    ⟨load, answer, hlanding, -⟩
  · exact .inl hrows
  · exact .inl hrows
  · exact .inl hrows
  · exact .inr (.inl trivial)
  · exact .inr (.inl trivial)
  · refine .inr (.inr ⟨load, answer, hlanding, .inl ?_⟩)
    by_contra horigin
    exact hundisturbed load answer hlanding (by simp [Load.silent, horigin])
      (awaiting_of_edited h hedited)

end Screen

/-- A meeting without utterances, as it is read in a state. -/
def emptyReview (reviewState : ReviewState) (status : SourceStatus) : Answer Nat where
  data :=
    { title := "Weekly".toList
      transcriptSource := none
      reviewState
      status
      analysisMode := .server
      stage := .transcribing
      errorMessage := none
      revision := 0
      projectId := none
      projectIds := []
      utterances := []
      rawTranscriptText := none
      rawUtterances := []
      confirmedAt := none
      confirmedSnapshot := none }
  roster := []
  suggested := []

namespace Screen

/-- A row is added, its save is refused, and the latest transcript is loaded over it. -/
theorem keepsEdits_of_reloadAfterConflict : ∃ s s' : Screen Nat Nat,
    s.kept < s.edits ∧ s'.dialog.rows ≠ s.dialog.rows ∧
      s.KeepsEdits s' (.answered 0 (emptyReview .awaitingReview .awaitingReview) :
        ScreenEvent Nat Nat Unit) := by
  have hrun : ∃ s s' : Screen Nat Nat, replay (step (H := Unit)) start
      [.openSource 1, .answered 0 (emptyReview .awaitingReview .awaitingReview), .edit .add,
        .act .save, .conflicted, .reloadAfterConflict] = some s ∧
      s.step (.answered 0 (emptyReview .awaitingReview .awaitingReview) :
        ScreenEvent Nat Nat Unit) = some s' ∧
      (s.landing (.answered 0 (emptyReview .awaitingReview .awaitingReview) :
        ScreenEvent Nat Nat Unit)).map (·.1.silent) = some false ∧
      s.kept < s.edits ∧ s'.dialog.rows = [] ∧ s.dialog.rows ≠ [] :=
    ⟨_, _, rfl, rfl, rfl, by decide, rfl, by decide⟩
  obtain ⟨s, s', hreplay, hstep, hloud, hedited, hrows', hrows⟩ := hrun
  refine ⟨s, s', hedited, fun heq => hrows (heq.symm.trans hrows'), ?_⟩
  refine keepsEdits_of_undisturbed (runOf_replay (fun _ _ _ => trivial) hreplay) hstep ?_
  intro load answer hlanding hsilent
  rw [hlanding] at hloud
  have hfalse : load.silent = false := Option.some.inj hloud
  simp [hfalse] at hsilent

/-- Two polls are in flight. The later one finds the draft, a row is added, and the answer of the
earlier one, read while the meeting was transcribed, takes the row away. -/
theorem not_keepsEdits_latePoll : ¬∀ (s s' : Screen Nat Nat) (e : ScreenEvent Nat Nat Unit),
    RunOf (step (H := Unit)) anyEvent start s → s.step e = some s' → s.KeepsEdits s' e := by
  intro hall
  have hrun : ∃ s s' : Screen Nat Nat, replay (step (H := Unit)) start
      [.openSource 1, .answered 0 (emptyReview .transcribing .processing), .tick, .tick,
        .answered 1 (emptyReview .awaitingReview .awaitingReview), .edit .add] = some s ∧
      s.step (.answered 0 (emptyReview .transcribing .processing) :
        ScreenEvent Nat Nat Unit) = some s' ∧
      (s.landing (.answered 0 (emptyReview .transcribing .processing) :
        ScreenEvent Nat Nat Unit)).map (·.1.origin) = some .poll ∧
      s.kept < s.edits ∧ s'.dialog.rows = [] ∧ s.dialog.rows ≠ [] :=
    ⟨_, _, rfl, rfl, rfl, by decide, rfl, by decide⟩
  obtain ⟨s, s', hreplay, hstep, hpoll, hedited, hrows', hrows⟩ := hrun
  rcases hall s s' _ (runOf_replay (fun _ _ _ => trivial) hreplay) hstep hedited with
    heq | hown | ⟨load, answer, hlanding, horigin⟩
  · exact hrows (heq.symm.trans hrows')
  · exact hown
  · rw [hlanding] at hpoll
    have horigin' : load.origin = .poll := Option.some.inj hpoll
    simp [horigin'] at horigin

end Screen

end Maeglagi.Drafts
