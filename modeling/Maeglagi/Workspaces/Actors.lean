import Mathlib.Logic.Equiv.List
import Maeglagi.Agent.Submission
import Maeglagi.PlainSystem
import Maeglagi.Sources.Transcription
import Maeglagi.Workspaces.Members

/-!
# Operations by any member

The workflow operations as an actor of a shared workspace runs them: the repository checks the
actor's role and hands over the row of the workspace, whose records belong to its owner. The
recovery of a transcript looks for the recording and for people under the actor's id instead.
-/

namespace Maeglagi.Workspaces

open Core Jobs

variable {Id H : Type} [DecidableEq Id] [DecidableEq H]

/-- A row of the directory with the columns that scope it. -/
structure Scoped (Id α : Type) where
  workspaceId : Id
  ownerId : Id
  row : α

/-- The tables that the operations read. -/
structure Tables (Id H : Type) where
  members : Members Id
  sources : List (Source Id H)
  people : List (Scoped Id (WorkspacePerson Id))
  projects : List (Scoped Id (WorkspaceProject Id))
  projectMembers : List (ProjectMember Id)
  jobs : Id → Option (Job Id)
  currentDecisions : Id → List Text

namespace Tables

/-- The rows of a workspace that belong to an owner. -/
def rowsOf {α : Type} (workspace owner : Id) (rows : List (Scoped Id α)) : List α :=
  (rows.filter fun r => decide (r.workspaceId = workspace) && decide (r.ownerId = owner)).map (·.row)

/-- The directory of a workspace under an owner. -/
def directory (db : Tables Id H) (workspace owner : Id) : Directory Id :=
  ⟨rowsOf workspace owner db.people, rowsOf workspace owner db.projects, db.projectMembers⟩

/-- `WorkflowRepository.workspace`: the owner of the workspace. -/
def workspace (db : Tables Id H) (actor workspace : Id) (minimum : Role) : Except ApiError Id :=
  match db.members.owner workspace with
  | none => .error (.workflow "workspace_not_found" "Workspace not found" 404)
  | some owner =>
    let role :=
      if owner = actor then some Role.owner
      else (db.members.rows.find? fun r =>
        decide (r.workspaceId = workspace) && decide (r.userId = some actor)).map (·.role)
    if role.any fun role => decide (minimum.level ≤ role.level) then .ok owner
    else .error (.workflow "workspace_not_found" "Workspace not found" 404)

/-- `WorkflowRepository.source` -/
def source (db : Tables Id H) (actor workspace sourceId : Id) (minimum : Role) :
    Except ApiError (Source Id H) := do
  let owner ← db.workspace actor workspace minimum
  match db.sources.find? fun s => decide (s.id = sourceId) with
  | none => throw (.workflow "source_not_found" "Source not found" 404)
  | some source =>
    if source.ownerId ≠ owner ∨ source.workspaceId ≠ workspace then
      throw (.workflow "source_not_found" "Source not found" 404)
    else return source

end Tables

/-- A workflow operation with its arguments after the ids. The turns of a submission take the
choices of the environment, and so do the clock and the executor. -/
inductive Operation (Id H : Type) where
  | saveDocumentText (expectedRevision : Nat) (text : Text)
  | saveTranscript (expectedRevision : Nat) (utterances : List (Utterance Id))
  | confirmTranscript (expectedRevision : Nat) (now : Instant)
  | analysisContext
  | submitAnalysis (request : SubmissionRequest H) (choices : List (Action Id))
  | recoverBrowserTranscript (revision : Nat) (utterances : List (Utterance Id))

/-- What an operation gives, without audit data. -/
inductive Answer (Id H : Type) where
  | saved (source : Source Id H)
  | context (source : Source Id H) (text : Text) (fingerprint : H) (knownDecisions : List Text)
      (directory : Snapshot Id)
  | alreadyApplied
  | submitted (source : Source Id H)
  deriving DecidableEq

/-- The row after the turns of a submission, each with the next choice of the environment. -/
def turns (env : Env Id H) (analyst : Analyst Id H) (row : Source Id H) :
    Option (Source Id H × Point) → List (Action Id) → Source Id H
  | none, _ => row
  | some _, [] => row
  | some (session, point), choice :: rest =>
    match turn env analyst row session point choice with
    | none => row
    | some t => turns env analyst t.row t.next rest

/-- `analysis_context` after the access check. -/
def analysisContext (env : Env Id H) (dir : Directory Id) (known : List Text)
    (source : Source Id H) : Except ApiError (Answer Id H) := do
  require (decide (source.analysisMode = .agent))
    (.workflow "invalid_source" "Agent source required" 409)
  let text ← sourceText source
  let directory ← submissionDirectory env dir source
  return .context source text
    (env.digests.context (source.fingerprint env.digests text directory) (sortedDecisions known))
    known directory

/-- An operation as an actor runs it on a source of a workspace. -/
def Tables.run (env : Env Id H) (db : Tables Id H) (workspace sourceId actor : Id) :
    Operation Id H → Except ApiError (Answer Id H)
  | .saveDocumentText expectedRevision text => do
    let source ← db.source actor workspace sourceId .editor
    return .saved (← Maeglagi.saveDocumentText env.settings source expectedRevision text)
  | .saveTranscript expectedRevision utterances => do
    let source ← db.source actor workspace sourceId .editor
    return .saved (← Maeglagi.saveTranscript source expectedRevision utterances)
  | .confirmTranscript expectedRevision now => do
    let source ← db.source actor workspace sourceId .editor
    return .saved (← Maeglagi.confirmTranscript env.rt (db.directory workspace source.ownerId) now
      source expectedRevision)
  | .analysisContext => do
    let source ← db.source actor workspace sourceId .viewer
    Workspaces.analysisContext env (db.directory workspace source.ownerId)
      (db.currentDecisions workspace) source
  | .submitAnalysis request choices => do
    let source ← db.source actor workspace sourceId .editor
    let admission ← Maeglagi.submitAnalysis env (db.directory workspace source.ownerId)
      (db.currentDecisions workspace) source request
    match admission with
    | .alreadyApplied => return .alreadyApplied
    | .started submission t =>
      -- the role is checked again after the first commit
      let _ ← db.workspace actor workspace .editor
      return .submitted (turns env (.agent submission) t.row t.next choices)
  | .recoverBrowserTranscript revision utterances => do
    let source ← db.source actor workspace sourceId .viewer
    -- both the recording and the people are looked for under the actor
    return .saved (← Maeglagi.recoverBrowserTranscript env.rt (db.directory workspace actor) actor
      (db.jobs sourceId) source revision utterances)

/-- The actor holds at least the role of an editor. -/
def Tables.Edits (db : Tables Id H) (workspace actor : Id) : Prop :=
  ∃ owner, db.workspace actor workspace .editor = .ok owner

/-- The recovery of a transcript gets as far as the look for the recording. -/
def Source.Recovers (source : Source Id H) (revision : Nat) (request : List (Utterance Id)) :
    Prop :=
  (∃ utterances, request.mapM agentUtterance = .ok utterances) ∧ source.kind = .meeting ∧
    source.status = .failed ∧ source.reviewState = some .transcribing ∧
    source.analysisMode = .server ∧ source.reviewRevision = revision ∧ 0 < source.sizeBytes

/-- The recording is stored under the actor's id. -/
def Source.StoredUnder (rt : Runtime Id) (source : Source Id H) (actor : Id) : Prop :=
  (storedPrefix rt actor source.workspaceId source.id).isPrefixOf source.objectPath = true

/-- The operation recovers a transcript, it gets as far as the look for the recording, and the
recording is stored under the id of one of two actors. -/
def Tables.Diverts (rt : Runtime Id) (db : Tables Id H) (workspace sourceId a b : Id) :
    Operation Id H → Prop
  | .recoverBrowserTranscript revision request => a ≠ b ∧
    ∃ source, db.source a workspace sourceId .viewer = .ok source ∧
      Source.Recovers source revision request ∧
      (Source.StoredUnder rt source a ∨ Source.StoredUnder rt source b)
  | _ => False

section
variable {env : Env Id H} {db : Tables Id H} {workspace sourceId a b : Id}

omit [DecidableEq H] in
/-- The check of the workspace gives its owner or fails, whoever asks. -/
theorem workspace_eq_ok {minimum : Role} {owner : Id}
    (h : db.workspace a workspace minimum = .ok owner) :
    db.members.owner workspace = some owner := by
  unfold Tables.workspace at h
  cases howner : db.members.owner workspace with
  | none =>
    rw [howner] at h
    cases h
  | some o =>
    rw [howner] at h
    dsimp only at h
    split_ifs at h
    all_goals
      cases h
      rfl

omit [DecidableEq H] in
/-- Who passes a check passes one for a lower role. -/
theorem workspace_mono {minimum lower : Role} (hle : lower.level ≤ minimum.level) {owner : Id}
    (h : db.workspace a workspace minimum = .ok owner) :
    db.workspace a workspace lower = .ok owner := by
  unfold Tables.workspace at h ⊢
  cases howner : db.members.owner workspace with
  | none =>
    rw [howner] at h
    cases h
  | some o =>
    rw [howner] at h
    dsimp only at h ⊢
    split_ifs at h with hself hany hany
    · rw [if_pos hself]
      simp only [Option.any_some, decide_eq_true_eq] at hany ⊢
      rw [if_pos (hle.trans hany)]
      exact h
    · rw [if_neg hself]
      obtain ⟨role, hrole, hlevel⟩ := (Option.any_eq_true _ _).mp hany
      rw [hrole, Option.any_some]
      rw [if_pos (decide_eq_true (hle.trans (of_decide_eq_true hlevel)))]
      exact h

omit [DecidableEq H] in
variable (sourceId) in
/-- Two editors are handed the same rows. -/
theorem source_eq_of_edits (ha : db.Edits workspace a) (hb : db.Edits workspace b)
    (minimum : Role) (hminimum : minimum.level ≤ Role.editor.level) :
    db.workspace a workspace minimum = db.workspace b workspace minimum ∧
      db.source a workspace sourceId minimum = db.source b workspace sourceId minimum := by
  obtain ⟨owner, ha⟩ := ha
  obtain ⟨owner', hb⟩ := hb
  obtain rfl : owner = owner' :=
    Option.some.inj ((workspace_eq_ok ha).symm.trans (workspace_eq_ok hb))
  have hsame : db.workspace a workspace minimum = db.workspace b workspace minimum :=
    (workspace_mono hminimum ha).trans (workspace_mono hminimum hb).symm
  exact ⟨hsame, by unfold Tables.source; rw [hsame]⟩

omit [DecidableEq H] in
/-- A row that is handed over is the workspace's. -/
theorem source_eq_ok {minimum : Role} {source : Source Id H}
    (h : db.source a workspace sourceId minimum = .ok source) : source.workspaceId = workspace := by
  obtain ⟨owner, -, h⟩ := bind_eq_ok.mp h
  cases hfind : db.sources.find? fun s => decide (s.id = sourceId) with
  | none =>
    rw [hfind] at h
    cases h
  | some s =>
    rw [hfind] at h
    dsimp only at h
    split_ifs at h with hscope
    obtain rfl := pure_eq_ok.mp h
    exact not_not.mp (not_or.mp hscope).2

omit [DecidableEq Id] [DecidableEq H] in
/-- A recording is stored under one id at most. -/
theorem storedUnder_unique {rt : Runtime Id} (hslash : ∀ i, '/' ∉ rt.str i) {source : Source Id H}
    (ha : Source.StoredUnder rt source a) (hb : Source.StoredUnder rt source b) : a = b := by
  unfold Source.StoredUnder at ha hb
  rw [List.isPrefixOf_iff_prefix] at ha hb
  obtain ⟨s, hs⟩ := ha
  obtain ⟨t, ht⟩ := hb
  have heq := hs.trans ht.symm
  simp only [storedPrefix, List.append_assoc, List.cons_append] at heq
  exact rt.str_injective (append_cons_inj (hslash a) (hslash b) heq).1

/-- The error of a recording that is not found. -/
def recordingMissing : ApiError :=
  .workflow "recording_missing" "Stored recording not found" 409

omit [DecidableEq H] in
/-- Without a recording under the actor's id the recovery fails, and whose it is does not matter
before that. -/
theorem recover_eq_of_missing {rt : Runtime Id} {dir dir' : Directory Id} {job : Option (Job Id)}
    {source : Source Id H} {revision : Nat} {request : List (Utterance Id)}
    (h : ¬ (Source.Recovers source revision request ∧
      (Source.StoredUnder rt source a ∨ Source.StoredUnder rt source b))) :
    Maeglagi.recoverBrowserTranscript rt dir a job source revision request =
      Maeglagi.recoverBrowserTranscript rt dir' b job source revision request := by
  unfold Maeglagi.recoverBrowserTranscript
  cases hrequest : request.mapM agentUtterance with
  | error e => rfl
  | ok utterances =>
    simp only [bind, Except.bind]
    by_cases hguard : (decide (source.kind = .meeting) && decide (source.status = .failed) &&
      decide (source.reviewState = some .transcribing) &&
        decide (source.analysisMode = .server)) = true
    swap
    · rw [require_neg hguard]
    rw [require_pos hguard]
    by_cases hrevision : decide (source.reviewRevision = revision) = true
    swap
    · rw [require_neg hrevision]
    rw [require_pos hrevision]
    dsimp only
    have hmissing : ∀ actor, actor = a ∨ actor = b → ¬ (decide (0 < source.sizeBytes) &&
        (storedPrefix rt actor source.workspaceId source.id).isPrefixOf source.objectPath) =
          true := by
      intro actor hactor hstored
      rw [Bool.and_eq_true, decide_eq_true_eq] at hstored
      simp only [Bool.and_eq_true, decide_eq_true_eq] at hguard hrevision
      refine h ⟨⟨⟨utterances, hrequest⟩, hguard.1.1.1, hguard.1.1.2, hguard.1.2, hguard.2,
        hrevision, hstored.1⟩, ?_⟩
      rcases hactor with rfl | rfl
      · exact Or.inl hstored.2
      · exact Or.inr hstored.2
    rw [require_neg (hmissing a (Or.inl rfl)), require_neg (hmissing b (Or.inr rfl))]

omit [DecidableEq H] in
/-- A recovery that gets to the look for the recording fails there or nowhere. -/
theorem recover_missing_iff {rt : Runtime Id} {dir : Directory Id} {job : Option (Job Id)}
    {source : Source Id H} {revision : Nat} {request : List (Utterance Id)}
    (h : Source.Recovers source revision request) :
    Maeglagi.recoverBrowserTranscript rt dir a job source revision request =
      .error recordingMissing ↔ ¬ Source.StoredUnder rt source a := by
  obtain ⟨⟨utterances, hrequest⟩, hkind, hstatus, hstate, hmode, hrevision, hsize⟩ := h
  unfold Maeglagi.recoverBrowserTranscript Source.StoredUnder
  simp only [hrequest, hkind, hstatus, hstate, hmode, hrevision, hsize, decide_true, Bool.and_self,
    Bool.true_and, bind, Except.bind, require_pos]
  by_cases hstored : (storedPrefix rt a source.workspaceId source.id).isPrefixOf
      source.objectPath = true
  · rw [require_pos hstored]
    simp only [hstored, not_true, iff_false]
    unfold require recordingMissing
    split_ifs <;> simp [pure, Except.pure]
  · rw [require_neg hstored]
    simp [hstored, recordingMissing]

/-- Two editors get the same from every operation that does not recover a transcript. -/
theorem run_eq_of_edits (ha : db.Edits workspace a) (hb : db.Edits workspace b)
    {op : Operation Id H} (hop : ∀ revision request, op ≠ .recoverBrowserTranscript revision request) :
    db.run env workspace sourceId a op = db.run env workspace sourceId b op := by
  have hedit := source_eq_of_edits sourceId ha hb .editor le_rfl
  have hview := source_eq_of_edits sourceId ha hb .viewer (by decide)
  cases op with
  | recoverBrowserTranscript revision request => exact absurd rfl (hop revision request)
  | analysisContext => simp only [Tables.run, hview.2]
  | submitAnalysis request choices => simp only [Tables.run, hedit.1, hedit.2]
  | saveDocumentText | saveTranscript | confirmTranscript => simp only [Tables.run, hedit.2]

omit [DecidableEq Id] [DecidableEq H] in
/-- An answer that saves a row fails as the row does. -/
theorem saved_eq_error {x : Except ApiError (Source Id H)} {e : ApiError} :
    (do return Answer.saved (← x) : Except ApiError (Answer Id H)) = .error e ↔ x = .error e := by
  cases x <;> simp [bind, Except.bind, pure, Except.pure]

/-- The recovery of a transcript once the row is handed over. -/
theorem run_recover {source : Source Id H} {revision : Nat} {request : List (Utterance Id)}
    (h : db.source a workspace sourceId .viewer = .ok source) :
    db.run env workspace sourceId a (.recoverBrowserTranscript revision request) =
      (do return .saved (← Maeglagi.recoverBrowserTranscript env.rt (db.directory workspace a) a
        (db.jobs sourceId) source revision request)) := by
  unfold Tables.run
  rw [h]
  rfl

/-- When two editors get the same from the recovery of a transcript. -/
theorem recover_eq_iff (hslash : ∀ i, '/' ∉ env.rt.str i) (ha : db.Edits workspace a)
    (hb : db.Edits workspace b) {revision : Nat} {request : List (Utterance Id)} :
    db.run env workspace sourceId a (.recoverBrowserTranscript revision request) =
        db.run env workspace sourceId b (.recoverBrowserTranscript revision request) ↔
      ¬ db.Diverts env.rt workspace sourceId a b (.recoverBrowserTranscript revision request) := by
  have hview := source_eq_of_edits sourceId ha hb .viewer (by decide)
  by_cases hab : a = b
  · subst hab
    exact iff_of_true rfl fun h => h.1 rfl
  cases hsource : db.source a workspace sourceId .viewer with
  | error e =>
    refine iff_of_true ?_ ?_
    · simp only [Tables.run, ← hview.2, hsource]
      rfl
    · rintro ⟨-, source, hok, -⟩
      rw [hsource] at hok
      cases hok
  | ok source =>
    rw [run_recover hsource, run_recover (hview.2 ▸ hsource)]
    constructor
    · rintro heq ⟨-, source', hsource', hrecovers, hstored⟩
      obtain rfl : source = source' := Except.ok.inj (hsource.symm.trans hsource')
      -- whoever has the recording does not fail for the want of it, and the other does
      rcases hstored with ha' | hb'
      · have hnot : ¬ Source.StoredUnder env.rt source b := fun hb' =>
          hab (storedUnder_unique hslash ha' hb')
        rw [(recover_missing_iff hrecovers).mpr hnot] at heq
        exact (recover_missing_iff hrecovers).mp (saved_eq_error.mp heq) ha'
      · have hnot : ¬ Source.StoredUnder env.rt source a := fun ha' =>
          hab (storedUnder_unique hslash ha' hb')
        rw [(recover_missing_iff hrecovers).mpr hnot] at heq
        exact (recover_missing_iff hrecovers).mp (saved_eq_error.mp heq.symm) hb'
    · intro h
      have hnot : ¬ (Source.Recovers source revision request ∧
          (Source.StoredUnder env.rt source a ∨ Source.StoredUnder env.rt source b)) :=
        fun hd => h ⟨hab, source, hsource, hd⟩
      rw [recover_eq_of_missing hnot]

/-- Two editors get the same from an operation, but where it recovers a transcript, gets as far
as the look for the recording, and the recording is stored under the id of one of them. -/
theorem run_actor_free_iff (env : Env Id H) (hslash : ∀ i, '/' ∉ env.rt.str i) (db : Tables Id H)
    (workspace sourceId a b : Id) (op : Operation Id H) (ha : db.Edits workspace a)
    (hb : db.Edits workspace b) :
    db.run env workspace sourceId a op = db.run env workspace sourceId b op ↔
      ¬ db.Diverts env.rt workspace sourceId a b op := by
  cases op with
  | recoverBrowserTranscript revision request => exact recover_eq_iff hslash ha hb
  | analysisContext => exact iff_of_true (run_eq_of_edits ha hb (by rintro _ _ ⟨⟩)) id
  | submitAnalysis => exact iff_of_true (run_eq_of_edits ha hb (by rintro _ _ ⟨⟩)) id
  | saveDocumentText => exact iff_of_true (run_eq_of_edits ha hb (by rintro _ _ ⟨⟩)) id
  | saveTranscript => exact iff_of_true (run_eq_of_edits ha hb (by rintro _ _ ⟨⟩)) id
  | confirmTranscript => exact iff_of_true (run_eq_of_edits ha hb (by rintro _ _ ⟨⟩)) id

end

/-- A runtime that prints a name as the number of its code. -/
def numberedRuntime : Runtime Text := { plainRuntime with
  str := fun t => Nat.toDigits 10 (Encodable.encode (t.map Char.toNat))
  str_injective := by
    intro a b h
    have hdigits : Nat.toDigits 10 (Encodable.encode (a.map Char.toNat)) =
        Nat.toDigits 10 (Encodable.encode (b.map Char.toNat)) := h
    have hcode : Encodable.encode (a.map Char.toNat) = Encodable.encode (b.map Char.toNat) := by
      rw [← Nat.ofDigitChars_ten_toDigits (n := Encodable.encode (a.map Char.toNat)), hdigits,
        Nat.ofDigitChars_ten_toDigits]
    exact List.map_injective_iff.mpr (fun _ _ => Char.toNat_inj.mp)
      (Encodable.encode_injective hcode)
  colon_notMem_str := fun t hmem =>
    absurd (Nat.isDigit_of_mem_toDigits (by decide) (by decide) hmem) (by decide) }

theorem slash_notMem_numbered (t : Text) : '/' ∉ numberedRuntime.str t := fun hmem =>
  absurd (Nat.isDigit_of_mem_toDigits (by decide) (by decide) hmem) (by decide)

/-- An environment that prints ids so. -/
def numberedEnv : Env Text PlainDigest :=
  ⟨numberedRuntime, plainDigests, ⟨.postgres, 1000000, false⟩⟩

/-- A recording of the workspace `w` whose transcription failed, stored under its owner `o`. -/
def failedRecording : Source Text PlainDigest where
  id := "s".toList
  workspaceId := "w".toList
  ownerId := "o".toList
  kind := .meeting
  title := "m".toList
  objectPath := storedPrefix numberedRuntime "o".toList "w".toList "s".toList ++ "f".toList
  sizeBytes := 1
  analysisMode := .server
  transcriptSource := some .server
  durationSeconds := none
  transcriptText := none
  rawTranscriptText := none
  rawUtterances := []
  reviewUtterances := []
  reviewState := some .transcribing
  reviewRevision := 0
  projectId := none
  projects := []
  people := []
  associationRevision := 0
  confirmedAt := none
  confirmedSnapshot := none
  contentText := none
  analysisCheckpoint := none
  status := .failed
  processingStage := .transcribing
  progress := 0
  errorMessage := none

/-- The workspace has an editor `e` besides its owner. -/
def sharedTables : Tables Text PlainDigest where
  members := ⟨fun _ => none, fun w => if w = "w".toList then some "o".toList else none,
    [⟨"r".toList, "w".toList, some "e".toList, "e@b.c".toList, "e@b.c".toList, .editor⟩],
    by decide⟩
  sources := [failedRecording]
  people := []
  projects := []
  projectMembers := []
  jobs _ := none
  currentDecisions _ := []

theorem sharedTables_edits : sharedTables.Edits "w".toList "o".toList ∧
    sharedTables.Edits "w".toList "e".toList := ⟨⟨_, rfl⟩, ⟨_, rfl⟩⟩

/-- The transcript that both send. -/
def sentTranscript : Operation Text PlainDigest :=
  .recoverBrowserTranscript 0 [⟨"u".toList, none, "A".toList, "hi".toList, none, none⟩]

theorem failedRecording_recovers : Source.Recovers failedRecording 0
    [⟨"u".toList, none, "A".toList, "hi".toList, none, none⟩] :=
  ⟨⟨_, rfl⟩, rfl, rfl, rfl, rfl, rfl, by decide⟩

theorem failedRecording_stored :
    Source.StoredUnder numberedRuntime failedRecording "o".toList := by
  rw [Source.StoredUnder, List.isPrefixOf_iff_prefix]
  exact List.prefix_append ..

/-- Before the revision is right both get the same. -/
theorem run_actor_free_stale :
    sharedTables.run numberedEnv "w".toList "s".toList "o".toList
        (.recoverBrowserTranscript 7 []) =
      sharedTables.run numberedEnv "w".toList "s".toList "e".toList
        (.recoverBrowserTranscript 7 []) := by
  refine (run_actor_free_iff numberedEnv slash_notMem_numbered sharedTables _ _ _ _ _
    sharedTables_edits.1 sharedTables_edits.2).mpr ?_
  rintro ⟨-, source, hsource, ⟨-, -, -, -, -, hrevision, -⟩, -⟩
  obtain rfl := Except.ok.inj hsource
  exact absurd hrevision (by decide)

/-- The owner recovers the transcript of the recording; the editor is told that there is none. -/
theorem recovery_differs :
    (∃ answer, sharedTables.run numberedEnv "w".toList "s".toList "o".toList sentTranscript =
        .ok answer) ∧
      sharedTables.run numberedEnv "w".toList "s".toList "e".toList sentTranscript =
        .error (.workflow "recording_missing" "Stored recording not found" 409) := by
  have howner : sharedTables.source "o".toList "w".toList "s".toList .viewer =
      .ok failedRecording := rfl
  have heditor : sharedTables.source "e".toList "w".toList "s".toList .viewer =
      .ok failedRecording := rfl
  constructor
  · have hstored := failedRecording_stored
    unfold Source.StoredUnder at hstored
    rw [sentTranscript, run_recover howner]
    unfold Maeglagi.recoverBrowserTranscript
    rw [show numberedEnv.rt = numberedRuntime from rfl, hstored]
    exact ⟨_, rfl⟩
  · have hnot : ¬ Source.StoredUnder numberedRuntime failedRecording "e".toList := fun h =>
      absurd (storedUnder_unique slash_notMem_numbered failedRecording_stored h) (by decide)
    exact (run_recover heditor).trans
      (saved_eq_error.mpr ((recover_missing_iff failedRecording_recovers).mpr hnot))

end Maeglagi.Workspaces
