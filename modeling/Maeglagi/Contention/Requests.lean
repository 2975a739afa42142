import Maeglagi.Core.Transactions
import Maeglagi.Sources.Review

/-!
# Requests that lock directory rows

The requests of `review.py`, `associations.py` and `directory.py` that lock rows of sources,
people and projects, each as the transaction it runs: every row is locked where the code
locks it, and is read as it is then.
-/

namespace Maeglagi.Contention

open Core

section

variable {Id H : Type} [DecidableEq Id]

/-- A row that is locked with `FOR UPDATE`. -/
inductive Row (Id : Type) where
  | source (id : Id)
  | person (id : Id)
  | project (id : Id)
  deriving DecidableEq

/-- The sources of all workspaces, the directory of the workspace with the revisions of its
projects, and the directories of the other workspaces. -/
structure Database (Id H : Type) where
  sources : Id → Option (Source Id H)
  directory : Directory Id
  revisions : Id → Nat
  elsewhere : List (Directory Id)

/-- The row exists, in whatever workspace. -/
def Database.present (db : Database Id H) : Row Id → Bool
  | .source id => (db.sources id).isSome
  | .person id => (db.directory :: db.elsewhere).any fun dir => (dir.person id).isSome
  | .project id => (db.directory :: db.elsewhere).any fun dir => (dir.project id).isSome

/-- The database after the row of a source is written. -/
def Database.putSource (db : Database Id H) (id : Id) (source : Source Id H) : Database Id H :=
  { db with sources := Function.update db.sources id (some source) }

/-- The workspace that the requests are about, and how its sources are processed. -/
structure Office (Id : Type) where
  workspaceId : Id
  ownerId : Id
  executor : Executor

/-- What a request executes. -/
abbrev Request (Id H α : Type) : Type := Txn (Row Id) (Database Id H) ApiError α

/-- What a request writes when it commits. -/
abbrev Write (Id H : Type) : Type := Database Id H → Database Id H

/-- `select(Source)` FOR UPDATE -/
def lockSource (id : Id) : Request Id H (Option (Source Id H)) :=
  .lock (.source id) fun db => .pure (db.sources id)

/-- `session.get(WorkspacePerson)` FOR UPDATE; a row of another workspace is as good as none. -/
def lockPerson (id : Id) : Request Id H (Option (WorkspacePerson Id)) :=
  .lock (.person id) fun db => .pure (db.directory.person id)

/-- `session.get(WorkspaceProject)` FOR UPDATE, with the revision of the project. -/
def lockProject (id : Id) : Request Id H (Option (WorkspaceProject Id × Nat)) :=
  .lock (.project id) fun db =>
    .pure ((db.directory.project id).map fun project => (project, db.revisions id))

/-- What is there, or the error. -/
def orRefuse {α : Type} (error : ApiError) : Option α → Request Id H α
  | some value => .pure value
  | none => .refuse error

/-- `active_person`, for an id that is given. -/
def activePerson (id : Id) : Request Id H (WorkspacePerson Id) := do
  let person ← lockPerson id
  orRefuse (.http 422 "Invalid person reference") (person.filter fun p => !p.archived)

/-- `active_project`, for an id that is given. -/
def activeProject (id : Id) : Request Id H (WorkspaceProject Id) := do
  let row ← lockProject id
  orRefuse (.http 422 "Invalid project reference")
    ((row.map Prod.fst).filter fun p => !p.archived)

/-- `owned_meeting` -/
def ownedMeeting (office : Office Id) (id : Id) : Request Id H (Source Id H) := do
  let source ← lockSource id
  orRefuse (.http 404 "Meeting not found") (source.filter fun source =>
    decide (source.workspaceId = office.workspaceId) && decide (source.ownerId = office.ownerId) &&
      decide (source.kind = .meeting))

/-- `validate_refs`: the people of utterances, each locked once in order of first mention. -/
def validateRefs (utterances : List (Utterance Id)) : Request Id H (List (WorkspacePerson Id)) :=
  (utterances.filterMap Utterance.personId).eraseDups.mapM activePerson

/-- `replace_projects` -/
def replaceProjects (source : Source Id H) (ids : List Id) : Request Id H (Source Id H) := do
  .of (require (decide ids.Nodup) (.http 422 "Duplicate project ID"))
  let _ ← ids.mapM activeProject
  return { source with projects := ids, projectId := ids.head? }

/-- `save_review` -/
def saveReview (office : Office Id) (id : Id) (request : ReviewPatch Id) :
    Request Id H (Write Id H) := do
  let body ← .of request.modelValidate
  let source ← ownedMeeting office id
  .of (require (decide (source.reviewState = some .awaitingReview))
    (.http 409 "Meeting is not awaiting review"))
  .of (require (decide (source.reviewRevision = body.revision))
    (.http 409 "Stale review revision"))
  .of (validateUniqueUtterances body.utterances)
  let ids := body.projectIds.getD body.projectId.toList
  .of (require
    (body.projectIds.isNone || body.projectId.isNone || decide (ids.head? = body.projectId))
    (.http 422 "projectId must be primary"))
  let _ ← validateRefs body.utterances
  let replaced ← replaceProjects source ids
  return fun db => db.putSource id { replaced with
    associationRevision :=
      if source.projectIds = ids then source.associationRevision
      else source.associationRevision + 1
    reviewUtterances := body.utterances
    reviewRevision := source.reviewRevision + 1 }

/-- The owner of a project that has one, archived or not. -/
def projectOwner (id : Id) : Request Id H (WorkspacePerson Id) := do
  let person ← lockPerson id
  orRefuse (.http 422 "Invalid project owner") person

/-- A project of the meeting with its owner, one locked after the other. -/
def projectWithOwner (id : Id) :
    Request Id H (WorkspaceProject Id × Option (WorkspacePerson Id)) := do
  let project ← activeProject id
  let owner ← project.ownerPersonId.mapM projectOwner
  return (project, owner)

/-- The active members of projects, each row of `project_members` in turn. -/
def lockRoster (projects : List (WorkspaceProject Id)) :
    Request Id H (List (WorkspacePerson Id)) := do
  let members ← .read fun db => .pure (db.directory.members.filter fun m =>
    projects.any fun p => decide (p.id = m.projectId))
  let candidates ← members.mapM fun member => lockPerson member.personId
  return (candidates.filterMap fun person => person.filter fun p => !p.archived).eraseDups

/-- The branch of `confirm_review` for a meeting that awaits review. -/
def confirmDraft (now : Instant) (source : Source Id H) : Request Id H (Source Id H) := do
  let utterances ← .of (source.reviewUtterances.mapM reviewUtterance)
  .of (validateUniqueUtterances utterances)
  let usable := utterances.filter fun u => decide (u.text ≠ [])
  .of (require (decide (usable ≠ [])) (.http 422 "Transcript text is required"))
  let people ← validateRefs usable
  let selected ← source.projectIds.mapM projectWithOwner
  let projects := selected.map Prod.fst
  let roster ← lockRoster projects
  let confirmed := usable.map (Utterance.named people)
  return { source with
    reviewUtterances := confirmed
    transcriptText := some (transcriptOf confirmed)
    confirmedSnapshot := some (snapshot projects people (selected.filterMap Prod.snd) roster)
    people := source.people.filter (fun p => decide (p.2 ≠ .participant)) ++
      people.map fun person => (person.id, .participant)
    confirmedAt := some now
    associationRevision := source.associationRevision + 1
    reviewState := some .confirmed }

/-- `confirm_review` -/
def confirmReview (office : Office Id) (id : Id) (revision : Nat) (now : Instant)
    (brokerUp : Bool) : Request Id H (Write Id H) := do
  let source ← ownedMeeting office id
  .of (require (decide (source.reviewRevision = revision)) (.http 409 "Stale review revision"))
  match source.reviewState with
  | some .confirmed =>
    if source.status = .failed ∨ source.status = .enqueuePending then
      return fun db => db.putSource id (submitConfirmed office.executor brokerUp source).1
    else return fun db => db
  | some .awaitingReview =>
    let confirmed ← confirmDraft now source
    return fun db => db.putSource id (submitConfirmed office.executor brokerUp confirmed).1
  | _ => .refuse (.http 409 "Meeting is not awaiting review")

/-- `patch_associations` -/
def patchAssociations (office : Office Id) (id : Id) (body : AssociationsPatch Id) :
    Request Id H (Write Id H) := do
  let found ← lockSource id
  let source ← orRefuse (.http 404 "Source not found") (found.filter fun source =>
    decide (source.workspaceId = office.workspaceId) && decide (source.ownerId = office.ownerId))
  .of (require (decide (source.associationRevision = body.revision))
    (.http 409 "Stale association revision"))
  .of (require (decide body.people.Nodup) (.http 422 "Duplicate person association"))
  let _ ← body.people.mapM fun item => activePerson item.1
  let replaced ← replaceProjects source body.projectIds
  return fun db => db.putSource id { replaced with
    people := body.people
    associationRevision := source.associationRevision + 1
    reviewRevision :=
      if source.kind = .meeting ∧ source.reviewState ≠ some .confirmed then
        source.reviewRevision + 1
      else source.reviewRevision }

/-- `ProjectInput`; dates are in ISO form. -/
structure ProjectInput (Id : Type) where
  name : Text
  goal : Option Text
  description : Option Text
  ownerPersonId : Option Id
  startsOn : Option Text
  endsOn : Option Text

/-- A project would end before it starts. -/
def endsFirst (startsOn endsOn : Option Text) : Bool :=
  startsOn.any fun start => endsOn.any fun finish => decide (finish < start)

/-- The field limits of `ProjectInput` and `ProjectPatch`. -/
def withinLimits (name goal description : Option Text) : Bool :=
  name.all (fun t => decide (1 ≤ t.length) && decide (t.length ≤ 120)) &&
    goal.all (fun t => decide (t.length ≤ 4000)) &&
    description.all fun t => decide (t.length ≤ 4000)

/-- `ProjectInput.model_validate` -/
def ProjectInput.modelValidate (body : ProjectInput Id) : Except ApiError (ProjectInput Id) := do
  require (withinLimits (some body.name) body.goal body.description) .validation
  require (decide (strip body.name ≠ [])) .validation
  require (!endsFirst body.startsOn body.endsOn) .validation
  return { body with name := strip body.name }

/-- `create_project`, under a fresh id. -/
def createProject (fresh : Id) (request : ProjectInput Id) : Request Id H (Write Id H) := do
  let body ← .of request.modelValidate
  let _ ← body.ownerPersonId.mapM activePerson
  return fun db => { db with
    directory := { db.directory with
      projects := db.directory.projects ++ [⟨fresh, body.name, body.goal, body.description,
        body.ownerPersonId, body.startsOn, body.endsOn, false⟩] }
    revisions := Function.update db.revisions fresh 0 }

/-- `ProjectPatch`; a field that is set may be set to null. -/
structure ProjectPatch (Id : Type) where
  name : Option (Option Text)
  goal : Option (Option Text)
  description : Option (Option Text)
  ownerPersonId : Option (Option Id)
  startsOn : Option (Option Text)
  endsOn : Option (Option Text)
  archived : Option Bool

/-- The name that a patch sets, stripped. -/
def ProjectPatch.newName (body : ProjectPatch Id) : Except ApiError (Option Text) :=
  match body.name with
  | none => .ok none
  | some none => .error (.http 422 "Name is required")
  | some (some name) =>
    if strip name = [] then .error (.http 422 "Name is required") else .ok (some (strip name))

/-- The database after the row of a project is written. -/
def Database.putProject (db : Database Id H) (project : WorkspaceProject Id) : Database Id H :=
  { db with
    directory := { db.directory with
      projects := db.directory.projects.map fun p => if p.id = project.id then project else p } }

/-- `update_project` -/
def updateProject (id : Id) (body : ProjectPatch Id) : Request Id H (Write Id H) := do
  .of (require (withinLimits body.name.join body.goal.join body.description.join) .validation)
  let found ← lockProject id
  let (project, _) ← orRefuse (.http 404 "Project not found") found
  let name ← .of body.newName
  let _ ← body.ownerPersonId.join.mapM activePerson
  let changed := { project with
    name := name.getD project.name
    goal := body.goal.getD project.goal
    description := body.description.getD project.description
    ownerPersonId := body.ownerPersonId.getD project.ownerPersonId
    startsOn := body.startsOn.getD project.startsOn
    endsOn := body.endsOn.getD project.endsOn
    archived := body.archived.getD project.archived }
  .of (require (!endsFirst changed.startsOn changed.endsOn)
    (.http 422 "Project end precedes start"))
  return fun db => db.putProject changed

/-- `ProjectParticipantsPatch` -/
structure ProjectParticipantsPatch (Id : Type) where
  revision : Nat
  personIds : List Id

/-- `replace_project_participants` -/
def replaceProjectParticipants (id : Id) (body : ProjectParticipantsPatch Id) :
    Request Id H (Write Id H) := do
  let found ← lockProject id
  let (project, revision) ← orRefuse (.http 404 "Project not found") found
  .of (require (!project.archived) (.http 422 "Project is archived"))
  .of (require (decide (revision = body.revision)) (.http 409 "Stale project revision"))
  .of (require (decide body.personIds.Nodup) (.http 422 "Duplicate participant"))
  let _ ← body.personIds.mapM activePerson
  return fun db => { db with
    directory := { db.directory with
      members := db.directory.members.filter (fun m => decide (m.projectId ≠ id)) ++
        body.personIds.map (⟨id, ·⟩) }
    revisions := Function.update db.revisions id (revision + 1) }

/-- A request with its arguments; the time, the broker and the fresh id are what it finds. -/
inductive Call (Id : Type) where
  | saveReview (sourceId : Id) (body : ReviewPatch Id)
  | confirmReview (sourceId : Id) (revision : Nat) (now : Instant) (brokerUp : Bool)
  | patchAssociations (sourceId : Id) (body : AssociationsPatch Id)
  | createProject (fresh : Id) (body : ProjectInput Id)
  | updateProject (projectId : Id) (body : ProjectPatch Id)
  | replaceProjectParticipants (projectId : Id) (body : ProjectParticipantsPatch Id)

/-- The transaction of a request. -/
def program (office : Office Id) : Call Id → Request Id H (Write Id H)
  | .saveReview sourceId body => saveReview office sourceId body
  | .confirmReview sourceId revision now brokerUp =>
    confirmReview office sourceId revision now brokerUp
  | .patchAssociations sourceId body => patchAssociations office sourceId body
  | .createProject fresh body => createProject fresh body
  | .updateProject projectId body => updateProject projectId body
  | .replaceProjectParticipants projectId body => replaceProjectParticipants projectId body

end

/-!
## Requests that run alone

Without others, the transactions of a meeting commit what the functions on its locked row
return.
-/

section

variable {Id H : Type} [DecidableEq Id]

omit [DecidableEq Id] in
@[simp] theorem alone_lockSource (id : Id) (db : Database Id H) :
    (lockSource id).alone db = .ok (db.sources id) := rfl

@[simp] theorem alone_lockPerson (id : Id) (db : Database Id H) :
    (lockPerson id).alone db = .ok (db.directory.person id) := rfl

@[simp] theorem alone_lockProject (id : Id) (db : Database Id H) :
    (lockProject id).alone db =
      .ok ((db.directory.project id).map fun project => (project, db.revisions id)) := rfl

theorem alone_activePerson (id : Id) (db : Database Id H) :
    (activePerson id).alone db = match db.directory.activePerson id with
      | some person => .ok person
      | none => .error (.http 422 "Invalid person reference") := by
  unfold activePerson Directory.activePerson
  rw [Txn.alone_bind, alone_lockPerson]
  dsimp only [bind, Except.bind]
  cases (db.directory.person id).filter fun p => !p.archived <;> rfl

theorem alone_activeProject (id : Id) (db : Database Id H) :
    (activeProject id).alone db = match db.directory.activeProject id with
      | some project => .ok project
      | none => .error (.http 422 "Invalid project reference") := by
  unfold activeProject Directory.activeProject
  rw [Txn.alone_bind, alone_lockProject]
  dsimp only [bind, Except.bind]
  have hrow : ((db.directory.project id).map fun project => (project, db.revisions id)).map
      Prod.fst = db.directory.project id := by
    cases db.directory.project id <;> rfl
  rw [hrow]
  cases (db.directory.project id).filter fun p => !p.archived <;> rfl

/-- Alone, `validate_refs` looks the people up in the directory. -/
theorem alone_validateRefs (utterances : List (Utterance Id)) (db : Database Id H) :
    (validateRefs utterances).alone db = referencedPeople db.directory utterances := by
  have hperson : (fun id => (activePerson id).alone db) = fun id =>
      match db.directory.activePerson id with
      | some person => .ok person
      | none => .error (.http 422 "Invalid person reference") :=
    funext fun id => alone_activePerson id db
  unfold validateRefs referencedPeople
  rw [Txn.alone_mapM]
  exact congrArg (fun person => List.mapM person _) hperson

/-- Alone, `replace_projects` looks the projects up in the directory. -/
theorem alone_replaceProjects (source : Source Id H) (ids : List Id) (db : Database Id H) :
    (replaceProjects source ids).alone db = Maeglagi.replaceProjects db.directory source ids := by
  unfold replaceProjects Maeglagi.replaceProjects referencedProjects
  simp only [Txn.alone_bind, Txn.alone_of, Txn.alone_mapM, alone_activeProject]
  rfl

/-- Alone, looking up people one by one only checks that all of them are active. -/
theorem alone_people_bind {β : Type} (people : List (Id × PersonRole)) (db : Database Id H)
    (k : Except ApiError β) :
    ((people.mapM fun item => (activePerson item.1).alone db) >>= fun _ => k) =
      (require (people.all fun p => (db.directory.activePerson p.1).isSome)
        (.http 422 "Invalid person reference") >>= fun _ => k) := by
  induction people with
  | nil => rfl
  | cons item people ih =>
    rw [List.mapM_cons, alone_activePerson, List.all_cons]
    cases db.directory.activePerson item.1 with
    | none => rfl
    | some person =>
      simp only [Option.isSome_some, Bool.true_and, bind_assoc, pure_bind]
      exact ih

/-- Alone, a meeting of the workspace is found under its id. -/
theorem alone_ownedMeeting {office : Office Id} {id : Id} {db : Database Id H}
    {source : Source Id H} (hrow : db.sources id = some source)
    (hworkspace : source.workspaceId = office.workspaceId)
    (howner : source.ownerId = office.ownerId) :
    (ownedMeeting office id).alone db = (do
      require (decide (source.kind = .meeting)) (.http 404 "Meeting not found")
      return source) := by
  unfold ownedMeeting
  rw [Txn.alone_bind, alone_lockSource, hrow]
  dsimp only [bind, Except.bind]
  rw [Option.filter_some]
  by_cases hkind : source.kind = .meeting
  · rw [if_pos (by simp [hworkspace, howner, hkind]), require_pos (by simp [hkind])]
    rfl
  · rw [if_neg (by simp [hkind]), require_neg (by simp [hkind])]
    rfl

/-- Alone, `save_review` commits the row it computes from the locked one. -/
theorem alone_saveReview {office : Office Id} {id : Id} {db : Database Id H}
    {source : Source Id H} (hrow : db.sources id = some source)
    (hworkspace : source.workspaceId = office.workspaceId)
    (howner : source.ownerId = office.ownerId) (request : ReviewPatch Id) :
    (saveReview office id request).alone db = (do
      let saved ← Maeglagi.saveReview db.directory source request
      return fun db => db.putSource id saved) := by
  unfold saveReview Maeglagi.saveReview
  simp only [Txn.alone_bind, Txn.alone_of, alone_ownedMeeting hrow hworkspace howner,
    alone_validateRefs, alone_replaceProjects, bind_assoc, pure_bind]
  rfl

/-- Alone, `patch_associations` commits the row it computes from the locked one. -/
theorem alone_patchAssociations {office : Office Id} {id : Id} {db : Database Id H}
    {source : Source Id H} (hrow : db.sources id = some source)
    (hworkspace : source.workspaceId = office.workspaceId)
    (howner : source.ownerId = office.ownerId) (body : AssociationsPatch Id) :
    (patchAssociations office id body).alone db = (do
      let patched ← Maeglagi.patchAssociations db.directory source body
      return fun db => db.putSource id patched) := by
  unfold patchAssociations Maeglagi.patchAssociations
  have hfound : (some source).filter (fun source =>
      decide (source.workspaceId = office.workspaceId) &&
        decide (source.ownerId = office.ownerId)) = some source := by
    rw [Option.filter_some]
    exact if_pos (by simp [hworkspace, howner])
  simp only [Txn.alone_bind, Txn.alone_of, Txn.alone_mapM, alone_lockSource, hrow, bind_assoc,
    alone_replaceProjects, alone_people_bind, pure_bind]
  dsimp only [bind, Except.bind]
  rw [hfound]
  rfl

end

end Maeglagi.Contention
