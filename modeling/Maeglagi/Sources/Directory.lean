import Maeglagi.Runtime

/-!
# The workspace directory

People and projects of one workspace, and the snapshot of them that a confirmed meeting
keeps.
-/

namespace Maeglagi

open Core

variable {Id : Type} [DecidableEq Id]

/-- A person of the workspace. -/
structure WorkspacePerson (Id : Type) where
  id : Id
  name : Text
  role : Option Text
  email : Option Text
  aliases : List Text
  archived : Bool
  deriving DecidableEq

/-- A project of the workspace; its dates are in ISO form. -/
structure WorkspaceProject (Id : Type) where
  id : Id
  name : Text
  goal : Option Text
  description : Option Text
  ownerPersonId : Option Id
  startsOn : Option Text
  endsOn : Option Text
  archived : Bool
  deriving DecidableEq

/-- A row of `project_members`. -/
structure ProjectMember (Id : Type) where
  projectId : Id
  personId : Id
  deriving DecidableEq

/-- The directory rows of one workspace. -/
structure Directory (Id : Type) where
  people : List (WorkspacePerson Id)
  projects : List (WorkspaceProject Id)
  members : List (ProjectMember Id)
  deriving DecidableEq

/-- The person under an id. -/
def Directory.person (dir : Directory Id) (id : Id) : Option (WorkspacePerson Id) :=
  dir.people.find? fun person => decide (person.id = id)

/-- The project under an id. -/
def Directory.project (dir : Directory Id) (id : Id) : Option (WorkspaceProject Id) :=
  dir.projects.find? fun project => decide (project.id = id)

/-- `active_person`: the person under an id, unless archived. -/
def Directory.activePerson (dir : Directory Id) (id : Id) : Option (WorkspacePerson Id) :=
  (dir.person id).filter fun person => !person.archived

/-- `active_project`: the project under an id, unless archived. -/
def Directory.activeProject (dir : Directory Id) (id : Id) : Option (WorkspaceProject Id) :=
  (dir.project id).filter fun project => !project.archived

/-- A project in a snapshot. -/
structure ProjectRow (Id : Type) where
  id : Id
  name : Text
  goal : Option Text
  description : Option Text
  ownerPersonId : Option Id
  ownerName : Option Text
  ownerRole : Option Text
  startsOn : Option Text
  endsOn : Option Text
  deriving DecidableEq

/-- A person in a snapshot. -/
structure PersonRow (Id : Type) where
  id : Id
  name : Text
  role : Option Text
  email : Option Text
  aliases : List Text
  deriving DecidableEq

/-- The directory records a confirmed meeting keeps. -/
structure Snapshot (Id : Type) where
  project : Option (ProjectRow Id)
  projects : List (ProjectRow Id)
  people : List (PersonRow Id)
  roster : List (PersonRow Id)
  deriving DecidableEq

omit [DecidableEq Id] in
/-- A person's row in a snapshot. -/
def WorkspacePerson.row (person : WorkspacePerson Id) : PersonRow Id :=
  ⟨person.id, person.name, person.role, person.email, person.aliases⟩

/-- A project's row in a snapshot, with the owner among the given people. -/
def WorkspaceProject.row (owners : List (WorkspacePerson Id)) (project : WorkspaceProject Id) :
    ProjectRow Id :=
  let owner := project.ownerPersonId.bind fun id => owners.find? fun p => decide (p.id = id)
  ⟨project.id, project.name, project.goal, project.description, project.ownerPersonId,
    owner.map WorkspacePerson.name, owner.bind WorkspacePerson.role, project.startsOn,
    project.endsOn⟩

/-- `_snapshot` -/
def snapshot (projects : List (WorkspaceProject Id)) (people owners roster :
    List (WorkspacePerson Id)) : Snapshot Id :=
  let rows := projects.map (WorkspaceProject.row owners)
  ⟨rows.head?, rows, people.map WorkspacePerson.row, roster.map WorkspacePerson.row⟩

end Maeglagi
