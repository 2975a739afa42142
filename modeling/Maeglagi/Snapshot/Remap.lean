import Maeglagi.Snapshot.Artifact

/-!
# The rows that a restore writes

`_remap` hashes the text of an id as it stands in the artifact. Columns that the restore does
not name are copied.
-/

namespace Maeglagi.Snapshot

open Core

variable {U : Type}

/-- The ids a restore chooses: `uuid5` of the target workspace, and the target itself. -/
structure Fresh (U : Type) where
  target : U
  uuid5 : Text → U

/-- `_remap` -/
def remap (uuids : Uuids U) (fresh : Fresh U) (value : Option Text) : Option Text :=
  match value with
  | none => none
  | some text => if text = [] then none else some (uuids.str (fresh.uuid5 text))

/-- The kind and the id of a directory identifier, the parts of `value.split(":", 2)`. -/
def directoryParts (value : Text) : Option (Text × Text) :=
  match value.span (· ≠ ':') with
  | (first, _ :: rest) =>
    match rest.span (· ≠ ':') with
    | (second, _ :: id) =>
      if first = "directory".toList ∧ (second = "person".toList ∨ second = "project".toList) then
        some (second, id)
      else none
    | _ => none
  | _ => none

/-- `_remap_directory_identifier` -/
def remapDirectoryIdentifier (uuids : Uuids U) (fresh : Fresh U) (value : Text) : Text :=
  match directoryParts value with
  | some (kind, id) =>
    match uuids.parse id with
    | some _ => "directory:".toList ++ kind ++ ':' :: (remap uuids fresh (some id)).getD "None".toList
    | none => value
  | none => value

section Rows

variable (uuids : Uuids U) (fresh : Fresh U) (ownerId : U)

/-- The `personId` of an utterance. -/
def UtteranceEntry.restore (entry : UtteranceEntry) : UtteranceEntry :=
  { entry with personId := remap uuids fresh entry.personId }

def ProjectEntry.restore (entry : ProjectEntry) : ProjectEntry :=
  { entry with id := remap uuids fresh entry.id,
               ownerPersonId := remap uuids fresh entry.ownerPersonId }

def PersonEntry.restore (entry : PersonEntry) : PersonEntry :=
  { entry with id := remap uuids fresh entry.id }

def ConfirmedSnapshot.restore (snapshot : ConfirmedSnapshot) : ConfirmedSnapshot :=
  { snapshot with
    project := snapshot.project.map (·.restore uuids fresh)
    projects := snapshot.projects.map (·.restore uuids fresh)
    people := snapshot.people.map (·.restore uuids fresh)
    roster := snapshot.roster.map (·.restore uuids fresh) }

def WorkspaceRow.restore (row : WorkspaceRow) : WorkspaceRow :=
  { row with id := some (uuids.str fresh.target),
             ownerId := some (uuids.str ownerId),
             name := row.name.take 109 ++ " (restored)".toList }

def PersonRow.restore (row : PersonRow) : PersonRow :=
  { row with id := remap uuids fresh row.id,
             workspaceId := some (uuids.str fresh.target),
             ownerId := some (uuids.str ownerId) }

def ProjectRow.restore (row : ProjectRow) : ProjectRow :=
  { row with id := remap uuids fresh row.id,
             workspaceId := some (uuids.str fresh.target),
             ownerId := some (uuids.str ownerId),
             ownerPersonId := remap uuids fresh row.ownerPersonId }

def AssociationRow.restore (row : AssociationRow) : AssociationRow :=
  { row with id := remap uuids fresh row.id,
             workspaceId := some (uuids.str fresh.target),
             personId := remap uuids fresh row.personId,
             projectId := remap uuids fresh row.projectId,
             sourceId := remap uuids fresh row.sourceId }

/-- The object path is a new one under the new id; `attempt` is the id of the upload. -/
def SourceRow.restore (attempt : Text) (row : SourceRow) : SourceRow :=
  { row with
    id := remap uuids fresh row.id
    workspaceId := some (uuids.str fresh.target)
    ownerId := some (uuids.str ownerId)
    objectPath := uuids.str ownerId ++ '/' :: uuids.str fresh.target ++
      '/' :: (remap uuids fresh row.id).getD "None".toList ++ '/' :: attempt ++
      '/' :: pathName row.objectPath
    projectId := remap uuids fresh row.projectId
    reviewUtterances := row.reviewUtterances.map (·.restore uuids fresh)
    rawUtterances := row.rawUtterances.map (·.restore uuids fresh)
    confirmedSnapshot := row.confirmedSnapshot.map (·.restore uuids fresh) }

def ChunkRow.restore (row : ChunkRow) : ChunkRow :=
  { row with id := remap uuids fresh row.id,
             workspaceId := some (uuids.str fresh.target),
             ownerId := some (uuids.str ownerId),
             sourceId := remap uuids fresh row.sourceId }

def ContextRow.restore (row : ContextRow) : ContextRow :=
  { row with id := remap uuids fresh row.id,
             workspaceId := some (uuids.str fresh.target),
             ownerId := some (uuids.str ownerId),
             sourceId := remap uuids fresh row.sourceId,
             chunkId := remap uuids fresh row.chunkId }

def StoreEntry.restore (entry : StoreEntry) : StoreEntry :=
  { entry with sourceId := remap uuids fresh entry.sourceId }

def StoreRow.restore (row : StoreRow) : StoreRow :=
  { row with
    id := remap uuids fresh row.id
    workspaceId := some (uuids.str fresh.target)
    ownerId := some (uuids.str ownerId)
    sourceIds := row.sourceIds.map (remap uuids fresh)
    openIssues := row.openIssues.map (·.restore uuids fresh)
    decisions := row.decisions.map (·.restore uuids fresh)
    nextActions := row.nextActions.map (·.restore uuids fresh) }

def NodeRow.restore (row : NodeRow) : NodeRow :=
  { row with
    id := remap uuids fresh row.id
    workspaceId := some (uuids.str fresh.target)
    sourceId := remap uuids fresh row.sourceId
    chunkId := remap uuids fresh row.chunkId
    sourceIds := row.sourceIds.map (remap uuids fresh)
    supersededBy := remap uuids fresh row.supersededBy
    identifiers := row.identifiers.map (remapDirectoryIdentifier uuids fresh) }

def EdgeRow.restore (row : EdgeRow) : EdgeRow :=
  { row with
    id := remap uuids fresh row.id
    workspaceId := some (uuids.str fresh.target)
    sourceId := remap uuids fresh row.sourceId
    chunkId := remap uuids fresh row.chunkId
    source := remap uuids fresh row.source
    target := remap uuids fresh row.target }

/-- The rows and the graph that `restore_snapshot` writes; an edge whose ends the graph does not have is not created. -/
def restoredRows (attempt : Text) (rows : Rows) : Rows :=
  let nodes := rows.nodes.map (·.restore uuids fresh)
  { workspace := rows.workspace.restore uuids fresh ownerId
    people := rows.people.map (·.restore uuids fresh ownerId)
    projects := rows.projects.map (·.restore uuids fresh ownerId)
    projectMembers := rows.projectMembers.map (·.restore uuids fresh)
    sourceProjects := rows.sourceProjects.map (·.restore uuids fresh)
    sourcePeople := rows.sourcePeople.map (·.restore uuids fresh)
    sources := rows.sources.map (·.restore uuids fresh ownerId attempt)
    chunks := rows.chunks.map (·.restore uuids fresh ownerId)
    contexts := rows.contexts.map (·.restore uuids fresh ownerId)
    contextStores := rows.contextStores.map (·.restore uuids fresh ownerId)
    nodes := nodes
    edges := (rows.edges.map (·.restore uuids fresh)).filter fun edge =>
      (nodes.any fun node => decide (node.id = edge.source)) &&
        nodes.any fun node => decide (node.id = edge.target) }

end Rows

end Maeglagi.Snapshot
