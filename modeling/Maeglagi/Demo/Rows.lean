import Mathlib.Data.List.MinMax
import Maeglagi.Ontology
import Maeglagi.Snapshot.Remap
import Maeglagi.Sources.Row

/-!
# The published demo and its copy

The rows of a workspace that `clone_demo` reads, and the ones it writes. A row of the copy
keeps the columns that are not named; `others` holds the texts of those that nothing reads.
-/

namespace Maeglagi.Demo

open Core

/-- `UUID`, its `str`, and `uuid5` in the namespace of a UUID. -/
structure Ids (U : Type) extends Snapshot.Uuids U where
  uuid5 : U → Text → U

variable {U : Type}

/-! ## The rows -/

structure WorkspaceRow (U : Type) where
  id : U
  ownerId : U
  name : Text
  demoSeed : Bool
  deriving DecidableEq

structure PersonRow (U : Type) where
  id : U
  workspaceId : U
  ownerId : U
  others : List Text
  deriving DecidableEq

structure ProjectRow (U : Type) where
  id : U
  workspaceId : U
  ownerId : U
  ownerPersonId : Option U
  others : List Text
  deriving DecidableEq

structure MemberRow (U : Type) where
  id : U
  workspaceId : U
  projectId : U
  personId : U
  deriving DecidableEq

/-- An utterance in a JSON column. -/
structure UtteranceItem where
  personId : Option Text
  others : List Text
  deriving DecidableEq

/-- A project or a person in a confirmed snapshot. -/
structure SnapshotItem where
  id : Text
  ownerPersonId : Option Text
  others : List Text
  deriving DecidableEq

/-- `confirmed_snapshot` -/
structure SnapshotItems where
  project : Option SnapshotItem
  projects : List SnapshotItem
  people : List SnapshotItem
  roster : List SnapshotItem
  deriving DecidableEq

structure SourceRow (U : Type) where
  id : U
  workspaceId : U
  ownerId : U
  kind : SourceKind
  title : Text
  contentType : Text
  objectPath : Text
  contentText : Option Text
  projectId : Option U
  rawUtterances : List UtteranceItem
  reviewUtterances : List UtteranceItem
  reviewState : Option ReviewState
  reviewRevision : Nat
  confirmedAt : Option Instant
  confirmedSnapshot : Option SnapshotItems
  analysisCheckpoint : Option (List Text)
  status : SourceStatus
  processingStage : ProcessingStage
  progress : Rat
  createdAt : Instant
  others : List Text
  deriving DecidableEq

structure SourceProjectRow (U : Type) where
  id : U
  workspaceId : U
  sourceId : U
  projectId : U
  position : Nat
  deriving DecidableEq

structure SourcePersonRow (U : Type) where
  id : U
  workspaceId : U
  sourceId : U
  personId : U
  role : PersonRole
  deriving DecidableEq

structure ChunkRow (U : Type) where
  id : U
  workspaceId : U
  ownerId : U
  sourceId : U
  others : List Text
  deriving DecidableEq

structure ContextRow (U : Type) where
  id : U
  workspaceId : U
  ownerId : U
  sourceId : U
  chunkId : Option U
  others : List Text
  deriving DecidableEq

/-- An item of a Context Store. -/
structure StoreItem where
  sourceId : Option Text
  sourceRefs : List Text
  others : List Text
  deriving DecidableEq

structure StoreRow (U : Type) where
  id : U
  workspaceId : U
  ownerId : U
  sourceIds : List Text
  openIssues : List StoreItem
  decisions : List StoreItem
  nextActions : List StoreItem
  others : List Text
  deriving DecidableEq

/-- The rows of a workspace. -/
structure Rows (U : Type) where
  workspace : WorkspaceRow U
  people : List (PersonRow U)
  projects : List (ProjectRow U)
  members : List (MemberRow U)
  sources : List (SourceRow U)
  sourceProjects : List (SourceProjectRow U)
  sourcePeople : List (SourcePersonRow U)
  chunks : List (ChunkRow U)
  contexts : List (ContextRow U)
  stores : List (StoreRow U)
  deriving DecidableEq

/-- The properties of a node. -/
structure NodeRow where
  id : Text
  workspaceId : Text
  sourceId : Text
  sourceIds : List Text
  chunkId : Option Text
  supersededBy : Option Text
  identifiers : List Text
  others : List Text
  deriving DecidableEq

/-- An edge with its ends, its type and its properties. -/
structure EdgeRow where
  id : Text
  workspaceId : Text
  source : Text
  target : Text
  kind : Text
  sourceId : Option Text
  chunkId : Option Text
  others : List Text
  deriving DecidableEq

/-- The nodes and edges of a workspace. -/
structure Graph where
  nodes : List NodeRow
  edges : List EdgeRow
  deriving DecidableEq

/-- What is published: rows, and a graph where a graph store is configured. -/
structure Published (U : Type) extends Rows U where
  graph : Graph
  deriving DecidableEq

/-! ## The copy -/

/-- `target_id` -/
def targetId (ids : Ids U) (ownerId publicId : U) : U :=
  ids.uuid5 ownerId ("public-demo-clone-v1:".toList ++ ids.str publicId)

section Copy

variable (ids : Ids U) (target : U)

/-- `mapped`, of an id. -/
def mapped (value : U) : U := ids.uuid5 target (ids.str value)

/-- `str(mapped(_))`, of the text of an id. -/
def mappedText (value : Text) : Text := ids.str (ids.uuid5 target value)

/-- The mapped id, where there is one that is not empty. -/
def mappedIf (value : Option Text) : Option Text :=
  (value.filter fun t => decide (t ≠ [])).map (mappedText ids target)

/-- The value with its id mapped in place; an empty one stays. -/
def replaced (value : Option Text) : Option Text :=
  value.map fun t => if t = [] then t else mappedText ids target t

/-- `remap_utterances` -/
def remapUtterances (items : List UtteranceItem) : List UtteranceItem :=
  items.map fun item => { item with personId := replaced ids target item.personId }

/-- An entry of `remap_snapshot`. -/
def SnapshotItem.remap (item : SnapshotItem) : SnapshotItem :=
  { item with
    id := mappedText ids target item.id
    ownerPersonId := replaced ids target item.ownerPersonId }

/-- `remap_snapshot` -/
def remapSnapshot (snapshot : SnapshotItems) : SnapshotItems where
  project := snapshot.project.map (·.remap ids target)
  projects := snapshot.projects.map (·.remap ids target)
  people := snapshot.people.map (·.remap ids target)
  roster := snapshot.roster.map (·.remap ids target)

/-- The object path of a source of the copy, under its new id. -/
def clonePath (id : U) : Text :=
  "public-demo-text/".toList ++ ids.str target ++ '/' :: ids.str id

/-- The items of a Context Store; references to other things than sources stay. -/
def StoreItem.remap (sourceIds : List Text) (item : StoreItem) : StoreItem :=
  { item with
    sourceId := mappedIf ids target item.sourceId
    sourceRefs := item.sourceRefs.map fun ref =>
      if ref ∈ sourceIds then mappedText ids target ref else ref }

variable (ownerId : U)

def SourceRow.copy (source : SourceRow U) : SourceRow U :=
  { source with
    id := mapped ids target source.id
    workspaceId := target
    ownerId := ownerId
    objectPath := clonePath ids target (mapped ids target source.id)
    projectId := source.projectId.map (mapped ids target)
    rawUtterances := remapUtterances ids target source.rawUtterances
    reviewUtterances := remapUtterances ids target source.reviewUtterances
    confirmedSnapshot := source.confirmedSnapshot.map (remapSnapshot ids target)
    analysisCheckpoint := none }

/-- The id of the draft that is made of the first meeting. -/
def draftId : U := ids.uuid5 target "editing-draft".toList

/-- The first meeting as a draft to edit. -/
def SourceRow.draft (now : Instant) (first : SourceRow U) : SourceRow U :=
  { first with
    id := draftId ids target
    workspaceId := target
    ownerId := ownerId
    title := first.title ++ " · 편집 체험용 초안".toList
    objectPath := clonePath ids target (draftId ids target)
    projectId := first.projectId.map (mapped ids target)
    rawUtterances := remapUtterances ids target first.rawUtterances
    reviewUtterances := remapUtterances ids target first.reviewUtterances
    reviewState := some .awaitingReview
    reviewRevision := 0
    confirmedAt := none
    confirmedSnapshot := none
    analysisCheckpoint := none
    status := .awaitingReview
    processingStage := .awaitingReview
    progress := 0
    createdAt := now }

/-- The id of a row that the draft gets besides the copy of a row. -/
def draftRowId (id : U) : U := ids.uuid5 target ("draft:".toList ++ ids.str id)

def SourceProjectRow.copy (row : SourceProjectRow U) : SourceProjectRow U :=
  { row with
    id := mapped ids target row.id
    workspaceId := target
    sourceId := mapped ids target row.sourceId
    projectId := mapped ids target row.projectId }

def SourceProjectRow.draft (row : SourceProjectRow U) : SourceProjectRow U :=
  { row with
    id := draftRowId ids target row.id
    workspaceId := target
    sourceId := draftId ids target
    projectId := mapped ids target row.projectId }

def SourcePersonRow.copy (row : SourcePersonRow U) : SourcePersonRow U :=
  { row with
    id := mapped ids target row.id
    workspaceId := target
    sourceId := mapped ids target row.sourceId
    personId := mapped ids target row.personId }

def SourcePersonRow.draft (row : SourcePersonRow U) : SourcePersonRow U :=
  { row with
    id := draftRowId ids target row.id
    workspaceId := target
    sourceId := draftId ids target
    personId := mapped ids target row.personId }

def StoreRow.copy (sourceIds : List Text) (store : StoreRow U) : StoreRow U :=
  { store with
    id := mapped ids target store.id
    workspaceId := target
    ownerId := ownerId
    sourceIds := store.sourceIds.map (mappedText ids target)
    openIssues := store.openIssues.map (·.remap ids target sourceIds)
    decisions := store.decisions.map (·.remap ids target sourceIds)
    nextActions := store.nextActions.map (·.remap ids target sourceIds) }

/-- A node of `_graph_nodes`. -/
def NodeRow.copy (node : NodeRow) : NodeRow :=
  { node with
    id := mappedText ids target node.id
    workspaceId := ids.str target
    sourceId := mappedText ids target node.sourceId
    sourceIds := node.sourceIds.map (mappedText ids target)
    chunkId := mappedIf ids target node.chunkId
    supersededBy := mappedIf ids target node.supersededBy
    identifiers := node.identifiers.map
      (Snapshot.remapDirectoryIdentifier ids.toUuids ⟨target, ids.uuid5 target⟩) }

/-- An edge of `_graph_edges`. -/
def EdgeRow.copy (edge : EdgeRow) : EdgeRow :=
  { edge with
    id := mappedText ids target edge.id
    workspaceId := ids.str target
    source := mappedText ids target edge.source
    target := mappedText ids target edge.target
    sourceId := mappedIf ids target edge.sourceId
    chunkId := mappedIf ids target edge.chunkId }

/-- The edges that are created between nodes: one for each pair of nodes under its ends. -/
def createdEdges (nodes : List NodeRow) (edges : List EdgeRow) : List EdgeRow :=
  edges.flatMap fun edge =>
    (nodes.filter fun n => decide (n.id = edge.source)).flatMap fun _ =>
      (nodes.filter fun n => decide (n.id = edge.target)).map fun _ => edge

/-- The graph that is written for the copy. -/
def Graph.copy (graph : Graph) : Graph where
  nodes := graph.nodes.map (·.copy ids target)
  edges := createdEdges (graph.nodes.map (·.copy ids target))
    (graph.edges.map (·.copy ids target))

end Copy

/-- The first meeting by its time. -/
def Rows.firstMeeting (rows : Rows U) : Option (SourceRow U) :=
  (rows.sources.filter fun s => decide (s.kind = .meeting)).argmin SourceRow.createdAt

/-- The rows that `clone_demo` writes at a time, with a draft of the first meeting. -/
def Rows.copy [DecidableEq U] (ids : Ids U) (ownerId : U) (now : Instant) (first : SourceRow U)
    (rows : Rows U) : Rows U :=
  let target := targetId ids ownerId rows.workspace.id
  let mapped := mapped ids target
  { workspace := ⟨target, ownerId, rows.workspace.name.take 105 ++ " · 내 사본".toList, false⟩
    people := rows.people.map fun row =>
      { row with id := mapped row.id, workspaceId := target, ownerId := ownerId }
    projects := rows.projects.map fun row =>
      { row with
        id := mapped row.id
        workspaceId := target
        ownerId := ownerId
        ownerPersonId := row.ownerPersonId.map mapped }
    members := rows.members.map fun row =>
      ⟨mapped row.id, target, mapped row.projectId, mapped row.personId⟩
    sources := rows.sources.map (·.copy ids target ownerId) ++
      [first.draft ids target ownerId now]
    sourceProjects := rows.sourceProjects.map (·.copy ids target) ++
      (rows.sourceProjects.filter fun row => decide (row.sourceId = first.id)).map
        (·.draft ids target)
    sourcePeople := rows.sourcePeople.map (·.copy ids target) ++
      (rows.sourcePeople.filter fun row => decide (row.sourceId = first.id)).map
        (·.draft ids target)
    chunks := rows.chunks.map fun row =>
      { row with
        id := mapped row.id
        workspaceId := target
        ownerId := ownerId
        sourceId := mapped row.sourceId }
    contexts := rows.contexts.map fun row =>
      { row with
        id := mapped row.id
        workspaceId := target
        ownerId := ownerId
        sourceId := mapped row.sourceId
        chunkId := row.chunkId.map mapped }
    stores := rows.stores.map
      (·.copy ids target ownerId (rows.sources.map fun s => ids.str s.id)) }

end Maeglagi.Demo
