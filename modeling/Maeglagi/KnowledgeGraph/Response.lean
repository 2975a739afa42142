import Maeglagi.Core.Lasts
import Maeglagi.Core.Sorting
import Maeglagi.Graph.Store
import Maeglagi.Resolution.Names
import Maeglagi.Sources.Row
import Maeglagi.Temporal.Instant

/-!
# The graph that a workspace is shown as

`get_knowledge_graph`: the stored nodes and the relations valid at an instant, the records of the
directory, and the materials with what was extracted from them. A node's id is kept as the UUID
that is printed for it.
-/

namespace Maeglagi.KnowledgeGraph

open Core Graph Resolution Temporal

/-- The exceptions of the request: a datetime out of range, and a malformed UUID. -/
inductive GraphError where
  | overflowError
  | valueError
  deriving DecidableEq

/-- A record of `_NODES`. -/
structure NodeRow (Id : Type) where
  id : Id
  kind : EntityKind
  name : Text
  sourceIds : List Text
  supersededBy : Option Id
  identifiers : List Text

/-- A record of `_EDGES`. -/
structure EdgeRow (Id : Type) where
  id : Option Id
  source : Id
  target : Id
  kind : RelationKind
  validFrom : Option Instant
  validTo : Option Instant

/-- `GraphSourceResponse` -/
structure GraphSource (Id : Type) where
  id : Id
  kind : SourceKind
  title : Text

/-- `GraphNodeResponse` -/
structure GraphNode (Id : Type) where
  id : Id
  type : Text
  kind : Text
  label : Text
  degree : Nat
  sources : List (GraphSource Id)
  supersededBy : Option Id
  material : Bool
  sourceId : Option Id
  directoryId : Option Id
  directoryKind : Option Text

/-- `GraphEdgeResponse` -/
structure GraphEdge (Id : Type) where
  id : Text
  source : Id
  target : Id
  type : Text
  kind : Text
  validFrom : Option Instant
  validTo : Option Instant
  explicit : Bool
  role : Option Text

/-- `KnowledgeGraphResponse` -/
structure KnowledgeGraphResponse (Id : Type) where
  nodes : List (GraphNode Id)
  edges : List (GraphEdge Id)

/-- `ENTITY_TYPE` -/
def entityType : EntityKind → Text
  | .person => "person".toList
  | .organization => "person".toList
  | .project => "project".toList
  | .technology => "project".toList
  | .decision => "decision".toList
  | .task => "task".toList
  | .meeting => "event".toList
  | .event => "event".toList
  | .issue => "event".toList
  | .document => "event".toList

/-- `RELATION_TYPE.get(_, "relates_to")` -/
def relationType : RelationKind → Text
  | .participatedIn => "participates_in".toList
  | .decidedIn => "decided".toList
  | .assignedTo => "assigned_to".toList
  | .blockedBy => "blocks".toList
  | .worksOn => "relates_to".toList
  | .created => "relates_to".toList
  | .relatedTo => "relates_to".toList
  | .mentionedIn => "relates_to".toList
  | .resultedIn => "relates_to".toList
  | .dueOn => "relates_to".toList

/-- The kinds of records in the directory. -/
inductive RecordKind where
  | person | project
  deriving DecidableEq

/-- The kind of a record among those of the ontology. -/
def RecordKind.entityKind : RecordKind → EntityKind
  | .person => .person
  | .project => .project

/-- `kind.lower()` -/
def RecordKind.lower : RecordKind → Text
  | .person => "person".toList
  | .project => "project".toList

variable {Id H : Type} [DecidableEq Id]

/-- `GraphReader.nodes` -/
def readNodes (rt : Runtime Id) (g : Stored Id) (workspaceId : Id) : List (NodeRow Id) :=
  sortBy (fun row => [row.name, rt.str row.id])
    ((g.nodes.entries.filter fun n => decide (n.2.workspaceId = workspaceId)).map fun n =>
      ⟨n.1, n.2.kind, n.2.name, n.2.sourceIds, n.2.supersededBy, n.2.identifiers⟩)

/-- The node under an id, if it is in the workspace. -/
def nodeIn (g : Stored Id) (workspaceId id : Id) : Option (Node Id) :=
  (g.nodes.get? id).filter fun n => decide (n.workspaceId = workspaceId)

/-- `GraphReader.edges`: relations between nodes of the workspace that were valid at the instant;
those without an id come last. -/
def readEdges (rt : Runtime Id) (g : Stored Id) (workspaceId : Id) (instant : Instant) :
    List (EdgeRow Id) :=
  let valid := g.edges.filter fun e =>
    (nodeIn g workspaceId e.source).isSome && (nodeIn g workspaceId e.target).isSome &&
      (e.period.validFrom.all fun start => decide (start ≤ instant)) &&
      (e.period.validTo.all fun stop => decide (instant ≤ stop))
  let nameOf (id : Id) : Text := ((nodeIn g workspaceId id).map Node.name).getD []
  (sortBy (fun e => [nameOf e.source, rt.str e.source, e.kind.value, nameOf e.target,
      rt.str e.target, e.id.elim "1".toList fun id => '0' :: rt.str id]) valid).map fun e =>
    ⟨e.id, e.source, e.target, e.kind, e.period.validFrom, e.period.validTo⟩

/-- `_edge`: "A blocked by B" is drawn as "B blocks A". -/
def edge (rt : Runtime Id) (row : EdgeRow Id) : GraphEdge Id :=
  let source := if row.kind = .blockedBy then row.target else row.source
  let target := if row.kind = .blockedBy then row.source else row.target
  { id := match row.id with
      | some id => rt.str id
      | none => rt.str source ++ '-' :: (row.kind.value ++ '-' :: rt.str target)
    source, target, type := relationType row.kind, kind := row.kind.value,
    validFrom := row.validFrom, validTo := row.validTo, explicit := false, role := none }

/-- A replaced decision is drawn as "new supersedes old". -/
def supersedesEdge (rt : Runtime Id) (successor old : Id) : GraphEdge Id where
  id := rt.str successor ++ "-supersedes-".toList ++ rt.str old
  source := successor
  target := old
  type := "supersedes".toList
  kind := "SUPERSEDES".toList
  validFrom := none
  validTo := none
  explicit := false
  role := none

/-- What the request has read. -/
structure GraphInput (Id H : Type) where
  workspaceId : Id
  includeMaterials : Bool
  rows : List (NodeRow Id)
  edgeRows : List (EdgeRow Id)
  sources : Dict Text (Source Id H)
  directory : Directory Id

namespace GraphInput

variable (rt : Runtime Id) (parseId : Text → Option Id) (input : GraphInput Id H)

/-- The id is that of a stored node. -/
def stored (id : Id) : Bool := input.rows.any fun row => decide (row.id = id)

/-- The relations that are drawn between stored nodes. -/
def storedEdges : List (GraphEdge Id) :=
  (input.edgeRows.map (edge rt)).filter fun edge =>
    input.stored edge.source && input.stored edge.target

/-- The links from decisions to those they replace. -/
def supersedesEdges : List (GraphEdge Id) :=
  input.rows.filterMap fun row => (row.supersededBy.filter input.stored).map fun successor =>
    supersedesEdge rt successor row.id

/-- A source as it is shown on a node. -/
def graphSource (source : Source Id H) : GraphSource Id := ⟨source.id, source.kind, source.title⟩

/-- A stored node as it is shown. -/
def storedNode (row : NodeRow Id) : GraphNode Id where
  id := row.id
  type := entityType row.kind
  kind := row.kind.value
  label := row.name
  degree := 0
  sources := (row.sourceIds.filterMap input.sources.get?).map graphSource
  supersededBy := row.supersededBy
  material := false
  sourceId := none
  directoryId := none
  directoryKind := none

/-- The directory records that an identifier names. -/
def recordsOf (identifier : Text) : List (RecordKind × Id) :=
  [RecordKind.person, RecordKind.project].filterMap fun kind =>
    let start := "directory:".toList ++ kind.lower ++ [':']
    if start.isPrefixOf identifier then
      (parseId (removePrefix start identifier)).map fun id => (kind, id)
    else none

/-- `directory_ids`: the last stored node that is identified as a record. -/
def directoryIds : Dict (RecordKind × Id) Id :=
  Dict.empty.setMany (input.rows.flatMap fun row =>
    (row.identifiers.flatMap (recordsOf parseId)).map fun record => (record, row.id))

/-- The id of the node of a record: that of a stored node, or one of its own. -/
def recordNode (kind : RecordKind) (id : Id) : Id :=
  ((input.directoryIds parseId).get? (kind, id)).getD (entityId rt input.workspaceId
    kind.entityKind ("id:directory:".toList ++ kind.lower ++ ':' :: rt.str id))

/-- `add_directory`: the record's label on its node, or a node for it. -/
def addDirectory (nodes : List (GraphNode Id)) (kind : RecordKind) (id : Id) (label : Text) :
    List (GraphNode Id) :=
  let nodeId := input.recordNode rt parseId kind id
  if nodes.any fun node => decide (node.id = nodeId) then
    nodes.map fun node =>
      if node.id = nodeId then
        { node with
          label, directoryId := some id, directoryKind := some kind.entityKind.value }
      else node
  else nodes ++ [{
    id := nodeId, type := kind.lower, kind := kind.entityKind.value, label, degree := 0,
    sources := [], supersededBy := none, material := false, sourceId := none,
    directoryId := some id, directoryKind := some kind.entityKind.value }]

/-- The nodes of the graph and of the directory. -/
def directoryNodes : List (GraphNode Id) :=
  let nodes := input.rows.map input.storedNode
  let nodes := input.directory.people.foldl (fun nodes person =>
    input.addDirectory rt parseId nodes .person person.id person.name) nodes
  input.directory.projects.foldl (fun nodes project =>
    input.addDirectory rt parseId nodes .project project.id project.name) nodes

/-- `person_nodes`: the node of a person of the directory. -/
def personNode (id : Id) : Option Id :=
  if input.directory.people.any fun person => decide (person.id = id) then
    some (input.recordNode rt parseId .person id)
  else none

/-- `project_nodes`: the node of a project of the directory. -/
def projectNode (id : Id) : Option Id :=
  if input.directory.projects.any fun project => decide (project.id = id) then
    some (input.recordNode rt parseId .project id)
  else none

/-- The id of an explicit edge. -/
def explicitId (source : Id) (kind : RelationKind) (target : Id) (role : Text) : Id :=
  rt.uuid5 (joinColon ["explicit".toList, rt.str input.workspaceId, rt.str source, kind.value,
    rt.str target, role])

/-- `explicit_edge` -/
def explicitEdge (source target : Id) (kind : RelationKind) (role : Text) : GraphEdge Id where
  id := rt.str (input.explicitId rt source kind target role)
  source := source
  target := target
  type := relationType kind
  kind := kind.value
  validFrom := none
  validTo := none
  explicit := true
  role := some role

/-- The links from people to their projects. -/
def memberEdges : List (GraphEdge Id) :=
  input.directory.members.filterMap fun item => do
    let person ← input.personNode rt parseId item.personId
    let project ← input.projectNode rt parseId item.projectId
    return input.explicitEdge rt person project .worksOn "member".toList

/-- `visible`: the materials that are shown. -/
def visible : List (Source Id H) :=
  if input.includeMaterials then
    input.sources.values.filter fun source => source.status == .succeeded ||
      (source.kind == .meeting && source.reviewState == some .confirmed)
  else []

/-- The kind of the node of a material. -/
def materialKind (source : Source Id H) : EntityKind :=
  match source.kind with
  | .meeting => .meeting
  | .document => .document

/-- The id of the node of a material. -/
def materialId (source : Source Id H) : Id :=
  entityId rt input.workspaceId (materialKind source) ("source:".toList ++ rt.str source.id)

/-- The node of a material. -/
def materialNode (source : Source Id H) : GraphNode Id where
  id := input.materialId rt source
  type := "event".toList
  kind := (materialKind source).value
  label := source.title
  degree := 0
  sources := [graphSource source]
  supersededBy := none
  material := true
  sourceId := some source.id
  directoryId := none
  directoryKind := none

/-- `evidence_by_source`: the nodes extracted from a source, once for each time they name it. -/
def evidenceOf (source : Source Id H) : List Id :=
  (input.rows.filter fun row => decide (row.kind ∈
    [EntityKind.event, .decision, .task, .issue, .technology])).flatMap fun row =>
      (row.sourceIds.filter fun id => decide (id = rt.str source.id)).map fun _ => row.id

/-- The id of the link from an extracted node to its material. -/
def evidenceId (extracted : Id) (source : Source Id H) : Id :=
  rt.uuid5 (joinColon ["evidence".toList, rt.str input.workspaceId, rt.str extracted,
    rt.str source.id])

/-- The link from an extracted node to its material. -/
def evidenceEdge (source : Source Id H) (extracted : Id) : GraphEdge Id where
  id := rt.str (input.evidenceId rt extracted source)
  source := extracted
  target := input.materialId rt source
  type := "relates_to".toList
  kind := RelationKind.mentionedIn.value
  validFrom := none
  validTo := none
  explicit := false
  role := none

/-- The projects of a material: its rows, or else the one in its own column. -/
def projectsOf (source : Source Id H) : List Id :=
  match source.projects with
  | [] => source.projectId.toList
  | projects => projects

/-- The value of a role. -/
def roleText : PersonRole → Text
  | .participant => "participant".toList
  | .author => "author".toList

/-- The kind of the link from a person to a material. -/
def roleKind : PersonRole → RelationKind
  | .author => .created
  | .participant => .participatedIn

/-- The links of a material. -/
def materialEdges (source : Source Id H) : List (GraphEdge Id) :=
  (input.evidenceOf rt source).map (input.evidenceEdge rt source) ++
  ((projectsOf source).filterMap (input.projectNode rt parseId)).map (fun project =>
    input.explicitEdge rt (input.materialId rt source) project .relatedTo "project".toList) ++
  source.people.filterMap fun item => do
    let person ← input.personNode rt parseId item.1
    return input.explicitEdge rt person (input.materialId rt source) (roleKind item.2)
      (roleText item.2)

/-- The nodes without their degrees. -/
def nodes : List (GraphNode Id) :=
  input.directoryNodes rt parseId ++ input.visible.map (input.materialNode rt)

/-- The edges. -/
def edges : List (GraphEdge Id) :=
  input.storedEdges rt ++ input.supersedesEdges rt ++ input.memberEdges rt parseId ++
    input.visible.flatMap (input.materialEdges rt parseId)

/-- `degree[id]` -/
def degree (edges : List (GraphEdge Id)) (id : Id) : Nat :=
  (edges.map (·.source)).count id + (edges.map (·.target)).count id

/-- The response to a request that has read this. -/
def response : KnowledgeGraphResponse Id :=
  let edges := input.edges rt parseId
  ⟨(input.nodes rt parseId).map fun node => { node with degree := degree edges node.id }, edges⟩

end GraphInput

/-- `as_utc(at) or datetime.now(UTC)` -/
def shownAt (instant : Option DateTime) (now : Instant) : Except GraphError Instant :=
  match asUtc instant with
  | .ok instant => .ok (instant.getD now)
  | .error .overflowError => .error .overflowError

/-- The sources that the stored nodes name. -/
def wantedIds (parseId : Text → Option Id) (rows : List (NodeRow Id)) :
    Except GraphError (List Id) :=
  match ((rows.flatMap (·.sourceIds)).filter (· ≠ [])).mapM parseId with
  | some wanted => .ok wanted
  | none => .error .valueError

/-- What the request reads. -/
def readGraph (rt : Runtime Id) (parseId : Text → Option Id) (workspaceId ownerId : Id)
    (instant : Option DateTime) (now : Instant) (includeMaterials : Bool)
    (store : Option (Stored Id)) (sources : List (Source Id H)) (directory : Directory Id) :
    Except GraphError (GraphInput Id H) := do
  let instant ← shownAt instant now
  let rows := store.elim [] fun g => readNodes rt g workspaceId
  let edgeRows := store.elim [] fun g => readEdges rt g workspaceId instant
  let wanted ← wantedIds parseId rows
  let found := sources.filter fun source => decide (source.workspaceId = workspaceId) &&
    decide (source.ownerId = ownerId) && (includeMaterials || decide (source.id ∈ wanted))
  return ⟨workspaceId, includeMaterials, rows, edgeRows,
    Dict.collect (fun source => rt.str source.id) found, directory⟩

/-- `get_knowledge_graph`, for the workspace of an owner. -/
def getKnowledgeGraph (rt : Runtime Id) (parseId : Text → Option Id) (workspaceId ownerId : Id)
    (instant : Option DateTime) (now : Instant) (includeMaterials : Bool)
    (store : Option (Stored Id)) (sources : List (Source Id H)) (directory : Directory Id) :
    Except GraphError (KnowledgeGraphResponse Id) := do
  let input ← readGraph rt parseId workspaceId ownerId instant now includeMaterials store sources
    directory
  return input.response rt parseId

end Maeglagi.KnowledgeGraph
