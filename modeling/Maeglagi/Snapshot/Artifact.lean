import Maeglagi.Core.Fallible
import Maeglagi.Core.Text

/-!
# The rows of a snapshot and their validation

An artifact keeps ids as texts. The validation reads a text as a UUID and compares what it
prints; a UUID has more spellings than the printed one. The checks of types, of the size and
the checksum, of embeddings and of encodings read no reference and are left out.
-/

namespace Maeglagi.Snapshot

open Core

/-- `UUID` and its `str`: a printed id reads as itself, and the empty text is no id. -/
structure Uuids (U : Type) where
  parse : Text → Option U
  str : U → Text
  parse_str : ∀ u, parse (str u) = some u
  parse_nil : parse [] = none

/-! ## The rows

A missing key counts as null. The last field of a row holds the texts of the columns that
neither the validation nor the restore look into. -/

structure WorkspaceRow where
  id : Option Text
  ownerId : Option Text
  name : Text
  embedding : Text × Text
  others : List Text
  deriving DecidableEq, Repr

structure PersonRow where
  id : Option Text
  workspaceId : Option Text
  ownerId : Option Text
  role : Option Text
  emailNormalized : Option Text
  others : List Text
  deriving DecidableEq, Repr

structure ProjectRow where
  id : Option Text
  workspaceId : Option Text
  ownerId : Option Text
  ownerPersonId : Option Text
  others : List Text
  deriving DecidableEq, Repr

/-- A row of `project_members`, `source_projects` or `source_people`. -/
structure AssociationRow where
  id : Option Text
  workspaceId : Option Text
  sourceId : Option Text
  projectId : Option Text
  personId : Option Text
  role : Option Text
  deriving DecidableEq, Repr

structure UtteranceEntry where
  personId : Option Text
  others : List Text
  deriving DecidableEq, Repr

structure ProjectEntry where
  id : Option Text
  ownerPersonId : Option Text
  others : List Text
  deriving DecidableEq, Repr

structure PersonEntry where
  id : Option Text
  others : List Text
  deriving DecidableEq, Repr

/-- `confirmed_snapshot` -/
structure ConfirmedSnapshot where
  project : Option ProjectEntry
  projects : List ProjectEntry
  people : List PersonEntry
  roster : List PersonEntry
  others : List Text
  deriving DecidableEq, Repr

structure SourceRow where
  id : Option Text
  workspaceId : Option Text
  ownerId : Option Text
  projectId : Option Text
  objectPath : Text
  status : Text
  processingStage : Text
  errorMessage : Option Text
  reviewUtterances : List UtteranceEntry
  rawUtterances : List UtteranceEntry
  confirmedSnapshot : Option ConfirmedSnapshot
  analysisCheckpoint : List Text
  others : List Text
  deriving DecidableEq, Repr

structure ChunkRow where
  id : Option Text
  workspaceId : Option Text
  ownerId : Option Text
  sourceId : Option Text
  others : List Text
  deriving DecidableEq, Repr

structure ContextRow where
  id : Option Text
  workspaceId : Option Text
  ownerId : Option Text
  sourceId : Option Text
  chunkId : Option Text
  others : List Text
  deriving DecidableEq, Repr

structure StoreEntry where
  sourceId : Option Text
  others : List Text
  deriving DecidableEq, Repr

structure StoreRow where
  id : Option Text
  workspaceId : Option Text
  ownerId : Option Text
  sourceIds : List (Option Text)
  openIssues : List StoreEntry
  decisions : List StoreEntry
  nextActions : List StoreEntry
  others : List Text
  deriving DecidableEq, Repr

structure NodeRow where
  id : Option Text
  workspaceId : Option Text
  sourceId : Option Text
  chunkId : Option Text
  sourceIds : List (Option Text)
  supersededBy : Option Text
  identifiers : List Text
  others : List Text
  deriving DecidableEq, Repr

structure EdgeRow where
  id : Option Text
  workspaceId : Option Text
  sourceId : Option Text
  chunkId : Option Text
  source : Option Text
  target : Option Text
  kind : Text
  others : List Text
  deriving DecidableEq, Repr

/-- The rows and the graph of a workspace. -/
structure Rows where
  workspace : WorkspaceRow
  people : List PersonRow
  projects : List ProjectRow
  projectMembers : List AssociationRow
  sourceProjects : List AssociationRow
  sourcePeople : List AssociationRow
  sources : List SourceRow
  chunks : List ChunkRow
  contexts : List ContextRow
  contextStores : List StoreRow
  nodes : List NodeRow
  edges : List EdgeRow
  deriving DecidableEq, Repr

/-- The payload of an artifact; of an object only its source. -/
structure Payload extends Rows where
  version : Nat
  objects : List (Option Text)
  deriving DecidableEq, Repr

/-! ## The validation -/

variable {U : Type}

/-- `_require` -/
def require (condition : Bool) (message : String) : Except String Unit :=
  if condition then .ok () else .error message

/-- `_uuid` -/
def uuid (uuids : Uuids U) (value : Option Text) (label : String) : Except String Text :=
  match value.bind uuids.parse with
  | some u => .ok (uuids.str u)
  | none => .error ("Invalid " ++ label)

/-- `_ids` -/
def ids (uuids : Uuids U) (values : List (Option Text)) (label : String) :
    Except String (List Text) := do
  let values ← values.mapM (uuid uuids · label)
  require (decide values.Nodup) ("Duplicate " ++ label)
  pure values

/-- The id is null or names one of the items. -/
def requireOptional (uuids : Uuids U) (value : Option Text) (known : List Text)
    (label orphan : String) : Except String Unit :=
  match value with
  | none => .ok ()
  | some text => do
    let id ← uuid uuids (some text) label
    require (decide (id ∈ known)) orphan

/-- The id names one of the items. -/
def requireKnown (uuids : Uuids U) (value : Option Text) (known : List Text)
    (label orphan : String) : Except String Unit := do
  let id ← uuid uuids value label
  require (decide (id ∈ known)) orphan

/-- A row belongs to the workspace and to its owner. -/
def requireOwned (uuids : Uuids U) (workspaceId owner : Text) (row : Option Text × Option Text) :
    Except String Unit := do
  let rowWorkspace ← uuid uuids row.1 "row workspace ID"
  require (decide (rowWorkspace = workspaceId)) "Workspace mismatch"
  let rowOwner ← uuid uuids row.2 "row owner ID"
  require (decide (rowOwner = owner)) "Owner mismatch"

/-- `Path(_).name` -/
def pathName (path : Text) : Text :=
  (((path.splitOn '/').filter fun part => part ≠ [] && part ≠ ".".toList).getLast?).getD []

/-- `RelationKind` -/
def relationKinds : List Text :=
  ["WORKS_ON", "PARTICIPATED_IN", "MENTIONED_IN", "CREATED", "ASSIGNED_TO", "RELATED_TO",
    "DECIDED_IN", "RESULTED_IN", "BLOCKED_BY", "DUE_ON"].map String.toList

/-- An association row of the given kind. -/
def requireAssociation (uuids : Uuids U) (workspaceId : Text)
    (sourceIds projectIds personIds : List Text) (key : String) (row : AssociationRow) :
    Except String Unit := do
  let rowWorkspace ← uuid uuids row.workspaceId "association workspace"
  require (decide (rowWorkspace = workspaceId)) "Association workspace mismatch"
  if key ≠ "project_members" then
    requireKnown uuids row.sourceId sourceIds "association source" "Orphan source association"
  if key ≠ "source_people" then
    requireKnown uuids row.projectId projectIds "association project" "Orphan project association"
  if key ≠ "source_projects" then
    requireKnown uuids row.personId personIds "association person" "Orphan person association"
  if key = "source_people" then
    require (decide (row.role ∈ [some "participant".toList, some "author".toList]))
      "Invalid source person role"

/-- A source is processed, and its object lies under its id. -/
def requireSource (uuids : Uuids U) (workspaceId owner : Text) (projectIds : List Text)
    (source : SourceRow) : Except String Unit := do
  requireOptional uuids source.projectId projectIds "source project ID" "Orphan source project"
  require (decide (source.status = "succeeded".toList) &&
    decide (source.processingStage = "completed".toList)) "Source is not fully processed"
  require source.errorMessage.isNone "Source has an error"
  require (source.objectPath ≠ []) "Missing object path"
  require (decide (pathName source.objectPath ∉ [[], ".".toList, "..".toList]))
    "Invalid object path"
  require ((owner ++ '/' :: workspaceId ++ '/' :: source.id.getD "None".toList ++ ['/']).isPrefixOf
    source.objectPath) "Source object path mismatch"

/-- A context and its chunk; the sources of the chunks are read by the printed id. -/
def requireContext (uuids : Uuids U) (sourceIds chunkIds : List Text) (chunks : List ChunkRow)
    (context : ContextRow) : Except String Unit := do
  requireKnown uuids context.sourceId sourceIds "context source ID" "Orphan context"
  match context.chunkId with
  | none => pure ()
  | some _ =>
    let chunkId ← uuid uuids context.chunkId "context chunk ID"
    require (decide (chunkId ∈ chunkIds)) "Orphan context chunk"
    match chunks.reverse.find? fun chunk => decide (chunk.id = some chunkId) with
    | none => throw "KeyError"
    | some chunk =>
      require (decide (chunk.sourceId = context.sourceId)) "Context chunk belongs to another source"

/-- A text is null or among the known ones, as they are printed. -/
def nullOr (value : Option Text) (known : List Text) : Bool :=
  value.all fun text => decide (text ∈ known)

/-- A node of the graph and its evidence. -/
def requireNode (workspaceId : Text) (sourceIds chunkIds nodeIds : List Text) (node : NodeRow) :
    Except String Unit := do
  require (decide (node.workspaceId = some workspaceId)) "Graph workspace mismatch"
  require (node.sourceIds.all fun id => decide (id ∈ sourceIds.map some)) "Graph source mismatch"
  require (decide (node.sourceId ∈ sourceIds.map some)) "Graph evidence source mismatch"
  require (nullOr node.chunkId chunkIds) "Graph evidence chunk mismatch"
  require (nullOr node.supersededBy nodeIds) "Graph supersession mismatch"

/-- An edge of the graph, its ends and its evidence. -/
def requireEdge (workspaceId : Text) (sourceIds chunkIds nodeIds : List Text) (edge : EdgeRow) :
    Except String Unit := do
  require (decide (edge.workspaceId = some workspaceId)) "Graph edge workspace mismatch"
  require (decide (edge.source ∈ nodeIds.map some) && decide (edge.target ∈ nodeIds.map some))
    "Orphan graph edge"
  require (decide (edge.kind ∈ relationKinds)) "Unsupported graph edge"
  require (decide (edge.sourceId ∈ sourceIds.map some)) "Graph edge evidence source mismatch"
  require (nullOr edge.chunkId chunkIds) "Graph edge evidence chunk mismatch"

/-- The items of one list of the Context Store. -/
def requireEntries (uuids : Uuids U) (sourceIds : List Text) (collection : String)
    (entries : List StoreEntry) : Except String Unit :=
  entries.forM fun entry => requireOptional uuids entry.sourceId sourceIds
    (collection ++ " source ID") ("Orphan Context Store " ++ collection ++ " source")

/-- `validate_artifact`, up to the graph; the ids of the workspace, the sources and the
chunks. -/
def validateRows (uuids : Uuids U) (ownerId : U) (payload : Payload) :
    Except String (Text × List Text × List Text) := do
  require (payload.version = 1) "Unsupported artifact version"
  let workspaceId ← uuid uuids payload.workspace.id "workspace ID"
  let owner ← uuid uuids payload.workspace.ownerId "owner ID"
  require (decide (owner = uuids.str ownerId)) "Snapshot owner mismatch"
  require (strip payload.workspace.name ≠ []) "Invalid workspace name"
  require (strip payload.workspace.embedding.1 ≠ []) "Missing embedding provider"
  require (strip payload.workspace.embedding.2 ≠ []) "Missing embedding model"
  require (payload.sources ≠ [] && payload.chunks ≠ [] && payload.contexts ≠ [] &&
    decide (payload.contextStores.length = 1)) "Incomplete processed demo state"
  let sourceIds ← ids uuids (payload.sources.map (·.id)) "source ID"
  let chunkIds ← ids uuids (payload.chunks.map (·.id)) "chunk ID"
  let personIds ← ids uuids (payload.people.map (·.id)) "person ID"
  let projectIds ← ids uuids (payload.projects.map (·.id)) "project ID"
  let _ ← ids uuids (payload.contexts.map (·.id)) "context ID"
  let _ ← ids uuids (payload.contextStores.map (·.id)) "context store ID"
  let rows := payload.people.map (fun row => (row.workspaceId, row.ownerId)) ++
    payload.projects.map (fun row => (row.workspaceId, row.ownerId)) ++
    payload.sources.map (fun row => (row.workspaceId, row.ownerId)) ++
    payload.chunks.map (fun row => (row.workspaceId, row.ownerId)) ++
    payload.contexts.map (fun row => (row.workspaceId, row.ownerId)) ++
    payload.contextStores.map (fun row => (row.workspaceId, row.ownerId))
  rows.forM (requireOwned uuids workspaceId owner)
  payload.projects.forM fun project =>
    requireOptional uuids project.ownerPersonId personIds "project owner person ID"
      "Orphan project owner person"
  payload.people.forM fun person =>
    require (person.role.all fun role => decide (role.length ≤ 120)) "Invalid person role"
  let emails : List Text :=
    (payload.people.filterMap (·.emailNormalized)).filter fun email => email ≠ []
  require (decide emails.Nodup) "Duplicate person email"
  let requireAssociation := requireAssociation uuids workspaceId sourceIds projectIds personIds
  payload.projectMembers.forM (requireAssociation "project_members")
  payload.sourceProjects.forM (requireAssociation "source_projects")
  payload.sourcePeople.forM (requireAssociation "source_people")
  payload.sources.forM (requireSource uuids workspaceId owner projectIds)
  payload.chunks.forM fun chunk =>
    requireKnown uuids chunk.sourceId sourceIds "chunk source ID" "Orphan chunk"
  payload.contexts.forM (requireContext uuids sourceIds chunkIds payload.chunks)
  payload.contextStores.forM fun store => do
    require ((store.sourceIds.all fun id => decide (id ∈ sourceIds.map some)) &&
      sourceIds.all fun id => decide (some id ∈ store.sourceIds)) "Context Store sources mismatch"
    requireEntries uuids sourceIds "open_issues" store.openIssues
    requireEntries uuids sourceIds "decisions" store.decisions
    requireEntries uuids sourceIds "next_actions" store.nextActions
  require ((payload.objects.all fun id => decide (id ∈ sourceIds.map some)) &&
    (sourceIds.all fun id => decide (some id ∈ payload.objects)) &&
    decide (payload.objects.length = payload.sources.length)) "Missing source objects"
  pure (workspaceId, sourceIds, chunkIds)

/-- The graph in `validate_artifact`. -/
def validateGraph (uuids : Uuids U) (payload : Payload) (workspaceId : Text)
    (sourceIds chunkIds : List Text) : Except String Unit := do
  require (payload.nodes ≠ [] && payload.edges ≠ []) "Incomplete graph"
  let nodeIds ← ids uuids (payload.nodes.map (·.id)) "graph node ID"
  payload.nodes.forM (requireNode workspaceId sourceIds chunkIds nodeIds)
  let _ ← ids uuids (payload.edges.map (·.id)) "graph edge ID"
  payload.edges.forM (requireEdge workspaceId sourceIds chunkIds nodeIds)

/-- `validate_artifact` -/
def validateArtifact (uuids : Uuids U) (ownerId : U) (payload : Payload) :
    Except String Unit := do
  let (workspaceId, sourceIds, chunkIds) ← validateRows uuids ownerId payload
  validateGraph uuids payload workspaceId sourceIds chunkIds

end Maeglagi.Snapshot
