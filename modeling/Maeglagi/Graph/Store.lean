import Maeglagi.Core.Dict
import Maeglagi.Ontology
import Maeglagi.Temporal.Interval

/-!
# The stored graph and its queries

Entity nodes under their ids, relation edges between them, and the Cypher queries of the
writer as functions on the stored graph. A list property that a node lacks is the empty
list, as every query and every reader coalesces it.
-/

namespace Maeglagi.Graph

open Core Temporal

variable {Id : Type} [DecidableEq Id]

/-- The properties of a stored Entity node, but for its id. -/
structure Node (Id : Type) where
  workspaceId : Id
  kind : EntityKind
  name : Text
  aliases : List Text
  keys : List Text
  identifiers : List Text
  sourceIds : List Text
  evidence : GraphEvidence Id
  supersededBy : Option Id
  deriving DecidableEq

/-- A stored relation; its `id` property may be missing. -/
structure Edge (Id : Type) where
  id : Option Id
  source : Id
  target : Id
  kind : RelationKind
  workspaceId : Id
  evidence : GraphEvidence Id
  period : Temporal.Interval Instant
  deriving DecidableEq

/-- The stored graph. -/
structure Stored (Id : Type) where
  nodes : Dict Id (Node Id)
  edges : List (Edge Id)
  deriving DecidableEq

/-- The graph without nodes. -/
def Stored.empty : Stored Id := ⟨Dict.empty, []⟩

/-- A record of `_FIND_EXISTING`: a stored node and the row it was found for. -/
structure Found (Id : Type) where
  rowId : Id
  id : Id
  node : Node Id
  deriving DecidableEq

/-- `_FIND_EXISTING`: for each entity the nodes of its kind that share a key or identifier. -/
def findExisting (g : Stored Id) (workspaceId : Id) (entities : List (GraphEntity Id)) :
    List (Found Id) :=
  entities.flatMap fun e =>
    (g.nodes.entries.filter fun n => decide (n.2.workspaceId = workspaceId) &&
      decide (n.2.kind = e.kind) && (meets e.keys n.2.keys || meets e.identifiers n.2.identifiers)).map
        fun n => ⟨e.id, n.1, n.2⟩

/-- A row of `_UPSERT_ENTITIES`: an id and the properties to set. -/
abbrev EntityRow (Id : Type) := Id × Node Id

/-- The properties of a node after its row: only the successor may keep the old value. -/
def upsertNode (old : Option (Node Id)) (row : Node Id) : Node Id :=
  { row with supersededBy := row.supersededBy.or (old.bind Node.supersededBy) }

/-- `_UPSERT_ENTITIES` -/
def upsertEntities (g : Stored Id) (rows : List (EntityRow Id)) : Stored Id :=
  { g with nodes := rows.foldl (fun nodes row =>
      nodes.set row.1 (upsertNode (nodes.get? row.1) row.2)) g.nodes }

/-- A row of `_SUPERSEDE`. -/
structure SupersedeRow (Id : Type) where
  workspaceId : Id
  newId : Id
  keys : List Text

/-- The filter of `_SUPERSEDE`: a decision of the workspace with one of the keys that is not
the new decision and not replaced by another one. -/
def replaces (row : SupersedeRow Id) (id : Id) (node : Node Id) : Bool :=
  decide (node.workspaceId = row.workspaceId) && decide (node.kind = .decision) &&
    meets row.keys node.keys && decide (id ≠ row.newId) &&
    (decide (node.supersededBy = none) || decide (node.supersededBy = some row.newId))

/-- The pairs of a new decision and a node that `_SUPERSEDE` matches. -/
def matchSuperseded (g : Stored Id) (rows : List (SupersedeRow Id)) : List (Id × Id) :=
  rows.flatMap fun row =>
    (g.nodes.entries.filter fun n => replaces row n.1 n.2).map fun n => (row.newId, n.1)

/-- Point a stored node at its successor. -/
def setSupersededBy (nodes : Dict Id (Node Id)) (link : Id × Id) : Dict Id (Node Id) :=
  match nodes.get? link.2 with
  | none => nodes
  | some node => nodes.set link.2 { node with supersededBy := some link.1 }

/-- `_SUPERSEDE`: all rows are matched before the first node is changed. -/
def supersede (g : Stored Id) (rows : List (SupersedeRow Id)) : Stored Id :=
  { g with nodes := (matchSuperseded g rows).foldl setSupersededBy g.nodes }

/-- The node exists in the workspace. -/
def inWorkspace (g : Stored Id) (workspaceId id : Id) : Bool :=
  match g.nodes.get? id with
  | none => false
  | some node => decide (node.workspaceId = workspaceId)

/-- The edge runs between the two ids, which are nodes of the workspace. -/
def matchesPair (g : Stored Id) (workspaceId : Id) (kind : RelationKind) (pair : Id × Id)
    (edge : Edge Id) : Bool :=
  decide (edge.source = pair.1) && decide (edge.target = pair.2) && decide (edge.kind = kind) &&
    inWorkspace g workspaceId pair.1 && inWorkspace g workspaceId pair.2

/-- `_FIND_RELATIONS`: the stored periods of each pair. -/
def findRelations (g : Stored Id) (workspaceId : Id) (kind : RelationKind)
    (pairs : List (Id × Id)) : List ((Id × Id) × Temporal.Interval Instant) :=
  pairs.flatMap fun pair =>
    (g.edges.filter (matchesPair g workspaceId kind pair)).map fun edge => (pair, edge.period)

/-- The edge that `MERGE` looks for. -/
def sameEdge (row edge : Edge Id) : Bool :=
  decide (edge.source = row.source) && decide (edge.target = row.target) &&
    decide (edge.kind = row.kind) && decide (edge.id = row.id)

/-- Merge one edge between existing nodes: overwrite the edges with its id or add it. -/
def upsertEdge (g : Stored Id) (edges : List (Edge Id)) (row : Edge Id) : List (Edge Id) :=
  if inWorkspace g row.workspaceId row.source && inWorkspace g row.workspaceId row.target then
    if edges.any (sameEdge row) then edges.map fun edge => if sameEdge row edge then row else edge
    else edges ++ [row]
  else edges

/-- `_UPSERT_RELATIONS` -/
def upsertRelations (g : Stored Id) (rows : List (Edge Id)) : Stored Id :=
  { g with edges := rows.foldl (upsertEdge g) g.edges }

/-- A row of `_DELETE_STALE_RELATIONS`: a pair and the ids it keeps. -/
abbrev KeepRow (Id : Type) := (Id × Id) × List Id

/-- The edge belongs to the pair of a row and is not one of the ids it keeps. -/
def stale (g : Stored Id) (workspaceId : Id) (kind : RelationKind) (row : KeepRow Id)
    (edge : Edge Id) : Bool :=
  matchesPair g workspaceId kind row.1 edge &&
    match edge.id with
    | none => true
    | some id => decide (id ∉ row.2)

/-- `_DELETE_STALE_RELATIONS` -/
def deleteStale (g : Stored Id) (workspaceId : Id) (kind : RelationKind)
    (rows : List (KeepRow Id)) : Stored Id :=
  { g with edges := g.edges.filter fun edge => !rows.any fun row => stale g workspaceId kind row edge }

end Maeglagi.Graph
