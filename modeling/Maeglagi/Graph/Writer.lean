import Maeglagi.Graph.Store
import Maeglagi.Resolution.Names
import Maeglagi.Resolution.Relations

/-!
# The graph writer
-/

namespace Maeglagi.Graph

/-!
## Reconciling entities with stored nodes

`GraphWriter._reconcile`: which stored nodes each entity is the same as, which node it is
written to, and the rows that are written. The selection looks at the found nodes only;
the turn of the loop also at the rows that earlier entities took.
-/

section

open Core Resolution

variable {Id : Type} [DecidableEq Id]

/-- Both sides carry directory identifiers, and different ones. -/
def directoryConflict (a b : List Text) : Bool :=
  !(a.filter isDirectory).isEmpty && !(b.filter isDirectory).isEmpty &&
    !meets (a.filter isDirectory) (b.filter isDirectory)

/-- The found nodes of an entity that no directory identifier contradicts. -/
def admitted (own : List Text) (found : List (Found Id)) : List (Found Id) :=
  found.filter fun r => !directoryConflict own r.node.identifiers

/-- The admitted nodes that share an identifier. -/
def strong (own : List Text) (found : List (Found Id)) : List (Found Id) :=
  (admitted own found).filter fun r => meets own r.node.identifiers

/-- The admitted nodes that share only a name; two identified sides are homonyms. -/
def weak (own : List Text) (found : List (Found Id)) : List (Found Id) :=
  (admitted own found).filter fun r => !meets own r.node.identifiers &&
    (own.filter isDirectory).isEmpty && !r.node.identifiers.any isDirectory &&
    (own.isEmpty || r.node.identifiers.isEmpty)

/-- An entity without identifiers that fits several identified nodes. -/
def unclear (own : List Text) (found : List (Found Id)) : Bool :=
  (strong own found).isEmpty && own.isEmpty &&
    decide (1 < ((weak own found).filter fun r => !r.node.identifiers.isEmpty).length)

/-- The nodes an entity is the same as. -/
def choose (own : List Text) (found : List (Found Id)) : List (Found Id) :=
  if !(strong own found).isEmpty then strong own found
  else if unclear own found then []
  else weak own found

/-- The id whose printed form is least, the first of equals. -/
def leastId (rt : Runtime Id) : List Id → Option Id
  | [] => none
  | id :: rest => some (rest.foldl (fun least i => if rt.str i < rt.str least then i else least) id)

/-- A row in preparation: the merged entity and the sources that mention it. -/
abbrev Merged (Id : Type) := GraphEntity Id × List Text

/-- Another entity took the node, and the two disagree about who it is. -/
def disagrees (own taken : List Text) : Bool :=
  directoryConflict own taken || (!own.isEmpty && !taken.isEmpty && !meets own taken)

/-- What an entity is written to and which nodes it was found to be. -/
structure Pick (Id : Type) where
  entity : GraphEntity Id
  target : Id
  chosen : List (Found Id)
  deriving DecidableEq

/-- The node an entity is written to, given the rows so far. -/
def pick (rt : Runtime Id) (merged : Dict Id (Merged Id)) (found : List (Found Id))
    (entity : GraphEntity Id) : Pick Id :=
  let chosen := choose entity.identifiers found
  let target := (leastId rt (chosen.map Found.id)).getD entity.id
  match merged.get? target with
  | some claimed =>
    if target ≠ entity.id ∧ disagrees entity.identifiers claimed.1.identifiers then
      ⟨entity, entity.id, []⟩
    else ⟨entity, target, chosen⟩
  | none => ⟨entity, target, chosen⟩

/-- The chosen nodes that are the row's own node. -/
def Pick.own (p : Pick Id) : List (Found Id) := p.chosen.filter fun r => decide (r.id = p.target)

/-- The spellings that go into the row of a pick. -/
def Pick.names (p : Pick Id) (claimed : Option (Merged Id)) : List Text :=
  (p.entity.name :: p.entity.aliases) ++
    (p.own.flatMap fun r => r.node.name :: r.node.aliases) ++
    (match claimed with
      | some previous => previous.1.name :: previous.1.aliases
      | none => [])

/-- A set of texts joined with those of the row's own nodes and of the previous entity. -/
def Pick.union (p : Pick Id) (of : Node Id → List Text) (previous : List Text)
    (start : List Text) : List Text :=
  (p.own.foldl (fun acc r => acc ∪ of r.node) start) ∪ previous

/-- The row of a pick. -/
def Pick.row (rt : Runtime Id) (p : Pick Id) (claimed : Option (Merged Id)) : Merged Id :=
  let names := p.names claimed
  let name := pickCanonical rt names p.entity.kind
  let previous := fun f : GraphEntity Id → List Text => (claimed.map fun c => f c.1).getD []
  ({ p.entity with
      id := p.target
      name := name
      aliases := names.eraseDups.filter fun n => decide (n ≠ name)
      keys := sortedSet (p.union Node.keys (previous GraphEntity.keys) p.entity.keys)
      identifiers := sortedSet
        (p.union Node.identifiers (previous GraphEntity.identifiers) p.entity.identifiers) },
    p.union Node.sourceIds ((claimed.map Prod.snd).getD []) [rt.str p.entity.evidence.sourceId])

/-- The state of the loop: rows, where each entity went, notices, and the picks made. -/
structure Reconciled (Id : Type) where
  merged : Dict Id (Merged Id)
  idMap : Dict Id Id
  warnings : List Warning
  picks : List (Pick Id)

/-- The records found for an entity's id. -/
def foundFor (records : List (Found Id)) (id : Id) : List (Found Id) :=
  records.filter fun r => decide (r.rowId = id)

/-- One turn of the loop over the entities. -/
def reconcileStep (rt : Runtime Id) (records : List (Found Id)) (state : Reconciled Id)
    (entity : GraphEntity Id) : Reconciled Id :=
  let found := foundFor records entity.id
  let p := pick rt state.merged found entity
  { merged := state.merged.set p.target (p.row rt (state.merged.get? p.target))
    idMap := state.idMap.set entity.id p.target
    warnings := if unclear entity.identifiers found then
      state.warnings ++ [.ambiguousExisting entity.name] else state.warnings
    picks := state.picks ++ [p] }

/-- Point each entity at the stored node it is the same as. -/
def reconcile (rt : Runtime Id) (g : Stored Id) (workspaceId : Id)
    (entities : List (GraphEntity Id)) : Reconciled Id :=
  entities.foldl (reconcileStep rt (findExisting g workspaceId entities))
    ⟨Dict.empty, Dict.empty, [], []⟩

end

/-!
## Writing a resolved graph

`GraphWriter.write`: upsert the reconciled entities, link replaced decisions, and merge the
periods of each relation kind into the stored ones.
-/

section

open Core Temporal Resolution

variable {Id : Type} [DecidableEq Id]

/-- Where an entity went; an id that was not reconciled stays as it is. -/
def mapId (idMap : Dict Id Id) (id : Id) : Id := idMap.getD id id

/-- `_entity_row`: the stored form of a merged entity. -/
def entityRow (idMap : Dict Id Id) (merged : Merged Id) : EntityRow Id :=
  (merged.1.id,
    { workspaceId := merged.1.workspaceId
      kind := merged.1.kind
      name := merged.1.name
      aliases := merged.1.aliases
      keys := merged.1.keys
      identifiers := merged.1.identifiers
      sourceIds := sortedSet merged.2
      evidence := merged.1.evidence
      supersededBy := merged.1.supersededBy.map (mapId idMap) })

/-- The rows that `write` sends to `_SUPERSEDE`. -/
def supersedeRows (workspaceId : Id) (idMap : Dict Id Id) (supersessions : List (Supersession Id)) :
    List (SupersedeRow Id) :=
  supersessions.map fun item => ⟨workspaceId, mapId idMap item.newId, item.oldKeys⟩

/-- The notices about supersessions whose new decision replaced nothing. -/
def supersedeWarnings (g : Stored Id) (workspaceId : Id) (idMap : Dict Id Id)
    (supersessions : List (Supersession Id)) : List Warning :=
  let linked := (matchSuperseded g (supersedeRows workspaceId idMap supersessions)).map Prod.fst
  (supersessions.filter fun item => decide (mapId idMap item.newId ∉ linked)).map fun item =>
    .supersededNotFound item.oldName

/-- A relation between the nodes its endpoints went to, with the id of its new triple. -/
def remap (rt : Runtime Id) (idMap : Dict Id Id) (r : GraphRelation Id) : GraphRelation Id :=
  let source := mapId idMap r.sourceEntityId
  let target := mapId idMap r.targetEntityId
  { r with
    id := relationId rt r.workspaceId source target r.kind r.validFrom
    sourceEntityId := source
    targetEntityId := target }

/-- `_group_by_kind`: the remapped relations of each kind under their ids. -/
def groupByKind (rt : Runtime Id) (relations : List (GraphRelation Id)) (idMap : Dict Id Id) :
    Dict RelationKind (Dict Id (GraphRelation Id)) :=
  relations.foldl (fun grouped r =>
    let remapped := remap rt idMap r
    grouped.set r.kind ((grouped.getD r.kind Dict.empty).set remapped.id remapped)) Dict.empty

/-- The pairs of endpoints of relations, each once, in the order of their printed ids. -/
def pairsOf (rt : Runtime Id) (relations : List (GraphRelation Id)) : List (Id × Id) :=
  (relations.map fun r => (r.sourceEntityId, r.targetEntityId)).dedup.insertionSort
    fun a b => rt.str a.1 < rt.str b.1 ∨ (rt.str a.1 = rt.str b.1 ∧ rt.str a.2 ≤ rt.str b.2)

/-- The periods of a pair: the stored ones and then the incoming ones. -/
def spansOf (g : Stored Id) (workspaceId : Id) (kind : RelationKind)
    (relations : List (GraphRelation Id)) (pair : Id × Id) : List (Temporal.Interval Instant) :=
  ((findRelations g workspaceId kind [pair]).map Prod.snd) ++
    (relations.filter fun r => decide ((r.sourceEntityId, r.targetEntityId) = pair)).map period

/-- The edges to store for one pair: one for each normalized period. -/
def pairRows (rt : Runtime Id) (g : Stored Id) (workspaceId : Id) (kind : RelationKind)
    (relations : List (GraphRelation Id)) (pair : Id × Id) : List (Edge Id) :=
  match relations.find? fun r => decide ((r.sourceEntityId, r.targetEntityId) = pair) with
  | none => []
  | some template => (normalize (spansOf g workspaceId kind relations pair)).map fun span =>
    ⟨some (relationId rt workspaceId pair.1 pair.2 kind span.validFrom), pair.1, pair.2, kind,
      workspaceId, template.evidence, span⟩

/-- The edge ids that a pair keeps. -/
def keepIds (rows : List (Edge Id)) : List Id := rows.filterMap Edge.id

/-- `_write_relations` up to its first writing query. -/
def upsertPeriods (rt : Runtime Id) (g : Stored Id) (workspaceId : Id) (kind : RelationKind)
    (relations : List (GraphRelation Id)) : Stored Id :=
  upsertRelations g ((pairsOf rt relations).flatMap (pairRows rt g workspaceId kind relations))

/-- The pairs with the edge ids that the stored periods of `g` and the new ones give them. -/
def keepRows (rt : Runtime Id) (g : Stored Id) (workspaceId : Id) (kind : RelationKind)
    (relations : List (GraphRelation Id)) : List (KeepRow Id) :=
  (pairsOf rt relations).map fun pair => (pair, keepIds (pairRows rt g workspaceId kind relations pair))

/-- `_write_relations` for the relations of one kind. -/
def writeRelations (rt : Runtime Id) (g : Stored Id) (kind : RelationKind)
    (relations : List (GraphRelation Id)) : Stored Id :=
  match relations with
  | [] => g
  | first :: _ =>
    deleteStale (upsertPeriods rt g first.workspaceId kind relations) first.workspaceId kind
      (keepRows rt g first.workspaceId kind relations)

/-- The stored graph after `write`, with its notices. -/
def write (rt : Runtime Id) (g : Stored Id) (graph : ResolvedGraph Id) :
    Stored Id × List Warning :=
  match graph.entities with
  | [] => (g, [])
  | first :: _ =>
    let state := reconcile rt g first.workspaceId graph.entities
    let upserted := upsertEntities g (state.merged.values.map (entityRow state.idMap))
    let workspaceId := (state.merged.values.head?.map fun m => m.1.workspaceId).getD first.workspaceId
    let linked := supersede upserted (supersedeRows workspaceId state.idMap graph.supersessions)
    ((groupByKind rt graph.relations state.idMap).entries.foldl
        (fun g kind => writeRelations rt g kind.1 kind.2.values) linked,
      state.warnings ++ supersedeWarnings upserted workspaceId state.idMap graph.supersessions)

end

end Maeglagi.Graph
