import Maeglagi.Core.Dict
import Maeglagi.Resolution.Grouping
import Maeglagi.Temporal.Interval

/-!
# Resolving one extraction

`resolve_extraction` after the grouping pass: entities with their ids, the links
between decisions, and relations with disjoint validity periods.
-/

namespace Maeglagi.Resolution

open Core Temporal

variable {Id : Type} [DecidableEq Id]

/-- What the resolver is told about the source besides its extraction. -/
structure SourceInfo (Id : Type) where
  workspaceId : Id
  sourceId : Id
  chunkId : Option Id
  timestamp : Option DateTime
  trustedDirectoryIdentifiers : List Text

/-- The entity of a group. -/
def Group.toEntity (rt : Runtime Id) (info : SourceInfo Id) (group : Group) : GraphEntity Id :=
  let canonical := pickCanonical rt group.names group.kind
  { id := entityId rt info.workspaceId group.kind
      (stableKey rt group.kind canonical group.identifiers)
    workspaceId := info.workspaceId
    kind := group.kind
    name := canonical
    evidence := ⟨info.sourceId, info.chunkId,
      (group.timestamp.map Instant.toDateTime).or info.timestamp⟩
    aliases := group.names.eraseDups.filter fun name => decide (name ≠ canonical)
    keys := sortedSet group.keys
    identifiers := sortedSet group.identifiers
    supersededBy := none }

/-- The ids of the entities of a kind that have a key. -/
def lookup (entities : List (GraphEntity Id)) (kind : EntityKind) (key : Text) : List Id :=
  ((entities.filter fun e => decide (e.kind = kind) && decide (key ∈ e.keys)).map
    GraphEntity.id).dedup

/-- Change the last item that passes the test. -/
def modifyLast {α : Type} (p : α → Bool) (f : α → α) : List α → List α
  | [] => []
  | x :: xs => if xs.any p then x :: modifyLast p f xs else if p x then f x :: xs else x :: xs

/-- The state of the supersession loop: entities, links for the writer, notices. -/
structure Links (Id : Type) where
  entities : List (GraphEntity Id)
  pending : List (Supersession Id)
  warnings : List Warning

/-- Note a warning. -/
def Links.warn (state : Links Id) (warning : Warning) : Links Id :=
  { state with warnings := state.warnings ++ [warning] }

/-- The entity that `by_id` finds: the last one with the id. -/
def findEntity (entities : List (GraphEntity Id)) (id : Id) : Option (GraphEntity Id) :=
  entities.reverse.find? fun e => decide (e.id = id)

/-- Point the entity that `by_id` finds at its successor. -/
def setSuccessor (entities : List (GraphEntity Id)) (oldId newId : Id) : List (GraphEntity Id) :=
  modifyLast (fun e => decide (e.id = oldId)) (fun e => { e with supersededBy := some newId })
    entities

/-- Link the old decision of a replacing event, found under its name in the extraction. -/
def linkOld (rt : Runtime Id) (state : Links Id) (eventName supersedes : Text) (newId : Id)
    (olds : List Id) : Links Id :=
  if newId ∈ olds then state.warn (.selfSuperseding eventName)
  else match olds with
    | [] =>
      let link := ⟨newId, supersedes, [normalizeName rt supersedes .decision]⟩
      { state with pending := state.pending ++ [link] }
    | [oldId] =>
      let current := (findEntity state.entities oldId).bind GraphEntity.supersededBy
      if current = none ∨ current = some newId then
        { state with entities := setSuccessor state.entities oldId newId }
      else state.warn (.alreadySuperseded supersedes)
    | _ => state.warn (.ambiguousSuperseded supersedes)

/-- One turn of `_link_supersessions`. -/
def linkSupersession (rt : Runtime Id) (lookup : EntityKind → Text → List Id)
    (state : Links Id) (event : ExtractedEvent) : Links Id :=
  match event.supersedes with
  | none => state
  | some supersedes =>
    if event.kind ≠ .decision ∨ supersedes = [] then state
    else match lookup .decision (normalizeName rt event.name .decision) with
      | [newId] => linkOld rt state event.name supersedes newId
          (lookup .decision (normalizeName rt supersedes .decision))
      | _ => state.warn (.unknownSuccessor event.name)

/-- Connect each replacing decision to the one it replaces. -/
def linkSupersessions (rt : Runtime Id) (events : List ExtractedEvent)
    (entities : List (GraphEntity Id)) (warnings : List Warning) : Links Id :=
  events.foldl (linkSupersession rt (lookup entities)) ⟨entities, [], warnings⟩

/-- The ids a relation endpoint's name may stand for, over all kinds. -/
def candidates (rt : Runtime Id) (entities : List (GraphEntity Id)) (name : Text) : List Id :=
  (EntityKind.all.flatMap fun kind => lookup entities kind (normalizeName rt name kind)).dedup

/-- The single entity an endpoint's name stands for, with a notice when it has several. -/
def endpoint (rt : Runtime Id) (entities : List (GraphEntity Id)) (name : Text) :
    Option Id × List Warning :=
  match candidates rt entities name with
  | [] => (none, [])
  | [id] => (some id, [])
  | _ => (none, [.ambiguousEndpoint name])

/-- Source, target and kind of a relation. -/
abbrev Triple (Id : Type) := Id × Id × RelationKind

/-- The interval a relation states, with a notice when its end is dropped. -/
def statedInterval (relation : ExtractedRelation) (statedFrom validTo fallback : Option Instant) :
    Temporal.Interval Instant × List Warning :=
  match statedFrom.or fallback, validTo with
  | some start, some finish =>
    if finish < start then
      if statedFrom.isSome then
        (⟨some start, none⟩, [.droppedEnd relation.source relation.target])
      else (⟨none, some finish⟩, [])
    else (⟨some start, some finish⟩, [])
  | start, finish => (⟨start, finish⟩, [])

/-- The state of the relation loop: the intervals of each triple, and the notices. -/
abbrev Spans (Id : Type) := Dict (Triple Id) (List (Temporal.Interval Instant)) × List Warning

/-- One turn of the relation loop. -/
def relationStep (rt : Runtime Id) (entities : List (GraphEntity Id))
    (fallback : Option Instant) (state : Spans Id) (relation : ExtractedRelation) :
    Except PyError (Spans Id) :=
  let source := endpoint rt entities relation.source
  let target := endpoint rt entities relation.target
  let warnings := state.2 ++ source.2 ++ target.2
  match source.1, target.1 with
  | some s, some t => do
    let statedFrom ← parseInstant rt relation.validFrom
    let validTo ← parseInstant rt relation.validTo
    let interval := statedInterval relation statedFrom validTo fallback
    let triple := (s, t, relation.kind)
    return (state.1.set triple (state.1.getD triple [] ++ [interval.1]), warnings ++ interval.2)
  | _, _ => .ok (state.1, warnings ++ [.droppedRelation relation.source relation.target])

/-- The relations of one triple: one for each of its disjoint periods. -/
def tripleRelations (rt : Runtime Id) (info : SourceInfo Id) (triple : Triple Id)
    (spans : List (Temporal.Interval Instant)) : List (GraphRelation Id) :=
  (normalize spans).map fun span =>
    { id := relationId rt info.workspaceId triple.1 triple.2.1 triple.2.2 span.validFrom
      workspaceId := info.workspaceId
      sourceEntityId := triple.1
      targetEntityId := triple.2.1
      kind := triple.2.2
      evidence := ⟨info.sourceId, info.chunkId, info.timestamp⟩
      validFrom := span.validFrom
      validTo := span.validTo }

/-- Merge the mentions of one extraction into a graph. -/
def resolveExtraction (rt : Runtime Id) (result : ExtractionResult) (info : SourceInfo Id) :
    Except PyError (ResolvedGraph Id) := do
  let ms ← mentions rt result info.trustedDirectoryIdentifiers
  let grouped := groupMentions rt ms
  let entities := grouped.1.map (Group.toEntity rt info)
  let links := linkSupersessions rt result.events entities grouped.2
  let fallback ← asUtc info.timestamp
  let spans ← result.relations.foldlM (relationStep rt entities fallback)
    (Dict.empty, links.warnings)
  return {
    entities := links.entities
    relations := spans.1.entries.flatMap fun e => tripleRelations rt info e.1 e.2
    warnings := spans.2
    supersessions := links.pending }

end Maeglagi.Resolution
