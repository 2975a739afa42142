import Maeglagi.Runtime

/-!
# Ontology and records

The entity and relation kinds, the records a model extracts from one source, and
the records of the resolved graph that is written for it.
-/

namespace Maeglagi

open Core

/-- The entity types of the ontology. -/
inductive EntityKind where
  | person | project | organization | meeting | document
  | issue | task | decision | event | technology
  deriving DecidableEq, Repr

/-- The kinds in the order the enumeration lists them. -/
def EntityKind.all : List EntityKind :=
  [.person, .project, .organization, .meeting, .document,
    .issue, .task, .decision, .event, .technology]

/-- The text of a kind. -/
def EntityKind.value : EntityKind → Text
  | .person => "Person".toList
  | .project => "Project".toList
  | .organization => "Organization".toList
  | .meeting => "Meeting".toList
  | .document => "Document".toList
  | .issue => "Issue".toList
  | .task => "Task".toList
  | .decision => "Decision".toList
  | .event => "Event".toList
  | .technology => "Technology".toList

theorem EntityKind.mem_all (k : EntityKind) : k ∈ EntityKind.all := by
  cases k <;> decide

theorem EntityKind.value_injective : Function.Injective EntityKind.value := by
  have hnd : (EntityKind.all.map EntityKind.value).Nodup := by decide +kernel
  exact fun a b h => List.inj_on_of_nodup_map hnd a.mem_all b.mem_all h

theorem EntityKind.colon_notMem_value (k : EntityKind) : ':' ∉ k.value := by
  cases k <;> decide +kernel

/-- The relation types of the ontology. -/
inductive RelationKind where
  | worksOn | participatedIn | mentionedIn | created | assignedTo
  | relatedTo | decidedIn | resultedIn | blockedBy | dueOn
  deriving DecidableEq, Repr

/-- The text of a relation kind. -/
def RelationKind.value : RelationKind → Text
  | .worksOn => "WORKS_ON".toList
  | .participatedIn => "PARTICIPATED_IN".toList
  | .mentionedIn => "MENTIONED_IN".toList
  | .created => "CREATED".toList
  | .assignedTo => "ASSIGNED_TO".toList
  | .relatedTo => "RELATED_TO".toList
  | .decidedIn => "DECIDED_IN".toList
  | .resultedIn => "RESULTED_IN".toList
  | .blockedBy => "BLOCKED_BY".toList
  | .dueOn => "DUE_ON".toList

/-- The kinds in the order the enumeration lists them. -/
def RelationKind.all : List RelationKind :=
  [.worksOn, .participatedIn, .mentionedIn, .created, .assignedTo,
    .relatedTo, .decidedIn, .resultedIn, .blockedBy, .dueOn]

theorem RelationKind.mem_all (k : RelationKind) : k ∈ RelationKind.all := by
  cases k <;> decide

theorem RelationKind.value_injective : Function.Injective RelationKind.value := by
  have hnd : (RelationKind.all.map RelationKind.value).Nodup := by decide +kernel
  exact fun a b h => List.inj_on_of_nodup_map hnd a.mem_all b.mem_all h

theorem RelationKind.colon_notMem_value (k : RelationKind) : ':' ∉ k.value := by
  cases k <;> decide +kernel

/-- An entity as the model names it in one source. -/
structure ExtractedEntity where
  name : Text
  kind : EntityKind
  aliases : List Text
  identifiers : List Text
  sourceRefs : List Text
  deriving DecidableEq

/-- Something that happened, as the model describes it. -/
structure ExtractedEvent where
  name : Text
  kind : EntityKind
  description : Text
  occurredAt : Option Text
  dueAt : Option Text
  supersedes : Option Text
  sourceRefs : List Text
  deriving DecidableEq

/-- A relation between two names. -/
structure ExtractedRelation where
  source : Text
  target : Text
  kind : RelationKind
  validFrom : Option Text
  validTo : Option Text
  sourceRefs : List Text
  deriving DecidableEq

/-- What one source's extraction hands to the resolver. -/
structure ExtractionResult where
  entities : List ExtractedEntity
  events : List ExtractedEvent
  relations : List ExtractedRelation
  deriving DecidableEq

/-- Where a node or edge was last seen. -/
structure GraphEvidence (Id : Type) where
  sourceId : Id
  chunkId : Option Id
  timestamp : Option DateTime
  deriving DecidableEq

/-- A resolved entity. -/
structure GraphEntity (Id : Type) where
  id : Id
  workspaceId : Id
  kind : EntityKind
  name : Text
  evidence : GraphEvidence Id
  aliases : List Text
  keys : List Text
  identifiers : List Text
  supersededBy : Option Id
  deriving DecidableEq

/-- A resolved relation over one validity period. -/
structure GraphRelation (Id : Type) where
  id : Id
  workspaceId : Id
  sourceEntityId : Id
  targetEntityId : Id
  kind : RelationKind
  evidence : GraphEvidence Id
  validFrom : Option Instant
  validTo : Option Instant
  deriving DecidableEq

/-- A decision replacing one that the same extraction does not name. -/
structure Supersession (Id : Type) where
  newId : Id
  oldName : Text
  oldKeys : List Text
  deriving DecidableEq

/-- The notices of the resolver and the writer, with the names they mention. -/
inductive Warning where
  | emptyName (name : Text)
  | ambiguousName (name : Text)
  | unknownSuccessor (name : Text)
  | selfSuperseding (name : Text)
  | ambiguousSuperseded (name : Text)
  | alreadySuperseded (name : Text)
  | ambiguousEndpoint (name : Text)
  | droppedRelation (source target : Text)
  | droppedEnd (source target : Text)
  | ambiguousExisting (name : Text)
  | supersededNotFound (name : Text)
  deriving DecidableEq

/-- The graph of one source, ready to be written. -/
structure ResolvedGraph (Id : Type) where
  entities : List (GraphEntity Id)
  relations : List (GraphRelation Id)
  warnings : List Warning
  supersessions : List (Supersession Id)
  deriving DecidableEq

/-!
## Results of an extraction

The whole extraction of one source: its classification, the records the resolver reads,
and the contexts that the Context Store keeps.
-/

/-- The values of `contexts.kind`. -/
inductive ContextKind where
  | event | decision | task | issue | fact | summary
  deriving DecidableEq, Repr

/-- What a source is taken to be. -/
inductive SourceType where
  | meeting | decisionRecord | plan | report | spec | other
  deriving DecidableEq, Repr

/-- The first stage of an extraction. -/
structure ClassificationOutput where
  sourceType : SourceType
  language : Text
  topics : List Text
  deriving DecidableEq

/-- A context as the model describes it. -/
structure ExtractedContext where
  kind : ContextKind
  title : Text
  body : Text
  occurredAt : Option Text
  sourceRefs : List Text
  deriving DecidableEq

/-- `ExtractionResult` with all its fields. -/
structure AnalysisResult extends ExtractionResult where
  classification : ClassificationOutput
  contexts : List ExtractedContext
  warnings : List Text
  usage : List (Text × Int)
  deriving DecidableEq

end Maeglagi
