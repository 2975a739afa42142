import Maeglagi.Ontology
import Maeglagi.Resolution.Names

/-!
# The Context Store

The current situation of a workspace, and the deterministic part of its update: the decisions,
issues and tasks of one source are folded into it by key.
-/

namespace Maeglagi.Context

open Core Resolution

variable {Id : Type}

/-- `StoreItem` -/
structure StoreItem where
  title : Text
  description : Text
  sourceRefs : List Text
  sourceId : Option Text
  deriving DecidableEq, Repr

/-- `StoreDecision` -/
structure StoreDecision extends StoreItem where
  decidedAt : Option Text
  deriving DecidableEq, Repr

/-- `StoreAction` -/
structure StoreAction extends StoreItem where
  assignee : Option Text
  dueAt : Option Text
  deriving DecidableEq, Repr

/-- `ContextStoreState` -/
structure ContextStoreState where
  subject : Text
  summary : Text
  currentState : Text
  openIssues : List StoreItem
  decisions : List StoreDecision
  nextActions : List StoreAction
  sourceIds : List Text
  updatedAt : Option Instant
  deriving DecidableEq

/-- `item_key` -/
def itemKey (rt : Runtime Id) (title : Text) (kind : EntityKind) : Text :=
  normalizeName rt title kind

/-- `_upsert`: the new item takes the place of the first one under its key, or comes last. -/
def upsert {α : Type} (key : α → Text) (new : α) : List α → List α
  | [] => [new]
  | item :: items => if key item = key new then new :: items else item :: upsert key new items

/-- `assignee_of` -/
def assigneeOf (result : ExtractionResult) (task : Text) : Option Text :=
  let people := (result.entities.filter fun item => decide (item.kind = .person)).map (·.name)
  result.relations.findSome? fun relation =>
    if relation.kind ≠ .assignedTo then none
    else if relation.source = task ∧ relation.target ∈ people then some relation.target
    else if relation.target = task ∧ relation.source ∈ people then some relation.source
    else none

/-- The item that an event becomes. -/
def storeItem (event : ExtractedEvent) (sid : Text) : StoreItem :=
  ⟨event.name, event.description, event.sourceRefs, some sid⟩

/-- One turn of the first loop of `merge_extraction`. -/
def mergeEvent (rt : Runtime Id) (result : ExtractionResult) (sid : Text)
    (merged : ContextStoreState) (event : ExtractedEvent) : ContextStoreState :=
  match event.kind with
  | .decision => { merged with
      decisions := upsert (fun d => itemKey rt d.title .decision)
        ⟨storeItem event sid, event.occurredAt⟩ merged.decisions }
  | .issue => { merged with
      openIssues := upsert (fun i => itemKey rt i.title .issue)
        (storeItem event sid) merged.openIssues }
  | .task => { merged with
      nextActions := upsert (fun a => itemKey rt a.title .task)
        ⟨storeItem event sid, assigneeOf result event.name, event.dueAt⟩
        merged.nextActions }
  | _ => merged

/-- One turn of the second loop: a replaced decision is history, not the current state. -/
def dropReplaced (rt : Runtime Id) (merged : ContextStoreState) (event : ExtractedEvent) :
    ContextStoreState :=
  match event.kind, event.supersedes with
  | .decision, some supersedes =>
    let replaced := itemKey rt supersedes .decision
    if supersedes ≠ [] ∧ replaced ≠ itemKey rt event.name .decision then
      { merged with
        decisions := merged.decisions.filter fun d => itemKey rt d.title .decision ≠ replaced }
    else merged
  | _, _ => merged

/-- `merge_extraction` -/
def mergeExtraction (rt : Runtime Id) (state : ContextStoreState) (result : ExtractionResult)
    (sourceId : Id) : ContextStoreState :=
  let sid := rt.str sourceId
  let upserted := result.events.foldl (mergeEvent rt result sid) state
  let merged := result.events.foldl (dropReplaced rt) upserted
  if sid ∈ merged.sourceIds then merged
  else { merged with sourceIds := merged.sourceIds ++ [sid] }

end Maeglagi.Context
