import Maeglagi.Resolution.Names
import Maeglagi.Sources.Review

/-!
# Checks on an agent's analysis

What `validate_extraction` demands of a proposed result before any sink is written, and the
events it adds for contexts that have none.
-/

namespace Maeglagi

open Core Resolution

section

variable {Id H : Type} [DecidableEq Id] [DecidableEq H]

/-- `MAX_EXTRACTION_BYTES` -/
def maxExtractionBytes : Nat := 256000

/-- `MAX_ITEMS_PER_GROUP` -/
def maxItemsPerGroup : Nat := 100

/-- `MAX_QUOTE_CHARS` -/
def maxQuoteChars : Nat := 1200

/-- `MAX_FIELD_CHARS` -/
def maxFieldChars : Nat := 10000

/-- `_CONTEXT_EVENT_KIND` -/
def ContextKind.eventKind : ContextKind → Option EntityKind
  | .decision => some .decision
  | .issue => some .issue
  | .task => some .task
  | .event => some .event
  | .fact => none
  | .summary => none

/-- The kind and key under which events are compared. -/
def ExtractedEvent.key (rt : Runtime Id) (event : ExtractedEvent) : EntityKind × Text :=
  (event.kind, normalizeName rt event.name event.kind)

/-- The event that stands for a structured context. -/
def ExtractedContext.promoted (context : ExtractedContext) (kind : EntityKind) : ExtractedEvent :=
  ⟨context.title, kind, context.body, context.occurredAt, none, none, context.sourceRefs⟩

/-- One turn of the loop of `_promote_structured_contexts` over the events so far. -/
def promoteContext (rt : Runtime Id) (events : List ExtractedEvent) (context : ExtractedContext) :
    List ExtractedEvent :=
  match context.kind.eventKind with
  | none => events
  | some kind =>
    let key := (kind, normalizeName rt context.title kind)
    if key.2 = [] ∨ key ∈ events.map (ExtractedEvent.key rt) then events
    else events ++ [context.promoted kind]

/-- `_promote_structured_contexts` -/
def promoteStructuredContexts (rt : Runtime Id) (result : AnalysisResult) : AnalysisResult :=
  { result with events := result.contexts.foldl (promoteContext rt) result.events }

/-- The parts of an extracted item that the checks read: its quotations and its texts. -/
structure ExtractedItem where
  sourceRefs : List Text
  fields : List Text

/-- The entities, events, relations and contexts of a result. -/
def AnalysisResult.items (result : AnalysisResult) : List ExtractedItem :=
  result.entities.map (fun e => ⟨e.sourceRefs, [e.name]⟩) ++
    result.events.map (fun e => ⟨e.sourceRefs,
      [e.name, e.description] ++ e.occurredAt.toList ++ e.dueAt.toList ++ e.supersedes.toList⟩) ++
    result.relations.map (fun r => ⟨r.sourceRefs,
      [r.source, r.target] ++ r.validFrom.toList ++ r.validTo.toList⟩) ++
    result.contexts.map (fun c => ⟨c.sourceRefs, [c.title, c.body] ++ c.occurredAt.toList⟩)

/-- `squash` -/
def squash (text : Text) : Text := text.filter fun c => !isSpace c

/-- The text stands in the source, white space and case aside. -/
def groundedIn (rt : Runtime Id) (haystack value : Text) : Bool :=
  decide (rt.casefold (squash value) <:+: haystack)

/-- The checks on one item. -/
def checkItem (rt : Runtime Id) (haystack : Text) (item : ExtractedItem) : Except ApiError Unit :=
  if item.sourceRefs = [] ∨ (item.sourceRefs.any fun ref =>
      decide (strip ref = []) || decide (maxQuoteChars < ref.length) ||
        !groundedIn rt haystack ref) = true then
    .error (.workflow "ungrounded_analysis" "Source quotation is missing" 422)
  else if (item.fields.any fun value => decide (maxFieldChars < value.length)) = true then
    .error (.workflow "analysis_too_large" "Extracted field is too long" 422)
  else .ok ()

/-- The checks on the identifiers of one entity. -/
def checkIdentifiers (rt : Runtime Id) (haystack : Text) (entity : ExtractedEntity) :
    Except ApiError Unit :=
  if (entity.identifiers.any fun value =>
      isDirectory (rt.casefold value) || !groundedIn rt haystack value) = true then
    .error (.workflow "ungrounded_analysis" "Entity identifier is unverified" 422)
  else .ok ()

/-- The kinds and names of the entities and events of a result, in one numbering. -/
def AnalysisResult.endpoints (result : AnalysisResult) : List (EntityKind × List Text) :=
  result.entities.map (fun e => (e.kind, e.name :: e.aliases)) ++
    result.events.map fun e => (e.kind, [e.name])

/-- The numbers of the endpoints that a name stands for. -/
def endpointCandidates (rt : Runtime Id) (endpoints : List (EntityKind × List Text))
    (name : Text) : List Nat :=
  (List.range endpoints.length).filter fun i => endpoints[i]?.any fun e =>
    e.2.any fun other => decide (normalizeName rt other e.1 = normalizeName rt name e.1)

/-- The check on the endpoints of one relation. -/
def checkRelation (rt : Runtime Id) (endpoints : List (EntityKind × List Text))
    (relation : ExtractedRelation) : Except ApiError Unit :=
  if ([relation.source, relation.target].any fun name =>
      decide ((endpointCandidates rt endpoints name).length ≠ 1)) = true then
    .error (.workflow "invalid_relation" "Relation endpoint is not unique" 422)
  else .ok ()

/-- The check on the decision that one event replaces. -/
def checkSupersedes (rt : Runtime Id) (known : List Text) (event : ExtractedEvent) :
    Except ApiError Unit :=
  if (event.supersedes.any fun name =>
      decide (name ≠ []) && decide (normalizeName rt name .decision ∉ known)) = true then
    .error (.workflow "invalid_supersession" "Earlier decision is unknown" 422)
  else .ok ()

/-- The decisions that an event of the result may replace. -/
def replaceableDecisions (rt : Runtime Id) (result : AnalysisResult) (knownDecisions : List Text) :
    List Text :=
  (knownDecisions ++ (result.events.filter fun e => decide (e.kind = .decision)).map
    ExtractedEvent.name).map fun name => normalizeName rt name .decision

/-- The checks of `validate_extraction` on a promoted result. -/
def checkExtraction (rt : Runtime Id) (kind : SourceKind) (text : Text)
    (knownDecisions : List Text) (result : AnalysisResult) : Except ApiError Unit := do
  require (decide (kind ≠ .meeting) || decide (result.classification.sourceType = .meeting))
    (.workflow "invalid_analysis" "Meeting classification is required" 422)
  require (decide (result.entities.length ≤ maxItemsPerGroup) &&
      decide (result.events.length ≤ maxItemsPerGroup) &&
      decide (result.relations.length ≤ maxItemsPerGroup) &&
      decide (result.contexts.length ≤ maxItemsPerGroup))
    (.workflow "analysis_too_large" "Too many extracted items" 422)
  let haystack := rt.casefold (squash text)
  result.items.forM (checkItem rt haystack)
  result.entities.forM (checkIdentifiers rt haystack)
  result.relations.forM (checkRelation rt result.endpoints)
  result.events.forM (checkSupersedes rt (replaceableDecisions rt result knownDecisions))

/-- A result without the diagnostics a model may have added. -/
def AnalysisResult.undiagnosed (result : AnalysisResult) : AnalysisResult :=
  { result with warnings := [], usage := [] }

/-- A supplied result: the size of its JSON form, and what `model_validate` reads from it. -/
structure Supplied where
  size : Nat
  parsed : Option AnalysisResult

/-- `validate_extraction` -/
def validateExtraction (rt : Runtime Id) (supplied : Supplied) (kind : SourceKind) (text : Text)
    (knownDecisions : List Text) : Except ApiError AnalysisResult := do
  require (decide (supplied.size ≤ maxExtractionBytes))
    (.workflow "analysis_too_large" "Analysis is too large" 422)
  match supplied.parsed with
  | none => throw (.workflow "invalid_analysis" "Invalid extraction result" 422)
  | some result => do
    let promoted := promoteStructuredContexts rt result
    checkExtraction rt kind text knownDecisions promoted
    return promoted.undiagnosed

end

/-!
## Results that promotion leaves alone

Promotion adds an event for a structured context that has none, and nothing else.
-/

section

variable {Id : Type} {rt : Runtime Id}

/-- Every structured context with a title has an event of its kind and key in the result. -/
def AnalysisResult.Matched (rt : Runtime Id) (result : AnalysisResult) : Prop :=
  ∀ context ∈ result.contexts, ∀ kind, context.kind.eventKind = some kind →
    normalizeName rt context.title kind ≠ [] →
      (kind, normalizeName rt context.title kind) ∈ result.events.map (ExtractedEvent.key rt)

/-- A turn of the loop adds nothing exactly for a context that is matched. -/
theorem promoteContext_eq_iff {events : List ExtractedEvent} {context : ExtractedContext} :
    promoteContext rt events context = events ↔
      ∀ kind, context.kind.eventKind = some kind → normalizeName rt context.title kind ≠ [] →
        (kind, normalizeName rt context.title kind) ∈ events.map (ExtractedEvent.key rt) := by
  unfold promoteContext
  split
  · next hnone => simp [hnone]
  · next kind hkind =>
    dsimp only
    split_ifs with hmatched
    · refine iff_of_true rfl fun other hother hne => ?_
      rw [hkind, Option.some.injEq] at hother
      subst hother
      exact hmatched.resolve_left hne
    · rw [not_or] at hmatched
      refine iff_of_false (by simp) fun hall => ?_
      exact hmatched.2 (hall kind hkind hmatched.1)

theorem prefix_promoteContext (events : List ExtractedEvent) (context : ExtractedContext) :
    events <+: promoteContext rt events context := by
  unfold promoteContext
  split
  · exact List.prefix_rfl
  · dsimp only
    split_ifs
    · exact List.prefix_rfl
    · exact List.prefix_append ..

theorem prefix_promoted (contexts : List ExtractedContext) (events : List ExtractedEvent) :
    events <+: contexts.foldl (promoteContext rt) events := by
  induction contexts generalizing events with
  | nil => exact List.prefix_rfl
  | cons context rest ih => exact (prefix_promoteContext events context).trans (ih _)

/-- The loop adds nothing exactly when no turn of it would. -/
theorem foldl_promoteContext_eq_iff {contexts : List ExtractedContext}
    {events : List ExtractedEvent} :
    contexts.foldl (promoteContext rt) events = events ↔
      ∀ context ∈ contexts, promoteContext rt events context = events := by
  induction contexts with
  | nil => simp
  | cons context rest ih =>
    rw [List.foldl_cons, List.forall_mem_cons, ← ih]
    constructor
    · intro h
      -- what the first turn adds would stay
      have hfirst : promoteContext rt events context = events := by
        refine (List.IsPrefix.eq_of_length_le (prefix_promoteContext events context) ?_).symm
        have hlater : (promoteContext rt events context).length ≤
            (rest.foldl (promoteContext rt) (promoteContext rt events context)).length :=
          (prefix_promoted rest _).length_le
        rwa [h] at hlater
      exact ⟨hfirst, by rwa [hfirst] at h⟩
    · rintro ⟨hfirst, hrest⟩
      rwa [hfirst]

/-- Promotion leaves a result alone exactly when it is matched. -/
theorem promoteStructuredContexts_eq_iff {result : AnalysisResult} :
    (promoteStructuredContexts rt result).undiagnosed = result.undiagnosed ↔
      result.Matched rt := by
  have hevents : (promoteStructuredContexts rt result).undiagnosed = result.undiagnosed ↔
      result.contexts.foldl (promoteContext rt) result.events = result.events := by
    obtain ⟨⟨entities, events, relations⟩, classification, contexts, warnings, usage⟩ := result
    simp [promoteStructuredContexts, AnalysisResult.undiagnosed]
  rw [hevents, foldl_promoteContext_eq_iff]
  exact forall₂_congr fun context _ => promoteContext_eq_iff

end

end Maeglagi
