import Maeglagi.Core.Fallible
import Maeglagi.Resolution.Resolve

/-!
# The graph that the resolver returns

A successful run taken apart: its groups, its links between decisions and its spans.
Linking changes nothing about an entity but its successor, so the entities of the
graph are those of the groups, in their order.
-/

namespace Maeglagi.Resolution

open Core Temporal

variable {Id : Type}

/-- The entity before any decision replaced it. -/
def unlinked (e : GraphEntity Id) : GraphEntity Id := { e with supersededBy := none }

@[simp] theorem unlinked_id (e : GraphEntity Id) : (unlinked e).id = e.id := rfl

@[simp] theorem unlinked_kind (e : GraphEntity Id) : (unlinked e).kind = e.kind := rfl

@[simp] theorem unlinked_identifiers (e : GraphEntity Id) :
    (unlinked e).identifiers = e.identifiers := rfl

@[simp] theorem unlinked_toEntity (rt : Runtime Id) (info : SourceInfo Id) (g : Group) :
    unlinked (g.toEntity rt info) = g.toEntity rt info := rfl

theorem map_modifyLast {α β : Type} {p : α → Bool} {f : α → α} {g : α → β}
    (h : ∀ x, g (f x) = g x) (l : List α) : (modifyLast p f l).map g = l.map g := by
  induction l with
  | nil => rfl
  | cons x l ih =>
    rw [modifyLast]
    split
    · rw [List.map_cons, ih, List.map_cons]
    · split
      · rw [List.map_cons, h, List.map_cons]
      · rfl

variable [DecidableEq Id]

theorem map_unlinked_setSuccessor (entities : List (GraphEntity Id)) (oldId newId : Id) :
    (setSuccessor entities oldId newId).map unlinked = entities.map unlinked := by
  apply map_modifyLast
  exact fun _ => rfl

theorem map_unlinked_linkOld (rt : Runtime Id) (state : Links Id) (eventName supersedes : Text)
    (newId : Id) (olds : List Id) :
    (linkOld rt state eventName supersedes newId olds).entities.map unlinked =
      state.entities.map unlinked := by
  unfold linkOld
  split
  · rfl
  · split
    · rfl
    · dsimp only
      split
      · exact map_unlinked_setSuccessor _ _ _
      · rfl
    · rfl

theorem map_unlinked_linkSupersession (rt : Runtime Id) (lookup : EntityKind → Text → List Id)
    (state : Links Id) (event : ExtractedEvent) :
    (linkSupersession rt lookup state event).entities.map unlinked =
      state.entities.map unlinked := by
  unfold linkSupersession
  split
  · rfl
  · split
    · rfl
    · split
      · exact map_unlinked_linkOld rt state _ _ _ _
      · rfl

/-- Linking decisions changes no entity but for its successor. -/
theorem map_unlinked_linkSupersessions (rt : Runtime Id) (events : List ExtractedEvent)
    (entities : List (GraphEntity Id)) (warnings : List Warning) :
    (linkSupersessions rt events entities warnings).entities.map unlinked =
      entities.map unlinked := by
  unfold linkSupersessions
  generalize lookup entities = find
  generalize hs : (⟨entities, [], warnings⟩ : Links Id) = state
  have hstate : state.entities.map unlinked = entities.map unlinked := by rw [← hs]
  clear hs
  induction events generalizing state with
  | nil => exact hstate
  | cons event events ih =>
    rw [List.foldl_cons]
    exact ih _ ((map_unlinked_linkSupersession rt find state event).trans hstate)

/-- The entities of the groups of a list of mentions. -/
def resolvedEntities (rt : Runtime Id) (info : SourceInfo Id) (ms : List Mention) :
    List (GraphEntity Id) :=
  (groupMentions rt ms).1.map (Group.toEntity rt info)

/-- A successful run, taken apart. -/
structure Resolved (rt : Runtime Id) (result : ExtractionResult) (info : SourceInfo Id)
    (graph : ResolvedGraph Id) where
  ms : List Mention
  fallback : Option Instant
  spans : Spans Id
  mentions_ok : mentions rt result info.trustedDirectoryIdentifiers = .ok ms
  fallback_ok : asUtc info.timestamp = .ok fallback
  spans_ok : result.relations.foldlM (relationStep rt (resolvedEntities rt info ms) fallback)
    (Dict.empty, (linkSupersessions rt result.events (resolvedEntities rt info ms)
      (groupMentions rt ms).2).warnings) = .ok spans
  entities_eq : graph.entities = (linkSupersessions rt result.events
    (resolvedEntities rt info ms) (groupMentions rt ms).2).entities
  relations_eq : graph.relations =
    spans.1.entries.flatMap fun e => tripleRelations rt info e.1 e.2
  warnings_eq : graph.warnings = spans.2

/-- What a successful run went through. -/
theorem resolveExtraction_resolved {rt : Runtime Id} {result : ExtractionResult}
    {info : SourceInfo Id} {graph : ResolvedGraph Id}
    (h : resolveExtraction rt result info = .ok graph) :
    Nonempty (Resolved rt result info graph) := by
  simp only [resolveExtraction, bind_eq_ok] at h
  obtain ⟨ms, hms, fallback, hfallback, spans, hspans, hgraph⟩ := h
  rw [pure_eq_ok] at hgraph
  subst hgraph
  exact ⟨⟨ms, fallback, spans, hms, hfallback, hspans, rfl, rfl, rfl⟩⟩

/-- The graph has one entity for each group, in order. -/
theorem Resolved.map_unlinked {rt : Runtime Id} {result : ExtractionResult}
    {info : SourceInfo Id} {graph : ResolvedGraph Id} (h : Resolved rt result info graph) :
    graph.entities.map unlinked = resolvedEntities rt info h.ms := by
  rw [h.entities_eq, map_unlinked_linkSupersessions, resolvedEntities, List.map_map]
  rfl

/-- The ids of the graph's entities are those of the groups. -/
theorem Resolved.map_id {rt : Runtime Id} {result : ExtractionResult}
    {info : SourceInfo Id} {graph : ResolvedGraph Id} (h : Resolved rt result info graph) :
    graph.entities.map GraphEntity.id = (resolvedEntities rt info h.ms).map GraphEntity.id := by
  rw [← h.map_unlinked, List.map_map]
  rfl

/-- The graph has one entity for each group of the pass with positions, in order. -/
theorem map_unlinked_eq_track {rt : Runtime Id} {result : ExtractionResult}
    {info : SourceInfo Id} {ms : List Mention} {graph : ResolvedGraph Id}
    (hms : mentions rt result info.trustedDirectoryIdentifiers = .ok ms)
    (h : resolveExtraction rt result info = .ok graph) :
    graph.entities.map unlinked = (track rt ms).map fun t => t.1.toEntity rt info := by
  obtain ⟨run⟩ := resolveExtraction_resolved h
  have hrun : run.ms = ms := by
    have hok := run.mentions_ok.symm.trans hms
    injection hok
  rw [run.map_unlinked, hrun, resolvedEntities, ← map_fst_track, List.map_map]
  rfl

end Maeglagi.Resolution
