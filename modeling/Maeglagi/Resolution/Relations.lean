import Maeglagi.PlainRuntime
import Maeglagi.Resolution.Outcome
import Maeglagi.Temporal.Periods

/-!
# Relations of the resolved graph

The relation loop only collects well-formed intervals between entities of the graph;
normalizing each triple then gives disjoint periods, whose starts tell their ids apart.
-/

namespace Maeglagi.Resolution

open Core Temporal

variable {Id : Type}

/-- The source, target and kind of a relation. -/
def triple (r : GraphRelation Id) : Triple Id := (r.sourceEntityId, r.targetEntityId, r.kind)

/-- The period of a relation. -/
def period (r : GraphRelation Id) : Temporal.Interval Instant := ⟨r.validFrom, r.validTo⟩

/-- Whatever the stated bounds, the collected interval is well formed. -/
theorem statedInterval_wellFormed (relation : ExtractedRelation)
    (statedFrom validTo fallback : Option Instant) :
    (statedInterval relation statedFrom validTo fallback).1.WellFormed := by
  unfold statedInterval
  split
  · split
    · split <;> simp [Interval.WellFormed]
    · next hle =>
      intro s e hs he
      cases hs
      cases he
      exact not_lt.mp hle
  · next hne =>
    intro s e hs he
    exact absurd he (hne s e hs)

variable [DecidableEq Id]

theorem mem_lookup {entities : List (GraphEntity Id)} {kind : EntityKind} {key : Text} {id : Id}
    (h : id ∈ lookup entities kind key) : id ∈ entities.map GraphEntity.id := by
  obtain ⟨e, he, rfl⟩ := List.mem_map.mp (List.mem_dedup.mp h)
  exact List.mem_map_of_mem (List.mem_filter.mp he).1

/-- An endpoint is the id of an entity. -/
theorem endpoint_mem {rt : Runtime Id} {entities : List (GraphEntity Id)} {name : Text} {id : Id}
    (h : (endpoint rt entities name).1 = some id) : id ∈ entities.map GraphEntity.id := by
  unfold endpoint at h
  split at h
  · cases h
  · next c hc =>
    cases h
    have hmem : id ∈ candidates rt entities name := hc ▸ List.mem_singleton_self _
    obtain ⟨kind, _, hk⟩ := List.mem_flatMap.mp (List.mem_dedup.mp hmem)
    exact mem_lookup hk
  · cases h

/-- What the relation loop has collected: well-formed intervals between entities. -/
structure Collected (entities : List (GraphEntity Id)) (spans : Spans Id) : Prop where
  source : ∀ e ∈ spans.1.entries, e.1.1 ∈ entities.map GraphEntity.id
  target : ∀ e ∈ spans.1.entries, e.1.2.1 ∈ entities.map GraphEntity.id
  wellFormed : ∀ e ∈ spans.1.entries, ∀ i ∈ e.2, i.WellFormed

omit [DecidableEq Id] in
theorem Collected.empty (entities : List (GraphEntity Id)) (warnings : List Warning) :
    Collected entities (Dict.empty, warnings) :=
  ⟨fun _ h => (List.not_mem_nil h).elim, fun _ h => (List.not_mem_nil h).elim,
    fun _ h => (List.not_mem_nil h).elim⟩

/-- Recording one interval between entities keeps the collection. -/
theorem Collected.add {entities : List (GraphEntity Id)} {spans : Spans Id}
    (h : Collected entities spans) {t : Triple Id} (hs : t.1 ∈ entities.map GraphEntity.id)
    (ht : t.2.1 ∈ entities.map GraphEntity.id) {i : Temporal.Interval Instant} (hi : i.WellFormed)
    (warnings : List Warning) :
    Collected entities (spans.1.set t (spans.1.getD t [] ++ [i]), warnings) := by
  have hcases : ∀ e ∈ (spans.1.set t (spans.1.getD t [] ++ [i])).entries,
      e = (t, spans.1.getD t [] ++ [i]) ∨ e ∈ spans.1.entries := by
    intro e he
    have hget := Dict.get?_eq_some_iff.mpr he
    rw [Dict.get?_set] at hget
    split at hget
    · next hk => exact Or.inl (Prod.ext hk (Option.some.inj hget).symm)
    · exact Or.inr (Dict.get?_eq_some_iff.mp hget)
  refine ⟨fun e he => ?_, fun e he => ?_, fun e he j hj => ?_⟩
  · rcases hcases e he with rfl | he
    · exact hs
    · exact h.source e he
  · rcases hcases e he with rfl | he
    · exact ht
    · exact h.target e he
  · rcases hcases e he with rfl | he
    · rcases List.mem_append.mp hj with hj | hj
      · unfold Dict.getD at hj
        cases hg : spans.1.get? t with
        | none => simp [hg] at hj
        | some l =>
          rw [hg, Option.getD_some] at hj
          exact h.wellFormed _ (Dict.get?_eq_some_iff.mp hg) j hj
      · rw [List.mem_singleton.mp hj]
        exact hi
    · exact h.wellFormed e he j hj

/-- One turn of the relation loop keeps the collection. -/
theorem Collected.step {rt : Runtime Id} {entities : List (GraphEntity Id)}
    {fallback : Option Instant} {spans spans' : Spans Id} {relation : ExtractedRelation}
    (h : Collected entities spans)
    (hstep : relationStep rt entities fallback spans relation = .ok spans') :
    Collected entities spans' := by
  unfold relationStep at hstep
  dsimp only at hstep
  split at hstep
  · next s t hs ht =>
    simp only [bind_eq_ok, pure_eq_ok] at hstep
    obtain ⟨statedFrom, _, validTo, _, rfl⟩ := hstep
    exact h.add (endpoint_mem hs) (endpoint_mem ht)
      (statedInterval_wellFormed relation statedFrom validTo fallback) _
  · cases hstep
    exact ⟨h.source, h.target, h.wellFormed⟩

/-- The spans of a successful run are collected between its entities. -/
theorem Resolved.collected {rt : Runtime Id} {result : ExtractionResult} {info : SourceInfo Id}
    {graph : ResolvedGraph Id} (run : Resolved rt result info graph) :
    Collected (resolvedEntities rt info run.ms) run.spans :=
  foldlM_induct (fun _ _ _ _ h hstep => h.step hstep) run.spans_ok (Collected.empty _ _)

/-- Each relation comes from the spans of its own triple. -/
theorem Resolved.mem_relations {rt : Runtime Id} {result : ExtractionResult}
    {info : SourceInfo Id} {graph : ResolvedGraph Id} (run : Resolved rt result info graph)
    {r : GraphRelation Id} (hr : r ∈ graph.relations) :
    ∃ spans, (triple r, spans) ∈ run.spans.1.entries ∧ period r ∈ normalize spans := by
  rw [run.relations_eq, List.mem_flatMap] at hr
  obtain ⟨⟨t, spans⟩, he, hr⟩ := hr
  obtain ⟨p, hp, rfl⟩ := List.mem_map.mp hr
  exact ⟨spans, he, hp⟩

/-- Relations of one triple follow each other in time. -/
theorem Resolved.ordered {rt : Runtime Id} {result : ExtractionResult} {info : SourceInfo Id}
    {graph : ResolvedGraph Id} (run : Resolved rt result info graph) :
    graph.relations.Pairwise fun r r' =>
      triple r = triple r' → (period r).Before (period r') := by
  have hkeys := List.pairwise_map.mp run.spans.1.nodup
  rw [run.relations_eq, List.pairwise_flatMap]
  refine ⟨fun e he => ?_, hkeys.imp fun hne r hr r' hr' heq => ?_⟩
  · refine List.pairwise_map.mpr
      (List.Pairwise.imp ?_ (normalize_ordered (run.collected.wellFormed e he)))
    exact fun hbefore _ => hbefore
  · obtain ⟨p, _, rfl⟩ := List.mem_map.mp hr
    obtain ⟨p', _, rfl⟩ := List.mem_map.mp hr'
    exact absurd heq hne

/-- Every relation's id is made from its triple and its start. -/
theorem Resolved.relation_id {rt : Runtime Id} {result : ExtractionResult}
    {info : SourceInfo Id} {graph : ResolvedGraph Id} (run : Resolved rt result info graph)
    {r : GraphRelation Id} (hr : r ∈ graph.relations) :
    r.id = relationId rt info.workspaceId r.sourceEntityId r.targetEntityId r.kind r.validFrom := by
  rw [run.relations_eq, List.mem_flatMap] at hr
  obtain ⟨⟨t, spans⟩, he, hr⟩ := hr
  obtain ⟨p, hp, rfl⟩ := List.mem_map.mp hr
  rfl

/-- Relations of the resolved graph connect its entities, over well-formed periods that
never overlap within a triple, under distinct ids. -/
theorem relations_wellFormed (rt : Runtime Id) (result : ExtractionResult) (info : SourceInfo Id)
    {graph : ResolvedGraph Id} (h : resolveExtraction rt result info = .ok graph) :
    (∀ r ∈ graph.relations, r.sourceEntityId ∈ graph.entities.map GraphEntity.id ∧
      r.targetEntityId ∈ graph.entities.map GraphEntity.id) ∧
    (∀ r ∈ graph.relations, ∀ s e, r.validFrom = some s → r.validTo = some e → s ≤ e) ∧
    (graph.relations.Pairwise fun r r' =>
      triple r = triple r' → (period r).overlaps (period r') = false) ∧
    (graph.relations.map GraphRelation.id).Nodup := by
  obtain ⟨run⟩ := resolveExtraction_resolved h
  have hw : ∀ r ∈ graph.relations, (period r).WellFormed := by
    intro r hr
    obtain ⟨spans, he, hp⟩ := run.mem_relations hr
    exact normalize_wellFormed (run.collected.wellFormed _ he) _ hp
  refine ⟨fun r hr => ?_, hw, ?_, ?_⟩
  · obtain ⟨spans, he, _⟩ := run.mem_relations hr
    rw [run.map_id]
    exact ⟨run.collected.source _ he, run.collected.target _ he⟩
  · exact run.ordered.imp fun hbefore heq => (hbefore heq).not_overlaps
  · refine List.pairwise_map.mpr (run.ordered.imp_of_mem fun {r r'} hr hr' hbefore heq => ?_)
    rw [run.relation_id hr, run.relation_id hr'] at heq
    obtain ⟨_, hs, ht, hk, hv⟩ := relationId_inj heq
    have htriple : triple r = triple r' := by rw [triple, triple, hs, ht, hk]
    exact (hbefore htriple).validFrom_ne (hw r hr) hv

/-- A member who left an assignment and was assigned again later. -/
def reassignment : ExtractionResult :=
  ⟨[plainPerson "Kim" ["a@x"], plainPerson "Atlas" []], [],
    [plainAssignment "Kim" "Atlas" (some "2026-05-01") none,
      plainAssignment "Kim" "Atlas" (some "2026-01-01") (some "2026-02-01")]⟩

theorem relations_wellFormed_reassignment :
    (plainGraph reassignment "s").relations.length = 2 ∧
      ((plainGraph reassignment "s").relations.map GraphRelation.id).Nodup :=
  ⟨by decide +kernel,
    (relations_wellFormed plainRuntime reassignment (plainSource "s") (by decide +kernel)).2.2.2⟩

end Maeglagi.Resolution
