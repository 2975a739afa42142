import Maeglagi.Graph.Writer
import Maeglagi.Resolution.Linkage

/-!
# What writing relations does to the edges

Between two existing nodes, the edges of the kind become exactly the rows of the pair:
one for each normalized period, under an id made from its start. Everything else stays.
-/

namespace Maeglagi.Graph

open Core Temporal Resolution

variable {Id : Type} [DecidableEq Id] {rt : Runtime Id}

/-- Source, target and kind of an edge. -/
def edgeTriple (e : Edge Id) : Triple Id := (e.source, e.target, e.kind)

/-- What `MERGE` identifies an edge by. -/
def mergeKey (e : Edge Id) : Triple Id × Option Id := (edgeTriple e, e.id)

/-- The edges of a kind. -/
def kindEdges (g : Stored Id) (kind : RelationKind) : List (Edge Id) :=
  g.edges.filter fun e => decide (e.kind = kind)

/-- The stored periods of a triple. -/
def storedPeriods (g : Stored Id) (t : Triple Id) : List (Temporal.Interval Instant) :=
  (g.edges.filter fun e => decide (edgeTriple e = t)).map Edge.period

theorem sameEdge_iff {row e : Edge Id} : sameEdge row e = true ↔ mergeKey e = mergeKey row := by
  simp [sameEdge, mergeKey, edgeTriple, and_assoc]

/-- Both ends of the edge are nodes of its workspace. -/
def Anchored (g : Stored Id) (e : Edge Id) : Prop :=
  inWorkspace g e.workspaceId e.source = true ∧ inWorkspace g e.workspaceId e.target = true

/-- Merging an edge replaces the edges with its key. -/
theorem mem_upsertEdge {g : Stored Id} {edges : List (Edge Id)} {row e : Edge Id}
    (hrow : Anchored g row) :
    e ∈ upsertEdge g edges row ↔ e = row ∨ (e ∈ edges ∧ mergeKey e ≠ mergeKey row) := by
  rw [upsertEdge, hrow.1, hrow.2, Bool.and_self, if_pos rfl]
  split
  · next hany =>
    obtain ⟨o, ho, hsame⟩ := List.any_eq_true.mp hany
    rw [List.mem_map]
    constructor
    · rintro ⟨f, hf, rfl⟩
      by_cases hs : sameEdge row f = true
      · exact Or.inl (if_pos hs)
      · rw [if_neg hs]
        exact Or.inr ⟨hf, fun hkey => hs (sameEdge_iff.mpr hkey)⟩
    · rintro (rfl | ⟨he, hne⟩)
      · exact ⟨o, ho, if_pos hsame⟩
      · exact ⟨e, he, if_neg fun hs => hne (sameEdge_iff.mp hs)⟩
  · next hnone =>
    rw [List.mem_append, List.mem_singleton, or_comm]
    refine or_congr_right ⟨fun he => ⟨he, fun hkey => hnone ?_⟩, And.left⟩
    exact List.any_eq_true.mpr ⟨e, he, sameEdge_iff.mpr hkey⟩

/-- Merging edges with different keys replaces the edges with their keys. -/
theorem mem_foldl_upsertEdge {g : Stored Id} {rows : List (Edge Id)}
    (hrows : ∀ row ∈ rows, Anchored g row) (hnd : (rows.map mergeKey).Nodup)
    {edges : List (Edge Id)} {e : Edge Id} :
    e ∈ rows.foldl (upsertEdge g) edges ↔
      e ∈ rows ∨ (e ∈ edges ∧ mergeKey e ∉ rows.map mergeKey) := by
  induction rows generalizing edges with
  | nil => simp
  | cons row rows ih =>
    rw [List.map_cons, List.nodup_cons] at hnd
    rw [List.foldl_cons, ih (fun r hr => hrows r (List.mem_cons_of_mem _ hr)) hnd.2,
      mem_upsertEdge (hrows row (List.mem_cons_self ..)), List.map_cons, List.mem_cons,
      List.mem_cons]
    constructor
    · rintro (he | ⟨rfl | ⟨he, hne⟩, hnot⟩)
      · exact Or.inl (Or.inr he)
      · exact Or.inl (Or.inl rfl)
      · exact Or.inr ⟨he, fun h => h.elim hne hnot⟩
    · rintro ((rfl | he) | ⟨he, hnot⟩)
      · exact Or.inr ⟨Or.inl rfl, hnd.1⟩
      · exact Or.inl he
      · exact Or.inr ⟨Or.inr ⟨he, fun h => hnot (Or.inl h)⟩, fun h => hnot (Or.inr h)⟩

theorem mem_pairsOf {relations : List (GraphRelation Id)} {pair : Id × Id} :
    pair ∈ pairsOf rt relations ↔
      ∃ r ∈ relations, (r.sourceEntityId, r.targetEntityId) = pair := by
  rw [pairsOf, List.mem_insertionSort, List.mem_dedup, List.mem_map]

theorem nodup_pairsOf (relations : List (GraphRelation Id)) : (pairsOf rt relations).Nodup :=
  (List.perm_insertionSort _ _).nodup_iff.mpr (List.nodup_dedup _)

/-- The rows of a pair run between its ends, in its workspace, one for each period. -/
theorem mem_pairRows {g : Stored Id} {w : Id} {kind : RelationKind}
    {relations : List (GraphRelation Id)} {pair : Id × Id} {e : Edge Id}
    (he : e ∈ pairRows rt g w kind relations pair) :
    edgeTriple e = (pair.1, pair.2, kind) ∧ e.workspaceId = w ∧
      e.period ∈ normalize (spansOf g w kind relations pair) ∧
      e.id = some (relationId rt w pair.1 pair.2 kind e.period.validFrom) := by
  unfold pairRows at he
  split at he
  · exact absurd he List.not_mem_nil
  · obtain ⟨span, hspan, rfl⟩ := List.mem_map.mp he
    exact ⟨rfl, rfl, hspan, rfl⟩

/-- The rows of a pair with relations have exactly its normalized periods. -/
theorem map_period_pairRows {g : Stored Id} {w : Id} {kind : RelationKind}
    {relations : List (GraphRelation Id)} {pair : Id × Id} (hpair : pair ∈ pairsOf rt relations) :
    (pairRows rt g w kind relations pair).map Edge.period =
      normalize (spansOf g w kind relations pair) := by
  obtain ⟨r, hr, hrp⟩ := mem_pairsOf.mp hpair
  unfold pairRows
  split
  · next hnone =>
    have := List.find?_eq_none.mp hnone r hr
    simp [hrp] at this
  · rw [List.map_map]
    exact List.map_id _

/-- The conditions under which relations of a kind are written in full. -/
structure Writable (g : Stored Id) (w : Id) (kind : RelationKind)
    (relations : List (GraphRelation Id)) : Prop where
  own : ∀ r ∈ relations, r.workspaceId = w ∧ r.kind = kind
  ends : ∀ r ∈ relations,
    inWorkspace g w r.sourceEntityId = true ∧ inWorkspace g w r.targetEntityId = true
  incoming : ∀ r ∈ relations, (period r).WellFormed
  stored : ∀ e ∈ g.edges, e.period.WellFormed

theorem Writable.spans {g : Stored Id} {w : Id} {kind : RelationKind}
    {relations : List (GraphRelation Id)} (h : Writable g w kind relations) (pair : Id × Id) :
    ∀ i ∈ spansOf g w kind relations pair, i.WellFormed := by
  intro i hi
  rcases List.mem_append.mp hi with hi | hi
  · obtain ⟨x, hx, rfl⟩ := List.mem_map.mp hi
    obtain ⟨p, _, hx⟩ := List.mem_flatMap.mp hx
    obtain ⟨e, he, rfl⟩ := List.mem_map.mp hx
    exact h.stored e (List.mem_filter.mp he).1
  · obtain ⟨r, hr, rfl⟩ := List.mem_map.mp hi
    exact h.incoming r (List.mem_filter.mp hr).1

/-- Rows of one pair have different ids. -/
theorem Writable.nodup_pairRows {g : Stored Id} {w : Id} {kind : RelationKind}
    {relations : List (GraphRelation Id)} (h : Writable g w kind relations) (pair : Id × Id) :
    ((pairRows rt g w kind relations pair).map mergeKey).Nodup := by
  unfold pairRows
  split
  · exact List.nodup_nil
  · rw [List.map_map]
    refine List.pairwise_map.mpr ?_
    refine (normalize_ordered (h.spans pair)).imp_of_mem fun {a b} ha _ hbefore heq => ?_
    simp only [Function.comp, mergeKey, Prod.mk.injEq, Option.some.injEq] at heq
    exact hbefore.validFrom_ne (normalize_wellFormed (h.spans pair) a ha)
      (relationId_inj heq.2).2.2.2.2

/-- All rows of a write have different merge keys. -/
theorem Writable.nodup_rows {g : Stored Id} {w : Id} {kind : RelationKind}
    {relations : List (GraphRelation Id)} (h : Writable g w kind relations) :
    (((pairsOf rt relations).flatMap (pairRows rt g w kind relations)).map mergeKey).Nodup := by
  rw [List.map_flatMap]
  refine List.pairwise_flatMap.mpr ⟨fun pair _ => h.nodup_pairRows pair, ?_⟩
  refine (nodup_pairsOf relations).imp fun {p q} hpq x hx y hy hxy => hpq ?_
  obtain ⟨e, he, rfl⟩ := List.mem_map.mp hx
  obtain ⟨f, hf, rfl⟩ := List.mem_map.mp hy
  have hef : edgeTriple e = edgeTriple f := congrArg Prod.fst hxy
  rw [(mem_pairRows he).1, (mem_pairRows hf).1] at hef
  simp only [Prod.mk.injEq] at hef
  exact Prod.ext hef.1 hef.2.1

theorem matchesPair_iff {g : Stored Id} {w : Id} {kind : RelationKind} {pair : Id × Id}
    {e : Edge Id} : matchesPair g w kind pair e = true ↔
      edgeTriple e = (pair.1, pair.2, kind) ∧ inWorkspace g w pair.1 = true ∧
        inWorkspace g w pair.2 = true := by
  simp [matchesPair, edgeTriple, and_assoc]

/-- The edges after writing relations of a kind: the rows for the pairs written, and the
stored edges elsewhere. -/
theorem mem_writeRelations {g : Stored Id} {kind : RelationKind} {first : GraphRelation Id}
    {rest : List (GraphRelation Id)}
    (h : Writable g first.workspaceId kind (first :: rest)) {e : Edge Id} :
    e ∈ (writeRelations rt g kind (first :: rest)).edges ↔
      if e.kind = kind ∧ (e.source, e.target) ∈ pairsOf rt (first :: rest) then
        e ∈ pairRows rt g first.workspaceId kind (first :: rest) (e.source, e.target)
      else e ∈ g.edges := by
  have hends : ∀ pair ∈ pairsOf rt (first :: rest), inWorkspace g first.workspaceId pair.1 = true ∧
      inWorkspace g first.workspaceId pair.2 = true := by
    intro pair hpair
    obtain ⟨r, hr, rfl⟩ := mem_pairsOf.mp hpair
    exact h.ends r hr
  have hanch : ∀ row ∈ (pairsOf rt (first :: rest)).flatMap
      (pairRows rt g first.workspaceId kind (first :: rest)), Anchored g row := by
    intro row hrow
    obtain ⟨pair, hpair, hrow⟩ := List.mem_flatMap.mp hrow
    obtain ⟨htriple, hws, _⟩ := mem_pairRows hrow
    simp only [edgeTriple, Prod.mk.injEq] at htriple
    rw [Anchored, hws, htriple.1, htriple.2.1]
    exact hends pair hpair
  have hup : e ∈ ((pairsOf rt (first :: rest)).flatMap
      (pairRows rt g first.workspaceId kind (first :: rest))).foldl (upsertEdge g) g.edges ↔ _ :=
    mem_foldl_upsertEdge hanch h.nodup_rows
  have hstale : ∀ row : KeepRow Id, stale (upsertPeriods rt g first.workspaceId kind (first :: rest))
      first.workspaceId kind row e = stale g first.workspaceId kind row e := fun _ => rfl
  rw [writeRelations, deleteStale, List.mem_filter]
  simp only [Bool.not_eq_true', List.any_eq_false, hstale]
  have hedges : e ∈ (upsertPeriods rt g first.workspaceId kind (first :: rest)).edges ↔ _ := hup
  rw [hedges]
  split
  · next htouched =>
    obtain ⟨hkind, hpair⟩ := htouched
    constructor
    · rintro ⟨hrow | ⟨hg, hkey⟩, hkeep⟩
      · obtain ⟨pair, hp, hrow⟩ := List.mem_flatMap.mp hrow
        have htriple := (mem_pairRows hrow).1
        simp only [edgeTriple, Prod.mk.injEq] at htriple
        have hpe : pair = (e.source, e.target) := Prod.ext htriple.1.symm htriple.2.1.symm
        exact hpe ▸ hrow
      · -- a stored edge of the pair that no row replaced is stale
        exfalso
        have hs := hkeep _ (List.mem_map_of_mem hpair)
        have hmatch : matchesPair g first.workspaceId kind (e.source, e.target) e = true :=
          matchesPair_iff.mpr ⟨by rw [edgeTriple, hkind], hends _ hpair⟩
        cases hid : e.id with
        | none => simp [stale, hmatch, hid] at hs
        | some i =>
          simp only [stale, hmatch, hid, Bool.true_and, decide_eq_true_eq, not_not] at hs
          obtain ⟨row, hrow, hrid⟩ := List.mem_filterMap.mp hs
          refine hkey (List.mem_map.mpr ⟨row, List.mem_flatMap.mpr ⟨_, hpair, hrow⟩, ?_⟩)
          rw [mergeKey, mergeKey, (mem_pairRows hrow).1, hrid, hid, edgeTriple, hkind]
    · intro hrow
      refine ⟨Or.inl (List.mem_flatMap.mpr ⟨_, hpair, hrow⟩), fun keep hkeep => ?_⟩
      obtain ⟨pair, _, rfl⟩ := List.mem_map.mp hkeep
      intro hs
      simp only [stale, Bool.and_eq_true] at hs
      obtain ⟨hmatch, hs⟩ := hs
      have htriple := (matchesPair_iff.mp hmatch).1
      simp only [edgeTriple, Prod.mk.injEq] at htriple
      have hpe : pair = (e.source, e.target) := Prod.ext htriple.1.symm htriple.2.1.symm
      have hid := (mem_pairRows hrow).2.2.2
      simp only [hid, decide_eq_true_eq] at hs
      exact hs (List.mem_filterMap.mpr ⟨e, hpe ▸ hrow, hid⟩)
  · next huntouched =>
    constructor
    · rintro ⟨hrow | ⟨hg, _⟩, _⟩
      · obtain ⟨pair, hp, hrow⟩ := List.mem_flatMap.mp hrow
        have htriple := (mem_pairRows hrow).1
        simp only [edgeTriple, Prod.mk.injEq] at htriple
        refine absurd ⟨htriple.2.2, ?_⟩ huntouched
        rwa [htriple.1, htriple.2.1]
      · exact hg
    · intro hg
      refine ⟨Or.inr ⟨hg, fun hkey => ?_⟩, fun keep hkeep hs => ?_⟩
      · obtain ⟨row, hrow, hrk⟩ := List.mem_map.mp hkey
        obtain ⟨pair, hp, hrow⟩ := List.mem_flatMap.mp hrow
        have htriple := (mem_pairRows hrow).1
        have hfst : edgeTriple row = edgeTriple e := congrArg Prod.fst hrk
        rw [hfst] at htriple
        simp only [edgeTriple, Prod.mk.injEq] at htriple
        refine absurd ⟨htriple.2.2, ?_⟩ huntouched
        rwa [htriple.1, htriple.2.1]
      · obtain ⟨pair, hp, rfl⟩ := List.mem_map.mp hkeep
        simp only [stale, Bool.and_eq_true] at hs
        have htriple := (matchesPair_iff.mp hs.1).1
        simp only [edgeTriple, Prod.mk.injEq] at htriple
        refine absurd ⟨htriple.2.2, ?_⟩ huntouched
        rwa [htriple.1, htriple.2.1]

end Maeglagi.Graph
