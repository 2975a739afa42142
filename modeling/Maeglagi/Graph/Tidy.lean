import Maeglagi.Graph.Edges

/-!
# Stored periods under writes

A tidy graph stores the periods of a triple normalized, under different ids. Writing
relations of a kind keeps it tidy and merges, for every triple, the new periods into the
stored ones.
-/

namespace Maeglagi.Graph

open Core Temporal Resolution

variable {Id : Type} [DecidableEq Id] {rt : Runtime Id}

/-- Edges have different keys, and the periods of each triple are normalized. -/
structure Tidy (g : Stored Id) : Prop where
  wellFormed : ∀ e ∈ g.edges, e.period.WellFormed
  distinct : (g.edges.map mergeKey).Nodup
  normal : ∀ t, (storedPeriods g t).Perm (normalize (storedPeriods g t))

theorem Tidy.empty : Tidy (Stored.empty : Stored Id) :=
  ⟨fun _ h => absurd h List.not_mem_nil, List.nodup_nil, fun _ => List.Perm.nil⟩

theorem Tidy.periods_wellFormed {g : Stored Id} (hg : Tidy g) (t : Triple Id) :
    ∀ i ∈ storedPeriods g t, i.WellFormed := by
  intro i hi
  obtain ⟨e, he, rfl⟩ := List.mem_map.mp hi
  exact hg.wellFormed e (List.mem_filter.mp he).1

/-- Only the edges matter. -/
theorem Tidy.congr {g g' : Stored Id} (h : g'.edges = g.edges) (hg : Tidy g) : Tidy g' := by
  have hp : ∀ t, storedPeriods g' t = storedPeriods g t := fun t => by
    rw [storedPeriods, storedPeriods, h]
  exact ⟨h ▸ hg.wellFormed, h ▸ hg.distinct, fun t => by rw [hp]; exact hg.normal t⟩

/-- Merging an edge keeps the keys apart. -/
theorem nodup_upsertEdge {g : Stored Id} {edges : List (Edge Id)} (h : (edges.map mergeKey).Nodup)
    (row : Edge Id) : ((upsertEdge g edges row).map mergeKey).Nodup := by
  unfold upsertEdge
  split
  · split
    · have hsame : (edges.map fun e => if sameEdge row e then row else e).map mergeKey =
          edges.map mergeKey := by
        rw [List.map_map]
        refine List.map_congr_left fun e _ => ?_
        by_cases hs : sameEdge row e = true
        · simp only [Function.comp, if_pos hs]
          exact (sameEdge_iff.mp hs).symm
        · simp only [Function.comp, if_neg hs]
      rwa [hsame]
    · next hnone =>
      rw [List.map_append, List.map_singleton]
      refine h.append (List.nodup_singleton _) (List.disjoint_singleton.mpr fun hmem => hnone ?_)
      obtain ⟨e, he, hk⟩ := List.mem_map.mp hmem
      exact List.any_eq_true.mpr ⟨e, he, sameEdge_iff.mpr hk⟩
  · exact h

theorem nodup_foldl_upsertEdge {g : Stored Id} (rows : List (Edge Id)) {edges : List (Edge Id)}
    (h : (edges.map mergeKey).Nodup) :
    ((rows.foldl (upsertEdge g) edges).map mergeKey).Nodup := by
  induction rows generalizing edges with
  | nil => exact h
  | cons row rows ih => exact ih (nodup_upsertEdge h row)

theorem nodup_writeRelations (rt : Runtime Id) {g : Stored Id} (h : (g.edges.map mergeKey).Nodup)
    (kind : RelationKind) (relations : List (GraphRelation Id)) :
    ((writeRelations rt g kind relations).edges.map mergeKey).Nodup := by
  cases relations with
  | nil => exact h
  | cons first rest =>
    exact (nodup_foldl_upsertEdge _ h).sublist (List.filter_sublist.map mergeKey)

/-- The intervals to normalize for a pair: its stored periods and the new ones. -/
theorem Writable.spansOf_eq {g : Stored Id} {w : Id} {kind : RelationKind}
    {relations : List (GraphRelation Id)} (h : Writable g w kind relations) {pair : Id × Id}
    (hpair : pair ∈ pairsOf rt relations) : spansOf g w kind relations pair =
      storedPeriods g (pair.1, pair.2, kind) ++
        (relations.filter fun r => decide (triple r = (pair.1, pair.2, kind))).map period := by
  have hends : inWorkspace g w pair.1 = true ∧ inWorkspace g w pair.2 = true := by
    obtain ⟨r, hr, rfl⟩ := mem_pairsOf.mp hpair
    exact h.ends r hr
  have hstored : (findRelations g w kind [pair]).map Prod.snd =
      storedPeriods g (pair.1, pair.2, kind) := by
    simp only [findRelations, List.flatMap_cons, List.flatMap_nil, List.append_nil, List.map_map,
      storedPeriods]
    refine congrArg (List.map Edge.period) (List.filter_congr fun e _ => ?_)
    rw [Bool.eq_iff_iff, matchesPair_iff, decide_eq_true_eq]
    exact and_iff_left hends
  rw [spansOf, hstored]
  congr 2
  refine List.filter_congr fun r hr => decide_eq_decide.mpr ?_
  simp [triple, (h.own r hr).2, Prod.ext_iff]

/-- Writing relations of a kind merges the new periods of each triple into the stored ones. -/
theorem storedPeriods_writeRelations (rt : Runtime Id) {g : Stored Id} (hg : Tidy g) {w : Id}
    {kind : RelationKind} {relations : List (GraphRelation Id)} (h : Writable g w kind relations) (t : Triple Id) :
    (storedPeriods (writeRelations rt g kind relations) t).Perm (normalize (storedPeriods g t ++
      (relations.filter fun r => decide (triple r = t)).map period)) := by
  cases relations with
  | nil =>
    rw [List.filter_nil, List.map_nil, List.append_nil]
    exact hg.normal t
  | cons first rest =>
    obtain ⟨rfl, -⟩ := h.own first (List.mem_cons_self ..)
    have hnd := List.Nodup.of_map mergeKey
      (nodup_writeRelations rt hg.distinct kind (first :: rest))
    by_cases htouched : t.2.2 = kind ∧ (t.1, t.2.1) ∈ pairsOf rt (first :: rest)
    · obtain ⟨rfl, hpair⟩ := htouched
      have hrows : ((writeRelations rt g t.2.2 (first :: rest)).edges.filter
          fun e => decide (edgeTriple e = t)).Perm
            (pairRows rt g first.workspaceId t.2.2 (first :: rest) (t.1, t.2.1)) := by
        refine (List.perm_ext_iff_of_nodup (hnd.filter _)
          (List.Nodup.of_map mergeKey (h.nodup_pairRows _))).mpr fun e => ?_
        rw [List.mem_filter, decide_eq_true_eq, mem_writeRelations h]
        constructor
        · rintro ⟨he, rfl⟩
          rwa [if_pos ⟨rfl, hpair⟩] at he
        · intro he
          obtain rfl : edgeTriple e = t := (mem_pairRows he).1
          exact ⟨by rwa [if_pos ⟨rfl, hpair⟩], rfl⟩
      have hmap := hrows.map Edge.period
      rwa [map_period_pairRows hpair, h.spansOf_eq hpair] at hmap
    · have hnone : (first :: rest).filter (fun r => decide (triple r = t)) = [] := by
        refine List.filter_eq_nil_iff.mpr fun r hr hrt => htouched ?_
        obtain rfl := of_decide_eq_true hrt
        exact ⟨(h.own r hr).2, mem_pairsOf.mpr ⟨r, hr, rfl⟩⟩
      have hsame : ((writeRelations rt g kind (first :: rest)).edges.filter
          fun e => decide (edgeTriple e = t)).Perm
            (g.edges.filter fun e => decide (edgeTriple e = t)) := by
        refine (List.perm_ext_iff_of_nodup (hnd.filter _)
          ((List.Nodup.of_map mergeKey hg.distinct).filter _)).mpr fun e => ?_
        rw [List.mem_filter, List.mem_filter, decide_eq_true_eq, mem_writeRelations h]
        refine and_congr_left fun ht => ?_
        subst ht
        have huntouched : ¬(e.kind = kind ∧ (e.source, e.target) ∈ pairsOf rt (first :: rest)) :=
          htouched
        rw [if_neg huntouched]
      rw [hnone, List.map_nil, List.append_nil]
      exact (hsame.map Edge.period).trans (hg.normal t)

/-- What is about to be normalized for a triple is well formed. -/
theorem Writable.merged_wellFormed {g : Stored Id} (hg : Tidy g) {w : Id} {kind : RelationKind}
    {relations : List (GraphRelation Id)} (h : Writable g w kind relations) (t : Triple Id) :
    ∀ i ∈ storedPeriods g t ++ (relations.filter fun r => decide (triple r = t)).map period,
      i.WellFormed := by
  refine List.forall_mem_append.mpr ⟨hg.periods_wellFormed t, fun i hi => ?_⟩
  obtain ⟨r, hr, rfl⟩ := List.mem_map.mp hi
  exact h.incoming r (List.mem_filter.mp hr).1

/-- Writing relations of a kind keeps the graph tidy. -/
theorem Tidy.writeRelations (rt : Runtime Id) {g : Stored Id} (hg : Tidy g) {w : Id}
    {kind : RelationKind} {relations : List (GraphRelation Id)} (h : Writable g w kind relations) :
    Tidy (writeRelations rt g kind relations) where
  wellFormed e he := by
    have hp := storedPeriods_writeRelations rt hg h (edgeTriple e)
    refine normalize_wellFormed (h.merged_wellFormed hg (edgeTriple e)) _ (hp.mem_iff.mp ?_)
    exact List.mem_map_of_mem (List.mem_filter.mpr ⟨he, decide_eq_true rfl⟩)
  distinct := nodup_writeRelations rt hg.distinct kind relations
  normal t := by
    have hp := storedPeriods_writeRelations rt hg h t
    have hw := normalize_wellFormed (h.merged_wellFormed hg t)
    rw [normalize_perm (fun i hi => hw i (hp.mem_iff.mp hi)) hp,
      normalize_normalize (h.merged_wellFormed hg t)]
    exact hp

end Maeglagi.Graph
