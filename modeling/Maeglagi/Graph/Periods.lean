import Maeglagi.Core.Lasts
import Maeglagi.Graph.Effect
import Maeglagi.Graph.Tidy

/-!
# The stored periods after a write

The relations of a source between the same two nodes are collected under ids made from
their starts, so of several with one start the last one is written. The stored periods of
a triple are those of what is kept, normalized together with the stored ones.
-/

namespace Maeglagi.Graph

open Core Temporal Resolution

variable {Id : Type} [DecidableEq Id] {rt : Runtime Id}

/-- What the writer may rely on about a graph of the workspace. -/
structure Closed (w : Id) (graph : ResolvedGraph Id) : Prop where
  entities : ∀ e ∈ graph.entities, e.workspaceId = w
  relations : ∀ r ∈ graph.relations, r.workspaceId = w
  ends : ∀ r ∈ graph.relations, r.sourceEntityId ∈ graph.entities.map GraphEntity.id ∧
    r.targetEntityId ∈ graph.entities.map GraphEntity.id
  periods : ∀ r ∈ graph.relations, (period r).WellFormed

/-- The resolver returns closed graphs. -/
theorem Extracted.closed {w : Id} {graph : ResolvedGraph Id} (h : Extracted rt w graph) :
    Closed w graph := by
  obtain ⟨result, info, rfl, h⟩ := h
  obtain ⟨run⟩ := resolveExtraction_resolved h
  refine ⟨fun e he => ?_, fun r hr => ?_, fun r hr => ?_, fun r hr => ?_⟩
  · have hmem := List.mem_map_of_mem (f := unlinked) he
    rw [run.map_unlinked] at hmem
    obtain ⟨group, _, hg⟩ := List.mem_map.mp hmem
    exact (congrArg GraphEntity.workspaceId hg).symm
  · rw [run.relations_eq, List.mem_flatMap] at hr
    obtain ⟨_, _, hr⟩ := hr
    obtain ⟨_, _, rfl⟩ := List.mem_map.mp hr
    rfl
  · obtain ⟨spans, he, _⟩ := run.mem_relations hr
    rw [run.map_id]
    exact ⟨run.collected.source _ he, run.collected.target _ he⟩
  · obtain ⟨spans, he, hp⟩ := run.mem_relations hr
    exact normalize_wellFormed (run.collected.wellFormed _ he) _ hp

/-- The relations of a graph between the nodes its entities went to. -/
def remapped (rt : Runtime Id) (g : Stored Id) (graph : ResolvedGraph Id) :
    List (GraphRelation Id) := graph.relations.map (remap rt (reconciled rt g graph).idMap)

/-- The periods of all incoming relations that the id map takes to a triple. -/
def incoming (rt : Runtime Id) (g : Stored Id) (graph : ResolvedGraph Id) (t : Triple Id) :
    List (Temporal.Interval Instant) :=
  ((remapped rt g graph).filter fun r => decide (triple r = t)).map period

/-- An entity goes to a node of its workspace. -/
theorem Closed.inWorkspace_mapId (rt : Runtime Id) {w : Id} {graph : ResolvedGraph Id}
    (h : Closed w graph) (g : Stored Id) {id : Id} (hid : id ∈ graph.entities.map GraphEntity.id) :
    inWorkspace (upserted rt g graph) w (mapId (reconciled rt g graph).idMap id) = true := by
  have hloop := reconciled_loop rt g graph
  obtain ⟨e, he, rfl⟩ := List.mem_map.mp hid
  obtain ⟨p, hp, rfl⟩ := List.mem_map.mp (hloop.entities ▸ he)
  obtain ⟨q, hq, -, hget⟩ := hloop.idMap p hp
  rw [mapId, Dict.getD, hget, Option.getD_some, inWorkspace, upserted_get?]
  cases hm : (reconciled rt g graph).merged.get? q.target with
  | none => exact absurd rfl ((hloop.rows _).2 hm q hq)
  | some m =>
    obtain ⟨o, ho, hws, -⟩ := ((hloop.rows _).1 m hm).last
    have hoe : o.entity ∈ graph.entities := by
      rw [← hloop.entities]
      exact List.mem_map_of_mem (lastPick_mem ho).1
    exact decide_eq_true (hws.trans (h.entities _ hoe))

/-- The relations of a kind are collected under their ids. -/
theorem get?_groupByKind (relations : List (GraphRelation Id)) (idMap : Dict Id Id)
    (kind : RelationKind) : (groupByKind rt relations idMap).get? kind =
      if (relations.filter fun r => decide (r.kind = kind)) = [] then none
      else some (Dict.collect GraphRelation.id
        ((relations.filter fun r => decide (r.kind = kind)).map (remap rt idMap))) := by
  induction relations using List.reverseRecOn with
  | nil => rfl
  | append_singleton relations r ih =>
    have hstep : groupByKind rt (relations ++ [r]) idMap = (groupByKind rt relations idMap).set r.kind
        (((groupByKind rt relations idMap).getD r.kind Dict.empty).set (remap rt idMap r).id
          (remap rt idMap r)) := by
      rw [groupByKind, List.foldl_append]
      rfl
    rw [hstep, Dict.get?_set, List.filter_append]
    by_cases hk : kind = r.kind
    · subst hk
      have hcollect : (groupByKind rt relations idMap).getD r.kind Dict.empty =
          Dict.collect GraphRelation.id
            ((relations.filter fun o => decide (o.kind = r.kind)).map (remap rt idMap)) := by
        rw [Dict.getD, ih]
        split
        · next hnil => rw [hnil, Option.getD_none]; rfl
        · rw [Option.getD_some]
      have hr : ([r].filter fun o => decide (o.kind = r.kind)) = [r] := by simp
      rw [if_pos rfl, hr, if_neg (by simp), hcollect, List.map_append, List.map_singleton,
        Dict.collect_append_singleton]
    · have hr : ([r].filter fun o => decide (o.kind = kind)) = [] := by simp [Ne.symm hk]
      rw [if_neg hk, hr, List.append_nil, ih]

/-- What can be written to a graph can be written to one with the same nodes. -/
theorem Writable.congr {g g' : Stored Id} {w : Id} {kind : RelationKind}
    {relations : List (GraphRelation Id)} (h : Writable g w kind relations)
    (hnodes : g'.nodes = g.nodes) (hg' : Tidy g') : Writable g' w kind relations where
  own := h.own
  ends r hr := by
    have := h.ends r hr
    simpa only [inWorkspace, hnodes] using this
  incoming := h.incoming
  stored := hg'.wellFormed

/-- The writes of the kinds, one after the other. -/
theorem storedPeriods_foldl (rt : Runtime Id)
    {groups : List (RelationKind × Dict Id (GraphRelation Id))} {g : Stored Id} {w : Id} (hg : Tidy g)
    (hnd : (groups.map Prod.fst).Nodup)
    (h : ∀ group ∈ groups, Writable g w group.1 group.2.values) :
    Tidy (groups.foldl (fun g group => writeRelations rt g group.1 group.2.values) g) ∧
    ∀ t, (storedPeriods (groups.foldl
      (fun g group => writeRelations rt g group.1 group.2.values) g) t).Perm
        (normalize (storedPeriods g t ++ ((((Dict.read groups t.2.2).map Dict.values).getD []).filter
          fun r => decide (triple r = t)).map period)) := by
  induction groups generalizing g with
  | nil =>
    refine ⟨hg, fun t => ?_⟩
    simpa [Dict.read] using hg.normal t
  | cons group groups ih =>
    rw [List.map_cons, List.nodup_cons] at hnd
    have hw := h group (List.mem_cons_self ..)
    have hg' := hg.writeRelations rt hw
    have hp := storedPeriods_writeRelations rt hg hw
    obtain ⟨htidy, hrest⟩ := ih hg' hnd.2 fun o ho =>
      (h o (List.mem_cons_of_mem _ ho)).congr (writeRelations_nodes rt g _ _) hg'
    refine ⟨htidy, fun t => ?_⟩
    rw [List.foldl_cons]
    refine (hrest t).trans ?_
    rw [Dict.read]
    by_cases hk : group.1 = t.2.2
    · rw [if_pos hk, Dict.read_eq_none (hk ▸ hnd.1)]
      simp only [Option.map_none, Option.getD_none, List.filter_nil, List.map_nil, List.append_nil,
        Option.map_some, Option.getD_some]
      exact (hg'.normal t).symm.trans (hp t)
    · rw [if_neg hk]
      have hnone : group.2.values.filter (fun r => decide (triple r = t)) = [] := by
        refine List.filter_eq_nil_iff.mpr fun r hr hrt => hk ?_
        obtain rfl := of_decide_eq_true hrt
        exact (hw.own r hr).2.symm
      have hsame := hp t
      rw [hnone, List.map_nil, List.append_nil] at hsame
      have hnew : ∀ i ∈ ((((Dict.read groups t.2.2).map Dict.values).getD []).filter
          fun r => decide (triple r = t)).map period, i.WellFormed := by
        intro i hi
        obtain ⟨r, hr, rfl⟩ := List.mem_map.mp hi
        have hr' := (List.mem_filter.mp hr).1
        cases hd : Dict.read groups t.2.2 with
        | none => simp [hd] at hr'
        | some d =>
          rw [hd] at hr'
          have hmem := (Dict.get?_eq_some_iff (d := ⟨groups, hnd.2⟩)).mp hd
          exact (h _ (List.mem_cons_of_mem _ hmem)).incoming r hr'
      rw [normalize_perm (List.forall_mem_append.mpr ⟨hg'.periods_wellFormed t, hnew⟩)
        ((hsame.trans (hg.normal t).symm).append_right _)]

/-- The relations of a kind that are written: the last under each id. -/
theorem writable_of_mem_groups {w : Id} {graph : ResolvedGraph Id} (h : Closed w graph)
    {g linked : Stored Id} (hlinked : Tidy linked)
    (hends : ∀ id ∈ graph.entities.map GraphEntity.id,
      inWorkspace linked w (mapId (reconciled rt g graph).idMap id) = true)
    {group : RelationKind × Dict Id (GraphRelation Id)}
    (hgroup : group ∈ (groupByKind rt graph.relations (reconciled rt g graph).idMap).entries) :
    Writable linked w group.1 group.2.values := by
  have hget := Dict.get?_eq_some_iff.mpr hgroup
  rw [get?_groupByKind] at hget
  split at hget
  · cases hget
  · have hmem : ∀ r ∈ group.2.values, ∃ o ∈ graph.relations, o.kind = group.1 ∧
        r = remap rt (reconciled rt g graph).idMap o := by
      intro r hr
      rw [← Option.some.inj hget] at hr
      obtain ⟨o, ho, rfl⟩ := List.mem_map.mp
        (mem_of_mem_lasts ((Dict.values_collect _ _).mem_iff.mp hr))
      obtain ⟨ho, hk⟩ := List.mem_filter.mp ho
      exact ⟨o, ho, of_decide_eq_true hk, rfl⟩
    refine ⟨fun r hr => ?_, fun r hr => ?_, fun r hr => ?_, hlinked.wellFormed⟩
    · obtain ⟨o, ho, hk, rfl⟩ := hmem r hr
      exact ⟨h.relations o ho, hk⟩
    · obtain ⟨o, ho, -, rfl⟩ := hmem r hr
      exact ⟨hends _ (h.ends o ho).1, hends _ (h.ends o ho).2⟩
    · obtain ⟨o, ho, -, rfl⟩ := hmem r hr
      exact h.periods o ho

/-- Of the relations of a triple, the last with each start is written. -/
theorem periods_groupByKind (rt : Runtime Id) {w : Id} {graph : ResolvedGraph Id}
    (h : Closed w graph) (g : Stored Id) (t : Triple Id) :
    ((((((groupByKind rt graph.relations (reconciled rt g graph).idMap).get? t.2.2).map
      Dict.values).getD []).filter fun r => decide (triple r = t)).map period).Perm
        (lasts Interval.validFrom (incoming rt g graph t)) := by
  have hid : ∀ r ∈ remapped rt g graph, r.id = relationId rt w (triple r).1 (triple r).2.1
      (triple r).2.2 (period r).validFrom := by
    intro r hr
    obtain ⟨o, ho, rfl⟩ := List.mem_map.mp hr
    have hw := h.relations o ho
    subst hw
    rfl
  have hkey : ∀ r ∈ remapped rt g graph, ∀ r' ∈ remapped rt g graph, r.id = r'.id ↔
      triple r = triple r' ∧ (period r).validFrom = (period r').validFrom := by
    intro r hr r' hr'
    rw [hid r hr, hid r' hr']
    constructor
    · intro heq
      obtain ⟨_, hs, ht, hk, hv⟩ := relationId_inj heq
      exact ⟨Prod.ext hs (Prod.ext ht hk), hv⟩
    · rintro ⟨ht, hv⟩
      rw [ht, hv]
  have hfilter : (graph.relations.filter fun r => decide (r.kind = t.2.2)).map
      (remap rt (reconciled rt g graph).idMap) =
        (remapped rt g graph).filter fun r => decide (r.kind = t.2.2) := by
    rw [remapped, List.filter_map]
    rfl
  have hvalues : (((groupByKind rt graph.relations (reconciled rt g graph).idMap).get? t.2.2).map
      Dict.values).getD [] |>.Perm (lasts GraphRelation.id
        ((remapped rt g graph).filter fun r => decide (r.kind = t.2.2))) := by
    rw [get?_groupByKind, ← hfilter]
    split
    · next hnil => simp [hnil, lasts]
    · exact Dict.values_collect _ _
  have hsub : ∀ {p : GraphRelation Id → Bool} {r : GraphRelation Id},
      r ∈ (remapped rt g graph).filter p → r ∈ remapped rt g graph :=
    fun hr => (List.mem_filter.mp hr).1
  refine ((hvalues.filter _).map period).trans (List.Perm.of_eq ?_)
  rw [filter_lasts fun x hx y hy hxy => by
    rw [((hkey x (hsub hx) y (hsub hy)).mp hxy).1], List.filter_filter, incoming]
  have hboth : ((remapped rt g graph).filter fun r => decide (triple r = t) &&
      decide (r.kind = t.2.2)) = (remapped rt g graph).filter fun r => decide (triple r = t) := by
    refine List.filter_congr fun r _ => ?_
    rw [Bool.and_eq_left_iff_imp, decide_eq_true_eq, decide_eq_true_eq]
    rintro rfl
    rfl
  rw [hboth]
  refine map_lasts fun x hx y hy => ?_
  rw [hkey x (hsub hx) y (hsub hy), and_iff_right]
  rw [of_decide_eq_true (List.mem_filter.mp hx).2, of_decide_eq_true (List.mem_filter.mp hy).2]

/-- A write, query by query. -/
theorem write_fst (rt : Runtime Id) (g : Stored Id) {graph : ResolvedGraph Id}
    (hempty : graph.entities = [] → graph.relations = []) : (write rt g graph).1 =
      (groupByKind rt graph.relations (reconciled rt g graph).idMap).entries.foldl
        (fun g group => writeRelations rt g group.1 group.2.values)
        (supersede (upserted rt g graph) (linkRows rt g graph)) := by
  unfold write linkRows upserted entityRows reconciled graphWorkspace
  cases h : graph.entities with
  | nil =>
    rw [hempty h]
    rfl
  | cons first rest => rfl

/-- A write keeps the graph tidy and merges the last incoming period of each start. -/
theorem storedPeriods_write (rt : Runtime Id) {w : Id} {graph : ResolvedGraph Id} {g : Stored Id}
    (hg : Tidy g) (h : Closed w graph) : Tidy (write rt g graph).1 ∧
      ∀ t, (storedPeriods (write rt g graph).1 t).Perm (normalize
        (storedPeriods g t ++ lasts Interval.validFrom (incoming rt g graph t))) := by
  have hperiods := periods_groupByKind rt h g
  have hempty : graph.entities = [] → graph.relations = [] := by
    intro hnil
    refine List.eq_nil_iff_forall_not_mem.mpr fun r hr => ?_
    have := (h.ends r hr).1
    rw [hnil] at this
    exact List.not_mem_nil this
  obtain ⟨linked, hlinked⟩ : ∃ linked, linked =
      supersede (upserted rt g graph) (linkRows rt g graph) := ⟨_, rfl⟩
  have hedges : linked.edges = g.edges := by rw [hlinked]; rfl
  have htidy : Tidy linked := hg.congr hedges
  have hends : ∀ id ∈ graph.entities.map GraphEntity.id,
      inWorkspace linked w (mapId (reconciled rt g graph).idMap id) = true := by
    intro id hid
    have hin := h.inWorkspace_mapId rt g hid
    rw [inWorkspace] at hin ⊢
    rw [hlinked, supersede_get?]
    cases hn : (upserted rt g graph).nodes.get? (mapId (reconciled rt g graph).idMap id) with
    | none => simp [hn] at hin
    | some n => simpa [hn] using hin
  obtain ⟨hfinal, hfold⟩ := storedPeriods_foldl rt htidy
    (groupByKind rt graph.relations (reconciled rt g graph).idMap).nodup
    fun group hgroup => writable_of_mem_groups h htidy hends hgroup
  rw [write_fst rt g hempty, ← hlinked]
  refine ⟨hfinal, fun t => (hfold t).trans ?_⟩
  have hstored : storedPeriods linked t = storedPeriods g t := by
    rw [storedPeriods, storedPeriods, hedges]
  rw [hstored]
  have hnew : ∀ i ∈ lasts Interval.validFrom (incoming rt g graph t), i.WellFormed := by
    intro i hi
    obtain ⟨r, hr, rfl⟩ := List.mem_map.mp (mem_of_mem_lasts hi)
    obtain ⟨o, ho, rfl⟩ := List.mem_map.mp (List.mem_filter.mp hr).1
    exact h.periods o ho
  exact List.Perm.of_eq (normalize_perm (List.forall_mem_append.mpr ⟨hg.periods_wellFormed t,
    fun i hi => hnew i ((hperiods t).mem_iff.mp hi)⟩) ((hperiods t).append_left _))

end Maeglagi.Graph
