import Mathlib.Logic.Relation
import Maeglagi.Graph.Picks
import Maeglagi.Resolution.Resolve

/-!
# What writes do
-/

namespace Maeglagi.Graph

open Core Resolution

/-!
## What a write does to the nodes

Only the entity upsert and the supersession query touch nodes. A node that some entity
goes to gets that row; the successor is the row's, else the stored one, unless the
supersession query sets it afterwards.
-/

section

variable {Id : Type} [DecidableEq Id] {rt : Runtime Id}

theorem get?_foldl_upsert {rows : List (EntityRow Id)} (hnd : (rows.map Prod.fst).Nodup)
    (nodes : Dict Id (Node Id)) (id : Id) :
    (rows.foldl (fun nodes row => nodes.set row.1 (upsertNode (nodes.get? row.1) row.2)) nodes).get? id =
      match Dict.read rows id with
      | some row => some (upsertNode (nodes.get? id) row)
      | none => nodes.get? id := by
  induction rows generalizing nodes with
  | nil => rfl
  | cons row rows ih =>
    rw [List.map_cons, List.nodup_cons] at hnd
    rw [List.foldl_cons, ih hnd.2, Dict.read]
    by_cases hid : row.1 = id
    · rw [if_pos hid, Dict.read_eq_none (hid ▸ hnd.1), hid, Dict.get?_set_self]
    · rw [if_neg hid, Dict.get?_set_ne _ _ (Ne.symm hid)]

/-- The node under an id after the entity upsert. -/
theorem upsertEntities_get? (g : Stored Id) {rows : List (EntityRow Id)}
    (hnd : (rows.map Prod.fst).Nodup) (id : Id) :
    (upsertEntities g rows).nodes.get? id =
      match Dict.read rows id with
      | some row => some (upsertNode (g.nodes.get? id) row)
      | none => g.nodes.get? id :=
  get?_foldl_upsert hnd g.nodes id

/-- The successor that the matched links leave a node with: the last one's, if any. -/
def linkedSuccessor (links : List (Id × Id)) (id : Id) (old : Option Id) : Option Id :=
  ((links.filter fun l => decide (l.2 = id)).getLast?.map Prod.fst).or old

theorem linkedSuccessor_cons (link : Id × Id) (links : List (Id × Id)) (id : Id)
    (old : Option Id) : linkedSuccessor (link :: links) id old =
      linkedSuccessor links id (if link.2 = id then some link.1 else old) := by
  unfold linkedSuccessor
  by_cases h : link.2 = id
  · simp only [List.filter_cons, h, decide_true, if_true, List.getLast?_cons, Option.map_some,
      Option.some_or]
    cases (links.filter fun l => decide (l.2 = id)).getLast? <;> simp
  · simp [h]

theorem get?_foldl_setSupersededBy (links : List (Id × Id)) (nodes : Dict Id (Node Id)) (id : Id) :
    (links.foldl setSupersededBy nodes).get? id =
      (nodes.get? id).map fun n =>
        { n with supersededBy := linkedSuccessor links id n.supersededBy } := by
  induction links generalizing nodes with
  | nil =>
    cases h : nodes.get? id <;> simp [h, linkedSuccessor]
  | cons link links ih =>
    rw [List.foldl_cons, ih]
    unfold setSupersededBy
    cases hl : nodes.get? link.2 with
    | none =>
      by_cases hid : link.2 = id
      · rw [← hid, hl]
        rfl
      · simp only [linkedSuccessor_cons, if_neg hid]
    | some node =>
      dsimp only
      by_cases hid : link.2 = id
      · subst hid
        rw [Dict.get?_set_self, hl, Option.map_some, Option.map_some, linkedSuccessor_cons,
          if_pos rfl]
      · rw [Dict.get?_set_ne _ _ (Ne.symm hid)]
        simp only [linkedSuccessor_cons, if_neg hid]

/-- The node under an id after the supersession query. -/
theorem supersede_get? (g : Stored Id) (rows : List (SupersedeRow Id)) (id : Id) :
    (supersede g rows).nodes.get? id = (g.nodes.get? id).map fun n =>
      { n with supersededBy := linkedSuccessor (matchSuperseded g rows) id n.supersededBy } :=
  get?_foldl_setSupersededBy _ g.nodes id

@[simp] theorem writeRelations_nodes (rt : Runtime Id) (g : Stored Id) (kind : RelationKind)
    (relations : List (GraphRelation Id)) : (writeRelations rt g kind relations).nodes = g.nodes := by
  unfold writeRelations
  split <;> rfl

theorem foldl_writeRelations_nodes (rt : Runtime Id) (g : Stored Id)
    (groups : List (RelationKind × Dict Id (GraphRelation Id))) :
    (groups.foldl (fun g kind => writeRelations rt g kind.1 kind.2.values) g).nodes = g.nodes := by
  induction groups generalizing g with
  | nil => rfl
  | cons kind groups ih => rw [List.foldl_cons, ih, writeRelations_nodes]

/-- The workspace a graph is written to: that of its first entity. -/
def graphWorkspace (graph : ResolvedGraph Id) : Option Id :=
  graph.entities.head?.map GraphEntity.workspaceId

/-- The reconciled entities of a graph; nothing for a graph without entities. -/
def reconciled (rt : Runtime Id) (g : Stored Id) (graph : ResolvedGraph Id) : Reconciled Id :=
  match graphWorkspace graph with
  | none => ⟨Dict.empty, Dict.empty, [], []⟩
  | some workspaceId => reconcile rt g workspaceId graph.entities

/-- What the writer decided about the entities of a graph, in their order. -/
def picks (rt : Runtime Id) (g : Stored Id) (graph : ResolvedGraph Id) : List (Pick Id) :=
  (reconciled rt g graph).picks

/-- The rows of the entity upsert. -/
def entityRows (rt : Runtime Id) (g : Stored Id) (graph : ResolvedGraph Id) :
    List (EntityRow Id) :=
  (reconciled rt g graph).merged.values.map (entityRow (reconciled rt g graph).idMap)

/-- The graph after the entity upsert. -/
def upserted (rt : Runtime Id) (g : Stored Id) (graph : ResolvedGraph Id) : Stored Id :=
  upsertEntities g (entityRows rt g graph)

/-- The records of `_FIND_EXISTING` for a graph. -/
def recordsOf (g : Stored Id) (graph : ResolvedGraph Id) : List (Found Id) :=
  match graphWorkspace graph with
  | none => []
  | some workspaceId => findExisting g workspaceId graph.entities

/-- The reconcile loop has run over the graph's entities. -/
theorem reconciled_loop (rt : Runtime Id) (g : Stored Id) (graph : ResolvedGraph Id) :
    Loop rt (recordsOf g graph) graph.entities (reconciled rt g graph) := by
  unfold reconciled recordsOf graphWorkspace
  cases h : graph.entities with
  | nil => exact Loop.start rt []
  | cons first rest => exact reconcile_loop rt g first.workspaceId (first :: rest)

/-- A found record is a node of the graph's workspace and of the entity's kind that shares a
key or an identifier with it. -/
theorem mem_recordsOf {g : Stored Id} {graph : ResolvedGraph Id} {r : Found Id}
    (h : r ∈ recordsOf g graph) : g.nodes.get? r.id = some r.node ∧
      graphWorkspace graph = some r.node.workspaceId ∧
      ∃ e ∈ graph.entities, e.id = r.rowId ∧ r.node.kind = e.kind ∧
        (meets e.keys r.node.keys = true ∨ meets e.identifiers r.node.identifiers = true) := by
  unfold recordsOf at h
  split at h
  · exact absurd h List.not_mem_nil
  · next w hw =>
    obtain ⟨e, he, hr⟩ := List.mem_flatMap.mp h
    obtain ⟨n, hn, rfl⟩ := List.mem_map.mp hr
    obtain ⟨hmem, hmatch⟩ := List.mem_filter.mp hn
    simp only [Bool.and_eq_true, Bool.or_eq_true, decide_eq_true_eq] at hmatch
    obtain ⟨⟨hws, hkind⟩, hmeet⟩ := hmatch
    exact ⟨Dict.get?_eq_some_iff.mpr hmem, hws ▸ hw, e, he, rfl, hkind, hmeet⟩

/-- The rows have the ids that the picks go to. -/
theorem map_fst_entityRows (rt : Runtime Id) (g : Stored Id) (graph : ResolvedGraph Id) :
    (entityRows rt g graph).map Prod.fst = (reconciled rt g graph).merged.keys := by
  have hloop := reconciled_loop rt g graph
  rw [entityRows, List.map_map, Dict.values, List.map_map, Dict.keys]
  refine List.map_congr_left fun e he => ?_
  exact ((hloop.rows e.1).1 e.2 (Dict.get?_eq_some_iff.mpr he)).node

/-- The row under an id is the merged entity the loop left there. -/
theorem read_entityRows (rt : Runtime Id) (g : Stored Id) (graph : ResolvedGraph Id) (id : Id) :
    Dict.read (entityRows rt g graph) id = ((reconciled rt g graph).merged.get? id).map fun m =>
      (entityRow (reconciled rt g graph).idMap m).2 := by
  have hloop := reconciled_loop rt g graph
  have hid : ∀ e ∈ (reconciled rt g graph).merged.entries, e.2.1.id = e.1 := fun e he =>
    ((hloop.rows e.1).1 e.2 (Dict.get?_eq_some_iff.mpr he)).node
  unfold entityRows Dict.get? Dict.values
  generalize (reconciled rt g graph).merged.entries = entries at hid
  induction entries with
  | nil => rfl
  | cons e entries ih =>
    have he := hid e (List.mem_cons_self ..)
    simp only [List.map_cons, Dict.read, entityRow, he]
    split
    · rfl
    · exact ih fun e' he' => hid e' (List.mem_cons_of_mem _ he')

/-- The node under an id after the entity upsert of a write. -/
theorem upserted_get? (rt : Runtime Id) (g : Stored Id) (graph : ResolvedGraph Id) (id : Id) :
    (upserted rt g graph).nodes.get? id =
      match (reconciled rt g graph).merged.get? id with
      | some m => some (upsertNode (g.nodes.get? id) (entityRow (reconciled rt g graph).idMap m).2)
      | none => g.nodes.get? id := by
  have hnd : ((entityRows rt g graph).map Prod.fst).Nodup := by
    rw [map_fst_entityRows]
    exact (reconciled rt g graph).merged.nodup
  rw [upserted, upsertEntities_get? g hnd, read_entityRows]
  cases (reconciled rt g graph).merged.get? id <;> rfl

/-- The rows of the supersession query of a write. -/
def linkRows (rt : Runtime Id) (g : Stored Id) (graph : ResolvedGraph Id) :
    List (SupersedeRow Id) :=
  match graphWorkspace graph with
  | none => []
  | some w => supersedeRows (((reconciled rt g graph).merged.values.head?.map
      fun m => m.1.workspaceId).getD w) (reconciled rt g graph).idMap graph.supersessions

/-- The nodes after a write: upserted, then linked to their successors. -/
theorem write_get? (rt : Runtime Id) (g : Stored Id) (graph : ResolvedGraph Id) (id : Id) :
    (write rt g graph).1.nodes.get? id =
      ((upserted rt g graph).nodes.get? id).map fun n => { n with
        supersededBy := linkedSuccessor
          (matchSuperseded (upserted rt g graph) (linkRows rt g graph)) id n.supersededBy } := by
  unfold write linkRows upserted entityRows reconciled graphWorkspace
  cases h : graph.entities with
  | nil =>
    simp only [List.head?_nil, Option.map_none]
    cases hn : g.nodes.get? id <;>
      simp [Dict.values, Dict.empty, upsertEntities, hn, linkedSuccessor, matchSuperseded]
  | cons first rest =>
    simp only [List.head?_cons, Option.map_some, foldl_writeRelations_nodes]
    rw [supersede_get?]

end

/-!
## Why an entity goes where it goes

A turn of the reconcile loop writes an entity to the nodes it was found to be, or to its own
id: for want of such a node, or because earlier entities took the node and disagree.
-/

section

variable {Id : Type} [DecidableEq Id] {rt : Runtime Id}

/-- The reason for a pick, given the picks before it. -/
inductive Verdict (rt : Runtime Id) (records : List (Found Id)) (before : List (Pick Id))
    (p : Pick Id) : Prop
  | found (hchosen : p.chosen = choose p.entity.identifiers (foundFor records p.entity.id))
      (hleast : leastId rt (p.chosen.map Found.id) = some p.target)
  | unmatched (hnone : choose p.entity.identifiers (foundFor records p.entity.id) = [])
      (hchosen : p.chosen = []) (htarget : p.target = p.entity.id)
  | ousted (u : Id) (taken : List Text)
      (hleast : leastId rt ((choose p.entity.identifiers
        (foundFor records p.entity.id)).map Found.id) = some u)
      (hother : u ≠ p.entity.id) (hchosen : p.chosen = []) (htarget : p.target = p.entity.id)
      (htaken : ∀ x, x ∈ taken ↔ ∃ q ∈ before, q.target = u ∧
        q.Gives GraphEntity.identifiers Node.identifiers x)
      (hdisagrees : disagrees p.entity.identifiers taken = true)

/-- The verdict on the next entity. -/
theorem verdict_pick {records : List (Found Id)} {done : List (GraphEntity Id)}
    {state : Reconciled Id} (h : Loop rt records done state) (entity : GraphEntity Id) :
    Verdict rt records state.picks
      (pick rt state.merged (foundFor records entity.id) entity) := by
  generalize hchoose : choose entity.identifiers (foundFor records entity.id) = chosen
  cases hleast : leastId rt (chosen.map Found.id) with
  | none =>
    have hnil : chosen = [] := List.map_eq_nil_iff.mp (leastId_eq_none.mp hleast)
    have hpick : pick rt state.merged (foundFor records entity.id) entity =
        ⟨entity, entity.id, []⟩ := by
      unfold pick
      dsimp only
      rw [hchoose, hleast, hnil, Option.getD_none]
      split
      · rw [if_neg fun hc => hc.1 rfl]
      · rfl
    rw [hpick]
    exact .unmatched (hchoose.trans hnil) rfl rfl
  | some u =>
    cases hclaimed : state.merged.get? u with
    | none =>
      have hpick : pick rt state.merged (foundFor records entity.id) entity =
          ⟨entity, u, chosen⟩ := by
        unfold pick
        simp only [hchoose, hleast, Option.getD_some, hclaimed]
      rw [hpick]
      exact .found hchoose.symm hleast
    | some claimed =>
      by_cases hc : u ≠ entity.id ∧
          disagrees entity.identifiers claimed.1.identifiers = true
      · have hpick : pick rt state.merged (foundFor records entity.id) entity =
            ⟨entity, entity.id, []⟩ := by
          unfold pick
          simp only [hchoose, hleast, Option.getD_some, hclaimed]
          rw [if_pos hc]
        rw [hpick]
        exact .ousted u claimed.1.identifiers (by rw [hchoose]; exact hleast) hc.1 rfl rfl
          ((h.rows u).1 claimed hclaimed).identifiers hc.2
      · have hpick : pick rt state.merged (foundFor records entity.id) entity =
            ⟨entity, u, chosen⟩ := by
          unfold pick
          simp only [hchoose, hleast, Option.getD_some, hclaimed]
          rw [if_neg hc]
        rw [hpick]
        exact .found hchoose.symm hleast

/-- Every pick of the loop has a verdict on the picks before it. -/
theorem reconcile_verdicts (rt : Runtime Id) (g : Stored Id) (workspaceId : Id)
    (entities : List (GraphEntity Id)) :
    ∀ before p after, (reconcile rt g workspaceId entities).picks = before ++ p :: after →
      Verdict rt (findExisting g workspaceId entities) before p := by
  refine reconcile_induct rt g workspaceId entities (P := fun picks => ∀ before p after,
    picks = before ++ p :: after → Verdict rt (findExisting g workspaceId entities) before p)
    (fun before p after h => by simp at h) ?_
  intro done state entity _ hloop _ hverdicts before p after hpicks
  rcases List.eq_nil_or_concat after with rfl | ⟨after', q, rfl⟩
  · obtain ⟨rfl, hlast⟩ := List.append_inj' hpicks rfl
    rw [List.cons.injEq] at hlast
    rw [← hlast.1]
    exact verdict_pick hloop entity
  · rw [List.concat_eq_append, ← List.cons_append, ← List.append_assoc] at hpicks
    exact hverdicts before p after' (List.append_inj' hpicks rfl).1

/-- Every pick of a write has a verdict on the picks before it. -/
theorem picks_verdict {g : Stored Id} {graph : ResolvedGraph Id} {before after : List (Pick Id)}
    {p : Pick Id} (h : picks rt g graph = before ++ p :: after) :
    Verdict rt (recordsOf g graph) before p := by
  unfold picks reconciled at h
  unfold recordsOf
  cases hw : graphWorkspace graph with
  | none =>
    rw [hw] at h
    simp at h
  | some w =>
    rw [hw] at h
    exact reconcile_verdicts rt g w graph.entities before p after h

end

/-!
## Runs of the writer

A run is a sequence of writes. A relation between stored graphs that every write of the
run establishes, and that composes, holds between the two ends of the run; a property of
stored graphs that every write keeps holds at its end.
-/

section

variable {Id : Type} [DecidableEq Id]

/-- The graph is what the resolver returns for some source of the workspace. -/
def Extracted (rt : Runtime Id) (workspaceId : Id) (graph : ResolvedGraph Id) : Prop :=
  ∃ result info, info.workspaceId = workspaceId ∧ resolveExtraction rt result info = .ok graph

/-- The second stored graph is reached from the first by writing graphs that satisfy the
condition at the time they are written. -/
abbrev Runs (rt : Runtime Id) (ok : Stored Id → ResolvedGraph Id → Prop) :
    Stored Id → Stored Id → Prop :=
  Relation.ReflTransGen fun g g' => ∃ graph, ok g graph ∧ g' = (write rt g graph).1

/-- A reflexive and transitive relation that every write of a run establishes. -/
theorem Runs.lift {rt : Runtime Id} {ok : Stored Id → ResolvedGraph Id → Prop}
    {R : Stored Id → Stored Id → Prop} (hrefl : ∀ g, R g g)
    (htrans : ∀ {g g' g''}, R g g' → R g' g'' → R g g'')
    (hwrite : ∀ g graph, ok g graph → R g (write rt g graph).1) {g g' : Stored Id}
    (h : Runs rt ok g g') : R g g' := by
  induction h with
  | refl => exact hrefl g
  | tail _ hlast ih =>
    obtain ⟨graph, hok, rfl⟩ := hlast
    exact htrans ih (hwrite _ graph hok)

/-- A property of stored graphs that every write of a run keeps. -/
theorem Runs.invariant {rt : Runtime Id} {ok : Stored Id → ResolvedGraph Id → Prop}
    {P : Stored Id → Prop} (hwrite : ∀ g graph, P g → ok g graph → P (write rt g graph).1)
    {g g' : Stored Id} (h : Runs rt ok g g') (hg : P g) : P g' := by
  induction h with
  | refl => exact hg
  | tail _ hlast ih =>
    obtain ⟨graph, hok, rfl⟩ := hlast
    exact hwrite _ graph ih hok

end

end Maeglagi.Graph
