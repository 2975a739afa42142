import Mathlib.Algebra.BigOperators.Group.List.Lemmas
import Mathlib.Algebra.GroupWithZero.Nat
import Maeglagi.KnowledgeGraph.EdgeIds

/-!
# What makes the response a graph

Every edge that is shown joins shown nodes. The ids of nodes and edges are distinct exactly when
no stored node has the id of a material, the drawn relations have ids of their own, and no two
links that the response adds come from the same nodes.
-/

namespace Maeglagi.KnowledgeGraph

open Core Graph Resolution

variable {Id H : Type} [DecidableEq Id]

/-- A response that a client can draw. -/
structure IsGraph (g : KnowledgeGraphResponse Id) : Prop where
  nodes : (g.nodes.map (·.id)).Nodup
  ends : ∀ edge ∈ g.edges, edge.source ∈ g.nodes.map (·.id) ∧ edge.target ∈ g.nodes.map (·.id)
  edges : (g.edges.map (·.id)).Nodup
  degrees : (g.nodes.map (·.degree)).sum = 2 * g.edges.length

theorem sum_indicator (keys : List Id) (a : Id) :
    (keys.map fun key => if a = key then 1 else 0).sum = keys.count a := by
  induction keys with
  | nil => rfl
  | cons key keys ih =>
    rw [List.map_cons, List.sum_cons, ih, List.count_cons, Nat.add_comm]
    simp only [beq_iff_eq, eq_comm (a := a)]

/-- Over distinct keys that include those of a list, the counts add up to its length. -/
theorem sum_count_eq_length {keys l : List Id} (hkeys : keys.Nodup) (hl : ∀ a ∈ l, a ∈ keys) :
    (keys.map l.count).sum = l.length := by
  induction l with
  | nil => simp
  | cons a l ih =>
    rw [List.forall_mem_cons] at hl
    have hsplit : (a :: l).count = fun key => l.count key + if a = key then 1 else 0 := by
      funext key
      rw [List.count_cons]
      simp only [beq_iff_eq]
    rw [hsplit, List.sum_map_add, ih hl.2, sum_indicator, List.count_eq_one_of_mem hkeys hl.1,
      List.length_cons]

/-- The degrees add up to twice the number of edges. -/
theorem sum_degree {keys : List Id} {edges : List (GraphEdge Id)} (hkeys : keys.Nodup)
    (hends : ∀ edge ∈ edges, edge.source ∈ keys ∧ edge.target ∈ keys) :
    (keys.map (GraphInput.degree edges)).sum = 2 * edges.length := by
  have hsource : ∀ id ∈ edges.map (·.source), id ∈ keys := by
    intro id hid
    obtain ⟨edge, hedge, rfl⟩ := List.mem_map.mp hid
    exact (hends edge hedge).1
  have htarget : ∀ id ∈ edges.map (·.target), id ∈ keys := by
    intro id hid
    obtain ⟨edge, hedge, rfl⟩ := List.mem_map.mp hid
    exact (hends edge hedge).2
  show (keys.map fun id => (edges.map (·.source)).count id + (edges.map (·.target)).count id).sum = _
  rw [List.sum_map_add, sum_count_eq_length hkeys hsource, sum_count_eq_length hkeys htarget,
    List.length_map, List.length_map, Nat.two_mul]

/-- What the id of the edge of a relation is made of: its own, or its ends as they are drawn. -/
def EdgeRow.edgeId (row : EdgeRow Id) : EdgeId Id :=
  match row.id with
  | some id => .uuid id
  | none =>
    if row.kind = .blockedBy then .unnamed row.target row.kind row.source
    else .unnamed row.source row.kind row.target

namespace GraphInput

variable (rt : Runtime Id) (parseId : Text → Option Id) (input : GraphInput Id H)

/-- The relations that are drawn. -/
def drawn : List (EdgeRow Id) :=
  input.edgeRows.filter fun row => input.stored row.source && input.stored row.target

/-- The people and projects that rows of the directory join, as their nodes. -/
def memberNodes : List (Id × Id) :=
  input.directory.members.filterMap fun item => do
    let person ← input.personNode rt parseId item.personId
    let project ← input.projectNode rt parseId item.projectId
    return (person, project)

/-- The nodes of a material's projects. -/
def materialProjects (source : Source Id H) : List Id :=
  (projectsOf source).filterMap (input.projectNode rt parseId)

/-- The nodes of a material's people, with their roles. -/
def materialPeople (source : Source Id H) : List (Id × PersonRole) :=
  source.people.filterMap fun item => do
    let person ← input.personNode rt parseId item.1
    return (person, item.2)

/-- The ids of the edges between people and their projects. -/
def memberIds : List Id :=
  (input.memberNodes rt parseId).map fun pair =>
    input.explicitId rt pair.1 .worksOn pair.2 "member".toList

/-- The ids of the edges of a material. -/
def materialIds (source : Source Id H) : List Id :=
  (input.evidenceOf rt source).map (fun extracted => input.evidenceId rt extracted source) ++
  (input.materialProjects rt parseId source).map (fun project =>
    input.explicitId rt (input.materialId rt source) .relatedTo project "project".toList) ++
  (input.materialPeople rt parseId source).map fun item =>
    input.explicitId rt item.1 (roleKind item.2) (input.materialId rt source) (roleText item.2)

/-- The ids of the edges that the response adds to the stored relations. -/
def addedIds : List Id :=
  input.memberIds rt parseId ++ input.visible.flatMap (input.materialIds rt parseId)

/-- What makes the ids of nodes and edges distinct. -/
structure Unrepeated : Prop where
  materials : ∀ source ∈ input.visible, ∀ row ∈ input.rows, row.id ≠ input.materialId rt source
  relations : (input.drawn.map EdgeRow.edgeId).Nodup
  added : ∀ row ∈ input.drawn, ∀ id, row.id = some id → id ∉ input.addedIds rt parseId
  members : (input.memberNodes rt parseId).Nodup
  evidence : ∀ source ∈ input.visible, (input.evidenceOf rt source).Nodup
  projects : ∀ source ∈ input.visible, (input.materialProjects rt parseId source).Nodup
  people : ∀ source ∈ input.visible, (input.materialPeople rt parseId source).Nodup

/-- The rows are those of different nodes, and the sources are under their printed ids. -/
structure Keyed : Prop where
  rows : (input.rows.map (·.id)).Nodup
  sources : ∀ entry ∈ input.sources.entries, entry.1 = rt.str entry.2.id

section nodes

theorem stored_iff {id : Id} : input.stored id = true ↔ id ∈ input.rows.map (·.id) := by
  rw [stored, List.any_eq_true, List.mem_map]
  simp only [decide_eq_true_eq]

theorem map_id_addDirectory (nodes : List (GraphNode Id)) (kind : RecordKind) (id : Id)
    (label : Text) : (input.addDirectory rt parseId nodes kind id label).map (·.id) =
      if input.recordNode rt parseId kind id ∈ nodes.map (·.id) then nodes.map (·.id)
      else nodes.map (·.id) ++ [input.recordNode rt parseId kind id] := by
  have hany : (nodes.any fun node => decide (node.id = input.recordNode rt parseId kind id)) =
      decide (input.recordNode rt parseId kind id ∈ nodes.map (·.id)) := by
    rw [Bool.eq_iff_iff, List.any_eq_true, decide_eq_true_eq, List.mem_map]
    simp only [decide_eq_true_eq]
  rw [addDirectory, hany]
  simp only [decide_eq_true_eq]
  split_ifs
  · rw [List.map_map]
    refine List.map_congr_left fun node _ => ?_
    rw [Function.comp_apply]
    split_ifs <;> rfl
  · rw [List.map_append]
    rfl

/-- The node of a record is there once, and no other comes. -/
theorem ids_addDirectory {nodes : List (GraphNode Id)} (hnodes : (nodes.map (·.id)).Nodup)
    (kind : RecordKind) (id : Id) (label : Text) :
    ((input.addDirectory rt parseId nodes kind id label).map (·.id)).Nodup ∧
      ∀ other, other ∈ (input.addDirectory rt parseId nodes kind id label).map (·.id) ↔
        other ∈ nodes.map (·.id) ∨ input.recordNode rt parseId kind id = other := by
  rw [map_id_addDirectory]
  split_ifs with hmem
  · refine ⟨hnodes, fun other => ⟨.inl, ?_⟩⟩
    rintro (hother | rfl)
    · exact hother
    · exact hmem
  · refine ⟨List.nodup_append.mpr ⟨hnodes, List.nodup_singleton _, ?_⟩, fun other => ?_⟩
    · rintro a ha b hb rfl
      exact hmem (List.mem_singleton.mp hb ▸ ha)
    · rw [List.mem_append, List.mem_singleton, eq_comm (a := other)]

/-- The nodes of records are there once beside the others. -/
theorem ids_foldl_addDirectory {α : Type} (kind : RecordKind) (key : α → Id) (label : α → Text)
    (records : List α) {nodes : List (GraphNode Id)} (hnodes : (nodes.map (·.id)).Nodup) :
    ((records.foldl (fun nodes a => input.addDirectory rt parseId nodes kind (key a) (label a))
      nodes).map (·.id)).Nodup ∧
    ∀ id, id ∈ (records.foldl (fun nodes a =>
      input.addDirectory rt parseId nodes kind (key a) (label a)) nodes).map (·.id) ↔
        id ∈ nodes.map (·.id) ∨ ∃ a ∈ records, input.recordNode rt parseId kind (key a) = id := by
  induction records generalizing nodes with
  | nil => simp [hnodes]
  | cons a records ih =>
    obtain ⟨hnodup, hmem⟩ := ids_addDirectory rt parseId input hnodes kind (key a) (label a)
    obtain ⟨hnodup', hmem'⟩ := ih hnodup
    refine ⟨hnodup', fun id => ?_⟩
    rw [List.foldl_cons, hmem', hmem, or_assoc, List.exists_mem_cons_iff]

theorem ids_directoryNodes (hrows : (input.rows.map (·.id)).Nodup) :
    ((input.directoryNodes rt parseId).map (·.id)).Nodup ∧
    ∀ id, id ∈ (input.directoryNodes rt parseId).map (·.id) ↔ id ∈ input.rows.map (·.id) ∨
      (∃ person ∈ input.directory.people, input.recordNode rt parseId .person person.id = id) ∨
      ∃ project ∈ input.directory.projects,
        input.recordNode rt parseId .project project.id = id := by
  have hstored : (input.rows.map input.storedNode).map (·.id) = input.rows.map (·.id) := by
    rw [List.map_map]
    rfl
  obtain ⟨hpeople, hperson⟩ := ids_foldl_addDirectory rt parseId input .person WorkspacePerson.id WorkspacePerson.name input.directory.people
    (hstored ▸ hrows)
  obtain ⟨hprojects, hproject⟩ := ids_foldl_addDirectory rt parseId input .project WorkspaceProject.id WorkspaceProject.name input.directory.projects
    hpeople
  refine ⟨hprojects, fun id => ?_⟩
  rw [directoryNodes, hproject, hperson, hstored, or_assoc]

/-- The node of a record is a stored one, or made for it. -/
theorem recordNode_cases (kind : RecordKind) (id : Id) :
    input.recordNode rt parseId kind id ∈ input.rows.map (·.id) ∨
      ∃ key, input.recordNode rt parseId kind id =
        entityId rt input.workspaceId kind.entityKind key := by
  unfold recordNode
  cases hget : (input.directoryIds parseId).get? (kind, id) with
  | none => exact .inr ⟨_, rfl⟩
  | some node =>
    refine .inl ?_
    rcases Dict.mem_of_get?_setMany hget with hempty | hmem
    · rw [Dict.get?_empty] at hempty
      cases hempty
    · obtain ⟨row, hrow, hmem⟩ := List.mem_flatMap.mp hmem
      obtain ⟨record, -, heq⟩ := List.mem_map.mp hmem
      cases heq
      exact List.mem_map_of_mem hrow

omit [DecidableEq Id] in
theorem nodup_map_id_visible (hkeyed : input.Keyed rt) : (input.visible.map (·.id)).Nodup := by
  have hkeys : (input.sources.values.map fun source => rt.str source.id).Nodup := by
    rw [Dict.values, List.map_map]
    refine (List.map_congr_left fun entry hentry => ?_) ▸ input.sources.nodup
    exact hkeyed.sources entry hentry
  unfold visible
  split_ifs
  · have hids : (input.sources.values.map (·.id)).Nodup := by
      refine List.Nodup.of_map rt.str ?_
      rwa [List.map_map]
    exact (List.filter_sublist.map _).nodup hids
  · exact List.nodup_nil

/-- The ids of nodes are distinct exactly when no stored node has the id of a material. -/
theorem nodup_nodes_iff (hkeyed : input.Keyed rt) :
    ((input.nodes rt parseId).map (·.id)).Nodup ↔
      ∀ source ∈ input.visible, ∀ row ∈ input.rows, row.id ≠ input.materialId rt source := by
  obtain ⟨hnodup, hmem⟩ := ids_directoryNodes rt parseId input hkeyed.rows
  have hmaterials : ((input.visible.map (input.materialNode rt)).map (·.id)).Nodup := by
    rw [List.map_map]
    refine List.Nodup.map_on ?_ ((nodup_map_id_visible rt input hkeyed).of_map _)
    intro source hsource source' hsource' heq
    exact List.inj_on_of_nodup_map (nodup_map_id_visible rt input hkeyed) hsource hsource'
      (materialId_inj heq)
  rw [nodes, List.map_append, List.nodup_append]
  constructor
  · rintro ⟨-, -, hne⟩ source hsource row hrow
    refine hne _ ((hmem row.id).mpr (.inl (List.mem_map_of_mem hrow))) _ ?_
    rw [List.map_map]
    exact List.mem_map_of_mem (f := fun source => input.materialId rt source) hsource
  · intro hne
    refine ⟨hnodup, hmaterials, fun id hid other hother => ?_⟩
    rw [List.map_map] at hother
    obtain ⟨source, hsource, rfl⟩ := List.mem_map.mp hother
    have hrow : ∀ id ∈ input.rows.map (·.id), id ≠ input.materialId rt source := by
      intro id hid
      obtain ⟨row, hrow, rfl⟩ := List.mem_map.mp hid
      exact hne source hsource row hrow
    have hrecord : ∀ kind id, input.recordNode rt parseId kind id ≠ input.materialId rt source := by
      intro kind id
      rcases recordNode_cases rt parseId input kind id with hstored | ⟨key, hkey⟩
      · exact hrow _ hstored
      · rw [hkey]
        exact materialId_ne_entityId.symm
    rcases (hmem id).mp hid with hid | ⟨person, -, rfl⟩ | ⟨project, -, rfl⟩
    · exact hrow id hid
    · exact hrecord .person person.id
    · exact hrecord .project project.id

end nodes

section edges

theorem storedEdges_eq : input.storedEdges rt = input.drawn.map (edge rt) := by
  rw [storedEdges, drawn, List.filter_map]
  refine congrArg _ (List.filter_congr fun row _ => ?_)
  simp only [Function.comp_apply, edge]
  split_ifs
  · exact Bool.and_comm ..
  · rfl

omit [DecidableEq Id] in
theorem id_edge (row : EdgeRow Id) : (edge rt row).id = row.edgeId.text rt := by
  unfold edge EdgeRow.edgeId
  cases row.id with
  | some id => rfl
  | none =>
    dsimp only
    split_ifs <;> rfl

/-- What the ids of the links between decisions are made of. -/
def supersedesIds : List (EdgeId Id) :=
  input.rows.filterMap fun row => (row.supersededBy.filter input.stored).map fun successor =>
    EdgeId.supersedes successor row.id

theorem map_id_supersedesEdges :
    (input.supersedesEdges rt).map (·.id) = input.supersedesIds.map (EdgeId.text rt) := by
  rw [supersedesEdges, supersedesIds, List.map_filterMap, List.map_filterMap]
  refine List.filterMap_congr fun row _ => ?_
  rw [Option.map_map, Option.map_map]
  rfl

theorem memberEdges_eq : input.memberEdges rt parseId = (input.memberNodes rt parseId).map
    fun pair => input.explicitEdge rt pair.1 pair.2 .worksOn "member".toList := by
  rw [memberEdges, memberNodes, List.map_filterMap]
  refine List.filterMap_congr fun item _ => ?_
  cases input.personNode rt parseId item.personId <;>
    cases input.projectNode rt parseId item.projectId <;> rfl

theorem map_id_materialEdges (source : Source Id H) :
    (input.materialEdges rt parseId source).map (·.id) =
      (input.materialIds rt parseId source).map rt.str := by
  rw [materialEdges, materialIds]
  simp only [List.map_append, List.map_map]
  refine congrArg₂ _ rfl ?_
  rw [materialPeople, List.map_filterMap, List.map_filterMap]
  refine List.filterMap_congr fun item _ => ?_
  cases input.personNode rt parseId item.1 <;> rfl

/-- What the ids of the edges are made of. -/
theorem map_id_edges : (input.edges rt parseId).map (·.id) = (input.drawn.map EdgeRow.edgeId ++
    input.supersedesIds ++ (input.addedIds rt parseId).map EdgeId.uuid).map (EdgeId.text rt) := by
  rw [edges, storedEdges_eq, memberEdges_eq, addedIds, memberIds]
  simp only [List.map_append, List.map_map, List.map_flatMap, map_id_materialEdges,
    map_id_supersedesEdges, List.append_assoc]
  refine congrArg₂ _ ?_ rfl
  exact List.map_congr_left fun row _ => id_edge rt row

theorem nodup_supersedesIds (hrows : (input.rows.map (·.id)).Nodup) :
    input.supersedesIds.Nodup := by
  refine List.pairwise_filterMap.mpr ((List.pairwise_map.mp hrows).imp ?_)
  intro row row' hne b hb b' hb' heq
  obtain ⟨successor, -, rfl⟩ := Option.map_eq_some_iff.mp hb
  obtain ⟨successor', -, rfl⟩ := Option.map_eq_some_iff.mp hb'
  exact hne (EdgeId.supersedes.inj heq).2

omit [DecidableEq Id] in
theorem edgeId_eq_uuid_iff {row : EdgeRow Id} {id : Id} :
    row.edgeId = .uuid id ↔ row.id = some id := by
  unfold EdgeRow.edgeId
  cases row.id with
  | some id' => simp
  | none =>
    dsimp only
    split_ifs <;> simp

omit [DecidableEq Id] in
theorem edgeId_ne_supersedes {row : EdgeRow Id} {successor old : Id} :
    row.edgeId ≠ .supersedes successor old := by
  unfold EdgeRow.edgeId
  cases row.id with
  | some id' => simp
  | none =>
    dsimp only
    split_ifs <;> simp

/-- The ids of edges are distinct exactly when those of the drawn relations are, those of the
added edges are, and no relation has the id of an added edge. -/
theorem nodup_edges_iff (hhex : rt.PrintsHex) (hrows : (input.rows.map (·.id)).Nodup) :
    ((input.edges rt parseId).map (·.id)).Nodup ↔ (input.drawn.map EdgeRow.edgeId).Nodup ∧
      (∀ row ∈ input.drawn, ∀ id, row.id = some id → id ∉ input.addedIds rt parseId) ∧
      (input.addedIds rt parseId).Nodup := by
  have huuid : Function.Injective (@EdgeId.uuid Id) := fun _ _ h => EdgeId.uuid.inj h
  rw [map_id_edges, List.nodup_map_iff (text_injective hhex), List.nodup_append,
    List.nodup_append, List.nodup_map_iff huuid]
  constructor
  · rintro ⟨⟨hdrawn, -, -⟩, hadded, hne⟩
    refine ⟨hdrawn, fun row hrow id hid hmem => ?_, hadded⟩
    refine hne (.uuid id) (List.mem_append_left _ ?_) _ (List.mem_map_of_mem hmem) rfl
    exact List.mem_map.mpr ⟨row, hrow, edgeId_eq_uuid_iff.mpr hid⟩
  · rintro ⟨hdrawn, hne, hadded⟩
    refine ⟨⟨hdrawn, nodup_supersedesIds input hrows, ?_⟩, hadded, ?_⟩
    · rintro a ha b hb rfl
      obtain ⟨row, -, rfl⟩ := List.mem_map.mp ha
      obtain ⟨old, -, hold⟩ := List.mem_filterMap.mp hb
      obtain ⟨successor, -, heq⟩ := Option.map_eq_some_iff.mp hold
      exact edgeId_ne_supersedes heq.symm
    · rintro a ha b hb rfl
      obtain ⟨id, hid, rfl⟩ := List.mem_map.mp hb
      rcases List.mem_append.mp ha with ha | ha
      · obtain ⟨row, hrow, heq⟩ := List.mem_map.mp ha
        exact hne row hrow id (edgeId_eq_uuid_iff.mp heq) hid
      · obtain ⟨old, -, hold⟩ := List.mem_filterMap.mp ha
        obtain ⟨successor, -, heq⟩ := Option.map_eq_some_iff.mp hold
        cases heq

/-- The edges of a material: from what was extracted, to its projects, and from its people. -/
theorem materialIds_cases {source : Source Id H} {id : Id}
    (h : id ∈ input.materialIds rt parseId source) :
    (∃ extracted, id = input.evidenceId rt extracted source) ∨
      (∃ project, id = input.explicitId rt (input.materialId rt source) .relatedTo project
        "project".toList) ∨
      ∃ person role, id = input.explicitId rt person (roleKind role) (input.materialId rt source)
        (roleText role) := by
  rcases List.mem_append.mp h with h | h
  · rcases List.mem_append.mp h with h | h
    · obtain ⟨extracted, -, rfl⟩ := List.mem_map.mp h
      exact .inl ⟨extracted, rfl⟩
    · obtain ⟨project, -, rfl⟩ := List.mem_map.mp h
      exact .inr (.inl ⟨project, rfl⟩)
  · obtain ⟨item, -, rfl⟩ := List.mem_map.mp h
    exact .inr (.inr ⟨item.1, item.2, rfl⟩)

theorem roleKind_ne (role : PersonRole) : roleKind role ≠ .relatedTo ∧ roleKind role ≠ .worksOn := by
  cases role <;> decide

/-- Different materials have no edge in common. -/
theorem id_eq_of_mem_materialIds {source source' : Source Id H} {id : Id}
    (h : id ∈ input.materialIds rt parseId source) (h' : id ∈ input.materialIds rt parseId source') :
    source.id = source'.id := by
  rcases materialIds_cases rt parseId input h with ⟨x, rfl⟩ | ⟨p, rfl⟩ | ⟨p, role, rfl⟩ <;>
    rcases materialIds_cases rt parseId input h' with ⟨x', heq⟩ | ⟨p', heq⟩ | ⟨p', role', heq⟩
  · exact (evidenceId_inj heq).2
  · exact absurd heq.symm explicitId_ne_evidenceId
  · exact absurd heq.symm explicitId_ne_evidenceId
  · exact absurd heq explicitId_ne_evidenceId
  · exact materialId_inj (explicitId_inj heq).1
  · exact absurd (explicitId_inj heq).2.1.symm (roleKind_ne role').1
  · exact absurd heq explicitId_ne_evidenceId
  · exact absurd (explicitId_inj heq).2.1 (roleKind_ne role).1
  · exact materialId_inj (explicitId_inj heq).2.2.1

/-- The ids of the edges of a material are distinct exactly when the nodes at their ends are. -/
theorem nodup_materialIds_iff (source : Source Id H) :
    (input.materialIds rt parseId source).Nodup ↔ (input.evidenceOf rt source).Nodup ∧
      (input.materialProjects rt parseId source).Nodup ∧
      (input.materialPeople rt parseId source).Nodup := by
  have hevidence : Function.Injective fun extracted => input.evidenceId rt extracted source :=
    fun _ _ h => (evidenceId_inj h).1
  have hproject : Function.Injective fun project =>
      input.explicitId rt (input.materialId rt source) .relatedTo project "project".toList :=
    fun _ _ h => (explicitId_inj h).2.2.1
  have hperson : Function.Injective fun item : Id × PersonRole => input.explicitId rt item.1
      (roleKind item.2) (input.materialId rt source) (roleText item.2) := by
    rintro ⟨person, role⟩ ⟨person', role'⟩ h
    obtain ⟨rfl, hrole, -⟩ := explicitId_inj h
    cases role <;> cases role' <;> first | rfl | cases hrole
  rw [materialIds, List.nodup_append, List.nodup_append, List.nodup_map_iff hevidence,
    List.nodup_map_iff hproject, List.nodup_map_iff hperson, and_assoc, and_assoc]
  constructor
  · rintro ⟨hx, hp, -, hq, -⟩
    exact ⟨hx, hp, hq⟩
  · rintro ⟨hx, hp, hq⟩
    refine ⟨hx, hp, ?_, hq, ?_⟩
    · rintro a ha b hb rfl
      obtain ⟨x, -, rfl⟩ := List.mem_map.mp ha
      obtain ⟨p, -, heq⟩ := List.mem_map.mp hb
      exact explicitId_ne_evidenceId heq
    · rintro a ha b hb rfl
      obtain ⟨item, -, rfl⟩ := List.mem_map.mp hb
      rcases List.mem_append.mp ha with ha | ha
      · obtain ⟨x, -, heq⟩ := List.mem_map.mp ha
        exact explicitId_ne_evidenceId heq.symm
      · obtain ⟨p, -, heq⟩ := List.mem_map.mp ha
        exact (roleKind_ne item.2).1 (explicitId_inj heq).2.1.symm

/-- The ids of added edges are distinct exactly when the nodes at their ends are. -/
theorem nodup_addedIds_iff (hkeyed : input.Keyed rt) : (input.addedIds rt parseId).Nodup ↔
    (input.memberNodes rt parseId).Nodup ∧ ∀ source ∈ input.visible,
      (input.evidenceOf rt source).Nodup ∧ (input.materialProjects rt parseId source).Nodup ∧
        (input.materialPeople rt parseId source).Nodup := by
  have hmember : Function.Injective fun pair : Id × Id =>
      input.explicitId rt pair.1 .worksOn pair.2 "member".toList := by
    rintro ⟨person, project⟩ ⟨person', project'⟩ h
    obtain ⟨rfl, -, rfl, -⟩ := explicitId_inj h
    rfl
  rw [addedIds, memberIds, List.nodup_append, List.nodup_map_iff hmember, List.nodup_flatMap]
  simp only [nodup_materialIds_iff]
  constructor
  · rintro ⟨hmembers, ⟨hmaterials, -⟩, -⟩
    exact ⟨hmembers, hmaterials⟩
  · rintro ⟨hmembers, hmaterials⟩
    refine ⟨hmembers, ⟨hmaterials, ?_⟩, ?_⟩
    · refine (List.pairwise_map.mp (nodup_map_id_visible rt input hkeyed)).imp ?_
      intro source source' hne id hid hid'
      exact hne (id_eq_of_mem_materialIds rt parseId input hid hid')
    · rintro a ha b hb rfl
      obtain ⟨pair, -, rfl⟩ := List.mem_map.mp ha
      obtain ⟨source, -, hid⟩ := List.mem_flatMap.mp hb
      rcases materialIds_cases rt parseId input hid with ⟨x, heq⟩ | ⟨p, heq⟩ | ⟨p, role, heq⟩
      · exact explicitId_ne_evidenceId heq
      · exact absurd (explicitId_inj heq).2.1 (by decide)
      · exact (roleKind_ne role).2 (explicitId_inj heq).2.1.symm

end edges

section ends

variable {rt parseId input} {id : Id}

theorem mem_nodes_of_row (hrows : (input.rows.map (·.id)).Nodup)
    (h : id ∈ input.rows.map (·.id)) : id ∈ (input.nodes rt parseId).map (·.id) := by
  rw [nodes, List.map_append]
  exact List.mem_append_left _ (((ids_directoryNodes rt parseId input hrows).2 id).mpr (.inl h))

theorem mem_nodes_of_personNode (hrows : (input.rows.map (·.id)).Nodup) {person : Id}
    (h : input.personNode rt parseId person = some id) :
    id ∈ (input.nodes rt parseId).map (·.id) := by
  unfold personNode at h
  split_ifs at h with hany
  obtain ⟨record, hrecord, heq⟩ := List.any_eq_true.mp hany
  rw [nodes, List.map_append]
  refine List.mem_append_left _ (((ids_directoryNodes rt parseId input hrows).2 id).mpr (.inr ?_))
  exact .inl ⟨record, hrecord, of_decide_eq_true heq ▸ Option.some.inj h⟩

theorem mem_nodes_of_projectNode (hrows : (input.rows.map (·.id)).Nodup) {project : Id}
    (h : input.projectNode rt parseId project = some id) :
    id ∈ (input.nodes rt parseId).map (·.id) := by
  unfold projectNode at h
  split_ifs at h with hany
  obtain ⟨record, hrecord, heq⟩ := List.any_eq_true.mp hany
  rw [nodes, List.map_append]
  refine List.mem_append_left _ (((ids_directoryNodes rt parseId input hrows).2 id).mpr (.inr ?_))
  exact .inr ⟨record, hrecord, of_decide_eq_true heq ▸ Option.some.inj h⟩

theorem mem_nodes_of_material {source : Source Id H} (h : source ∈ input.visible) :
    input.materialId rt source ∈ (input.nodes rt parseId).map (·.id) := by
  rw [nodes, List.map_append]
  exact List.mem_append_right _ (List.mem_map_of_mem (List.mem_map_of_mem h))

/-- Every edge of a material joins shown nodes. -/
theorem ends_materialEdges (hrows : (input.rows.map (·.id)).Nodup) {source : Source Id H}
    (hsource : source ∈ input.visible) {edge : GraphEdge Id}
    (h : edge ∈ input.materialEdges rt parseId source) :
    edge.source ∈ (input.nodes rt parseId).map (·.id) ∧
      edge.target ∈ (input.nodes rt parseId).map (·.id) := by
  have hmaterial : input.materialId rt source ∈ (input.nodes rt parseId).map (·.id) :=
    mem_nodes_of_material hsource
  rcases List.mem_append.mp h with h | h
  · rcases List.mem_append.mp h with h | h
    · obtain ⟨extracted, hmem, rfl⟩ := List.mem_map.mp h
      obtain ⟨row, hrow, hmem⟩ := List.mem_flatMap.mp hmem
      obtain ⟨_, -, rfl⟩ := List.mem_map.mp hmem
      have hid : row.id ∈ input.rows.map (·.id) :=
        List.mem_map_of_mem (List.mem_filter.mp hrow).1
      exact ⟨mem_nodes_of_row hrows hid, hmaterial⟩
    · obtain ⟨project, hmem, rfl⟩ := List.mem_map.mp h
      obtain ⟨item, -, hproject⟩ := List.mem_filterMap.mp hmem
      exact ⟨hmaterial, mem_nodes_of_projectNode hrows hproject⟩
  · obtain ⟨item, -, hitem⟩ := List.mem_filterMap.mp h
    cases hperson : input.personNode rt parseId item.1 with
    | none => simp [hperson] at hitem
    | some person =>
      rw [hperson] at hitem
      cases hitem
      exact ⟨mem_nodes_of_personNode hrows hperson, hmaterial⟩

/-- Every edge joins shown nodes. -/
theorem ends_edges (hrows : (input.rows.map (·.id)).Nodup) {edge : GraphEdge Id}
    (h : edge ∈ input.edges rt parseId) :
    edge.source ∈ (input.nodes rt parseId).map (·.id) ∧
      edge.target ∈ (input.nodes rt parseId).map (·.id) := by
  rcases List.mem_append.mp h with h | h
  · rcases List.mem_append.mp h with h | h
    · rcases List.mem_append.mp h with h | h
      · have hstored := (List.mem_filter.mp h).2
        rw [Bool.and_eq_true, stored_iff, stored_iff] at hstored
        exact ⟨mem_nodes_of_row hrows hstored.1, mem_nodes_of_row hrows hstored.2⟩
      · obtain ⟨row, hrow, hedge⟩ := List.mem_filterMap.mp h
        obtain ⟨successor, hsuccessor, rfl⟩ := Option.map_eq_some_iff.mp hedge
        have hstored := (stored_iff input).mp (Option.filter_eq_some_iff.mp hsuccessor).2
        exact ⟨mem_nodes_of_row hrows hstored,
          mem_nodes_of_row hrows (List.mem_map_of_mem hrow)⟩
    · rw [memberEdges_eq] at h
      obtain ⟨pair, hpair, rfl⟩ := List.mem_map.mp h
      obtain ⟨item, -, hitem⟩ := List.mem_filterMap.mp hpair
      cases hperson : input.personNode rt parseId item.personId with
      | none => simp [hperson] at hitem
      | some person =>
        cases hproject : input.projectNode rt parseId item.projectId with
        | none => simp [hperson, hproject] at hitem
        | some project =>
          rw [hperson, hproject] at hitem
          cases hitem
          exact ⟨mem_nodes_of_personNode hrows hperson, mem_nodes_of_projectNode hrows hproject⟩
  · obtain ⟨source, hsource, hedge⟩ := List.mem_flatMap.mp h
    exact ends_materialEdges hrows hsource hedge

end ends

/-- The response is a graph exactly when nothing is repeated. -/
theorem isGraph_response_iff (hhex : rt.PrintsHex) (hkeyed : input.Keyed rt) :
    IsGraph (input.response rt parseId) ↔ input.Unrepeated rt parseId := by
  have hids : (input.response rt parseId).nodes.map (·.id) =
      (input.nodes rt parseId).map (·.id) := by
    rw [response, List.map_map]
    rfl
  have hdegrees : (input.response rt parseId).nodes.map (·.degree) =
      ((input.nodes rt parseId).map (·.id)).map (degree (input.edges rt parseId)) := by
    rw [response, List.map_map, List.map_map]
    rfl
  have hends : ∀ edge ∈ input.edges rt parseId,
      edge.source ∈ (input.nodes rt parseId).map (·.id) ∧
        edge.target ∈ (input.nodes rt parseId).map (·.id) := fun edge => ends_edges hkeyed.rows
  constructor
  · rintro ⟨hnodes, -, hedges, -⟩
    rw [hids] at hnodes
    obtain ⟨hrelations, hadded, hnodup⟩ :=
      (nodup_edges_iff rt parseId input hhex hkeyed.rows).mp hedges
    obtain ⟨hmembers, hmaterials⟩ := (nodup_addedIds_iff rt parseId input hkeyed).mp hnodup
    exact ⟨(nodup_nodes_iff rt parseId input hkeyed).mp hnodes, hrelations, hadded, hmembers,
      fun source h => (hmaterials source h).1, fun source h => (hmaterials source h).2.1,
      fun source h => (hmaterials source h).2.2⟩
  · intro h
    have hnodes := (nodup_nodes_iff rt parseId input hkeyed).mpr h.materials
    refine ⟨hids ▸ hnodes, fun edge hedge => ?_, ?_, ?_⟩
    · rw [hids]
      exact hends edge hedge
    · refine (nodup_edges_iff rt parseId input hhex hkeyed.rows).mpr ⟨h.relations, h.added, ?_⟩
      exact (nodup_addedIds_iff rt parseId input hkeyed).mpr ⟨h.members, fun source hsource =>
        ⟨h.evidence source hsource, h.projects source hsource, h.people source hsource⟩⟩
    · rw [hdegrees]
      exact sum_degree hnodes hends

end GraphInput

end Maeglagi.KnowledgeGraph
