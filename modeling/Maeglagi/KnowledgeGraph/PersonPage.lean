import Maeglagi.KnowledgeGraph.PersonContext
import Maeglagi.KnowledgeGraph.Request
import Maeglagi.Sources.Creation

/-!
# A person's page over the workspace's graph

What `buildPersonContext` makes of the response of `get_knowledge_graph`. The records of the
directory are on their nodes, no node of the response is both a task and an event, and the links
of a material are the only ones at its node.
-/

namespace Maeglagi.KnowledgeGraph

open Core Graph Resolution

variable {Id H : Type} [DecidableEq Id]

/-! ## The nodes of the response -/

/-- The nodes agree up to the labels of the directory. -/
def GraphNode.Same (node old : GraphNode Id) : Prop :=
  node.id = old.id ∧ node.type = old.type ∧ node.kind = old.kind ∧ node.sourceId = old.sourceId

namespace GraphInput

variable (rt : Runtime Id) (parseId : Text → Option Id) (input : GraphInput Id H)

/-- The node is labelled with the record. -/
def Labelled (record : RecordKind × Id) (node : GraphNode Id) : Prop :=
  node.id = input.recordNode rt parseId record.1 record.2 ∧ node.directoryId = some record.2 ∧
    node.directoryKind = some record.1.entityKind.value

/-- What is known of the nodes of the graph and of the directory. -/
structure Described (node : GraphNode Id) : Prop where
  kind : ∃ kind : EntityKind, node.type = entityType kind ∧ node.kind = kind.value
  source : node.sourceId = none
  record : node.directoryId ≠ none → ∃ record, input.Labelled rt parseId record node

/-- The records of the directory, in the order in which they are added. -/
def records : List (RecordKind × Id × Text) :=
  input.directory.people.map (fun person => (.person, person.id, person.name)) ++
    input.directory.projects.map fun project => (.project, project.id, project.name)

theorem directoryNodes_eq : input.directoryNodes rt parseId =
    input.records.foldl (fun nodes record =>
      input.addDirectory rt parseId nodes record.1 record.2.1 record.2.2)
        (input.rows.map input.storedNode) := by
  unfold directoryNodes records
  rw [List.foldl_append, List.foldl_map, List.foldl_map]

variable {rt parseId input} {nodes : List (GraphNode Id)} {node old : GraphNode Id}
  {kind : RecordKind} {id : Id} {label : Text}

theorem described_addDirectory (h : ∀ node ∈ nodes, input.Described rt parseId node)
    (hmem : node ∈ input.addDirectory rt parseId nodes kind id label) :
    input.Described rt parseId node := by
  unfold addDirectory at hmem
  dsimp only at hmem
  split_ifs at hmem
  · obtain ⟨old, hold, rfl⟩ := List.mem_map.mp hmem
    split_ifs with hid
    · exact ⟨(h old hold).kind, (h old hold).source, fun _ => ⟨(kind, id), hid, rfl, rfl⟩⟩
    · exact h old hold
  · rcases List.mem_append.mp hmem with hmem | hmem
    · exact h node hmem
    · cases List.mem_singleton.mp hmem
      refine ⟨⟨kind.entityKind, ?_, rfl⟩, rfl, fun _ => ⟨(kind, id), rfl, rfl, rfl⟩⟩
      cases kind <;> rfl

/-- A node stays, and another record leaves its labels alone. -/
theorem kept_addDirectory (hmem : old ∈ nodes) :
    ∃ node ∈ input.addDirectory rt parseId nodes kind id label, node.Same old ∧
      (old.id ≠ input.recordNode rt parseId kind id → node = old) := by
  unfold addDirectory
  dsimp only
  split_ifs
  · refine ⟨_, List.mem_map_of_mem hmem, ?_, fun hne => if_neg hne⟩
    split_ifs <;> exact ⟨rfl, rfl, rfl, rfl⟩
  · exact ⟨old, List.mem_append_left _ hmem, ⟨rfl, rfl, rfl, rfl⟩, fun _ => rfl⟩

theorem labelled_addDirectory :
    ∃ node ∈ input.addDirectory rt parseId nodes kind id label,
      input.Labelled rt parseId (kind, id) node := by
  unfold addDirectory
  dsimp only
  split_ifs with hany
  · obtain ⟨old, hold, hid⟩ := List.any_eq_true.mp hany
    refine ⟨_, List.mem_map_of_mem hold, ?_⟩
    rw [if_pos (of_decide_eq_true hid)]
    exact ⟨of_decide_eq_true hid, rfl, rfl⟩
  · exact ⟨_, List.mem_append_right _ (List.mem_singleton_self _), rfl, rfl, rfl⟩

/-- No other record of the directory has the node of this one. -/
def Alone (rt : Runtime Id) (parseId : Text → Option Id) (input : GraphInput Id H)
    (record : RecordKind × Id) : Prop :=
  ∀ other ∈ input.records, input.recordNode rt parseId other.1 other.2.1 =
    input.recordNode rt parseId record.1 record.2 → (other.1, other.2.1) = record

theorem described_directoryNodes (hmem : node ∈ input.directoryNodes rt parseId) :
    input.Described rt parseId node := by
  have hfold (records : List (RecordKind × Id × Text)) {nodes : List (GraphNode Id)}
      (h : ∀ node ∈ nodes, input.Described rt parseId node) :
      ∀ node ∈ records.foldl (fun nodes record =>
        input.addDirectory rt parseId nodes record.1 record.2.1 record.2.2) nodes,
          input.Described rt parseId node := by
    induction records generalizing nodes with
    | nil => exact h
    | cons record records ih => exact ih fun node hmem => described_addDirectory h hmem
  rw [directoryNodes_eq] at hmem
  refine hfold _ (fun node hstored => ?_) node hmem
  obtain ⟨row, -, rfl⟩ := List.mem_map.mp hstored
  exact ⟨⟨row.kind, rfl, rfl⟩, rfl, fun hne => absurd rfl hne⟩

/-- The node of a row is there. -/
theorem row_directoryNodes {row : NodeRow Id} (hrow : row ∈ input.rows) :
    ∃ node ∈ input.directoryNodes rt parseId, node.Same (input.storedNode row) := by
  have hfold (records : List (RecordKind × Id × Text)) {nodes : List (GraphNode Id)}
      {old : GraphNode Id} (h : old ∈ nodes) :
      ∃ node ∈ records.foldl (fun nodes record =>
        input.addDirectory rt parseId nodes record.1 record.2.1 record.2.2) nodes,
          node.Same old := by
    induction records generalizing nodes old with
    | nil => exact ⟨old, h, rfl, rfl, rfl, rfl⟩
    | cons record records ih =>
      obtain ⟨node, hnode, ⟨hid, htype, hkind, hsource⟩, -⟩ := kept_addDirectory h
      obtain ⟨last, hlast, hid', htype', hkind', hsource'⟩ := ih hnode
      exact ⟨last, hlast, hid'.trans hid, htype'.trans htype, hkind'.trans hkind,
        hsource'.trans hsource⟩
  rw [directoryNodes_eq]
  exact hfold _ (List.mem_map_of_mem hrow)

/-- A record that has its node for itself labels it. -/
theorem labelled_directoryNodes {record : RecordKind × Id}
    (hrecord : ∃ label, (record.1, record.2, label) ∈ input.records)
    (halone : input.Alone rt parseId record) :
    ∃ node ∈ input.directoryNodes rt parseId, input.Labelled rt parseId record node := by
  have hfold (records : List (RecordKind × Id × Text)) {nodes : List (GraphNode Id)}
      (hsub : ∀ other ∈ records, other ∈ input.records)
      (h : (∃ node ∈ nodes, input.Labelled rt parseId record node) ∨
        ∃ label, (record.1, record.2, label) ∈ records) :
      ∃ node ∈ records.foldl (fun nodes record =>
        input.addDirectory rt parseId nodes record.1 record.2.1 record.2.2) nodes,
          input.Labelled rt parseId record node := by
    induction records generalizing nodes with
    | nil =>
      rcases h with h | ⟨label, h⟩
      · exact h
      · cases h
    | cons other records ih =>
      refine ih (fun x hx => hsub x (List.mem_cons_of_mem _ hx)) ?_
      by_cases hsame : (other.1, other.2.1) = record
      · subst hsame
        exact .inl labelled_addDirectory
      rcases h with ⟨node, hnode, hlabelled⟩ | ⟨label, hmem⟩
      · obtain ⟨node', hnode', -, hkept⟩ := kept_addDirectory hnode
        rw [hkept fun heq => hsame (halone other (hsub other (List.mem_cons_self ..))
          (heq.symm.trans hlabelled.1))] at hnode'
        exact .inl ⟨node, hnode', hlabelled⟩
      · rcases List.mem_cons.mp hmem with rfl | hmem
        · exact absurd rfl hsame
        · exact .inr ⟨label, hmem⟩
  rw [directoryNodes_eq]
  exact hfold _ (fun _ h => h) (.inr hrecord)

/-! ## What is recorded of a person -/

variable {person a : Id} {edge : GraphEdge Id} {source : Source Id H}

/-- A node of the response is one of the graph and of the directory, or that of a material. -/
theorem mem_nodes_response (hmem : node ∈ (input.response rt parseId).nodes) :
    (∃ old ∈ input.directoryNodes rt parseId, node.Same old ∧
      node.directoryId = old.directoryId ∧ node.directoryKind = old.directoryKind) ∨
    ∃ source ∈ input.visible, node.Same (input.materialNode rt source) ∧
      node.directoryId = none := by
  obtain ⟨old, hold, rfl⟩ := List.mem_map.mp hmem
  rcases List.mem_append.mp hold with hold | hold
  · exact .inl ⟨old, hold, ⟨rfl, rfl, rfl, rfl⟩, rfl, rfl⟩
  · obtain ⟨source, hsource, rfl⟩ := List.mem_map.mp hold
    exact .inr ⟨source, hsource, ⟨rfl, rfl, rfl, rfl⟩, rfl⟩

theorem response_of_directoryNodes (hmem : old ∈ input.directoryNodes rt parseId) :
    ∃ node ∈ (input.response rt parseId).nodes, node.Same old ∧
      node.directoryId = old.directoryId ∧ node.directoryKind = old.directoryKind :=
  ⟨_, List.mem_map_of_mem (List.mem_append_left _ hmem), ⟨rfl, rfl, rfl, rfl⟩, rfl, rfl⟩

theorem response_of_visible (hsource : source ∈ input.visible) :
    ∃ node ∈ (input.response rt parseId).nodes, node.Same (input.materialNode rt source) ∧
      node.material = true :=
  ⟨_, List.mem_map_of_mem (List.mem_append_right _ (List.mem_map_of_mem hsource)),
    ⟨rfl, rfl, rfl, rfl⟩, rfl⟩

/-- Every node has a kind of the ontology, and the type that belongs to it. -/
theorem kind_of_response (hmem : node ∈ (input.response rt parseId).nodes) :
    ∃ kind : EntityKind, node.type = entityType kind ∧ node.kind = kind.value := by
  rcases mem_nodes_response hmem with ⟨old, hold, ⟨-, htype, hkind, -⟩, -⟩ |
    ⟨source, -, ⟨-, htype, hkind, -⟩, -⟩
  · rw [htype, hkind]
    exact (described_directoryNodes hold).kind
  · refine ⟨materialKind source, htype.trans ?_, hkind⟩
    unfold materialKind materialNode
    cases source.kind <;> rfl

omit [DecidableEq Id] in
theorem isTask_iff {kind : EntityKind} (htype : node.type = entityType kind) :
    node.isTask = true ↔ kind = .task := by
  unfold GraphNode.isTask
  rw [htype]
  cases kind <;> decide

omit [DecidableEq Id] in
theorem isEvent_iff {kind : EntityKind} (hkind : node.kind = kind.value) :
    node.isEvent = true ↔ kind = .event ∨ kind = .meeting := by
  have hnamed : kind.value ≠ [] := by cases kind <;> decide
  unfold GraphNode.isEvent
  rw [hkind, decide_eq_false hnamed, Bool.false_and, Bool.or_false]
  cases kind <;> decide

/-- No node of the response is both a task and an event. -/
theorem tasksApart_response : TasksApart (input.response rt parseId) := by
  intro node hmem htask
  obtain ⟨kind, htype, hkind⟩ := kind_of_response hmem
  rw [(isTask_iff htype).mp htask] at hkind
  refine Bool.eq_false_iff.mpr fun hevent => ?_
  rcases (isEvent_iff hkind).mp hevent with h | h <;> cases h

omit [DecidableEq Id] in
/-- An edge with the kind of the ontology relates as this kind alone. -/
theorem relates_iff (kind : RelationKind) (hkind : edge.kind = kind.value)
    {relations : List RelationKind} : edge.relates relations = true ↔ kind ∈ relations := by
  simp only [GraphEdge.relates, List.any_eq_true, decide_eq_true_eq, hkind,
    RelationKind.value_injective.eq_iff]
  exact ⟨fun ⟨_, hmem, heq⟩ => heq ▸ hmem, fun hmem => ⟨kind, hmem, rfl⟩⟩

/-- A person with a node for itself is recorded as exactly this node. -/
theorem isPerson_response_iff (hperson : ∃ record ∈ input.directory.people, record.id = person)
    (halone : input.Alone rt parseId (.person, person)) :
    IsPerson (input.response rt parseId) person a ↔
      a = input.recordNode rt parseId .person person := by
  constructor
  · rintro ⟨node, hmem, rfl, hkind, hid⟩
    rcases mem_nodes_response hmem with ⟨old, hold, ⟨hsame, -⟩, holdId, holdKind⟩ | ⟨-, -, -, hnone⟩
    · obtain ⟨record, hrecord, hrecordId, hrecordKind⟩ :=
        (described_directoryNodes hold).record (by
          rw [← holdId, hid]
          exact Option.some_ne_none _)
      rw [← holdId, hid, Option.some.injEq] at hrecordId
      rw [← holdKind, hkind, Option.some.injEq] at hrecordKind
      have hpersonKind : record.1 = .person := by
        cases hrecordKind' : record.1 with
        | person => rfl
        | project =>
          rw [hrecordKind'] at hrecordKind
          exact absurd hrecordKind (by decide)
      rw [hsame, hrecord, hpersonKind, hrecordId]
    · rw [hnone] at hid
      cases hid
  · rintro rfl
    obtain ⟨record, hrecord, rfl⟩ := hperson
    have hmem : (RecordKind.person, record.id, record.name) ∈ input.records :=
      List.mem_append_left _ (List.mem_map.mpr ⟨record, hrecord, rfl⟩)
    obtain ⟨old, hold, hid, hdirectory, hkind⟩ := labelled_directoryNodes ⟨_, hmem⟩ halone
    obtain ⟨node, hnode, ⟨hsame, -⟩, hnodeId, hnodeKind⟩ := response_of_directoryNodes hold
    exact ⟨node, hnode, hsame.trans hid, hnodeKind.trans hkind, hnodeId.trans hdirectory⟩

/-! ## The links of a material -/

/-- No stored node has the id of a material. -/
def MaterialsApart (rt : Runtime Id) (input : GraphInput Id H) : Prop :=
  ∀ source ∈ input.visible, ∀ row ∈ input.rows, row.id ≠ input.materialId rt source

theorem recordNode_ne_materialId (hkeyed : input.MaterialsApart rt)
    (hsource : source ∈ input.visible) :
    input.recordNode rt parseId kind id ≠ input.materialId rt source := by
  rcases recordNode_cases rt parseId input kind id with hstored | ⟨key, hkey⟩
  · obtain ⟨row, hrow, heq⟩ := List.mem_map.mp hstored
    rw [← heq]
    exact hkeyed source hsource row hrow
  · rw [hkey]
    exact materialId_ne_entityId.symm

theorem personNode_some (h : input.personNode rt parseId person = some a) :
    (∃ record ∈ input.directory.people, record.id = person) ∧
      a = input.recordNode rt parseId .person person := by
  unfold personNode at h
  split_ifs at h with hany
  obtain ⟨record, hrecord, hid⟩ := List.any_eq_true.mp hany
  exact ⟨⟨record, hrecord, of_decide_eq_true hid⟩, (Option.some.inj h).symm⟩

theorem projectNode_some (h : input.projectNode rt parseId id = some a) :
    a = input.recordNode rt parseId .project id := by
  unfold projectNode at h
  split_ifs at h
  exact (Option.some.inj h).symm

/-- The links at the node of a material are its own. -/
theorem materialEdges_of_edges (hapart : input.MaterialsApart rt) (hsource : source ∈ input.visible)
    (hmem : edge ∈ input.edges rt parseId)
    (hend : edge.source = input.materialId rt source ∨ edge.target = input.materialId rt source) :
    ∃ other ∈ input.visible, edge ∈ input.materialEdges rt parseId other := by
  have hstored {id : Id} (hid : input.stored id = true) : id ≠ input.materialId rt source := by
    obtain ⟨row, hrow, rfl⟩ := List.mem_map.mp ((stored_iff input).mp hid)
    exact hapart source hsource row hrow
  rcases List.mem_append.mp hmem with hmem | hmem
  · exfalso
    rcases List.mem_append.mp hmem with hmem | hmem
    · rcases List.mem_append.mp hmem with hmem | hmem
      · have hends := (List.mem_filter.mp hmem).2
        rw [Bool.and_eq_true] at hends
        exact hend.elim (hstored hends.1) (hstored hends.2)
      · obtain ⟨row, hrow, hedge⟩ := List.mem_filterMap.mp hmem
        obtain ⟨successor, hsuccessor, rfl⟩ := Option.map_eq_some_iff.mp hedge
        exact hend.elim (hstored (Option.filter_eq_some_iff.mp hsuccessor).2)
          (hapart source hsource row hrow)
    · rw [memberEdges_eq] at hmem
      obtain ⟨pair, hpair, rfl⟩ := List.mem_map.mp hmem
      obtain ⟨item, -, hitem⟩ := List.mem_filterMap.mp hpair
      obtain ⟨node, hnode, hitem⟩ := Option.bind_eq_some_iff.mp hitem
      obtain ⟨node', hnode', hitem⟩ := Option.bind_eq_some_iff.mp hitem
      cases hitem
      refine hend.elim (fun h => ?_) fun h => ?_
      · exact recordNode_ne_materialId hapart hsource ((personNode_some hnode).2 ▸ h)
      · exact recordNode_ne_materialId hapart hsource (projectNode_some hnode' ▸ h)
  · exact List.mem_flatMap.mp hmem

/-! ## The page -/

theorem nodup_nodes_response (hkeyed : input.Keyed rt) (hapart : input.MaterialsApart rt) :
    ((input.response rt parseId).nodes.map (·.id)).Nodup := by
  have hids : (input.response rt parseId).nodes.map (·.id) =
      (input.nodes rt parseId).map (·.id) := by
    rw [response, List.map_map]
    rfl
  rw [hids]
  exact (nodup_nodes_iff rt parseId input hkeyed).mpr hapart

omit [DecidableEq Id] in
theorem eq_of_materialId (hkeyed : input.Keyed rt) {other : Source Id H}
    (hsource : source ∈ input.visible) (hother : other ∈ input.visible)
    (hid : input.materialId rt other = input.materialId rt source) : other = source :=
  List.inj_on_of_nodup_map (nodup_map_id_visible rt input hkeyed) hother hsource
    (materialId_inj hid)

/-- A person took part in a material exactly where the material's rows say so. -/
theorem participated_iff (hkeyed : input.Keyed rt) (hapart : input.MaterialsApart rt)
    (hperson : ∃ record ∈ input.directory.people, record.id = person)
    (halone : input.Alone rt parseId (.person, person)) (hsource : source ∈ input.visible)
    (hnode : node ∈ (input.response rt parseId).nodes)
    (hid : node.id = input.materialId rt source) :
    (∃ a edge, IsPerson (input.response rt parseId) person a ∧
      Joins (input.response rt parseId) a edge node ∧ edge.relates [.participatedIn] = true) ↔
        (person, PersonRole.participant) ∈ source.people := by
  have hnodup : ((input.response rt parseId).nodes.map (·.id)).Nodup :=
    nodup_nodes_response hkeyed hapart
  simp only [isPerson_response_iff hperson halone]
  constructor
  · rintro ⟨_, edge, rfl, ⟨hmem, start, stop, hstart, hstop, hends⟩, hrelates⟩
    have hend : edge.source = input.materialId rt source ∨
        edge.target = input.materialId rt source := by
      rcases hends with ⟨-, rfl⟩ | ⟨-, rfl⟩
      · exact .inr ((nodeMap_some hstop).2.symm.trans hid)
      · exact .inl ((nodeMap_some hstart).2.symm.trans hid)
    obtain ⟨other, hother, hedge⟩ := materialEdges_of_edges hapart hsource hmem hend
    rcases List.mem_append.mp hedge with hedge | hedge
    · exfalso
      rcases List.mem_append.mp hedge with hedge | hedge
      · obtain ⟨extracted, -, rfl⟩ := List.mem_map.mp hedge
        exact absurd ((relates_iff .mentionedIn rfl).mp hrelates) (by decide)
      · obtain ⟨project, -, rfl⟩ := List.mem_map.mp hedge
        exact absurd ((relates_iff .relatedTo rfl).mp hrelates) (by decide)
    · obtain ⟨⟨record, role⟩, hitem, hbind⟩ := List.mem_filterMap.mp hedge
      obtain ⟨a, ha, hbind⟩ := Option.bind_eq_some_iff.mp hbind
      cases hbind
      obtain ⟨⟨row, hrow, rfl⟩, rfl⟩ := personNode_some ha
      have hrole : role = .participant := by
        cases role with
        | participant => rfl
        | author => exact absurd ((relates_iff .created rfl).mp hrelates) (by decide)
      rcases hends with ⟨hperson', rfl⟩ | ⟨-, rfl⟩
      · have hsame : other = source := eq_of_materialId hkeyed hsource hother
          ((nodeMap_some hstop).2.symm.trans hid)
        have hrecord : (RecordKind.person, row.id, row.name) ∈ input.records :=
          List.mem_append_left _ (List.mem_map.mpr ⟨row, hrow, rfl⟩)
        have heq := (Prod.mk.inj (halone _ hrecord hperson')).2
        dsimp only at heq
        rw [← heq, ← hrole, ← hsame]
        exact hitem
      · exact absurd ((nodeMap_some hstart).2.symm.trans hid)
          (recordNode_ne_materialId hapart hsource)
  · intro hmem
    obtain ⟨start, hstartMem, hstartId, -⟩ :=
      (isPerson_response_iff hperson halone).mpr rfl
    have hpersonNode : input.personNode rt parseId person =
        some (input.recordNode rt parseId .person person) := by
      unfold personNode
      refine if_pos (List.any_eq_true.mpr ?_)
      obtain ⟨record, hrecord, heq⟩ := hperson
      exact ⟨record, hrecord, decide_eq_true heq⟩
    have hedge : input.explicitEdge rt (input.recordNode rt parseId .person person)
        (input.materialId rt source) .participatedIn "participant".toList ∈
          input.materialEdges rt parseId source := by
      refine List.mem_append_right _ (List.mem_filterMap.mpr ⟨_, hmem, ?_⟩)
      rw [hpersonNode]
      rfl
    refine ⟨_, _, rfl, ⟨List.mem_append_right _ (List.mem_flatMap.mpr ⟨source, hsource, hedge⟩),
      start, node, ?_, ?_, .inl ⟨rfl, rfl⟩⟩,
      (relates_iff .participatedIn rfl).mpr (List.mem_singleton_self _)⟩
    · exact hstartId ▸ nodeMap_of_mem hnodup hstartMem
    · exact hid ▸ nodeMap_of_mem hnodup hnode

/-- What a material was extracted from leads from its node to the decisions among it. -/
theorem leads_meeting (hkeyed : input.Keyed rt) (hapart : input.MaterialsApart rt)
    (hsource : source ∈ input.visible) (hmeeting : source.kind = .meeting)
    (hnode : node ∈ (input.response rt parseId).nodes)
    (hsame : node.Same (input.materialNode rt source)) (hmaterial : node.material = true)
    {row : NodeRow Id} (hrow : row ∈ input.rows) (hkind : row.kind = .decision)
    (hnamed : rt.str source.id ∈ row.sourceIds) :
    ∃ decision, decision.id = row.id ∧ Leads (input.response rt parseId) node decision := by
  have hnodup : ((input.response rt parseId).nodes.map (·.id)).Nodup :=
    nodup_nodes_response hkeyed hapart
  obtain ⟨old, hold, holdId, holdType, -⟩ := row_directoryNodes hrow
  obtain ⟨decision, hdecision, ⟨hid, htype, -⟩, -⟩ := response_of_directoryNodes hold
  have hevidence : row.id ∈ input.evidenceOf rt source := by
    refine List.mem_flatMap.mpr ⟨row, List.mem_filter.mpr ⟨hrow, ?_⟩,
      List.mem_map.mpr ⟨_, List.mem_filter.mpr ⟨hnamed, decide_eq_true rfl⟩, rfl⟩⟩
    rw [hkind]
    decide
  have hedge : input.evidenceEdge rt source row.id ∈ input.edges rt parseId :=
    List.mem_append_right _ (List.mem_flatMap.mpr ⟨source, hsource, List.mem_append_left _
      (List.mem_append_left _ (List.mem_map_of_mem hevidence))⟩)
  refine ⟨decision, hid.trans holdId, ?_, input.evidenceEdge rt source row.id,
    ⟨hedge, decision, node, ?_, ?_, .inr ⟨hsame.1.symm, rfl⟩⟩, .inl ⟨?_, hmaterial,
      (relates_iff .mentionedIn rfl).mpr (List.mem_singleton_self _)⟩⟩
  · have hdecisionType : decision.type = entityType row.kind := htype.trans holdType
    unfold GraphNode.isDecision
    rw [hdecisionType, hkind]
    decide
  · have hrowId : row.id = decision.id := (hid.trans holdId).symm
    show (input.response rt parseId).nodeMap.get? row.id = some decision
    rw [hrowId]
    exact nodeMap_of_mem hnodup hdecision
  · have hmaterialId : input.materialId rt source = node.id := hsame.1.symm
    show (input.response rt parseId).nodeMap.get? (input.materialId rt source) = some node
    rw [hmaterialId]
    exact nodeMap_of_mem hnodup hnode
  · have hnodeKind : node.kind = (materialKind source).value := hsame.2.2.1
    rw [hnodeKind]
    unfold materialKind
    rw [hmeeting]
    decide

/-- The page of a person shows, of the materials, exactly the meetings in which the person is
recorded as a participant, and then every decision that was extracted from one of them. -/
theorem meetings_of_page (hkeyed : input.Keyed rt) (hapart : input.MaterialsApart rt)
    (person : WorkspacePerson Id) (projects : List (WorkspaceProject Id))
    (hperson : ∃ record ∈ input.directory.people, record.id = person.id)
    (halone : input.Alone rt parseId (.person, person.id)) :
    ∃ context, buildPersonContext person projects (some (input.response rt parseId)) =
        some context ∧
      (∀ id, (∃ event ∈ context.events, event.node.sourceId = some id) ↔
        ∃ source ∈ input.visible, source.id = id ∧ source.kind = .meeting ∧
          (person.id, PersonRole.participant) ∈ source.people) ∧
      ∀ source ∈ input.visible, source.kind = .meeting →
        (person.id, PersonRole.participant) ∈ source.people →
          ∀ row ∈ input.rows, row.kind = .decision → rt.str source.id ∈ row.sourceIds →
            ∃ decision ∈ context.decisions, decision.node.id = row.id := by
  have hattended {source : Source Id H} (hsource : source ∈ input.visible)
      (hmeeting : source.kind = .meeting)
      (hpart : (person.id, PersonRole.participant) ∈ source.people)
      {node : GraphNode Id} (hnode : node ∈ (input.response rt parseId).nodes)
      (hsame : node.Same (input.materialNode rt source)) :
      Attended (input.response rt parseId) person.id node := by
    have hkind : node.kind = EntityKind.meeting.value := by
      rw [hsame.2.2.1]
      unfold materialNode materialKind
      rw [hmeeting]
    exact ⟨(isEvent_iff hkind).mpr (.inr rfl),
      (participated_iff hkeyed hapart hperson halone hsource hnode hsame.1).mpr hpart⟩
  refine ⟨_, buildPersonContext_eq tasksApart_response person projects, fun id => ⟨?_, ?_⟩, ?_⟩
  · rintro ⟨event, hevent, hid⟩
    obtain ⟨hisEvent, hpart⟩ := mem_shownEvents.mp (List.mem_map_of_mem hevent)
    have hnode : event.node ∈ (input.response rt parseId).nodes := by
      obtain ⟨a, edge, -, hjoins, -⟩ := hpart
      exact (nodeMap_some hjoins.nodeMap).1
    rcases mem_nodes_response hnode with ⟨old, hold, ⟨-, -, -, hsource⟩, -⟩ |
      ⟨source, hsource, hsame, -⟩
    · rw [hsource, (described_directoryNodes hold).source] at hid
      cases hid
    · have hkind : event.node.kind = (materialKind source).value := hsame.2.2.1
      have hmeeting : source.kind = .meeting := by
        have hevent := (isEvent_iff hkind).mp hisEvent
        unfold materialKind at hevent
        cases hsourceKind : source.kind with
        | meeting => rfl
        | document =>
          rw [hsourceKind] at hevent
          rcases hevent with h | h <;> cases h
      have hsourceId : some source.id = some id := hsame.2.2.2.symm.trans hid
      exact ⟨source, hsource, Option.some.inj hsourceId, hmeeting,
        (participated_iff hkeyed hapart hperson halone hsource hnode hsame.1).mp hpart⟩
  · rintro ⟨source, hsource, rfl, hmeeting, hpart⟩
    obtain ⟨node, hnode, hsame, -⟩ := response_of_visible hsource
    obtain ⟨event, hevent, rfl⟩ := List.mem_map.mp
      (mem_shownEvents.mpr (hattended hsource hmeeting hpart hnode hsame))
    exact ⟨event, hevent, hsame.2.2.2⟩
  · intro source hsource hmeeting hpart row hrow hkind hnamed
    obtain ⟨node, hnode, hsame, hmaterial⟩ :=
      response_of_visible hsource
    obtain ⟨found, hid, hleads⟩ := leads_meeting hkeyed hapart hsource hmeeting hnode hsame
      hmaterial hrow hkind hnamed
    have hshown : found ∈ (shownDecisions (input.response rt parseId) person.id).map (·.node) :=
      mem_shownDecisions.mpr
        (.inr ⟨node, .inr (hattended hsource hmeeting hpart hnode hsame), hleads⟩)
    obtain ⟨decision, hdecision, rfl⟩ := List.mem_map.mp hshown
    exact ⟨decision, hdecision, hid⟩

/-- A processed meeting of one person. -/
def attendedMeeting : Source Text Unit :=
  { Source.new ⟨"s".toList, "w".toList, "u".toList⟩ .meeting "weekly".toList [] 1 with
    people := [("p".toList, .participant)], status := .succeeded, processingStage := .completed }

/-- A decision that was extracted from the meeting, and the meeting's person. -/
def attendedInput : GraphInput Text Unit where
  workspaceId := "w".toList
  includeMaterials := true
  rows := [⟨"d".toList, .decision, "Ship".toList, ["s".toList], none, []⟩]
  edgeRows := []
  sources := Dict.empty.set "s".toList attendedMeeting
  directory := ⟨[⟨"p".toList, "Kim".toList, none, none, [], false⟩], [], []⟩

/-- The person sees the decision of the meeting. -/
theorem meetings_of_page_attended :
    ∃ context, buildPersonContext ⟨"p".toList, "w".toList⟩ []
        (some (attendedInput.response plainRuntime some)) = some context ∧
      (∃ event ∈ context.events, event.node.sourceId = some "s".toList) ∧
        ∃ decision ∈ context.decisions, decision.node.id = "d".toList := by
  have hkeyed : attendedInput.Keyed plainRuntime :=
    ⟨List.nodup_singleton _, fun entry hentry => by
      cases List.mem_singleton.mp hentry
      rfl⟩
  have hapart : attendedInput.MaterialsApart plainRuntime := by
    intro source hsource row hrow
    cases List.mem_singleton.mp hsource
    cases List.mem_singleton.mp hrow
    decide
  have halone : attendedInput.Alone plainRuntime some (.person, "p".toList) := by
    intro other hother _
    cases List.mem_singleton.mp hother
    rfl
  obtain ⟨context, hcontext, hevents, hdecisions⟩ :=
    meetings_of_page hkeyed hapart ⟨"p".toList, "w".toList⟩ [] ⟨_, List.mem_singleton_self _, rfl⟩
      halone
  have hvisible : attendedMeeting ∈ attendedInput.visible := List.mem_singleton_self _
  have hpart : ("p".toList, PersonRole.participant) ∈ attendedMeeting.people :=
    List.mem_singleton_self _
  exact ⟨context, hcontext, (hevents _).mpr ⟨_, hvisible, rfl, rfl, hpart⟩,
    hdecisions _ hvisible rfl hpart _ (List.mem_singleton_self _) rfl (List.mem_singleton_self _)⟩

end GraphInput

end Maeglagi.KnowledgeGraph
