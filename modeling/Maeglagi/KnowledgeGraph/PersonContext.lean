import Maeglagi.Core.FirstWins
import Maeglagi.KnowledgeGraph.Shape

/-!
# What a person has to do with the graph

`buildPersonContext`: the projects of a person, and the tasks, events and decisions that the
graph of the workspace connects with the nodes of the person. Only recorded identities and
certain relations count.
-/

namespace Maeglagi.KnowledgeGraph

open Core

variable {Id : Type}

/-- `WorkspaceProject`, as far as it is read. -/
structure WorkspaceProject (Id : Type) where
  id : Id
  workspaceId : Id
  ownerPersonId : Option Id
  participantIds : Option (List Id)

/-- `WorkspacePerson`, as far as it is read. -/
structure WorkspacePerson (Id : Type) where
  id : Id
  workspaceId : Id

/-- An entry of `PersonContext.decisions`, and of the decisions of a task. -/
structure PersonDecision (Id : Type) where
  node : GraphNode Id
  relation : Text
  via : Option (GraphNode Id)

/-- An entry of `PersonContext.tasks` and of `PersonContext.events`. -/
structure PersonActivity (Id : Type) where
  node : GraphNode Id
  relation : Text
  decisions : Option (List (PersonDecision Id))

/-- `PersonContext` -/
structure PersonContext (Id : Type) where
  projects : List (WorkspaceProject Id)
  tasks : List (PersonActivity Id)
  decisions : List (PersonDecision Id)
  events : List (PersonActivity Id)

/-- `node.type === "task"` -/
def GraphNode.isTask (node : GraphNode Id) : Bool := decide (node.type = "task".toList)

/-- `node.type === "decision"` -/
def GraphNode.isDecision (node : GraphNode Id) : Bool := decide (node.type = "decision".toList)

/-- The node is an event or a meeting. -/
def GraphNode.isEvent (node : GraphNode Id) : Bool :=
  decide (node.kind = "Event".toList) || decide (node.kind = "Meeting".toList) ||
    (decide (node.kind = []) && decide (node.type = "event".toList))

/-- The edge has one of the relations. -/
def GraphEdge.relates (edge : GraphEdge Id) (relations : List RelationKind) : Bool :=
  relations.any fun relation => decide (edge.kind = relation.value)

section Definitions

variable [DecidableEq Id]

/-- `nodes`: the last node under each id. -/
def KnowledgeGraphResponse.nodeMap (graph : KnowledgeGraphResponse Id) :
    Dict Id (GraphNode Id) :=
  Dict.empty.setMany (graph.nodes.map fun node => (node.id, node))

/-- `identities`: the ids of the nodes that are recorded as the person. -/
def KnowledgeGraphResponse.identities (graph : KnowledgeGraphResponse Id) (person : Id) : List Id :=
  firsts id [] ((graph.nodes.filter fun node =>
    decide (node.directoryKind = some "Person".toList) &&
      decide (node.directoryId = some person)).map (·.id))

/-- A neighbour is added to the list of an id. -/
def link (adjacency : Dict Id (List (GraphEdge Id × GraphNode Id))) (id : Id)
    (neighbour : GraphEdge Id × GraphNode Id) : Dict Id (List (GraphEdge Id × GraphNode Id)) :=
  adjacency.set id (adjacency.getD id [] ++ [neighbour])

/-- `adjacency` -/
def KnowledgeGraphResponse.adjacency (graph : KnowledgeGraphResponse Id) :
    Dict Id (List (GraphEdge Id × GraphNode Id)) :=
  graph.edges.foldl (fun adjacency edge =>
    match graph.nodeMap.get? edge.source, graph.nodeMap.get? edge.target with
    | some source, some target =>
      link (link adjacency source.id (edge, target)) target.id (edge, source)
    | _, _ => adjacency) .empty

/-- `adjacency.get(id) ?? []` -/
def KnowledgeGraphResponse.neighbours (graph : KnowledgeGraphResponse Id) (id : Id) :
    List (GraphEdge Id × GraphNode Id) :=
  graph.adjacency.getD id []

/-- The task that an edge of the person leads to. -/
def directTask (edge : GraphEdge Id) (node : GraphNode Id) : Option (PersonActivity Id) :=
  if node.isTask && edge.relates [.assignedTo, .worksOn] then
    some {
      node
      relation :=
        if edge.relates [.assignedTo] then "담당 업무".toList else "참여 업무".toList
      decisions := some [] }
  else none

/-- The event that an edge of the person leads to. -/
def directEvent (edge : GraphEdge Id) (node : GraphNode Id) : Option (PersonActivity Id) :=
  if node.isEvent && edge.relates [.participatedIn] then
    some {
      node
      relation :=
        if node.kind = "Meeting".toList then "참여한 회의".toList else "참여한 이벤트".toList
      decisions := none }
  else none

/-- The decision that an edge of the person leads to. -/
def directDecision (id : Id) (edge : GraphEdge Id) (node : GraphNode Id) :
    Option (PersonDecision Id) :=
  if node.isDecision && edge.relates [.created] && decide (edge.source = id) then
    some { node, relation := "기록한 결정".toList, via := none }
  else if node.isDecision && edge.relates [.relatedTo, .decidedIn] then
    some { node, relation := "직접 연결된 결정".toList, via := none }
  else none

/-- `add`, when there is something to add. -/
def addSome {α : Type} (key : α → Id) (items : List α) : Option α → List α
  | none => items
  | some item => addFirst key items item

/-- What an edge of the person adds. -/
def visit (id : Id) (context : PersonContext Id) (neighbour : GraphEdge Id × GraphNode Id) :
    PersonContext Id :=
  { context with
    tasks := addSome (·.node.id) context.tasks (directTask neighbour.1 neighbour.2)
    events := addSome (·.node.id) context.events (directEvent neighbour.1 neighbour.2)
    decisions :=
      addSome (·.node.id) context.decisions (directDecision id neighbour.1 neighbour.2) }

/-- The meeting's material mentions the decision. -/
def meetingMention (activity : PersonActivity Id) (edge : GraphEdge Id) : Bool :=
  decide (activity.node.kind = "Meeting".toList) && activity.node.material &&
    edge.relates [.mentionedIn]

/-- The decision that an edge of a task or an event leads to. -/
def linkedDecision (activity : PersonActivity Id) (edge : GraphEdge Id) (node : GraphNode Id) :
    Option (PersonDecision Id) :=
  let leads := edge.relates
    (if activity.node.isTask then [.relatedTo, .resultedIn] else [.decidedIn, .resultedIn])
  if node.isDecision && (meetingMention activity edge || leads) then
    some {
      node
      relation :=
        if activity.node.isTask then "담당·참여 업무에 연결된 결정".toList
        else if meetingMention activity edge then "참여한 회의 자료에 언급된 결정".toList
        else "참여한 회의·이벤트의 결정".toList
      via := some activity.node }
  else none

/-- What an edge of a task or an event adds to its decisions and to those of the person. Adding
to the decisions of an entry that has none is a `TypeError`. -/
def followEdge (state : PersonActivity Id × List (PersonDecision Id))
    (neighbour : GraphEdge Id × GraphNode Id) :
    Option (PersonActivity Id × List (PersonDecision Id)) :=
  match linkedDecision state.1 neighbour.1 neighbour.2 with
  | none => some state
  | some decision =>
    let decisions := addFirst (·.node.id) state.2 decision
    if state.1.node.isTask then
      state.1.decisions.map fun own =>
        ({ state.1 with decisions := some (addFirst (·.node.id) own decision) }, decisions)
    else some (state.1, decisions)

/-- The second loop, over the tasks or over the events. -/
def follow (graph : KnowledgeGraphResponse Id) :
    List (PersonActivity Id) → List (PersonDecision Id) →
      Option (List (PersonActivity Id) × List (PersonDecision Id))
  | [], decisions => some ([], decisions)
  | activity :: activities, decisions => do
    let (activity, decisions) ←
      (graph.neighbours activity.node.id).foldlM followEdge (activity, decisions)
    let (activities, decisions) ← follow graph activities decisions
    return (activity :: activities, decisions)

/-- The projects of the person. -/
def personProjects (person : WorkspacePerson Id) (projects : List (WorkspaceProject Id)) :
    List (WorkspaceProject Id) :=
  projects.filter fun project =>
    decide (project.workspaceId = person.workspaceId) &&
      (decide (project.ownerPersonId = some person.id) ||
        project.participantIds.any fun ids => ids.contains person.id)

/-- `buildPersonContext` -/
def buildPersonContext (person : WorkspacePerson Id) (projects : List (WorkspaceProject Id)) :
    Option (KnowledgeGraphResponse Id) → Option (PersonContext Id)
  | none => some ⟨personProjects person projects, [], [], []⟩
  | some graph => do
    let context := (graph.identities person.id).foldl (fun context id =>
      (graph.neighbours id).foldl (visit id) context)
        ⟨personProjects person projects, [], [], []⟩
    let (tasks, decisions) ← follow graph context.tasks context.decisions
    let (events, decisions) ← follow graph context.events decisions
    return { context with tasks, events, decisions }

end Definitions

/-! ## Neighbours -/

section Neighbours

variable [DecidableEq Id] {graph : KnowledgeGraphResponse Id} {id a : Id}
  {edge : GraphEdge Id} {node node' : GraphNode Id}

/-- The ends of the edge are nodes: the id's, and the node. -/
def Ends (graph : KnowledgeGraphResponse Id) (a : Id) (edge : GraphEdge Id)
    (node : GraphNode Id) : Prop :=
  ∃ source target, graph.nodeMap.get? edge.source = some source ∧
    graph.nodeMap.get? edge.target = some target ∧
      (edge.source = a ∧ node = target ∨ edge.target = a ∧ node = source)

/-- An edge of the graph joins the id and the node. -/
def Joins (graph : KnowledgeGraphResponse Id) (a : Id) (edge : GraphEdge Id)
    (node : GraphNode Id) : Prop :=
  edge ∈ graph.edges ∧ Ends graph a edge node

theorem nodeMap_some (h : graph.nodeMap.get? id = some node) :
    node ∈ graph.nodes ∧ node.id = id := by
  rcases Dict.mem_of_get?_setMany h with h | h
  · cases h
  · obtain ⟨node, hmem, heq⟩ := List.mem_map.mp h
    cases heq
    exact ⟨hmem, rfl⟩

/-- Where ids are distinct, every node is the one under its id. -/
theorem nodeMap_of_mem (hnodup : (graph.nodes.map (·.id)).Nodup) (hmem : node ∈ graph.nodes) :
    graph.nodeMap.get? node.id = some node := by
  have hkey : node.id ∈ graph.nodeMap.keys :=
    Dict.mem_keys_setMany.mpr (.inr (List.mem_map.mpr ⟨_, List.mem_map_of_mem hmem, rfl⟩))
  obtain ⟨found, hfound⟩ := Dict.mem_keys_iff.mp hkey
  obtain ⟨hfoundMem, hid⟩ := nodeMap_some hfound
  rw [hfound, List.inj_on_of_nodup_map hnodup hfoundMem hmem hid]

/-- A node that an edge leads to is the one under its id. -/
theorem Joins.nodeMap (h : Joins graph a edge node) :
    graph.nodeMap.get? node.id = some node := by
  obtain ⟨-, source, target, hsource, htarget, ⟨-, rfl⟩ | ⟨-, rfl⟩⟩ := h
  · rw [(nodeMap_some htarget).2, htarget]
  · rw [(nodeMap_some hsource).2, hsource]

theorem mem_link {adjacency : Dict Id (List (GraphEdge Id × GraphNode Id))}
    {neighbour other : GraphEdge Id × GraphNode Id} :
    other ∈ (link adjacency id neighbour).getD a [] ↔
      other ∈ adjacency.getD a [] ∨ id = a ∧ other = neighbour := by
  unfold link Dict.getD
  rw [Dict.get?_set]
  by_cases heq : a = id
  · rw [if_pos heq, heq, Option.getD_some, List.mem_append, List.mem_singleton]
    simp
  · rw [if_neg heq]
    simp [Ne.symm heq]

/-- The neighbours of an id are the nodes that an edge joins it with. -/
theorem mem_neighbours : (edge, node) ∈ graph.neighbours a ↔ Joins graph a edge node := by
  have hfold (edges : List (GraphEdge Id))
      (adjacency : Dict Id (List (GraphEdge Id × GraphNode Id))) :
      (edge, node) ∈ (edges.foldl (fun adjacency edge =>
        match graph.nodeMap.get? edge.source, graph.nodeMap.get? edge.target with
        | some source, some target =>
          link (link adjacency source.id (edge, target)) target.id (edge, source)
        | _, _ => adjacency) adjacency).getD a [] ↔
      (edge, node) ∈ adjacency.getD a [] ∨ edge ∈ edges ∧ Ends graph a edge node := by
    induction edges generalizing adjacency with
    | nil => simp
    | cons first edges ih =>
      rw [List.foldl_cons, ih, List.mem_cons, or_and_right, ← or_assoc]
      refine or_congr_left ?_
      split
      · next source target hsource htarget =>
        rw [mem_link, mem_link, (nodeMap_some hsource).2, (nodeMap_some htarget).2,
          Prod.mk.injEq, Prod.mk.injEq, or_assoc]
        refine or_congr_right ⟨?_, ?_⟩
        · rintro (⟨hid, rfl, rfl⟩ | ⟨hid, rfl, rfl⟩)
          · exact ⟨rfl, source, node, hsource, htarget, .inl ⟨hid, rfl⟩⟩
          · exact ⟨rfl, node, target, hsource, htarget, .inr ⟨hid, rfl⟩⟩
        · rintro ⟨rfl, source', target', hsource', htarget', hends⟩
          cases hsource.symm.trans hsource'
          cases htarget.symm.trans htarget'
          exact hends.imp (fun h => ⟨h.1, rfl, h.2⟩) fun h => ⟨h.1, rfl, h.2⟩
      · next hnone =>
        refine ⟨.inl, fun h => h.resolve_right ?_⟩
        rintro ⟨rfl, source, target, hsource, htarget, -⟩
        exact hnone source target hsource htarget
  unfold KnowledgeGraphResponse.neighbours KnowledgeGraphResponse.adjacency
  rw [hfold]
  exact ⟨fun h => h.resolve_left List.not_mem_nil, .inr⟩

end Neighbours

/-! ## The loops -/

section Loops

variable [DecidableEq Id] {graph : KnowledgeGraphResponse Id}

/-- The edges of the person's nodes, in the order in which they are visited. -/
def KnowledgeGraphResponse.reached (graph : KnowledgeGraphResponse Id) (person : Id) :
    List (Id × GraphEdge Id × GraphNode Id) :=
  (graph.identities person).flatMap fun id => (graph.neighbours id).map fun neighbour =>
    (id, neighbour)

theorem foldl_addSome {α β : Type} (key : α → Id) (f : β → Option α) (l : List β)
    (items : List α) :
    l.foldl (fun items b => addSome key items (f b)) items =
      (l.filterMap f).foldl (addFirst key) items := by
  induction l generalizing items with
  | nil => rfl
  | cons b l ih =>
    rw [List.foldl_cons, ih, List.filterMap_cons]
    cases f b <;> rfl

/-- The three lists are filled independently. -/
theorem foldl_visit (stream : List (Id × GraphEdge Id × GraphNode Id))
    (context : PersonContext Id) :
    stream.foldl (fun context x => visit x.1 context x.2) context =
      { context with
        tasks := (stream.filterMap fun x => directTask x.2.1 x.2.2).foldl
          (addFirst (·.node.id)) context.tasks
        events := (stream.filterMap fun x => directEvent x.2.1 x.2.2).foldl
          (addFirst (·.node.id)) context.events
        decisions := (stream.filterMap fun x => directDecision x.1 x.2.1 x.2.2).foldl
          (addFirst (·.node.id)) context.decisions } := by
  rw [← foldl_addSome, ← foldl_addSome, ← foldl_addSome]
  induction stream generalizing context with
  | nil => rfl
  | cons x stream ih => exact ih _

theorem foldl_reached (person : Id) (context : PersonContext Id) :
    (graph.identities person).foldl (fun context id =>
        (graph.neighbours id).foldl (visit id) context) context =
      (graph.reached person).foldl (fun context x => visit x.1 context x.2) context := by
  unfold KnowledgeGraphResponse.reached
  induction graph.identities person generalizing context with
  | nil => rfl
  | cons id ids ih =>
    rw [List.foldl_cons, ih, List.flatMap_cons, List.foldl_append, List.foldl_map]

/-- The decisions that the edges of a task or an event lead to. -/
def linkedDecisions (graph : KnowledgeGraphResponse Id) (activity : PersonActivity Id) :
    List (PersonDecision Id) :=
  (graph.neighbours activity.node.id).filterMap fun x => linkedDecision activity x.1 x.2

/-- A task's decisions are added to it and to those of the person. -/
theorem foldlM_followEdge_task {activity : PersonActivity Id} (htask : activity.node.isTask = true)
    {own : List (PersonDecision Id)} (hown : activity.decisions = some own)
    (neighbours : List (GraphEdge Id × GraphNode Id)) (decisions : List (PersonDecision Id)) :
    neighbours.foldlM followEdge (activity, decisions) =
      some ({ activity with
        decisions := some ((neighbours.filterMap fun x => linkedDecision activity x.1 x.2).foldl
          (addFirst (·.node.id)) own) },
        (neighbours.filterMap fun x => linkedDecision activity x.1 x.2).foldl
          (addFirst (·.node.id)) decisions) := by
  induction neighbours generalizing activity own decisions with
  | nil =>
    cases activity
    cases hown
    rfl
  | cons neighbour neighbours ih =>
    rw [List.foldlM_cons, List.filterMap_cons]
    cases hlinked : linkedDecision activity neighbour.1 neighbour.2 with
    | none =>
      have hstep : followEdge (activity, decisions) neighbour = some (activity, decisions) := by
        unfold followEdge
        rw [hlinked]
      rw [hstep]
      exact ih htask hown decisions
    | some decision =>
      have hstep : followEdge (activity, decisions) neighbour =
          some ({ activity with decisions := some (addFirst (·.node.id) own decision) },
            addFirst (·.node.id) decisions decision) := by
        unfold followEdge
        rw [hlinked]
        dsimp only
        rw [if_pos htask, hown, Option.map_some]
      rw [hstep]
      have hnode : ({ activity with
          decisions := some (addFirst (·.node.id) own decision) } : PersonActivity Id).node.isTask =
            true := htask
      exact ih hnode rfl _

/-- The decisions of an event are added to those of the person. -/
theorem foldlM_followEdge_event {activity : PersonActivity Id}
    (hevent : activity.node.isTask = false) (neighbours : List (GraphEdge Id × GraphNode Id))
    (decisions : List (PersonDecision Id)) :
    neighbours.foldlM followEdge (activity, decisions) =
      some (activity, (neighbours.filterMap fun x => linkedDecision activity x.1 x.2).foldl
        (addFirst (·.node.id)) decisions) := by
  induction neighbours generalizing decisions with
  | nil => rfl
  | cons neighbour neighbours ih =>
    rw [List.foldlM_cons, List.filterMap_cons]
    cases hlinked : linkedDecision activity neighbour.1 neighbour.2 with
    | none =>
      have hstep : followEdge (activity, decisions) neighbour = some (activity, decisions) := by
        unfold followEdge
        rw [hlinked]
      rw [hstep]
      exact ih decisions
    | some decision =>
      have hstep : followEdge (activity, decisions) neighbour =
          some (activity, addFirst (·.node.id) decisions decision) := by
        unfold followEdge
        rw [hlinked]
        dsimp only
        rw [hevent]
        rfl
      rw [hstep]
      exact ih _

/-- A task with the decisions that its edges lead to. -/
def withDecisions (graph : KnowledgeGraphResponse Id) (task : PersonActivity Id) :
    PersonActivity Id :=
  { task with
    decisions := task.decisions.map fun own =>
      (linkedDecisions graph task).foldl (addFirst (·.node.id)) own }

theorem follow_tasks {tasks : List (PersonActivity Id)}
    (htasks : ∀ task ∈ tasks, task.node.isTask = true ∧ task.decisions.isSome)
    (decisions : List (PersonDecision Id)) :
    follow graph tasks decisions = some (tasks.map (withDecisions graph),
      (tasks.flatMap (linkedDecisions graph)).foldl (addFirst (·.node.id)) decisions) := by
  induction tasks generalizing decisions with
  | nil => rfl
  | cons task tasks ih =>
    obtain ⟨htask, hsome⟩ := htasks task (List.mem_cons_self ..)
    obtain ⟨own, hown⟩ := Option.isSome_iff_exists.mp hsome
    have hrest := ih fun task' hmem => htasks task' (List.mem_cons_of_mem _ hmem)
    rw [follow, foldlM_followEdge_task htask hown, Option.bind_eq_bind, Option.bind_some]
    dsimp only
    rw [hrest, List.flatMap_cons, List.foldl_append, List.map_cons]
    unfold withDecisions
    rw [hown]
    rfl

theorem follow_events {events : List (PersonActivity Id)}
    (hevents : ∀ event ∈ events, event.node.isTask = false)
    (decisions : List (PersonDecision Id)) :
    follow graph events decisions = some (events,
      (events.flatMap (linkedDecisions graph)).foldl (addFirst (·.node.id)) decisions) := by
  induction events generalizing decisions with
  | nil => rfl
  | cons event events ih =>
    have hrest := ih fun event' hmem => hevents event' (List.mem_cons_of_mem _ hmem)
    rw [follow, foldlM_followEdge_event (hevents event (List.mem_cons_self ..)),
      Option.bind_eq_bind, Option.bind_some]
    dsimp only
    rw [hrest, List.flatMap_cons, List.foldl_append]
    rfl

end Loops

/-! ## What is shown -/

section Shown

variable [DecidableEq Id] {graph : KnowledgeGraphResponse Id} {person a : Id}
  {node activity : GraphNode Id}

/-- The id is that of a node recorded as the person. -/
def IsPerson (graph : KnowledgeGraphResponse Id) (person a : Id) : Prop :=
  ∃ node ∈ graph.nodes, node.id = a ∧ node.directoryKind = some "Person".toList ∧
    node.directoryId = some person

/-- The person is assigned to the task or works on it. -/
def Tasked (graph : KnowledgeGraphResponse Id) (person : Id) (node : GraphNode Id) : Prop :=
  node.isTask = true ∧ ∃ a edge, IsPerson graph person a ∧ Joins graph a edge node ∧
    edge.relates [.assignedTo, .worksOn] = true

/-- The person took part in the event. -/
def Attended (graph : KnowledgeGraphResponse Id) (person : Id) (node : GraphNode Id) : Prop :=
  node.isEvent = true ∧ ∃ a edge, IsPerson graph person a ∧ Joins graph a edge node ∧
    edge.relates [.participatedIn] = true

/-- The person is connected with the decision. -/
def Recorded (graph : KnowledgeGraphResponse Id) (person : Id) (node : GraphNode Id) : Prop :=
  node.isDecision = true ∧ ∃ a edge, IsPerson graph person a ∧ Joins graph a edge node ∧
    (edge.relates [.created] = true ∧ edge.source = a ∨
      edge.relates [.relatedTo, .decidedIn] = true)

/-- The task or event is connected with the decision. -/
def Leads (graph : KnowledgeGraphResponse Id) (activity node : GraphNode Id) : Prop :=
  node.isDecision = true ∧ ∃ edge, Joins graph activity.id edge node ∧
    (activity.kind = "Meeting".toList ∧ activity.material = true ∧
        edge.relates [.mentionedIn] = true ∨
      edge.relates (if activity.isTask then [.relatedTo, .resultedIn]
        else [.decidedIn, .resultedIn]) = true)

theorem mem_identities : a ∈ graph.identities person ↔ IsPerson graph person a := by
  unfold KnowledgeGraphResponse.identities IsPerson
  have hfirsts (l : List Id) : a ∈ firsts id [] l ↔ a ∈ l := by
    have hmem : a ∈ (firsts id [] l).map id ↔ a ∈ l.map id ∧ a ∉ [] := mem_map_firsts
    rwa [List.map_id, List.map_id, and_iff_left List.not_mem_nil] at hmem
  rw [hfirsts]
  simp only [List.mem_map, List.mem_filter, Bool.and_eq_true, decide_eq_true_eq]
  constructor
  · rintro ⟨node, ⟨hmem, hkind, hid⟩, rfl⟩
    exact ⟨node, hmem, rfl, hkind, hid⟩
  · rintro ⟨node, hmem, rfl, hkind, hid⟩
    exact ⟨node, ⟨hmem, hkind, hid⟩, rfl⟩

theorem mem_reached {x : Id × GraphEdge Id × GraphNode Id} :
    x ∈ graph.reached person ↔
      IsPerson graph person x.1 ∧ Joins graph x.1 x.2.1 x.2.2 := by
  unfold KnowledgeGraphResponse.reached
  simp only [List.mem_flatMap, List.mem_map]
  constructor
  · rintro ⟨a, ha, neighbour, hneighbour, rfl⟩
    exact ⟨mem_identities.mp ha, mem_neighbours.mp hneighbour⟩
  · rintro ⟨hperson, hjoins⟩
    exact ⟨x.1, mem_identities.mpr hperson, x.2, mem_neighbours.mpr hjoins, rfl⟩

/-- The node of an entry is the one under its id. -/
def Canonical {α : Type} (graph : KnowledgeGraphResponse Id) (entryNode : α → GraphNode Id)
    (l : List α) : Prop :=
  ∀ entry ∈ l, graph.nodeMap.get? (entryNode entry).id = some (entryNode entry)

/-- Adding entries one by one loses no node. -/
theorem mem_foldl_addFirst {α : Type} {entryNode : α → GraphNode Id} {items l : List α}
    (hitems : Canonical graph entryNode items) (hl : Canonical graph entryNode l) :
    node ∈ (l.foldl (addFirst fun entry => (entryNode entry).id) items).map entryNode ↔
      node ∈ items.map entryNode ∨ node ∈ l.map entryNode := by
  rw [foldl_addFirst, List.map_append, List.mem_append]
  refine ⟨Or.imp_right fun h => ?_, ?_⟩
  · exact List.map_subset _ (firsts_sublist ..).subset h
  · rintro (h | h)
    · exact .inl h
    · obtain ⟨entry, hentry, rfl⟩ := List.mem_map.mp h
      have hsame {other : α} (hother : graph.nodeMap.get? (entryNode other).id =
          some (entryNode other)) (hid : (entryNode other).id = (entryNode entry).id) :
          entryNode other = entryNode entry := by
        rw [hid, hl entry hentry, Option.some.injEq] at hother
        exact hother.symm
      by_cases hseen : (entryNode entry).id ∈ items.map fun entry => (entryNode entry).id
      · obtain ⟨other, hother, hid⟩ := List.mem_map.mp hseen
        exact .inl (List.mem_map.mpr ⟨other, hother, hsame (hitems other hother) hid⟩)
      · have hkey : (entryNode entry).id ∈ (firsts (fun entry => (entryNode entry).id)
            (items.map fun entry => (entryNode entry).id) l).map fun entry =>
              (entryNode entry).id :=
          mem_map_firsts.mpr ⟨List.mem_map_of_mem hentry, hseen⟩
        obtain ⟨other, hother, hid⟩ := List.mem_map.mp hkey
        exact .inr (List.mem_map.mpr
          ⟨other, hother, hsame (hl other (mem_of_mem_firsts hother)) hid⟩)

omit [DecidableEq Id] in
/-- The entries that are made of some elements, by their nodes. -/
theorem mem_map_filterMap {α β : Type} {l : List β} (f : β → Option α)
    (entryNode : α → GraphNode Id) (g : β → GraphNode Id)
    (hnode : ∀ x entry, f x = some entry → entryNode entry = g x) :
    node ∈ (l.filterMap f).map entryNode ↔ ∃ x ∈ l, g x = node ∧ (f x).isSome = true := by
  simp only [List.mem_map, List.mem_filterMap]
  constructor
  · rintro ⟨entry, ⟨x, hx, hentry⟩, rfl⟩
    exact ⟨x, hx, (hnode x entry hentry).symm, Option.isSome_of_eq_some hentry⟩
  · rintro ⟨x, hx, rfl, hsome⟩
    obtain ⟨entry, hentry⟩ := Option.isSome_iff_exists.mp hsome
    exact ⟨entry, ⟨x, hx, hentry⟩, hnode x entry hentry⟩

/-- `tasks` before the second loop. -/
def foundTasks (graph : KnowledgeGraphResponse Id) (person : Id) : List (PersonActivity Id) :=
  (graph.reached person).filterMap fun x => directTask x.2.1 x.2.2

/-- What is added to `events`. -/
def foundEvents (graph : KnowledgeGraphResponse Id) (person : Id) : List (PersonActivity Id) :=
  (graph.reached person).filterMap fun x => directEvent x.2.1 x.2.2

/-- What the first loop adds to `decisions`. -/
def foundDecisions (graph : KnowledgeGraphResponse Id) (person : Id) : List (PersonDecision Id) :=
  (graph.reached person).filterMap fun x => directDecision x.1 x.2.1 x.2.2

omit [DecidableEq Id] in
theorem directTask_some {edge : GraphEdge Id} {entry : PersonActivity Id}
    (h : directTask edge node = some entry) : entry.node = node ∧ entry.decisions = some [] := by
  unfold directTask at h
  split at h
  · cases h
    exact ⟨rfl, rfl⟩
  · cases h

omit [DecidableEq Id] in
theorem directEvent_some {edge : GraphEdge Id} {entry : PersonActivity Id}
    (h : directEvent edge node = some entry) : entry.node = node := by
  unfold directEvent at h
  split at h
  · cases h
    rfl
  · cases h

theorem directDecision_some {edge : GraphEdge Id} {entry : PersonDecision Id}
    (h : directDecision a edge node = some entry) : entry.node = node ∧ entry.via = none := by
  unfold directDecision at h
  split_ifs at h
  all_goals
    cases h
    exact ⟨rfl, rfl⟩

omit [DecidableEq Id] in
theorem linkedDecision_some {edge : GraphEdge Id} {via : PersonActivity Id}
    {entry : PersonDecision Id} (h : linkedDecision via edge node = some entry) :
    entry.node = node ∧ entry.via = some via.node := by
  unfold linkedDecision at h
  dsimp only at h
  split_ifs at h
  all_goals
    cases h
    exact ⟨rfl, rfl⟩

theorem mem_foundTasks :
    node ∈ (foundTasks graph person).map (·.node) ↔ Tasked graph person node := by
  have hmem : node ∈ (foundTasks graph person).map (·.node) ↔ ∃ x ∈ graph.reached person,
      x.2.2 = node ∧ (directTask x.2.1 x.2.2).isSome = true :=
    mem_map_filterMap _ _ _ fun x entry h => (directTask_some h).1
  rw [hmem]
  have hsome (edge : GraphEdge Id) : (directTask edge node).isSome = true ↔
      node.isTask = true ∧ edge.relates [.assignedTo, .worksOn] = true := by
    unfold directTask
    rw [Option.isSome_ite, Bool.and_eq_true]
  constructor
  · rintro ⟨x, hx, rfl, h⟩
    obtain ⟨hperson, hjoins⟩ := mem_reached.mp hx
    obtain ⟨htask, hrelates⟩ := (hsome _).mp h
    exact ⟨htask, x.1, x.2.1, hperson, hjoins, hrelates⟩
  · rintro ⟨htask, a, edge, hperson, hjoins, hrelates⟩
    exact ⟨(a, edge, node), mem_reached.mpr ⟨hperson, hjoins⟩, rfl,
      (hsome edge).mpr ⟨htask, hrelates⟩⟩

theorem mem_foundEvents :
    node ∈ (foundEvents graph person).map (·.node) ↔ Attended graph person node := by
  have hmem : node ∈ (foundEvents graph person).map (·.node) ↔ ∃ x ∈ graph.reached person,
      x.2.2 = node ∧ (directEvent x.2.1 x.2.2).isSome = true :=
    mem_map_filterMap _ _ _ fun x entry h => directEvent_some h
  rw [hmem]
  have hsome (edge : GraphEdge Id) : (directEvent edge node).isSome = true ↔
      node.isEvent = true ∧ edge.relates [.participatedIn] = true := by
    unfold directEvent
    rw [Option.isSome_ite, Bool.and_eq_true]
  constructor
  · rintro ⟨x, hx, rfl, h⟩
    obtain ⟨hperson, hjoins⟩ := mem_reached.mp hx
    obtain ⟨hevent, hrelates⟩ := (hsome _).mp h
    exact ⟨hevent, x.1, x.2.1, hperson, hjoins, hrelates⟩
  · rintro ⟨hevent, a, edge, hperson, hjoins, hrelates⟩
    exact ⟨(a, edge, node), mem_reached.mpr ⟨hperson, hjoins⟩, rfl,
      (hsome edge).mpr ⟨hevent, hrelates⟩⟩

theorem mem_foundDecisions :
    node ∈ (foundDecisions graph person).map (·.node) ↔ Recorded graph person node := by
  have hmem : node ∈ (foundDecisions graph person).map (·.node) ↔ ∃ x ∈ graph.reached person,
      x.2.2 = node ∧ (directDecision x.1 x.2.1 x.2.2).isSome = true :=
    mem_map_filterMap _ _ _ fun x entry h => (directDecision_some h).1
  rw [hmem]
  have hsome (a : Id) (edge : GraphEdge Id) : (directDecision a edge node).isSome = true ↔
      node.isDecision = true ∧ (edge.relates [.created] = true ∧ edge.source = a ∨
        edge.relates [.relatedTo, .decidedIn] = true) := by
    unfold directDecision
    split_ifs with h h'
    · simp only [Bool.and_eq_true, decide_eq_true_eq] at h
      exact ⟨fun _ => ⟨h.1.1, .inl ⟨h.1.2, h.2⟩⟩, fun _ => rfl⟩
    · simp only [Bool.and_eq_true] at h'
      exact ⟨fun _ => ⟨h'.1, .inr h'.2⟩, fun _ => rfl⟩
    · simp only [Bool.and_eq_true, decide_eq_true_eq] at h h'
      refine ⟨fun hnone => (by cases hnone), ?_⟩
      rintro ⟨hdecision, ⟨hcreated, hsource⟩ | hrelates⟩
      · exact absurd ⟨⟨hdecision, hcreated⟩, hsource⟩ h
      · exact absurd ⟨hdecision, hrelates⟩ h'
  constructor
  · rintro ⟨x, hx, rfl, h⟩
    obtain ⟨hperson, hjoins⟩ := mem_reached.mp hx
    obtain ⟨hdecision, hrelates⟩ := (hsome _ _).mp h
    exact ⟨hdecision, x.1, x.2.1, hperson, hjoins, hrelates⟩
  · rintro ⟨hdecision, a, edge, hperson, hjoins, hrelates⟩
    exact ⟨(a, edge, node), mem_reached.mpr ⟨hperson, hjoins⟩, rfl,
      (hsome a edge).mpr ⟨hdecision, hrelates⟩⟩

theorem mem_linkedDecisions {via : PersonActivity Id} :
    node ∈ (linkedDecisions graph via).map (·.node) ↔ Leads graph via.node node := by
  have hmem : node ∈ (linkedDecisions graph via).map (·.node) ↔
      ∃ x ∈ graph.neighbours via.node.id,
        x.2 = node ∧ (linkedDecision via x.1 x.2).isSome = true :=
    mem_map_filterMap _ _ _ fun x entry h => (linkedDecision_some h).1
  rw [hmem]
  have hsome (edge : GraphEdge Id) : (linkedDecision via edge node).isSome = true ↔
      node.isDecision = true ∧ (via.node.kind = "Meeting".toList ∧ via.node.material = true ∧
        edge.relates [.mentionedIn] = true ∨
          edge.relates (if via.node.isTask then [.relatedTo, .resultedIn]
            else [.decidedIn, .resultedIn]) = true) := by
    unfold linkedDecision meetingMention
    dsimp only
    rw [Option.isSome_ite, Bool.and_eq_true, Bool.or_eq_true, Bool.and_eq_true, Bool.and_eq_true,
      decide_eq_true_iff, and_assoc]
  constructor
  · rintro ⟨x, hx, rfl, h⟩
    obtain ⟨hdecision, hleads⟩ := (hsome _).mp h
    exact ⟨hdecision, x.1, mem_neighbours.mp hx, hleads⟩
  · rintro ⟨hdecision, edge, hjoins, hleads⟩
    exact ⟨(edge, node), mem_neighbours.mpr hjoins, rfl, (hsome edge).mpr ⟨hdecision, hleads⟩⟩

theorem canonical_of_joins {α : Type} {entryNode : α → GraphNode Id} {l : List α}
    (h : ∀ entry ∈ l, ∃ a edge, Joins graph a edge (entryNode entry)) :
    Canonical graph entryNode l := by
  intro entry hentry
  obtain ⟨a, edge, hjoins⟩ := h entry hentry
  exact hjoins.nodeMap

theorem canonical_foundTasks : Canonical graph (·.node) (foundTasks graph person) := by
  refine canonical_of_joins fun entry hentry => ?_
  obtain ⟨-, a, edge, -, hjoins, -⟩ := mem_foundTasks.mp (List.mem_map_of_mem hentry)
  exact ⟨a, edge, hjoins⟩

theorem canonical_foundEvents : Canonical graph (·.node) (foundEvents graph person) := by
  refine canonical_of_joins fun entry hentry => ?_
  obtain ⟨-, a, edge, -, hjoins, -⟩ := mem_foundEvents.mp (List.mem_map_of_mem hentry)
  exact ⟨a, edge, hjoins⟩

theorem canonical_foundDecisions : Canonical graph (·.node) (foundDecisions graph person) := by
  refine canonical_of_joins fun entry hentry => ?_
  obtain ⟨-, a, edge, -, hjoins, -⟩ := mem_foundDecisions.mp (List.mem_map_of_mem hentry)
  exact ⟨a, edge, hjoins⟩

theorem canonical_linkedDecisions {via : PersonActivity Id} :
    Canonical graph (·.node) (linkedDecisions graph via) := by
  refine canonical_of_joins fun entry hentry => ?_
  obtain ⟨-, edge, hjoins, -⟩ := mem_linkedDecisions.mp (List.mem_map_of_mem hentry)
  exact ⟨via.node.id, edge, hjoins⟩

theorem canonical_nil {α : Type} {entryNode : α → GraphNode Id} :
    Canonical graph entryNode [] := nofun

/-- The tasks, the events and the person's own decisions that the first loop finds. -/
def shownTasks (graph : KnowledgeGraphResponse Id) (person : Id) : List (PersonActivity Id) :=
  (foundTasks graph person).foldl (addFirst (·.node.id)) []

def shownEvents (graph : KnowledgeGraphResponse Id) (person : Id) : List (PersonActivity Id) :=
  (foundEvents graph person).foldl (addFirst (·.node.id)) []

def ownDecisions (graph : KnowledgeGraphResponse Id) (person : Id) : List (PersonDecision Id) :=
  (foundDecisions graph person).foldl (addFirst (·.node.id)) []

/-- The decisions that the second loop adds. -/
def laterDecisions (graph : KnowledgeGraphResponse Id) (person : Id) :
    List (PersonDecision Id) :=
  (shownTasks graph person ++ shownEvents graph person).flatMap (linkedDecisions graph)

theorem mem_shownTasks :
    node ∈ (shownTasks graph person).map (·.node) ↔ Tasked graph person node := by
  unfold shownTasks
  rw [mem_foldl_addFirst canonical_nil canonical_foundTasks, mem_foundTasks]
  exact or_iff_right List.not_mem_nil

theorem mem_shownEvents :
    node ∈ (shownEvents graph person).map (·.node) ↔ Attended graph person node := by
  unfold shownEvents
  rw [mem_foldl_addFirst canonical_nil canonical_foundEvents, mem_foundEvents]
  exact or_iff_right List.not_mem_nil

theorem mem_ownDecisions :
    node ∈ (ownDecisions graph person).map (·.node) ↔ Recorded graph person node := by
  unfold ownDecisions
  rw [mem_foldl_addFirst canonical_nil canonical_foundDecisions, mem_foundDecisions]
  exact or_iff_right List.not_mem_nil

/-- A later decision is one that a task or an event of the person leads to. -/
theorem mem_laterDecisions {entry : PersonDecision Id} (h : entry ∈ laterDecisions graph person) :
    ∃ activity, entry.via = some activity ∧
      (Tasked graph person activity ∨ Attended graph person activity) ∧
        Leads graph activity entry.node := by
  obtain ⟨via, hvia, hentry⟩ := List.mem_flatMap.mp h
  obtain ⟨x, hx, hlinked⟩ := List.mem_filterMap.mp hentry
  refine ⟨via.node, (linkedDecision_some hlinked).2, ?_,
    mem_linkedDecisions.mp (List.mem_map_of_mem hentry)⟩
  rcases List.mem_append.mp hvia with hvia | hvia
  · exact .inl (mem_shownTasks.mp (List.mem_map_of_mem hvia))
  · exact .inr (mem_shownEvents.mp (List.mem_map_of_mem hvia))

theorem canonical_laterDecisions : Canonical graph (·.node) (laterDecisions graph person) := by
  intro entry hentry
  obtain ⟨via, -, hentry⟩ := List.mem_flatMap.mp hentry
  exact canonical_linkedDecisions entry hentry

/-- Everything that a task or an event of the person leads to is a later decision. -/
theorem node_mem_laterDecisions
    (hactivity : Tasked graph person activity ∨ Attended graph person activity)
    (hleads : Leads graph activity node) :
    node ∈ (laterDecisions graph person).map (·.node) := by
  have hshown : activity ∈
      (shownTasks graph person ++ shownEvents graph person).map (·.node) := by
    rw [List.map_append, List.mem_append, mem_shownTasks, mem_shownEvents]
    exact hactivity
  obtain ⟨via, hvia, rfl⟩ := List.mem_map.mp hshown
  obtain ⟨entry, hentry, rfl⟩ := List.mem_map.mp (mem_linkedDecisions.mpr hleads)
  exact List.mem_map_of_mem (List.mem_flatMap.mpr ⟨via, hvia, hentry⟩)

/-- All decisions of the person, each of them once. -/
def shownDecisions (graph : KnowledgeGraphResponse Id) (person : Id) :
    List (PersonDecision Id) :=
  (laterDecisions graph person).foldl (addFirst (·.node.id)) (ownDecisions graph person)

theorem mem_shownDecisions : node ∈ (shownDecisions graph person).map (·.node) ↔
    Recorded graph person node ∨ ∃ activity,
      (Tasked graph person activity ∨ Attended graph person activity) ∧
        Leads graph activity node := by
  have hcanonical : Canonical graph (·.node) (ownDecisions graph person) := by
    intro entry hentry
    obtain ⟨-, a, edge, -, hjoins, -⟩ := mem_ownDecisions.mp (List.mem_map_of_mem hentry)
    exact hjoins.nodeMap
  unfold shownDecisions
  rw [mem_foldl_addFirst hcanonical canonical_laterDecisions, mem_ownDecisions]
  refine or_congr_right ⟨fun h => ?_, fun ⟨activity, hactivity, hleads⟩ =>
    node_mem_laterDecisions hactivity hleads⟩
  obtain ⟨entry, hentry, rfl⟩ := List.mem_map.mp h
  obtain ⟨activity, -, hactivity, hleads⟩ := mem_laterDecisions hentry
  exact ⟨activity, hactivity, hleads⟩

/-- No task is an event. -/
def TasksApart (graph : KnowledgeGraphResponse Id) : Prop :=
  ∀ node ∈ graph.nodes, node.isTask = true → node.isEvent = false

/-- Where no task is an event, the context is made of these. -/
theorem buildPersonContext_eq (hapart : TasksApart graph) (person : WorkspacePerson Id)
    (projects : List (WorkspaceProject Id)) :
    buildPersonContext person projects (some graph) = some {
      projects := personProjects person projects
      tasks := (shownTasks graph person.id).map (withDecisions graph)
      events := shownEvents graph person.id
      decisions := shownDecisions graph person.id } := by
  have htasks : ∀ task ∈ shownTasks graph person.id,
      task.node.isTask = true ∧ task.decisions.isSome := by
    intro task hmem
    refine ⟨(mem_shownTasks.mp (List.mem_map_of_mem hmem)).1, ?_⟩
    unfold shownTasks at hmem
    rw [foldl_addFirst, List.nil_append] at hmem
    obtain ⟨x, -, hx⟩ := List.mem_filterMap.mp (mem_of_mem_firsts hmem)
    rw [(directTask_some hx).2]
    rfl
  have hevents : ∀ event ∈ shownEvents graph person.id, event.node.isTask = false := by
    intro event hmem
    obtain ⟨hevent, a, edge, -, hjoins, -⟩ := mem_shownEvents.mp (List.mem_map_of_mem hmem)
    refine Bool.eq_false_iff.mpr fun htask => ?_
    rw [hapart _ (nodeMap_some hjoins.nodeMap).1 htask] at hevent
    cases hevent
  have hfirst : (graph.identities person.id).foldl (fun context id =>
        (graph.neighbours id).foldl (visit id) context)
          ⟨personProjects person projects, [], [], []⟩ =
      ⟨personProjects person projects, shownTasks graph person.id, ownDecisions graph person.id,
        shownEvents graph person.id⟩ := by
    rw [foldl_reached, foldl_visit]
    rfl
  unfold buildPersonContext
  dsimp only
  rw [hfirst]
  dsimp only
  rw [follow_tasks htasks, Option.bind_eq_bind, Option.bind_some]
  dsimp only
  rw [follow_events hevents, Option.bind_some]
  dsimp only
  rw [← List.foldl_append, ← List.flatMap_append]
  rfl

/-- The meeting, and a decision that its material mentions. -/
def meeting : GraphNode ℕ :=
  ⟨1, "event".toList, "Meeting".toList, [], 2, [], none, true, some 4, none, none⟩

def mentioned : GraphNode ℕ :=
  ⟨2, "decision".toList, "Decision".toList, [], 1, [], none, false, none, none, none⟩

end Shown

end Maeglagi.KnowledgeGraph
