import Maeglagi.Core.Calls
import Maeglagi.Demo.Rows

/-!
# Cloning the demo

`clone_demo` commits a graph and then rows under an id that is fixed for the owner and the
demo, and takes the graph back when the rows are not committed.
-/

namespace Maeglagi.Demo

open Core

variable {U : Type} [DecidableEq U]

/-- What an attempt raises. -/
inductive Failure where
  | cloneUnavailable (message : String)
  | call
  | valueError
  deriving DecidableEq, Repr

/-- The tables that are read, one query each. -/
inductive Table where
  | people | projects | members | sources | sourceProjects | sourcePeople | chunks | contexts
  | stores
  deriving DecidableEq, Repr

/-- The calls of an attempt, each made at most once. -/
inductive Call where
  | lock
  | getTarget
  | listSources
  | readTable (table : Table)
  | verifyConnectivity
  | readNodes
  | readEdges
  | flush (number : Nat)
  | beginGraph
  | countGraph
  | createNode (number : Nat)
  | createEdge (number : Nat)
  | commitGraph
  | commit
  | rollback
  | verify
  | deleteGraph
  deriving DecidableEq, Repr

/-- What is stored under the target id: the committed rows and graph. The last field notes, for
each deletion of the graph, whether the rows were committed. -/
structure Stores (U : Type) where
  rows : Option (Rows U)
  graph : Graph
  deletions : List Bool
  deriving DecidableEq

/-- Nothing is stored under the target id. -/
def Stores.empty : Stores U := ⟨none, ⟨[], []⟩, []⟩

/-- An attempt, or a part of it. -/
abbrev Step (U α : Type) : Type := Calls Call (Stores U) Failure α

/-- The calls that read the published demo. -/
def readCalls (connected : Bool) : List Call :=
  [.readTable .people, .readTable .projects, .readTable .members, .readTable .sources,
    .readTable .sourceProjects, .readTable .sourcePeople, .readTable .chunks,
    .readTable .contexts, .readTable .stores] ++
    if connected then [.verifyConnectivity, .readNodes, .readEdges] else []

/-- The graph that is read, if a graph store is configured. -/
def readGraph (demo : Published U) (connected : Bool) : Graph :=
  if connected then demo.graph else ⟨[], []⟩

/-- `copy_graph` -/
def copyGraph (graph : Graph) : Bool := !(graph.nodes.isEmpty && graph.edges.isEmpty)

/-- Raise unless the condition holds. -/
def require (condition : Bool) (message : String) : Except Failure Unit :=
  if condition then .ok () else .error (.cloneUnavailable message)

/-- A text that is there names one of the ids. -/
def namesOne (names : List Text) (value : Option Text) : Bool :=
  value.all fun t => decide (t = []) || decide (t ∈ names)

/-- The demo has the size it is published with. -/
def Published.sized (demo : Published U) (graph : Graph) : Bool :=
  decide (demo.sources.length = 3) && decide (demo.chunks.length = 7) &&
    decide (demo.contexts.length = 6) && decide (demo.stores.length = 1) &&
    decide (demo.people.length = 2) && decide (demo.projects.length = 1) &&
    (!copyGraph graph || decide (graph.nodes.length = 7) && decide (graph.edges.length = 8)) &&
    demo.sources.any (fun s => decide (s.kind = .meeting)) && demo.workspace.demoSeed

/-- All rows have the owner of the demo. -/
def Published.ownedAlike (demo : Published U) : Bool :=
  let owner := demo.workspace.ownerId
  demo.people.all (fun row => decide (row.ownerId = owner)) &&
    demo.projects.all (fun row => decide (row.ownerId = owner)) &&
    demo.sources.all (fun row => decide (row.ownerId = owner)) &&
    demo.chunks.all (fun row => decide (row.ownerId = owner)) &&
    demo.contexts.all (fun row => decide (row.ownerId = owner)) &&
    demo.stores.all fun row => decide (row.ownerId = owner)

/-- The source is normalized text that is processed. -/
def SourceRow.normalized (source : SourceRow U) : Bool :=
  decide (source.contentType = "text/plain".toList) &&
    "public-demo-text/".toList.isPrefixOf source.objectPath &&
    source.contentText.any (fun t => decide (t ≠ [])) &&
    decide (source.status = .succeeded) && decide (source.processingStage = .completed)

/-- The checks of `clone_demo` on what it has read. -/
def checked (ids : Ids U) (demo : Published U) (graph : Graph) : Except Failure Unit := do
  require (demo.sized graph) "Public demo is incomplete"
  require demo.ownedAlike "Public demo ownership is inconsistent"
  require (demo.sources.all SourceRow.normalized)
    "Only normalized text demo sources can be cloned"
  let sourceIds := demo.sources.map fun s => ids.str s.id
  let chunkIds := demo.chunks.map fun c => ids.str c.id
  require (demo.chunks.all (fun c => decide (ids.str c.sourceId ∈ sourceIds)) &&
      demo.contexts.all (fun c => decide (ids.str c.sourceId ∈ sourceIds) &&
        c.chunkId.all fun id => decide (ids.str id ∈ chunkIds)) &&
      (demo.stores.head?.all fun store => store.sourceIds.all fun id => decide (id ∈ sourceIds)))
    "Public demo has dangling evidence references"
  require (graph.nodes.all fun n => decide (n.sourceId ∈ sourceIds) &&
      n.sourceIds.all (fun id => decide (id ∈ sourceIds)) && namesOne chunkIds n.chunkId)
    "Public demo graph has dangling evidence references"
  let nodeIds := graph.nodes.map NodeRow.id
  require (graph.nodes.all (fun n => namesOne nodeIds n.supersededBy) &&
      graph.edges.all fun e => decide (e.source ∈ nodeIds) && decide (e.target ∈ nodeIds))
    "Public demo graph has dangling entity references"
  -- `_graph_edges`
  require (graph.edges.all fun e => decide (e.kind ∈ RelationKind.all.map RelationKind.value))
    "Unsupported demo graph relation"

/-- The statements of `_write_graph` that create nodes and edges. -/
def createCalls (graph : Graph) : List Call :=
  (List.range graph.nodes.length).map .createNode ++
    (List.range graph.edges.length).map .createEdge

/-- `_write_graph`; what it creates is stored when its transaction commits. -/
def writeGraph (ids : Ids U) (target : U) (graph : Graph) : Step U Unit := do
  .tell .beginGraph .call id
  let count ← .ask .countGraph .call fun s => s.graph.nodes.length
  if count ≠ 0 then .raise (.cloneUnavailable "Target graph already exists")
  else
    .tellAll .call (createCalls graph)
    .tell .commitGraph .call fun s => { s with
      graph := ⟨s.graph.nodes ++ (graph.copy ids target).nodes,
        s.graph.edges ++ (graph.copy ids target).edges⟩ }

/-- `_delete_graph` -/
def deleteGraph : Step U Unit :=
  .tell .deleteGraph .call fun s => { s with
    graph := ⟨[], []⟩
    deletions := s.deletions ++ [s.rows.isSome] }

/-- The handler of `clone_demo`, under the value of `graph_written`. -/
def handle {α : Type} (graphWritten : Bool) (error : Failure) : Step U α := do
  .tell .rollback .call id
  if graphWritten then
    let committed ← Calls.onRaise (.ask .verify .call fun s => s.rows.isSome) fun _ => pure true
    if committed = false then deleteGraph
  .raise error

/-- What `clone_demo` does before it commits the rows: it sends them and commits the graph. -/
def writeBefore (ids : Ids U) (target : U) (graph : Graph) : Step U Unit :=
  Calls.onRaise (do
      .tellAll .call ((List.range 6).map .flush)
      if copyGraph graph then writeGraph ids target graph)
    (handle false)

/-- The commit of the rows; `graph_written` is set once `_write_graph` has returned. -/
def commitRows (graphWritten : Bool) (rows : Rows U) : Step U Unit :=
  Calls.onRaise (.tell .commit .call fun s => { s with rows := some rows }) (handle graphWritten)

/-- The part of `clone_demo` for a target that does not exist. -/
def copyDemo (ids : Ids U) (demo : Published U) (connected : Bool) (ownerId : U)
    (now : Instant) : Step U (WorkspaceRow U × Nat) := do
  Calls.onRaise (.tellAll .call (readCalls connected)) fun _ =>
    .raise (.cloneUnavailable "Public demo data is unavailable")
  let graph := readGraph demo connected
  .of (checked ids demo graph)
  match demo.firstMeeting with
  | none => .raise .valueError
  | some first =>
    let rows := demo.toRows.copy ids ownerId now first
    writeBefore ids rows.workspace.id graph
    commitRows (copyGraph graph) rows
    return (rows.workspace, demo.sources.length + 1)

/-- `clone_demo` -/
def cloneDemo (ids : Ids U) (demo : Published U) (connected : Bool) (ownerId : U)
    (now : Instant) : Step U (WorkspaceRow U × Nat) := do
  .tell .lock .call id
  let existing ← .ask .getTarget .call Stores.rows
  match existing with
  | some rows =>
    if rows.workspace.ownerId ≠ ownerId then
      .raise (.cloneUnavailable "Clone workspace owner mismatch")
    else
      .tell .listSources .call id
      return (rows.workspace, rows.sources.length)
  | none => copyDemo ids demo connected ownerId now

end Maeglagi.Demo
