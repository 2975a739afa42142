import Maeglagi.Answer.Events
import Maeglagi.Core.Lasts
import Maeglagi.Core.Sorting
import Maeglagi.Provider.Json
import Maeglagi.Resolution.Names
import Maeglagi.Retrieval.Lexical

/-!
# Hybrid retrieval

`HybridRetriever`: the chunks nearest to the question, those of the sources that the graph points
at, and the keyword hits become one numbered list of evidence. The searches, the graph and the
table of sources are functions that may raise.
-/

namespace Maeglagi.Retrieval

open Core Answer Resolution

/-- The exceptions of a retrieval: `IngestionError`, one of an adapter, or one of a store. -/
inductive RetrieveError where
  | ingestionError (message : Text)
  | provider (e : Provider.PyException)
  | store

/-- An entity of the graph. -/
structure NamedEntity where
  name : Text
  keys : List Text
  sourceIds : List Text

/-- A relation of the graph with the sources of its ends. -/
structure FactRow where
  source : Text
  kind : Text
  target : Text
  sourceIds : List Text
  superseded : List Text

/-- `GraphNeighborhood` -/
structure GraphNeighborhood (Id : Type) where
  entities : Id → Except RetrieveError (List NamedEntity)
  facts : Id → List Text → Instant → Except RetrieveError (List FactRow)

/-- `HybridRetriever` -/
structure HybridRetriever (Id H : Type) where
  embed : Text → Except RetrieveError (List PyFloat)
  search : List PyFloat → Option (List Id) → Nat → Except RetrieveError (List (Chunk Id × PyFloat))
  loadSources : List Id → Except RetrieveError (Dict Id (Source Id H))
  graph : Option (GraphNeighborhood Id)
  lexicalSearch : Option (Text → Option (List Id) → Nat →
    Except RetrieveError (List (LexicalMatch Id)))
  vectorLimit : Nat
  graphLimit : Nat
  maxEvidence : Nat

/-- `RetrievalResult` -/
structure Retrieved (Id : Type) extends Answer.RetrievalResult Id where
  entities : List Text

/-- `EXCERPT_CHARS` -/
def excerptChars : Nat := 300

/-- `MIN_KEY_CHARS` -/
def minKeyChars : Nat := 2

variable {Id H : Type}

/-- The entities of `understand_query`: those that the question names. -/
def named (rt : Runtime Id) (question : Text) (entities : List NamedEntity) : List NamedEntity :=
  let normalized := normalizeName rt question .event
  entities.filter fun entity => entity.keys.any fun key =>
    decide (minKeyChars ≤ key.length) && decide (key <:+: normalized)

/-- What the graph adds: the sources it points at, the facts and the names of the entities. -/
structure Walk (Id : Type) where
  sources : List Id
  facts : List GraphFact
  names : List Text

/-- A row of the graph as a fact. -/
def FactRow.fact (row : FactRow) : GraphFact := ⟨row.source, row.kind, row.target, row.superseded⟩

/-- The body of `_graph_sources` that may raise. -/
def walked (rt : Runtime Id) (parseId : Text → Option Id) (graph : GraphNeighborhood Id)
    (workspaceId : Id) (question : Text) (now : Instant) : Except RetrieveError (Walk Id) := do
  let entities := named rt question (← graph.entities workspaceId)
  if entities = [] then return ⟨[], [], []⟩
  else
    let keys := sortedSet (entities.flatMap (·.keys))
    let rows ← graph.facts workspaceId keys now
    let wanted := sortedSet (entities.flatMap (·.sourceIds) ++ rows.flatMap (·.sourceIds))
    return ⟨wanted.filterMap parseId, rows.map FactRow.fact, entities.map (·.name)⟩

/-- `_graph_sources`: a failure of the graph adds nothing. -/
def HybridRetriever.graphSources (r : HybridRetriever Id H) (rt : Runtime Id)
    (parseId : Text → Option Id) (workspaceId : Id) (question : Text) (now : Instant) : Walk Id :=
  match r.graph with
  | none => ⟨[], [], []⟩
  | some graph => match walked rt parseId graph workspaceId question now with
    | .ok walk => walk
    | .error _ => ⟨[], [], []⟩

/-- The embedding of the question, if it is to be had or there is another search. -/
def HybridRetriever.embedding (r : HybridRetriever Id H) (question : Text) :
    Except RetrieveError (Option (List PyFloat)) :=
  match r.embed question with
  | .ok embedding => .ok (some embedding)
  | .error (.ingestionError message) =>
    if r.lexicalSearch.isSome then .ok none else .error (.ingestionError message)
  | .error e => .error e

/-- A search within the sources of the graph, if it points at any. -/
def searchInGraph {α : Type} (search : Option (List Id) → Except RetrieveError (List α))
    (graphSources : List Id) : Except RetrieveError (List α) :=
  match graphSources with
  | [] => .ok []
  | _ => search (some graphSources)

/-- The hits of the two vector searches. -/
def HybridRetriever.hits (r : HybridRetriever Id H) (embedding : Option (List PyFloat))
    (graphSources : List Id) : Except RetrieveError (List (Chunk Id)) :=
  match embedding with
  | none => .ok []
  | some embedding => do
    let hits ← r.search embedding none r.vectorLimit
    let inGraph ← searchInGraph (fun ids => r.search embedding ids r.graphLimit) graphSources
    return (hits ++ inGraph).map Prod.fst

/-- A chunk of a source as evidence. -/
def chunkEvidence (index : Nat) (chunk : Chunk Id) (source : Source Id H) : Evidence Id where
  source := {
    index
    sourceId := chunk.sourceId
    chunkId := some chunk.id
    kind := kindText source.kind
    title := source.title
    excerpt := (strip chunk.content).take excerptChars
    timestamp := chunk.startSeconds }
  text := (strip chunk.content).take maxText

/-- A keyword hit as evidence, not numbered yet. -/
def matchEvidence (found : LexicalMatch Id) : Evidence Id where
  source := {
    index := 0
    sourceId := found.sourceId
    chunkId := found.chunkId
    kind := found.kind
    title := found.title
    excerpt := ((strip found.text).take maxText).take excerptChars
    timestamp := found.timestamp }
  text := (strip found.text).take maxText

/-- What a piece of evidence is about. -/
def evidenceKey (evidence : Evidence Id) : Id × Option Id :=
  (evidence.source.sourceId, evidence.source.chunkId)

/-- What a keyword hit is about. -/
def matchKey (found : LexicalMatch Id) : Id × Option Id := (found.sourceId, found.chunkId)

/-- Evidence numbered from one. -/
def numbered (evidence : List (Evidence Id)) : List (Evidence Id) :=
  evidence.mapIdx fun i item => { item with source := { item.source with index := i + 1 } }

variable [DecidableEq Id]

/-- `_load_sources` -/
def loadSources (tables : Tables Id H) (workspaceId ownerId : Id) (ids : List Id) :
    Dict Id (Source Id H) :=
  Dict.collect (·.id) (tables.sources.filter fun source => decide (source.id ∈ ids) &&
    decide (source.workspaceId = workspaceId) && decide (source.ownerId = ownerId))

/-- The different chunks among the hits, and of them as many as there is evidence. -/
def ordered (limit : Nat) (hits : List (Chunk Id)) : List (Chunk Id) :=
  (firsts Chunk.id [] hits).take limit

/-- The sources of the chunks. -/
def HybridRetriever.sources (r : HybridRetriever Id H) (ordered : List (Chunk Id)) :
    Except RetrieveError (Dict Id (Source Id H)) :=
  match ordered with
  | [] => .ok Dict.empty
  | _ => r.loadSources (ordered.map Chunk.sourceId).eraseDups

/-- The sources that evidence may come from. -/
def usable (sources : Dict Id (Source Id H)) (id : Id) : Option (Source Id H) :=
  (sources.get? id).filter eligible

/-- The evidence of the chunks whose source is there. -/
def vectorEvidence (sources : Id → Option (Source Id H)) (ordered : List (Chunk Id)) :
    List (Evidence Id) :=
  (ordered.filterMap fun chunk => (sources chunk.sourceId).map fun source => (chunk, source)).mapIdx
    fun i row => chunkEvidence (i + 1) row.1 row.2

/-- The keyword hits of the two searches. -/
def keywordMatches (search : Text → Option (List Id) → Nat →
      Except RetrieveError (List (LexicalMatch Id)))
    (question : Text) (graphSources : List Id) (limit : Nat) :
    Except RetrieveError (List (LexicalMatch Id)) := do
  let found ← search question none limit
  let inGraph ← searchInGraph (fun ids => search question ids limit) graphSources
  return found ++ inGraph

/-- The keyword evidence beside the vector evidence, that of whole sources first. -/
def lexicalEvidence (evidence : List (Evidence Id)) (found : List (LexicalMatch Id)) :
    List (Evidence Id) :=
  sortBy (fun item => item.source.chunkId.isSome)
    ((firsts matchKey (evidence.map evidenceKey)
      (found.filter fun found => decide (strip found.text ≠ []))).map matchEvidence)

/-- Up to two keyword citations ahead of the vector hits, the others behind them. -/
def merged (limit : Nat) (evidence lexical : List (Evidence Id)) : List (Evidence Id) :=
  let leading := lexical.take (min 2 limit)
  numbered ((leading ++ evidence ++ lexical.drop leading.length).take limit)

/-- `HybridRetriever.retrieve` -/
def HybridRetriever.retrieve (r : HybridRetriever Id H) (rt : Runtime Id)
    (parseId : Text → Option Id) (workspaceId : Id) (question : Text) (now : Instant) :
    Except RetrieveError (Retrieved Id) := do
  let embedding ← r.embedding question
  let walk := r.graphSources rt parseId workspaceId question now
  let hits ← r.hits embedding walk.sources
  let chunks := ordered r.maxEvidence hits
  let sources ← r.sources chunks
  let evidence := vectorEvidence (usable sources) chunks
  match r.lexicalSearch with
  | none => return ⟨⟨evidence, walk.facts⟩, walk.names⟩
  | some search =>
    let found ← keywordMatches search question walk.sources r.maxEvidence
    return ⟨⟨merged r.maxEvidence evidence (lexicalEvidence evidence found), walk.facts⟩,
      walk.names⟩

end Maeglagi.Retrieval
