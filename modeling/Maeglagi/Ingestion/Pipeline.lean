import Mathlib.Data.List.Sort
import Maeglagi.Ingestion.Chunking
import Maeglagi.Provider.Embedding
import Maeglagi.Runtime
import Maeglagi.Sources.Row

/-!
# From a source to its chunks
-/

namespace Maeglagi.Ingestion

/-!
## Normalized sources

A parser yields sections and a transcription yields timed segments. Normalization brings both
into the form that the chunker reads; the segments of a transcript are sorted by their times.
-/

section

open Core

/-- `DocumentSection`: its text is stripped and not blank. -/
structure DocumentSection where
  text : Text
  strip_text : strip text = text
  text_ne_nil : text ≠ []

/-- The limits of a `TranscriptSegment` on its times. -/
def TimesFit (startSeconds endSeconds : PyFloat) : Prop :=
  startSeconds ≠ .nan ∧ endSeconds ≠ .nan ∧ startSeconds.less (.finite 0) = false ∧
    endSeconds.less startSeconds = false

instance (startSeconds endSeconds : PyFloat) : Decidable (TimesFit startSeconds endSeconds) :=
  inferInstanceAs (Decidable (_ ∧ _))

/-- `TranscriptSegment`: its text is stripped and not blank, and it does not end before it
starts. -/
structure TranscriptSegment where
  text : Text
  startSeconds : PyFloat
  endSeconds : PyFloat
  strip_text : strip text = text
  text_ne_nil : text ≠ []
  timesFit : TimesFit startSeconds endSeconds

/-- The exceptions of building and of normalizing segments. -/
inductive NormalizeError where
  | validationError
  | attributeError
  deriving DecidableEq, Repr

/-- `DocumentSection(text=...)` -/
def DocumentSection.make (text : Text) : Except NormalizeError DocumentSection :=
  if h : strip text ≠ [] then .ok ⟨strip text, strip_strip text, h⟩ else .error .validationError

/-- `TranscriptSegment(text=..., start_seconds=..., end_seconds=...)` -/
def TranscriptSegment.make (text : Text) (startSeconds endSeconds : PyFloat) :
    Except NormalizeError TranscriptSegment :=
  if h : strip text ≠ [] ∧ TimesFit startSeconds endSeconds then
    .ok ⟨strip text, startSeconds, endSeconds, strip_strip text, h.1, h.2⟩
  else .error .validationError

/-- The segments that a source is normalized from. -/
inductive RawSegments where
  | document (sections : List DocumentSection)
  | transcript (segments : List TranscriptSegment)

/-- The key that segments are sorted by. -/
def TranscriptSegment.times (segment : TranscriptSegment) : PyFloat × PyFloat :=
  (segment.startSeconds, segment.endSeconds)

/-- `DocumentNormalizer.normalize`: the fields that the chunker reads. -/
def normalizeDocument (sections : List DocumentSection) : List Segment :=
  sections.map fun part => ⟨part.text, none, none⟩

/-- `TranscriptNormalizer.normalize`: the fields that the chunker reads. -/
def normalizeTranscript (segments : List TranscriptSegment) : List Segment :=
  (segments.insertionSort fun a b => PyFloat.lessPair b.times a.times = false).map fun segment =>
    ⟨segment.text, some segment.startSeconds, some segment.endSeconds⟩

/-- The segments of the normalizer for a kind; it reads fields that segments of the other kind do
not have. -/
def normalizeSegments (kind : SourceKind) (segments : RawSegments) :
    Except NormalizeError (List Segment) :=
  match kind, segments with
  | .document, .document sections => .ok (normalizeDocument sections)
  | .meeting, .transcript segments => .ok (normalizeTranscript segments)
  | _, .document [] | _, .transcript [] => .ok []
  | _, _ => .error .attributeError

variable {Id H : Type}

/-- `NormalizationService.normalize`; the title of a source must not be blank. -/
def normalize (source : Source Id H) (segments : RawSegments) :
    Except NormalizeError (NormalizedSource Id) := do
  let segments ← normalizeSegments source.kind segments
  if strip source.title = [] then throw .validationError else return ⟨source.id, segments⟩

end

/-!
## The ingestion pipeline

`index_source` replaces the chunks of a source by new ones with their embeddings, in one session,
and `embed_query` embeds a question. The outcome of `provider_with_model`, the exchanges of the
provider and the success of the statements of the session are inputs.
-/

section

open Core Provider

/-- `ResolvedProvider` -/
structure ResolvedProvider where
  adapter : Adapter
  apiKey : Text
  model : Text

/-- The exceptions of the pipeline: `IngestionError`, `MissingCapabilityCredentialError`, those of
an adapter and of normalization, and those of the database. -/
inductive PipelineError where
  | ingestionError (message : Text)
  | missingCapability (message : Text) (selected : Bool)
  | provider (e : PyException)
  | normalize (e : NormalizeError)
  | store

/-- A row of `chunks`. -/
structure ChunkRow (Id : Type) where
  workspaceId : Id
  sourceId : Id
  ownerId : Id
  position : Nat
  content : Text
  startSeconds : Option PyFloat
  endSeconds : Option PyFloat
  embedding : Option (List PyFloat)

/-- `IngestionPipeline` -/
structure IngestionPipeline where
  chunker : CharacterOverlapChunker
  embeddingDimensions : Nat

/-- What the environment decides in a run: the outcome of `provider_with_model`, the exchanges of
the provider, and whether the database carries the statements of the session out. -/
structure Run where
  resolved : Except PipelineError ResolvedProvider
  exchanges : Exchanges
  stored : Bool

/-- `embedding_dimensions_argument` -/
def embeddingDimensionsArgument (model : Text) (dimensions : Nat) : Option Nat :=
  if "text-embedding-3".toList.isPrefixOf model then some dimensions else none

/-- `except ProviderError as exc: raise IngestionError(str(exc))` -/
def ingesting {α : Type} (x : Except PyException α) : Except PipelineError α :=
  match x with
  | .ok a => .ok a
  | .error (.providerError _ message _) => .error (.ingestionError message)
  | .error e => .error (.provider e)

theorem ingesting_eq_ok {α : Type} {x : Except PyException α} {a : α} :
    ingesting x = .ok a ↔ x = .ok a := by
  unfold ingesting
  split <;> simp

variable {Id H : Type}

/-- The chunk that a row stores. -/
def ChunkRow.chunk (row : ChunkRow Id) : SourceChunk Id :=
  ⟨row.sourceId, row.position, row.content, row.startSeconds, row.endSeconds⟩

/-- `Chunk(workspace_id=..., ...)` -/
def ChunkRow.make (source : Source Id H) (chunk : SourceChunk Id)
    (embedding : Option (List PyFloat)) : ChunkRow Id where
  workspaceId := source.workspaceId
  sourceId := source.id
  ownerId := source.ownerId
  position := chunk.position
  content := chunk.content
  startSeconds := chunk.startSeconds
  endSeconds := chunk.endSeconds
  embedding := embedding

namespace IngestionPipeline

variable (lib : Decoder) (pipeline : IngestionPipeline)

/-- The request for the embeddings of an input. -/
def request (provider : ResolvedProvider) (input : EmbeddingInput) : EmbeddingRequest :=
  ⟨input, provider.model,
    embeddingDimensionsArgument provider.model pipeline.embeddingDimensions⟩

/-- `provider.adapter.embedding(...)` -/
def embed (provider : ResolvedProvider) (input : EmbeddingInput) (w : Exchanges) :
    Except PipelineError EmbeddingResponse :=
  ingesting (provider.adapter.embedding lib (pipeline.request provider input) provider.apiKey w)

/-- The checks of `index_source` on the embeddings of a response. -/
def checked (count : Nat) (response : EmbeddingResponse) :
    Except PipelineError (List (Option (List PyFloat))) :=
  if response.embeddings.length ≠ count then
    .error (.ingestionError "임베딩 응답 개수가 chunk 개수와 다릅니다.".toList)
  else if response.embeddings.any fun embedding =>
      decide (embedding.length ≠ pipeline.embeddingDimensions) then
    .error (.ingestionError "임베딩 차원이 Vector Store schema와 다릅니다.".toList)
  else .ok (response.embeddings.map some)

variable [DecidableEq Id]

/-- `has_indexed_chunks` -/
def hasIndexedChunks (table : List (ChunkRow Id)) (workspaceId : Id) : Bool :=
  table.any fun row => decide (row.workspaceId = workspaceId) && row.embedding.isSome

/-- The embeddings of the chunks: those of the provider, or none where there is no credential
and no vector is stored. -/
def embeddings (run : Run) (table : List (ChunkRow Id)) (workspaceId : Id)
    (chunks : List (SourceChunk Id)) : Except PipelineError (List (Option (List PyFloat))) :=
  match run.resolved with
  | .ok provider => do
    let response ← pipeline.embed lib provider (.many (chunks.map (·.content))) run.exchanges
    pipeline.checked chunks.length response
  | .error (.missingCapability message selected) =>
    if selected || hasIndexedChunks table workspaceId then
      .error (.missingCapability message selected)
    else .ok (chunks.map fun _ => none)
  | .error e => .error e

/-- The table with the chunks of the source replaced. -/
def replaced (table : List (ChunkRow Id)) (source : Source Id H) (chunks : List (SourceChunk Id))
    (embeddings : List (Option (List PyFloat))) : List (ChunkRow Id) :=
  table.filter (fun row => decide (row.sourceId ≠ source.id)) ++
    List.zipWith (ChunkRow.make source) chunks embeddings

/-- `index_source`: the table that its session has written. -/
def indexSource (run : Run) (source : Source Id H) (segments : RawSegments)
    (table : List (ChunkRow Id)) : Except PipelineError (List (ChunkRow Id)) := do
  let normalized ← (normalize source segments).mapError .normalize
  let chunks := pipeline.chunker.chunk normalized
  if chunks = [] then
    throw (.ingestionError "처리할 transcript 내용이 없습니다.".toList)
  else
    let embeddings ← pipeline.embeddings lib run table source.workspaceId chunks
    if run.stored then return replaced table source chunks embeddings else throw .store

/-- The table after the session of `index_source` is committed, or rolled back on an error. -/
def settled (run : Run) (source : Source Id H) (segments : RawSegments)
    (table : List (ChunkRow Id)) : List (ChunkRow Id) :=
  match pipeline.indexSource lib run source segments table with
  | .ok written => written
  | .error _ => table

end IngestionPipeline

/-- The pipeline with the default settings. -/
def defaultPipeline : IngestionPipeline where
  chunker := ⟨1200, 200, Nat.zero_lt_succ _, Nat.lt_of_sub_pos (Nat.zero_lt_succ _)⟩
  embeddingDimensions := 1536

/-- The default embedding model of OpenAI. -/
def openAIProvider : ResolvedProvider where
  adapter := .openAICompatible ⟨"openai".toList, "OpenAI".toList, true, true, true⟩
  apiKey := "k".toList
  model := "text-embedding-3-small".toList

end

end Maeglagi.Ingestion
