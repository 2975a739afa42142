import Mathlib.Data.Rat.Cast.CharZero
import Maeglagi.Ingestion.Pipeline
import Maeglagi.Provider.Failures
import Maeglagi.Sources.Creation

/-!
# Replacing the chunks of a source

A run of `index_source` that fails leaves the table as it was. One that succeeds has replaced the
chunks of the source by the new ones; their vectors are the ones that the provider numbered for
them exactly when it numbered its items from zero on.
-/

namespace Maeglagi.Ingestion

open Core Provider

variable {Id H : Type} [DecidableEq Id] {lib : Decoder} {pipeline : IngestionPipeline} {run : Run}
  {source : Source Id H} {segments : RawSegments} {table : List (ChunkRow Id)}

/-- The rows of a source. -/
def rowsOf (table : List (ChunkRow Id)) (sourceId : Id) : List (ChunkRow Id) :=
  table.filter fun row => decide (row.sourceId = sourceId)

/-- The response of the provider has a vector for the input of a position: that of the item with
the position as its index, or, where the items are not numbered, the one at the position. -/
def VectorAt (lib : Decoder) (adapter : Adapter) (w : Exchanges) (i : Nat)
    (vector : List PyFloat) : Prop :=
  match adapter with
  | .openAICompatible _ => ∃ body items item, w.reply.Brings body ∧
      ((body.field? "data").getD (.arr [])).iter = .ok items ∧ item ∈ items ∧
      item.index.number? = some (.finite i) ∧ HasVector lib item vector
  | .anthropic => False
  | .ollama => ∃ vectors v, OllamaAdapter.Vectors w.reply vectors ∧ vectors[i]? = some v ∧
      optionalFloats lib v = some vector

/-- The rows are the chunks in their order, numbered from zero. -/
def StoresChunks (rows : List (ChunkRow Id)) (chunks : List (SourceChunk Id)) : Prop :=
  rows.map ChunkRow.chunk = chunks ∧ rows.map (·.position) = List.range chunks.length

/-- Every row has the vector that the response has for its position. -/
def StoresVectors (lib : Decoder) (provider : ResolvedProvider) (w : Exchanges)
    (rows : List (ChunkRow Id)) : Prop :=
  ∀ i row, rows[i]? = some row → ∃ vector, row.embedding = some vector ∧
    VectorAt lib provider.adapter w i vector

/-- There is no credential and no vector in the workspace, and the rows have none. -/
def StoresNoVectors (run : Run) (table : List (ChunkRow Id)) (workspaceId : Id)
    (rows : List (ChunkRow Id)) : Prop :=
  (∃ message, run.resolved = .error (.missingCapability message false)) ∧
    (∀ row ∈ table, row.workspaceId = workspaceId → row.embedding = none) ∧
    ∀ row ∈ rows, row.embedding = none

/-- A run leaves the chunks of the source as they were, or replaces them by the new ones with
the vectors of their positions. -/
def AllOrNothing (lib : Decoder) (pipeline : IngestionPipeline) (run : Run)
    (source : Source Id H) (segments : RawSegments) (table : List (ChunkRow Id)) : Prop :=
  match pipeline.indexSource lib run source segments table with
  | .error _ => rowsOf (pipeline.settled lib run source segments table) source.id =
      rowsOf table source.id
  | .ok _ =>
    (∃ normalized, normalize source segments = .ok normalized ∧
      StoresChunks (rowsOf (pipeline.settled lib run source segments table) source.id)
        (pipeline.chunker.chunk normalized)) ∧
    ((∃ provider, run.resolved = .ok provider ∧ StoresVectors lib provider run.exchanges
        (rowsOf (pipeline.settled lib run source segments table) source.id)) ∨
      StoresNoVectors run table source.workspaceId
        (rowsOf (pipeline.settled lib run source segments table) source.id))

/-- The indices of the items are the numbers from zero on, in some order. -/
def Numbered (items : List Json) : Prop :=
  (items.map fun item => item.index.number?).Perm
    ((List.range items.length).map fun i => some (.finite i))

/-- If the run stores the embeddings of an OpenAI-compatible provider, their items are numbered
from zero on. -/
def ItemsNumbered (lib : Decoder) (pipeline : IngestionPipeline) (run : Run)
    (source : Source Id H) (segments : RawSegments) : Prop :=
  ∀ normalized provider a body items, normalize source segments = .ok normalized →
    run.resolved = .ok provider → run.stored = true → provider.adapter = .openAICompatible a →
    a.supportsEmbedding = true → KeyFits provider.apiKey → run.exchanges.reply.Brings body →
    EmbeddingReadable lib body items → items.length = (pipeline.chunker.chunk normalized).length →
    (∀ item ∈ items, ∀ vector, HasVector lib item vector →
      vector.length = pipeline.embeddingDimensions) →
    Numbered items

/-! ## What a run does -/

theorem mapError_eq_ok {ε ε' α : Type} {f : ε → ε'} {x : Except ε α} {a : α} :
    x.mapError f = .ok a ↔ x = .ok a := by
  cases x <;> simp [Except.mapError]

namespace IngestionPipeline

omit [DecidableEq Id] in
theorem checked_eq_ok {count : Nat} {response : EmbeddingResponse}
    {embeddings : List (Option (List PyFloat))} :
    pipeline.checked count response = .ok embeddings ↔ response.embeddings.length = count ∧
      (∀ vector ∈ response.embeddings, vector.length = pipeline.embeddingDimensions) ∧
      response.embeddings.map some = embeddings := by
  unfold checked
  split_ifs with hcount hdimensions
  · simp [hcount]
  · simp only [false_iff, not_and]
    rintro - hall
    obtain ⟨vector, hvector, hlength⟩ := List.any_eq_true.mp hdimensions
    exact absurd (hall vector hvector) (of_decide_eq_true hlength)
  · simp only [List.any_eq_true, decide_eq_true_eq, not_exists, not_and, not_not] at hcount hdimensions
    simp only [hcount, Except.ok.injEq, true_and]
    exact (and_iff_right hdimensions).symm

theorem hasIndexedChunks_eq_false {workspaceId : Id} :
    hasIndexedChunks table workspaceId = false ↔
      ∀ row ∈ table, row.workspaceId = workspaceId → row.embedding = none := by
  simp [hasIndexedChunks]

/-- Where the embeddings of the chunks come from. -/
theorem embeddings_eq_ok {workspaceId : Id} {chunks : List (SourceChunk Id)}
    {embeddings : List (Option (List PyFloat))} :
    pipeline.embeddings lib run table workspaceId chunks = .ok embeddings ↔
      (∃ provider response, run.resolved = .ok provider ∧
        provider.adapter.embedding lib (pipeline.request provider (.many (chunks.map (·.content))))
          provider.apiKey run.exchanges = .ok response ∧
        response.embeddings.length = chunks.length ∧
        (∀ vector ∈ response.embeddings, vector.length = pipeline.embeddingDimensions) ∧
        response.embeddings.map some = embeddings) ∨
      (∃ message, run.resolved = .error (.missingCapability message false)) ∧
        (∀ row ∈ table, row.workspaceId = workspaceId → row.embedding = none) ∧
        (chunks.map fun _ => none) = embeddings := by
  rw [← hasIndexedChunks_eq_false]
  unfold IngestionPipeline.embeddings
  cases hresolved : run.resolved with
  | ok provider =>
    simp only [bind_eq_ok, IngestionPipeline.embed, ingesting_eq_ok, checked_eq_ok]
    simp
  | error e =>
    cases e with
    | missingCapability message selected =>
      cases selected <;> cases hindexed : hasIndexedChunks table workspaceId <;> simp
    | _ => simp

theorem indexSource_eq_ok {written : List (ChunkRow Id)} :
    pipeline.indexSource lib run source segments table = .ok written ↔
      ∃ normalized embeddings, normalize source segments = .ok normalized ∧
        pipeline.chunker.chunk normalized ≠ [] ∧
        pipeline.embeddings lib run table source.workspaceId
          (pipeline.chunker.chunk normalized) = .ok embeddings ∧ run.stored = true ∧
        replaced table source (pipeline.chunker.chunk normalized) embeddings = written := by
  rw [indexSource, bind_eq_ok]
  simp only [mapError_eq_ok]
  refine exists_congr fun normalized => ?_
  by_cases hchunks : pipeline.chunker.chunk normalized = []
  · simp [hchunks]
  rw [if_neg hchunks]
  simp only [bind_eq_ok, exists_and_left, ne_eq, hchunks, not_false_eq_true, true_and]
  refine and_congr_right fun _ => exists_congr fun embeddings => and_congr_right fun _ => ?_
  split_ifs with hstored <;> simp [hstored]

end IngestionPipeline

omit [DecidableEq Id] in
/-- The chunks of a source carry its id. -/
theorem sourceId_of_mem_chunk {chunker : CharacterOverlapChunker} {normalized : NormalizedSource Id}
    {chunk : SourceChunk Id} (h : chunk ∈ chunker.chunk normalized) :
    chunk.sourceId = normalized.sourceId := by
  have hpush : ∀ (segment : Segment) (contents : List Text) (chunks : List (SourceChunk Id)),
      (∀ c ∈ chunks, c.sourceId = normalized.sourceId) →
      ∀ c ∈ contents.foldl (CharacterOverlapChunker.push normalized.sourceId segment) chunks,
        c.sourceId = normalized.sourceId := by
    intro segment contents
    induction contents with
    | nil => exact fun chunks hchunks => hchunks
    | cons content contents ih =>
      refine fun chunks hchunks => ih _ fun c hc => ?_
      rcases List.mem_append.mp hc with hc | hc
      · exact hchunks c hc
      · rw [List.mem_singleton.mp hc]
  have hall : ∀ (segments : List Segment) (chunks : List (SourceChunk Id)),
      (∀ c ∈ chunks, c.sourceId = normalized.sourceId) →
      ∀ c ∈ segments.foldl (fun chunks segment => (chunker.split segment.content).foldl
        (CharacterOverlapChunker.push normalized.sourceId segment) chunks) chunks,
        c.sourceId = normalized.sourceId := by
    intro segments
    induction segments with
    | nil => exact fun chunks hchunks => hchunks
    | cons segment segments ih => exact fun chunks hchunks => ih _ (hpush segment _ chunks hchunks)
  exact hall normalized.segments [] (fun c hc => absurd hc List.not_mem_nil) chunk h

omit [DecidableEq Id] in
theorem sourceId_of_normalize {normalized : NormalizedSource Id}
    (h : normalize source segments = .ok normalized) : normalized.sourceId = source.id := by
  obtain ⟨segments, -, h⟩ := bind_eq_ok.mp h
  split_ifs at h
  obtain rfl := pure_eq_ok.mp h
  rfl

/-- After a replacement the rows of the source are the new ones. -/
theorem rowsOf_replaced {chunks : List (SourceChunk Id)}
    {embeddings : List (Option (List PyFloat))} :
    rowsOf (IngestionPipeline.replaced table source chunks embeddings) source.id =
      List.zipWith (ChunkRow.make source) chunks embeddings := by
  have hnew : ∀ row ∈ List.zipWith (ChunkRow.make source) chunks embeddings,
      row.sourceId = source.id := by
    intro row hrow
    rw [← List.map_uncurry_zip_eq_zipWith] at hrow
    obtain ⟨pair, -, rfl⟩ := List.mem_map.mp hrow
    rfl
  rw [rowsOf, IngestionPipeline.replaced, List.filter_append, List.filter_filter,
    List.filter_eq_nil_iff.mpr, List.nil_append, List.filter_eq_self.mpr]
  · exact fun row hrow => decide_eq_true (hnew row hrow)
  · simp

omit [DecidableEq Id] in
/-- The new rows are the chunks, numbered from zero. -/
theorem storesChunks_zipWith {normalized : NormalizedSource Id}
    (hnormalized : normalize source segments = .ok normalized)
    {embeddings : List (Option (List PyFloat))}
    (hlength : embeddings.length = (pipeline.chunker.chunk normalized).length) :
    StoresChunks (List.zipWith (ChunkRow.make source) (pipeline.chunker.chunk normalized) embeddings)
      (pipeline.chunker.chunk normalized) := by
  have hchunks : (List.zipWith (ChunkRow.make source) (pipeline.chunker.chunk normalized)
      embeddings).map ChunkRow.chunk = pipeline.chunker.chunk normalized := by
    refine List.ext_getElem (by simp [hlength]) fun i hi hi' => ?_
    have hid := sourceId_of_mem_chunk (List.getElem_mem hi')
    rw [sourceId_of_normalize hnormalized] at hid
    simp [ChunkRow.chunk, ChunkRow.make, ← hid]
  refine ⟨hchunks, ?_⟩
  rw [← CharacterOverlapChunker.map_position_chunk]
  conv_rhs => rw [← hchunks, List.map_map]
  rfl

/-- The table after a run. -/
theorem settled_of_ok {written : List (ChunkRow Id)}
    (h : pipeline.indexSource lib run source segments table = .ok written) :
    pipeline.settled lib run source segments table = written := by
  rw [IngestionPipeline.settled, h]

/-! ## Which vectors are stored -/

theorem finite_injective : Function.Injective fun i : Nat => some (PyFloat.finite i) := by
  intro i j h
  exact Nat.cast_injective (PyFloat.finite.inj (Option.some.inj h))

/-- The number that an index stands for. -/
def rank (number : Option PyFloat) : Nat :=
  match number with
  | some (.finite q) => q.num.toNat
  | _ => 0

theorem rank_finite (i : Nat) : rank (some (.finite i)) = i := by
  simp [rank]

theorem less_of_number {v w : Json} {a b : PyFloat} (hv : v.number? = some a)
    (hw : w.number? = some b) : v.less w = some (a.less b) := by
  cases v <;> cases w <;> simp_all [Json.less, Json.number?]

/-- Items that are numbered from zero on are sorted to their positions. -/
theorem index_of_sorted {items sorted : List Json} (hnumbered : Numbered items)
    (hsorted : sortedByIndex items = .ok sorted) {i : Nat} {item : Json}
    (hitem : sorted[i]? = some item) : item.index.number? = some (.finite i) := by
  obtain ⟨-, keyed, hkeyed, rfl⟩ := sortedByIndex_eq_ok.mp hsorted
  have hnumber : ∀ entry ∈ items.map fun item => (item.index, item), ∃ n : Nat,
      entry.1.number? = some (.finite n) := by
    intro entry hentry
    obtain ⟨item, hitem, rfl⟩ := List.mem_map.mp hentry
    have hmem := hnumbered.mem_iff.mp (List.mem_map_of_mem hitem)
    obtain ⟨n, -, hn⟩ := List.mem_map.mp hmem
    exact ⟨n, hn.symm⟩
  have hless : ∀ a ∈ items.map (fun item => (item.index, item)),
      ∀ b ∈ items.map (fun item => (item.index, item)), Json.less a.1 b.1 =
        some (decide (rank a.1.number? < rank b.1.number?)) := by
    intro a ha b hb
    obtain ⟨n, hn⟩ := hnumber a ha
    obtain ⟨m, hm⟩ := hnumber b hb
    rw [less_of_number hn hm, hn, hm, rank_finite, rank_finite, PyFloat.less_finite]
    simp
  have hranks : ((items.map fun item => (item.index, item)).map fun entry =>
      rank entry.1.number?).Perm (List.range (items.map fun item => (item.index, item)).length) := by
    have hperm := hnumbered.map rank
    rw [List.map_map, List.map_map] at hperm
    rw [List.map_map, List.length_map]
    refine hperm.trans (List.Perm.of_eq ?_)
    have hid : (rank ∘ fun i : Nat => some (PyFloat.finite i)) = id := funext rank_finite
    rw [hid, List.map_id]
  have hsortedRanks : (keyed.map fun entry : Json × Json => rank entry.1.number?) =
      List.range (items.map fun item => (item.index, item)).length :=
    map_of_sortedBy hless hranks hkeyed
  rw [List.getElem?_map, Option.map_eq_some_iff] at hitem
  obtain ⟨entry, hentry, rfl⟩ := hitem
  have hmem : entry ∈ items.map fun item => (item.index, item) :=
    (perm_of_sortedBy hkeyed).mem_iff.mp (List.mem_of_getElem? hentry)
  obtain ⟨n, hn⟩ := hnumber entry hmem
  obtain ⟨item, -, rfl⟩ := List.mem_map.mp hmem
  have hi : (keyed.map fun entry : Json × Json => rank entry.1.number?)[i]? =
      some (rank item.index.number?) := by
    rw [List.getElem?_map, hentry]
    rfl
  rw [hsortedRanks, List.getElem?_eq_some_iff] at hi
  obtain ⟨hlt, hi⟩ := hi
  rw [List.getElem_range, hn, rank_finite] at hi
  rw [hn, hi]

/-- The vectors of a response stand at the positions of the inputs, where the items of an
OpenAI-compatible provider are numbered. -/
theorem vectorAt_of_response {adapter : Adapter} {request : EmbeddingRequest} {apiKey : Text}
    {w : Exchanges} {response : EmbeddingResponse}
    (hresponse : adapter.embedding lib request apiKey w = .ok response)
    (hnumbered : ∀ a body items, adapter = .openAICompatible a → a.supportsEmbedding = true →
      KeyFits apiKey → w.reply.Brings body → EmbeddingReadable lib body items →
      items.length = response.embeddings.length →
      (∀ item ∈ items, ∀ vector, HasVector lib item vector → vector ∈ response.embeddings) →
      Numbered items)
    {i : Nat} {vector : List PyFloat} (hvector : response.embeddings[i]? = some vector) :
    VectorAt lib adapter w i vector := by
  cases adapter with
  | openAICompatible a =>
    obtain ⟨hsupports, hkey, r, hr, hsuccess, hread⟩ :=
      OpenAICompatibleAdapter.embedding_eq_ok.mp hresponse
    obtain ⟨body, items, sorted, hjson, hreadable, hsorted, hall⟩ :=
      OpenAICompatibleAdapter.readEmbedding_eq_ok hread
    have hperm := perm_of_sortedByIndex hsorted
    obtain ⟨item, hitem, hhas⟩ := exists_getElem?_of_forall₂ hall hvector
    have hindex := index_of_sorted (hnumbered a body items rfl hsupports hkey
      ⟨r, hr, hsuccess, hjson⟩ hreadable (hperm.length_eq.symm.trans hall.length_eq) ?_) hsorted hitem
    · exact ⟨body, items, item, ⟨r, hr, hsuccess, hjson⟩, hreadable.listed,
        hperm.mem_iff.mp (List.mem_of_getElem? hitem), hindex, hhas⟩
    · intro other hother vector' hhas'
      obtain ⟨stored, hstored, hhas⟩ := exists_mem_of_forall₂ hall (hperm.mem_iff.mpr hother)
      exact hhas'.unique hhas ▸ hstored
  | anthropic => cases hresponse
  | ollama =>
    obtain ⟨-, -, vectors, hvectors, -, -, hmade⟩ := OllamaAdapter.embedding_eq_ok.mp hresponse
    obtain ⟨made, m, hall, -, rfl⟩ := EmbeddingResponse.make_eq_ok.mp hmade
    obtain ⟨v, hv, hfloats⟩ := exists_getElem?_of_forall₂ hall hvector
    exact ⟨vectors, v, hvectors, hv, hfloats⟩

/-- A run that stores the items of an OpenAI-compatible provider succeeds. -/
theorem exists_indexSource {normalized : NormalizedSource Id} {provider : ResolvedProvider}
    {a : OpenAICompatibleAdapter} {body : Json} {items : List Json}
    (hnormalized : normalize source segments = .ok normalized)
    (hresolved : run.resolved = .ok provider) (hstored : run.stored = true)
    (hadapter : provider.adapter = .openAICompatible a) (hsupports : a.supportsEmbedding = true)
    (hkey : KeyFits provider.apiKey) (hbrings : run.exchanges.reply.Brings body)
    (hreadable : EmbeddingReadable lib body items)
    (hcount : items.length = (pipeline.chunker.chunk normalized).length)
    (hdimensions : ∀ item ∈ items, ∀ vector, HasVector lib item vector →
      vector.length = pipeline.embeddingDimensions)
    (hchunks : pipeline.chunker.chunk normalized ≠ []) :
    ∃ embeddings, embeddings.length = items.length ∧
      pipeline.indexSource lib run source segments table = .ok (IngestionPipeline.replaced table
        source (pipeline.chunker.chunk normalized) embeddings) := by
  obtain ⟨r, hr, hsuccess, hjson⟩ := hbrings
  obtain ⟨response, hread⟩ : ∃ response, a.readEmbedding lib provider.model r = .ok response :=
    OpenAICompatibleAdapter.exists_readEmbedding hjson hreadable
  obtain ⟨body', items', sorted, hjson', hreadable', hsorted, hall⟩ :=
    OpenAICompatibleAdapter.readEmbedding_eq_ok hread
  obtain rfl := Except.ok.inj (hjson.symm.trans hjson')
  obtain rfl := Except.ok.inj (hreadable.listed.symm.trans hreadable'.listed)
  have hperm := perm_of_sortedByIndex hsorted
  have hlength : response.embeddings.length = items.length :=
    hall.length_eq.symm.trans hperm.length_eq
  refine ⟨response.embeddings.map some, (List.length_map _).trans hlength, ?_⟩
  refine IngestionPipeline.indexSource_eq_ok.mpr ⟨normalized, _, hnormalized, hchunks,
    IngestionPipeline.embeddings_eq_ok.mpr (.inl ⟨provider, response, hresolved, ?_,
      hlength.trans hcount, fun vector hvector => ?_, rfl⟩), hstored, rfl⟩
  · rw [hadapter]
    exact OpenAICompatibleAdapter.embedding_eq_ok.mpr ⟨hsupports, hkey, r, hr, hsuccess, hread⟩
  · obtain ⟨i, hi⟩ := List.mem_iff_getElem?.mp hvector
    obtain ⟨item, hitem, hhas⟩ := exists_getElem?_of_forall₂ hall hi
    exact hdimensions item (hperm.mem_iff.mp (List.mem_of_getElem? hitem)) vector hhas

/-- A run that stores the vectors of their positions has them from items numbered from zero on. -/
theorem AllOrNothing.itemsNumbered (h : AllOrNothing lib pipeline run source segments table) :
    ItemsNumbered lib pipeline run source segments := by
  intro normalized provider a body items hnormalized hresolved hstored hadapter hsupports hkey
    hbrings hreadable hcount hdimensions
  by_cases hchunks : pipeline.chunker.chunk normalized = []
  · rw [hchunks] at hcount
    obtain rfl := List.eq_nil_of_length_eq_zero hcount
    exact List.Perm.nil
  obtain ⟨embeddings, hlength, hrun⟩ : ∃ embeddings, embeddings.length = items.length ∧
      pipeline.indexSource lib run source segments table = .ok (IngestionPipeline.replaced table
        source (pipeline.chunker.chunk normalized) embeddings) :=
    exists_indexSource hnormalized hresolved hstored hadapter hsupports hkey hbrings hreadable
      hcount hdimensions hchunks
  unfold AllOrNothing at h
  simp only [hrun, settled_of_ok hrun, rowsOf_replaced] at h
  rcases h.2 with ⟨provider', hresolved', hvectors⟩ | ⟨⟨message, hmissing⟩, -⟩
  · obtain rfl := Except.ok.inj (hresolved.symm.trans hresolved')
    unfold Numbered
    have hmapped : (items.map fun item => item.index.number?).length = items.length :=
      List.length_map _
    rw [← hmapped]
    refine perm_map_range_of_covers finite_injective fun i hi => ?_
    rw [hmapped] at hi
    have hrow : i < (List.zipWith (ChunkRow.make source) (pipeline.chunker.chunk normalized)
        embeddings).length := by
      rw [List.length_zipWith, hlength, ← hcount, Nat.min_self]
      exact hi
    obtain ⟨vector, -, hat⟩ := hvectors i _ (List.getElem?_eq_getElem hrow)
    rw [hadapter] at hat
    obtain ⟨body', items', item, hbrings', hlisted, hitem, hindex, -⟩ := hat
    obtain rfl := hbrings.unique hbrings'
    obtain rfl := Except.ok.inj (hreadable.listed.symm.trans hlisted)
    exact List.mem_map.mpr ⟨item, hitem, hindex⟩
  · cases hresolved.symm.trans hmissing

/-- A run is all or nothing, with the vectors in their places, exactly when an OpenAI-compatible
provider numbers the items that it stores from zero on. -/
theorem allOrNothing_iff (lib : Decoder) (pipeline : IngestionPipeline) (run : Run)
    (source : Source Id H) (segments : RawSegments) (table : List (ChunkRow Id)) :
    AllOrNothing lib pipeline run source segments table ↔
      ItemsNumbered lib pipeline run source segments := by
  refine ⟨AllOrNothing.itemsNumbered, fun h => ?_⟩
  unfold AllOrNothing
  split
  · rename_i e hrun
    rw [IngestionPipeline.settled, hrun]
  · rename_i written hrun
    rw [settled_of_ok hrun]
    obtain ⟨normalized, embeddings, hnormalized, hchunks, hembeddings, hstored, rfl⟩ :=
      IngestionPipeline.indexSource_eq_ok.mp hrun
    rw [rowsOf_replaced]
    rcases IngestionPipeline.embeddings_eq_ok.mp hembeddings with
      ⟨provider, response, hresolved, hresponse, hcount, hdimensions, rfl⟩ |
      ⟨hmissing, hunindexed, rfl⟩
    · refine ⟨⟨normalized, hnormalized, storesChunks_zipWith hnormalized
        ((List.length_map _).trans hcount)⟩, .inl ⟨provider, hresolved, fun i row hrow => ?_⟩⟩
      obtain ⟨chunk, embedding, -, hembedding, rfl⟩ := List.getElem?_zipWith_eq_some.mp hrow
      rw [List.getElem?_map, Option.map_eq_some_iff] at hembedding
      obtain ⟨vector, hvector, rfl⟩ := hembedding
      refine ⟨vector, rfl, vectorAt_of_response hresponse ?_ hvector⟩
      intro a body items hadapter hsupports hkey hbrings hreadable hlength hstays
      exact h normalized provider a body items hnormalized hresolved hstored hadapter hsupports
        hkey hbrings hreadable (hlength.trans hcount)
        fun item hitem vector hhas => hdimensions vector (hstays item hitem vector hhas)
    · refine ⟨⟨normalized, hnormalized, storesChunks_zipWith hnormalized (List.length_map _)⟩,
        .inr ⟨hmissing, hunindexed, fun row hrow => ?_⟩⟩
      obtain ⟨i, hi⟩ := List.mem_iff_getElem?.mp hrow
      obtain ⟨chunk, embedding, -, hembedding, rfl⟩ := List.getElem?_zipWith_eq_some.mp hi
      obtain ⟨-, -, rfl⟩ := List.mem_map.mp (List.mem_of_getElem? hembedding)
      rfl

/-- A section of one letter. -/
def letterSection (c : Char) (h : isSpace c = false) : DocumentSection where
  text := [c]
  strip_text := strip_eq_self (fun d hd => by rwa [← Option.some.inj hd])
    fun d hd => by rwa [← Option.some.inj hd]
  text_ne_nil := List.cons_ne_nil _ _

theorem split_letter (chunker : CharacterOverlapChunker) {c : Char} (h : isSpace c = false) :
    chunker.split [c] = [[c]] := by
  have hstrip : strip [c] = [c] := (letterSection c h).strip_text
  have hsize := chunker.size_pos
  have hstop : chunker.windowEnd [c] 0 = 1 := by
    unfold CharacterOverlapChunker.windowEnd
    dsimp only
    rw [List.length_singleton, if_neg (by omega)]
    omega
  have hpart : CharacterOverlapChunker.part [c] 0 1 = [c] := hstrip
  rw [CharacterOverlapChunker.split, hstrip, CharacterOverlapChunker.splitFrom]
  simp [hstop, hpart]

theorem chunk_letters (chunker : CharacterOverlapChunker) (id : Text) :
    (chunker.chunk ⟨id, normalizeDocument [letterSection 'a' rfl, letterSection 'b' rfl]⟩).length =
      2 := by
  have ha := split_letter chunker (c := 'a') rfl
  have hb := split_letter chunker (c := 'b') rfl
  simp [CharacterOverlapChunker.chunk, normalizeDocument, letterSection, ha, hb,
    CharacterOverlapChunker.push]

/-- An item with a vector of the default dimensions. -/
def zeroItem (index : Int) : Json :=
  .obj [("index".toList, .int index), ("embedding".toList, .arr (List.replicate 1536 (.int 0)))]

/-- OpenAI answers with these items. -/
def answered (items : List Json) : Exchanges where
  connected := true
  tags := .httpError
  details := .httpError
  reply := .response ⟨200, .ok (.obj [("data".toList, .arr items)]), none⟩

/-- Where the provider skips an index, the second chunk gets the vector of the third input. -/
theorem not_allOrNothing_skipped :
    ¬ AllOrNothing plainDecoder defaultPipeline
      ⟨.ok openAIProvider, answered [zeroItem 0, zeroItem 2], true⟩
      (Source.new ⟨"s".toList, "w".toList, "o".toList⟩ .document "t".toList "p".toList 1 :
        Source Text Text)
      (.document [letterSection 'a' rfl, letterSection 'b' rfl]) [] := by
  intro h
  have hfloats : optionalFloats plainDecoder (.arr (List.replicate 1536 (.int 0))) =
      some (List.replicate 1536 (.finite 0)) := by
    rw [optionalFloats, mapM_eq_some_iff]
    generalize 1536 = n
    induction n with
    | zero => exact .nil
    | succ n ih => exact .cons rfl ih
  have hvector : ∀ i vector, HasVector plainDecoder (zeroItem i) vector ↔
      vector = List.replicate 1536 (.finite 0) := by
    intro i vector
    refine ⟨fun hhas => hhas.unique ⟨_, rfl, hfloats⟩, ?_⟩
    rintro rfl
    exact ⟨_, rfl, hfloats⟩
  have hnumbered := h.itemsNumbered ⟨"s".toList, _⟩ openAIProvider _
    (.obj [("data".toList, .arr [zeroItem 0, zeroItem 2])]) [zeroItem 0, zeroItem 2] rfl rfl rfl rfl
    rfl (by decide) ⟨_, rfl, rfl, rfl⟩ ?_ (chunk_letters _ _).symm ?_
  · have hmem := hnumbered.mem_iff.mp
      (List.mem_map_of_mem (List.mem_cons_of_mem _ (List.mem_singleton_self (zeroItem 2))))
    obtain ⟨i, hi, heq⟩ := List.mem_map.mp hmem
    have hcast : (i : Rat) = (2 : Nat) := PyFloat.finite.inj (Option.some.inj heq)
    have hlt := List.mem_range.mp hi
    rw [Nat.cast_injective hcast] at hlt
    exact absurd hlt (by decide)
  · refine ⟨trivial, rfl, ?_, ?_, fun _ hu => (by cases hu), ?_, fun _ hu => (by cases hu)⟩
    · intro item hitem
      rcases List.mem_pair.mp hitem with rfl | rfl <;> trivial
    · decide
    · simp only [List.mem_cons, List.not_mem_nil, or_false, forall_eq_or_imp, forall_eq]
      exact ⟨⟨_, _, rfl, hfloats⟩, _, _, rfl, hfloats⟩
  · simp only [List.mem_cons, List.not_mem_nil, or_false, forall_eq_or_imp, forall_eq, hvector]
    exact ⟨List.length_replicate, List.length_replicate⟩

end Maeglagi.Ingestion
