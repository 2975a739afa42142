import Maeglagi.Ingestion.Pipeline
import Maeglagi.PlainRuntime
import Maeglagi.Provider.Failures
import Maeglagi.Retrieval.Crowding

/-!
# Falling back to keywords

A retriever with a keyword search goes on without an embedding when that fails with an
`IngestionError`. The pipeline makes one of every `ProviderError`, but an adapter may let other
exceptions pass, and those end the retrieval.
-/

namespace Maeglagi.Retrieval

open Core Provider Ingestion

variable {Id H : Type} {lib : Decoder} {pipeline : IngestionPipeline}
  {provider : ResolvedProvider} {w : Exchanges} {question : Text}

variable [DecidableEq Id] {r : HybridRetriever Id H} {rt : Runtime Id}
  {parseId : Text → Option Id} {workspaceId : Id} {now : Instant}
  {search : Text → Option (List Id) → Nat → Except RetrieveError (List (LexicalMatch Id))}

end Maeglagi.Retrieval
