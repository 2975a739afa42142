import Maeglagi.Account.Deletion
import Maeglagi.Analysis.Dates
import Maeglagi.Analysis.Validated
import Maeglagi.Answer.Addressed
import Maeglagi.Answer.Events
import Maeglagi.Answer.Invented
import Maeglagi.Ask.Delivered
import Maeglagi.Ask.Guarding
import Maeglagi.Ask.Reloaded
import Maeglagi.Auth.Redirect
import Maeglagi.Auth.Tokens
import Maeglagi.Contention.Deadlock
import Maeglagi.Contention.Requests
import Maeglagi.Contention.SlotRuns
import Maeglagi.Context.Memory
import Maeglagi.Context.Reprocessing
import Maeglagi.Context.SameEvent
import Maeglagi.Context.Serial
import Maeglagi.Context.Timeline
import Maeglagi.Context.Updater
import Maeglagi.Core.Calls
import Maeglagi.Core.Fallible
import Maeglagi.Core.FirstWins
import Maeglagi.Core.Gather
import Maeglagi.Core.Lasts
import Maeglagi.Core.Lookups
import Maeglagi.Core.Machine
import Maeglagi.Core.MutableLists
import Maeglagi.Core.Slices
import Maeglagi.Core.Turns
import Maeglagi.Core.Uuid
import Maeglagi.Demo.Retry
import Maeglagi.Drafts.Ids
import Maeglagi.Drafts.Polling
import Maeglagi.Drafts.Roster
import Maeglagi.Events.Broker
import Maeglagi.Events.Delivery
import Maeglagi.Events.Isolated
import Maeglagi.Events.Json
import Maeglagi.Events.Sse
import Maeglagi.Events.Updates
import Maeglagi.Graph.Acyclic
import Maeglagi.Graph.Arrival
import Maeglagi.Graph.DirectoryIds
import Maeglagi.Graph.Dropped
import Maeglagi.Graph.Identity
import Maeglagi.Graph.Provenance
import Maeglagi.Hooks.Loading
import Maeglagi.Indexing.Embeddings
import Maeglagi.Ingestion.Chunking
import Maeglagi.Ingestion.Meeting
import Maeglagi.Ingestion.Pipeline
import Maeglagi.Ingestion.Replacement
import Maeglagi.Jobs.Retention
import Maeglagi.Jobs.Wakeups
import Maeglagi.KnowledgeGraph.PersonPage
import Maeglagi.KnowledgeGraph.Request
import Maeglagi.Provider.Complete
import Maeglagi.Provider.Embedding
import Maeglagi.Provider.Failures
import Maeglagi.Provider.Reach
import Maeglagi.Recording.Honest
import Maeglagi.Recording.Released
import Maeglagi.Resolution.Ids
import Maeglagi.Resolution.OrderFree
import Maeglagi.Resolution.Partition
import Maeglagi.Resolution.Relations
import Maeglagi.Resolution.Resolve
import Maeglagi.Retrieval.Crowding
import Maeglagi.Retrieval.Fallback
import Maeglagi.Snapshot.Artifact
import Maeglagi.Snapshot.Isomorphic
import Maeglagi.Snapshot.References
import Maeglagi.Snapshot.Remap
import Maeglagi.Snapshot.Restored
import Maeglagi.Sources.Confirmations
import Maeglagi.Sources.ConfirmedAlike
import Maeglagi.Sources.Merging
import Maeglagi.Sources.Readback
import Maeglagi.Sources.Replay
import Maeglagi.Sources.ReviewGate
import Maeglagi.Sources.Revision
import Maeglagi.Sources.Settling
import Maeglagi.Temporal.Absorption
import Maeglagi.Temporal.Exact
import Maeglagi.Temporal.Instant
import Maeglagi.Temporal.Omitted
import Maeglagi.Uploads.Runs
import Maeglagi.Workspaces.Actors
import Maeglagi.Workspaces.Defaults
import Maeglagi.Workspaces.Grants
import Maeglagi.Workspaces.PeopleRuns
