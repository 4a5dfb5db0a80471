import AiBackend.Api.ChatRouter
import AiBackend.Api.ErrorHandler
import AiBackend.Api.RateLimitMiddleware
import AiBackend.Application.ContextService
import AiBackend.Application.IngestDocument
import AiBackend.Application.ProcessDocument
import AiBackend.Application.PromptService
import AiBackend.Application.RagChat
import AiBackend.Application.SearchDocuments
import AiBackend.Background.GracefulStop
import AiBackend.Background.Progress
import AiBackend.Background.TaskLife
import AiBackend.Chat.Citations
import AiBackend.Chat.ConcurrentTurns
import AiBackend.Chat.ContextBlocks
import AiBackend.Chat.ContextBudget
import AiBackend.Chat.ContextGrowth
import AiBackend.Chat.HistoryExpiry
import AiBackend.Chat.HistoryLog
import AiBackend.Chat.PromptContainment
import AiBackend.Chat.SeparateUsers
import AiBackend.Chat.StreamEquivalence
import AiBackend.Chat.TokenSafety
import AiBackend.Chat.TurnAtomicity
import AiBackend.Chunking.CharacterWindows
import AiBackend.Chunking.Coverage
import AiBackend.Chunking.Positions
import AiBackend.Chunking.Termination
import AiBackend.Chunking.TokenWindows
import AiBackend.Chunking.WindowCost
import AiBackend.Core.RedisUrl
import AiBackend.Core.Settings
import AiBackend.Domain.Chat
import AiBackend.Domain.Chunk
import AiBackend.Domain.Document
import AiBackend.Domain.Exceptions
import AiBackend.Domain.IngestionJob
import AiBackend.Domain.SearchResult
import AiBackend.Domain.SimpleChunking
import AiBackend.Domain.Tenant
import AiBackend.Domain.TokenAwareChunking
import AiBackend.Domain.Values
import AiBackend.Infrastructure.ArqWorker
import AiBackend.Infrastructure.BackgroundWorker
import AiBackend.Infrastructure.DocumentTable
import AiBackend.Infrastructure.MemoryChunks
import AiBackend.Infrastructure.MemoryDocuments
import AiBackend.Infrastructure.OpenAI
import AiBackend.Infrastructure.PostgresColumns
import AiBackend.Infrastructure.QueryServer
import AiBackend.Infrastructure.RateLimiter
import AiBackend.Infrastructure.RedisCache
import AiBackend.Infrastructure.RedisChatHistory
import AiBackend.Infrastructure.TenantRepository
import AiBackend.Infrastructure.TiktokenService
import AiBackend.Infrastructure.VectorCollection
import AiBackend.Infrastructure.VectorStore
import AiBackend.Ingestion.BatchProgress
import AiBackend.Ingestion.ConcurrentIngestion
import AiBackend.Ingestion.Delivery
import AiBackend.Ingestion.DistinctContent
import AiBackend.Ingestion.EmbeddingLoop
import AiBackend.Ingestion.IngestSegments
import AiBackend.Ingestion.JobLifecycle
import AiBackend.Ingestion.LaterStages
import AiBackend.Ingestion.Leftovers
import AiBackend.Ingestion.PipelineFrame
import AiBackend.Ingestion.PipelineOutcome
import AiBackend.Ingestion.Resubmission
import AiBackend.Ingestion.RunGuarantees
import AiBackend.Ingestion.TableHistory
import AiBackend.Ingestion.VectorCompleteness
import AiBackend.Persistence.EntityRoundTrip
import AiBackend.Persistence.Interchange
import AiBackend.Persistence.Pagination
import AiBackend.Providers.EmbeddingBatch
import AiBackend.Providers.EmbeddingCache
import AiBackend.Providers.EmbeddingReuse
import AiBackend.Providers.RateLimitPath
import AiBackend.Providers.Truncation
import AiBackend.RateLimiting.NoFalseDenials
import AiBackend.RateLimiting.SlidingWindow
import AiBackend.Requests.ForwardedRequests
import AiBackend.Requests.MiddlewareSteps
import AiBackend.Requests.Transparency
import AiBackend.Retrieval.BestMatches
import AiBackend.Retrieval.CollectionSetup
import AiBackend.Retrieval.ConcurrentSetup
import AiBackend.Retrieval.ConversationFilter
import AiBackend.Retrieval.FilterEntries
import AiBackend.Retrieval.Isolation
import AiBackend.Retrieval.NothingStored
import AiBackend.Retrieval.PayloadRoundTrip
import AiBackend.Retrieval.Provenance
import AiBackend.Retrieval.TwoStores
import AiBackend.Support.CacheAside
import AiBackend.Support.Expiry
import AiBackend.Support.Fault
import AiBackend.Support.FloatText
import AiBackend.Support.Interleaving
import AiBackend.Support.Json
import AiBackend.Support.JsonEquality
import AiBackend.Support.JsonRoundTrip
import AiBackend.Support.JsonText
import AiBackend.Support.KeyedList
import AiBackend.Support.Loop
import AiBackend.Support.Occurrences
import AiBackend.Support.Pages
import AiBackend.Support.Printf
import AiBackend.Support.Program
import AiBackend.Support.PyFloat
import AiBackend.Support.PyInt
import AiBackend.Support.Python
import AiBackend.Support.RedisList
import AiBackend.Support.Run
import AiBackend.Support.Separation
import AiBackend.Support.Slide
import AiBackend.Support.SortedSet
import AiBackend.Support.Sorting
import AiBackend.Support.Stripping
import AiBackend.Support.Subadditive
import AiBackend.Support.Text
import AiBackend.Support.TextSearch
import AiBackend.Support.UrlParse
import AiBackend.Support.Utf8
import AiBackend.Support.Uuid
import AiBackend.Tenancy.BoundedStaleness
import AiBackend.Tenancy.CacheCoherence
import AiBackend.Tenancy.ConcurrentLookups
import AiBackend.Tenancy.LookupSteps
import AiBackend.Tenancy.LostUpdates
import AiBackend.Tenancy.StoreView
import AiBackend.Tenancy.TimedCalls
