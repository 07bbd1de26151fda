import IsaCloud.Cache.Cells
import IsaCloud.Cache.DistributedLock
import IsaCloud.Cache.DropIn
import IsaCloud.Cache.Interchange
import IsaCloud.Cache.Interface
import IsaCloud.Cache.Isolation
import IsaCloud.Cache.LazyExpiry
import IsaCloud.Cache.Linked
import IsaCloud.Cache.Memory
import IsaCloud.Cache.RedisBatch
import IsaCloud.Cache.RedisClient
import IsaCloud.Cache.RedisTenants
import IsaCloud.Cache.Scan
import IsaCloud.Cache.Sessions
import IsaCloud.Consul.ConfigStore
import IsaCloud.Consul.Replicas
import IsaCloud.Consul.RoundRobin
import IsaCloud.Database.AtomicInserts
import IsaCloud.Database.BulkInsert
import IsaCloud.Database.ConcurrentQueries
import IsaCloud.Database.CreateTable
import IsaCloud.Database.LazyConnect
import IsaCloud.Database.PostgresClient
import IsaCloud.Database.ScriptLetters
import IsaCloud.Database.ScriptSeams
import IsaCloud.Database.ScriptStages
import IsaCloud.Database.ScriptTranslation
import IsaCloud.Database.ScriptTypes
import IsaCloud.Database.ScriptWords
import IsaCloud.Database.SearchPaths
import IsaCloud.Database.SelectFrom
import IsaCloud.Database.SqlTokens
import IsaCloud.Database.SqlTranslation
import IsaCloud.Database.SqliteClient
import IsaCloud.Database.StoredValues
import IsaCloud.Events.Accounting
import IsaCloud.Events.Backends
import IsaCloud.Events.Billing
import IsaCloud.Events.BillingRoundTrip
import IsaCloud.Events.ConsumerNames
import IsaCloud.Events.DefaultIds
import IsaCloud.Events.FirstMarks
import IsaCloud.Events.Overlap
import IsaCloud.Events.Pipeline
import IsaCloud.Events.PullLoop
import IsaCloud.Events.Relay
import IsaCloud.Events.RetryLoop
import IsaCloud.Events.StreamSubjects
import IsaCloud.Events.Subscriber
import IsaCloud.Events.UsagePublisher
import IsaCloud.Events.UsageSubjects
import IsaCloud.Fleet.Agreement
import IsaCloud.Fleet.AllOrNothing
import IsaCloud.Fleet.Attribution
import IsaCloud.Fleet.Calls
import IsaCloud.Fleet.CleanIntake
import IsaCloud.Fleet.Credential
import IsaCloud.Fleet.ExpiryCalendar
import IsaCloud.Fleet.Intake
import IsaCloud.Fleet.Issuance
import IsaCloud.Fleet.IssuedLicense
import IsaCloud.Fleet.LedgerRuns
import IsaCloud.Fleet.Models
import IsaCloud.Fleet.Queries
import IsaCloud.Fleet.Races
import IsaCloud.Fleet.Replays
import IsaCloud.Fleet.RetiredSecrets
import IsaCloud.Fleet.RosterStatus
import IsaCloud.Fleet.Showback
import IsaCloud.Fleet.TamperEvidence
import IsaCloud.Fleet.TelemetryQueries
import IsaCloud.Gateway.Plugins
import IsaCloud.Gateway.WatchHandler
import IsaCloud.Graph.AttributeRuns
import IsaCloud.Graph.ExactlyOnce
import IsaCloud.Graph.MergeNode
import IsaCloud.Graph.Neo4jClient
import IsaCloud.Graph.TenantIsolation
import IsaCloud.License.Aging
import IsaCloud.License.Authenticity
import IsaCloud.License.Config
import IsaCloud.License.Escapes
import IsaCloud.License.RoundTrip
import IsaCloud.License.RuntimeMiddleware
import IsaCloud.License.Sign
import IsaCloud.License.SignedExpiry
import IsaCloud.License.Tier
import IsaCloud.License.Verdicts
import IsaCloud.Loki.Conservation
import IsaCloud.Loki.LokiClient
import IsaCloud.Loki.LokiHandler
import IsaCloud.Loki.Streams
import IsaCloud.Metrics.HttpMiddleware
import IsaCloud.Mqtt.Topics
import IsaCloud.Nats.Reconnect
import IsaCloud.Observability.ContractGate
import IsaCloud.Observability.ContractScan
import IsaCloud.Observability.Placement
import IsaCloud.Observability.Visitor
import IsaCloud.Quota.CounterKeys
import IsaCloud.Quota.Enforcer
import IsaCloud.Quota.FailClosed
import IsaCloud.Quota.GaugeConcurrency
import IsaCloud.Quota.GaugeRuns
import IsaCloud.Quota.Isolation
import IsaCloud.Quota.Scripts
import IsaCloud.Quota.SplitRuns
import IsaCloud.Quota.Types
import IsaCloud.Quota.WindowRuns
import IsaCloud.Release.Manifest
import IsaCloud.Storage.BucketNames
import IsaCloud.Storage.Containment
import IsaCloud.Storage.Downloads
import IsaCloud.Storage.Listing
import IsaCloud.Storage.LocalClient
import IsaCloud.Storage.MinioBuckets
import IsaCloud.Storage.Moves
import IsaCloud.Storage.MultipartUpload
import IsaCloud.Storage.ObjectFiles
import IsaCloud.Storage.ObjectMap
import IsaCloud.Storage.ObjectRuns
import IsaCloud.Storage.Refinement
import IsaCloud.Storage.UserDirectories
import IsaCloud.Support.Base64
import IsaCloud.Support.Batching
import IsaCloud.Support.Binary64
import IsaCloud.Support.DateTime
import IsaCloud.Support.Dict
import IsaCloud.Support.DumpsRoundTrip
import IsaCloud.Support.Encoding
import IsaCloud.Support.FileChanges
import IsaCloud.Support.FileSpecs
import IsaCloud.Support.FileTree
import IsaCloud.Support.FileWalk
import IsaCloud.Support.Glob
import IsaCloud.Support.Grouping
import IsaCloud.Support.IsoTime
import IsaCloud.Support.Json
import IsaCloud.Support.JsonDicts
import IsaCloud.Support.JsonDigits
import IsaCloud.Support.JsonErrors
import IsaCloud.Support.JsonInjective
import IsaCloud.Support.JsonJoin
import IsaCloud.Support.JsonLineEnds
import IsaCloud.Support.JsonNesting
import IsaCloud.Support.JsonOrder
import IsaCloud.Support.JsonRendering
import IsaCloud.Support.JsonRoundTrip
import IsaCloud.Support.JsonSpelling
import IsaCloud.Support.JsonText
import IsaCloud.Support.JsonWellFormed
import IsaCloud.Support.Lineage
import IsaCloud.Support.ListOrder
import IsaCloud.Support.ListParts
import IsaCloud.Support.Listing
import IsaCloud.Support.Occurrences
import IsaCloud.Support.Pool
import IsaCloud.Support.PosixPath
import IsaCloud.Support.PropertyGraph
import IsaCloud.Support.PyBuiltins
import IsaCloud.Support.PyCall
import IsaCloud.Support.PyDump
import IsaCloud.Support.PyJson
import IsaCloud.Support.Pydantic
import IsaCloud.Support.Python
import IsaCloud.Support.Race
import IsaCloud.Support.RateLimit
import IsaCloud.Support.Redis
import IsaCloud.Support.RedisTypes
import IsaCloud.Support.Retry
import IsaCloud.Support.Runs
import IsaCloud.Support.Selections
import IsaCloud.Support.SqlScanner
import IsaCloud.Support.Subjects
import IsaCloud.Support.Table
import IsaCloud.Support.Transaction
import IsaCloud.Vector.Filters
import IsaCloud.Vector.Payloads
import IsaCloud.Vector.Scroll
import IsaCloud.Metrics.PathLabels
