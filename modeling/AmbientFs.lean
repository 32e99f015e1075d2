import AmbientFs.TreeState
import AmbientFs.Proofs.Tree
import AmbientFs.Proofs.TreeOrder
import AmbientFs.Proofs.TreeMap
import AmbientFs.Proofs.TreeCalls
import AmbientFs.Proofs.TreeKinds
import AmbientFs.Proofs.TreeRename
import AmbientFs.Proofs.TreeInsertion
import AmbientFs.Proofs.PatchStream
import AmbientFs.FileSystem
import AmbientFs.Proofs.Path
import AmbientFs.Proofs.Scan
import AmbientFs.Proofs.Rescan
import AmbientFs.Proofs.ScanSpec
import AmbientFs.Proofs.Globs
import AmbientFs.Awareness
import AmbientFs.Lib.Broadcast
import AmbientFs.Lib.Run
import AmbientFs.Subscriptions
import AmbientFs.Proofs.Subscriptions
import AmbientFs.Proofs.Delivery
import AmbientFs.Lib.Locks
import AmbientFs.Locking
import AmbientFs.Proofs.Locking
import AmbientFs.Rfc3339
import AmbientFs.Proofs.Rfc3339
import AmbientFs.Message
import AmbientFs.Proofs.Message
import AmbientFs.Store
import AmbientFs.Sync
import AmbientFs.Proofs.Store
import AmbientFs.Proofs.SyncSession
import AmbientFs.Proofs.SyncNetwork
import AmbientFs.Proofs.SyncDelivery
import AmbientFs.Proofs.SyncOrigin
import AmbientFs.Proofs.SyncReturn
import AmbientFs.Proofs.SyncWindow
import AmbientFs.Gateway
import AmbientFs.EventLoop
import AmbientFs.Lib.Slot
import AmbientFs.Proofs.Coverage
import AmbientFs.Proofs.EventLoop
import AmbientFs.Proofs.EventPaths
import AmbientFs.Proofs.EventRouting
import AmbientFs.Proofs.EventStored
import AmbientFs.Proofs.GatewayDelivery
import AmbientFs.Proofs.GatewayTable
import AmbientFs.Proofs.Registry
import AmbientFs.Proofs.RegistryCoherence
import AmbientFs.Proofs.RegistryEvict
import AmbientFs.Watches
import AmbientFs.Proofs.Watches
import AmbientFs.Lib.Json
import AmbientFs.Lib.Lines
import AmbientFs.Lib.Utf8
import AmbientFs.Lib.Sqlite
import AmbientFs.Lib.SqlText
import AmbientFs.Client
import AmbientFs.Proofs.Client
import AmbientFs.Proofs.ClientOrphans
import AmbientFs.PythonClient
import AmbientFs.Proofs.PythonClient
import AmbientFs.NodeTransport
import AmbientFs.Proofs.NodeTransport
import AmbientFs.Cache
import AmbientFs.Analyzer
import AmbientFs.Pipeline
import AmbientFs.Proofs.Pipeline
import AmbientFs.Proofs.PipelineOrder
import AmbientFs.BuildAwareness
import AmbientFs.Proofs.BuildAwareness
import AmbientFs.Agents
import AmbientFs.Proofs.Agents
import AmbientFs.Proofs.AgentIsolation
import AmbientFs.Database
import AmbientFs.Stores
import AmbientFs.Proofs.DatabaseRows
import AmbientFs.Proofs.DatabaseOpening
import AmbientFs.Proofs.Database
import AmbientFs.Proofs.DatabaseOrder
import AmbientFs.Proofs.DatabaseParts
import AmbientFs.Proofs.Prune
import AmbientFs.Query
import AmbientFs.Proofs.Retrieval
import AmbientFs.Statements
import AmbientFs.Proofs.Statements
import AmbientFs.Proofs.EventQuery
import AmbientFs.Proofs.EventPruning
import AmbientFs.PidFile
import AmbientFs.Proofs.PidFile
import AmbientFs.Attribution
import AmbientFs.Proofs.Attribution
import AmbientFs.Proofs.BuildMatching
import AmbientFs.Proofs.GitWindow
import AmbientFs.Lib.Serde
import AmbientFs.Codec
import AmbientFs.Proofs.Codec
import AmbientFs.Rpc
import AmbientFs.Handlers
import AmbientFs.Proofs.Handlers
import AmbientFs.Connection
import AmbientFs.Proofs.Connection
import AmbientFs.Proofs.ReplyRule
import AmbientFs.ClientApi
import AmbientFs.Proofs.ClientApi
import AmbientFs.Grpc
import AmbientFs.Proofs.Grpc
import AmbientFs.Lib.Log
import AmbientFs.Lib.Sections
import AmbientFs.AgentSections
import AmbientFs.Proofs.AgentLog
import AmbientFs.Proofs.AgentReaders
import AmbientFs.Proofs.AgentPrune
import AmbientFs.Proofs.AgentSections
import AmbientFs.AgentInput
import AmbientFs.Proofs.AgentInput
import AmbientFs.Cutoff
import AmbientFs.Proofs.Cutoff
import AmbientFs.Lib.Window
import AmbientFs.Proofs.GatewayBuffer
import AmbientFs.Proofs.GatewayForward
import AmbientFs.Proofs.Todos
import AmbientFs.Proofs.PidSignals
import AmbientFs.Proofs.RegistryFailures
import AmbientFs.Proofs.CacheMap
import AmbientFs.Protocol
import AmbientFs.Proofs.Protocol
import AmbientFs.CliEvents
import AmbientFs.Proofs.CliEvents
import AmbientFs.Lib.Cutoffs
import AmbientFs.Proofs.ClientSince
import AmbientFs.Proofs.CliAwareness
import AmbientFs.Proofs.AgentDirectories
import AmbientFs.EventStreams
import AmbientFs.Proofs.EventStreams
import AmbientFs.Proofs.StreamDrain
import AmbientFs.Lifecycle
import AmbientFs.Proofs.Lifecycle
import AmbientFs.NodeClient
import AmbientFs.Proofs.NodeClient
import AmbientFs.Languages
import AmbientFs.LlmAnalyzer
import AmbientFs.TwoTier
import AmbientFs.Proofs.TwoTier
import AmbientFs.GrpcService
import AmbientFs.Proofs.GrpcService
import AmbientFs.Retention
import AmbientFs.Proofs.Retention
import AmbientFs.AwarenessStore
import AmbientFs.Proofs.AwarenessStore
import AmbientFs.TauriPlugin
import AmbientFs.Proofs.TauriPlugin
import AmbientFs.PythonApi
import AmbientFs.Proofs.PythonApi
import AmbientFs.Processes
import AmbientFs.Proofs.Processes
import AmbientFs.Proofs.EventReaders
import AmbientFs.RpcSession
import AmbientFs.Proofs.RpcSessionEnds
import AmbientFs.Proofs.RpcSessionClient
import AmbientFs.Proofs.RpcSession
import AmbientFs.Config
import AmbientFs.Proofs.Config
