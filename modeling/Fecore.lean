import Fecore.Concurrency.Relays
import Fecore.Concurrency.Runs
import Fecore.Concurrency.Interleaving
import Fecore.Concurrency.Locks
import Fecore.Data.Assoc
import Fecore.Proxy.Retry
import Fecore.Service.Remove
import Fecore.Service.Leftovers
import Fecore.Supervisor.Start
import Fecore.Supervisor.LocalResolver
import Fecore.Supervisor.HostsFile
import Fecore.Supervisor.LookUps
import Fecore.Handlers.Functions
import Fecore.Handlers.IdleReplicas
import Fecore.Handlers.FunctionStore
import Fecore.Handlers.Replicas
import Fecore.Handlers.Provider
import Fecore.Handlers.Sections
import Fecore.Handlers.Frames
import Fecore.Handlers.WellFormed
import Fecore.Handlers.Ownership
import Fecore.Handlers.Deployments
import Fecore.Handlers.Sharing
import Fecore.Handlers.Node
import Fecore.Handlers.Limits
import Fecore.Handlers.Namespaces
import Fecore.Handlers.Deletion
import Fecore.Handlers.Release
import Fecore.Handlers.Undeployment
import Fecore.Handlers.Restart
import Fecore.Handlers.StatsRecords
import Fecore.Handlers.Hybrids
import Fecore.Data.Words
import Fecore.Handlers.Stats
import Fecore.Handlers.ReplicaNames
import Fecore.Handlers.Policies
import Fecore.Data.Path
import Fecore.Handlers.Secrets
import Fecore.Handlers.Resolver
import Fecore.Handlers.SameFunction
import Fecore.Handlers.Mirror
import Fecore.Data.DependencyOrder
import Fecore.Depgraph.Depgraph
import Fecore.Depgraph.DeploymentOrder
import Fecore.Handlers.Ipam
import Fecore.Data.Samples
import Fecore.Handlers.ServiceTimes
import Fecore.Handlers.Percentiles
import Fecore.Handlers.StartMeans
import Fecore.Logs.Journal
import Fecore.Handlers.DeployHandler
import Fecore.Handlers.SecretMounts
import Fecore.Handlers.WasmImages
import Fecore.Handlers.RejectedDeploys
import Fecore.Handlers.Isolation
import Fecore.Handlers.SandboxNames
import Fecore.Handlers.StoredFunctions
import Fecore.Handlers.DeployedStatus
import Fecore.Handlers.Unpacking
import Fecore.Handlers.StatsRings
import Fecore.Handlers.MetricsReport
import Fecore.Handlers.Undeployed
import Fecore.Concurrency.EarlyReturns
import Fecore.Handlers.FailedCreations
import Fecore.Concurrency.Tallies
import Fecore.Concurrency.Clocks
import Fecore.Handlers.PoolSections
import Fecore.Handlers.SweepLoops
import Fecore.Handlers.CleanupLock
import Fecore.Handlers.PoolClocks
import Fecore.Handlers.SweepExact
import Fecore.Concurrency.Histories
import Fecore.Handlers.StartupTypes
import Fecore.Concurrency.Writes
import Fecore.Handlers.KeptReplicas
import Fecore.Handlers.UpdateHandler
import Fecore.Wasmnet.Wasmnet
import Fecore.Handlers.WasmInterfaces
import Fecore.Concurrency.Traces
import Fecore.Handlers.IpamAddresses
import Fecore.Data.Fuelled
import Fecore.Depgraph.AnyServices
import Fecore.Depgraph.AnyOrder
import Fecore.Cninetwork.IPAddress
import Fecore.Cmd.SecretMigration
import Fecore.Handlers.ListNamespaces
import Fecore.Data.Lines
import Fecore.Logs.Copy
import Fecore.Handlers.Annotations
import Fecore.Handlers.ProcessEnv
import Fecore.Handlers.PoolOrder
import Fecore.Handlers.ReadSecrets
import Fecore.Data.Decimal
import Fecore.Supervisor.Upstreams
import Fecore.Handlers.ColdStarts
import Fecore.Concurrency.LockOrder
import Fecore.Handlers.LockDiscipline
import Fecore.Concurrency.Crashes
import Fecore.Handlers.CrashRecovery
import Fecore.Logs.Stream
import Fecore.Supervisor.Forwarding
import Fecore.Data.Files
import Fecore.Handlers.SecretStore
import Fecore.Supervisor.StartOrder
import Fecore.Supervisor.Restarts
import Fecore.Supervisor.Up
import Fecore.Concurrency.Channels
import Fecore.Handlers.StatsChannel
import Fecore.Concurrency.Isolation
import Fecore.Data.Subtrees
import Fecore.Handlers.WasmStorage
import Fecore.Data.Floats
import Fecore.Data.Durations
import Fecore.Service.Containers
