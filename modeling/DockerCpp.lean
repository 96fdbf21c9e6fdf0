import DockerCpp.Lib.Prog
import DockerCpp.Lib.Run
import DockerCpp.Lib.Overlay
import DockerCpp.Lib.Dfs
import DockerCpp.Lib.Places
import DockerCpp.Lib.EcmaRegex
import DockerCpp.Lib.EcmaSyntax
import DockerCpp.Lib.Assoc
import DockerCpp.Lib.Split
import DockerCpp.Lib.LexPath
import DockerCpp.Lib.Text
import DockerCpp.Lib.Tokens
import DockerCpp.Lib.Stream
import DockerCpp.Lib.Locks
import DockerCpp.Lib.Nesting
import DockerCpp.Lib.Stalls
import DockerCpp.Lib.Owners
import DockerCpp.Core.Value
import DockerCpp.Core.Config
import DockerCpp.Core.ConfigPresence
import DockerCpp.Core.ConfigFile
import DockerCpp.Core.Event
import DockerCpp.Core.EventQueue
import DockerCpp.Core.EventOwner
import DockerCpp.Core.EventPlaces
import DockerCpp.Core.EventBatch
import DockerCpp.Core.EventOrder
import DockerCpp.Core.EventUnsubscribe
import DockerCpp.Core.EventStatistics
import DockerCpp.Core.EventLocks
import DockerCpp.Core.EventFlush
import DockerCpp.Core.EventWakeups
import DockerCpp.Core.EventProgress
import DockerCpp.Core.EventReset
import DockerCpp.Core.EventPattern
import DockerCpp.Core.Logger
import DockerCpp.Core.LoggerSinks
import DockerCpp.Core.LoggerRetry
import DockerCpp.Core.LoggerFormat
import DockerCpp.Core.LoggerLocks
import DockerCpp.Config.Manager
import DockerCpp.Config.Lookup
import DockerCpp.Config.Json
import DockerCpp.Config.JsonKeys
import DockerCpp.Config.JsonEntries
import DockerCpp.Config.JsonRoundTrip
import DockerCpp.Config.Expand
import DockerCpp.Config.Fallback
import DockerCpp.Config.Notifications
import DockerCpp.Config.Layered
import DockerCpp.Config.Restriction
import DockerCpp.Config.MergeKeys
import DockerCpp.Config.Serialization
import DockerCpp.Config.FallbackReader
import DockerCpp.Config.FallbackRoundTrip
import DockerCpp.Config.FallbackDocument
import DockerCpp.Config.Integers
import DockerCpp.Plugin.Registry
import DockerCpp.Plugin.Initialization
import DockerCpp.Plugin.Closure
import DockerCpp.Plugin.LoadOrder
import DockerCpp.Plugin.Shutdown
import DockerCpp.Runtime.Os
import DockerCpp.Runtime.ProcessManager
import DockerCpp.Runtime.Container
import DockerCpp.Runtime.ContainerFrames
import DockerCpp.Runtime.OsFrames
import DockerCpp.Runtime.ContainerLifecycle
import DockerCpp.Runtime.ContainerConfig
import DockerCpp.Runtime.Environment
import DockerCpp.Runtime.Registry
import DockerCpp.Runtime.RegistryCreate
import DockerCpp.Runtime.UniqueNames
import DockerCpp.Runtime.RegistryIndex
import DockerCpp.Runtime.RegistryLocks
import DockerCpp.Runtime.RegistryNames
import DockerCpp.Runtime.RegistryCleanup
import DockerCpp.Runtime.Handshake
import DockerCpp.Runtime.Kernel
import DockerCpp.Runtime.ExitCallback
import DockerCpp.Runtime.Forgetting
import DockerCpp.Runtime.ContainerKernel
import DockerCpp.Runtime.ExitStatus
import DockerCpp.Runtime.Signals
import DockerCpp.Runtime.Uptime
import DockerCpp.Runtime.ContainerMove
import DockerCpp.Runtime.Refusal
import DockerCpp.Runtime.Liveness
import DockerCpp.Runtime.Launch
import DockerCpp.Runtime.Beside
import DockerCpp.Runtime.MemberRules
import DockerCpp.Runtime.StateTrace
import DockerCpp.Runtime.RegistryShutdown
import DockerCpp.Runtime.CgroupCalls
import DockerCpp.Runtime.Orphans
import DockerCpp.Runtime.MonitorThreads
import DockerCpp.Runtime.NamespaceHandles
import DockerCpp.Cgroup.Tree
import DockerCpp.Cgroup.Manager
import DockerCpp.Cgroup.Steady
import DockerCpp.Cgroup.Limits
import DockerCpp.Cgroup.FailedUpdates
import DockerCpp.Cgroup.Statistics
import DockerCpp.Cgroup.ReadBack
import DockerCpp.Cgroup.Controllers
import DockerCpp.Cgroup.Containment
import DockerCpp.Cgroup.Destruction
import DockerCpp.Cgroup.Frozen
import DockerCpp.Cgroup.Monitor
import DockerCpp.Cgroup.Observation
import DockerCpp.Cgroup.MonitorLocks
import DockerCpp.Cgroup.Alerts
