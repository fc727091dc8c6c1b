import ImportLens.Cache.Disk.Atomicity
import ImportLens.Cache.Durability
import ImportLens.Cache.Verdicts
import ImportLens.Cache.Recency.Runs
import ImportLens.Cache.Concurrent.Eviction
import ImportLens.Cache.Concurrent.Stamping
import ImportLens.Cache.Budget.Stores
import ImportLens.Cache.ShardRemoval
import ImportLens.Daemon.SingleFlight
import ImportLens.Daemon.Lanes
import ImportLens.Engine.Admission
import ImportLens.Engine.SourceBytes
import ImportLens.Engine.Retries
import ImportLens.Engine.Scheduling
import ImportLens.Pipeline.AssetBoundary
import ImportLens.Pipeline.AssetConservation
import ImportLens.Pipeline.AssetLedger
import ImportLens.Pipeline.BuildMemo
import ImportLens.Daemon.WatchedChanges
import ImportLens.Ipc.BuildGate
import ImportLens.Ipc.Barrier
import ImportLens.Ipc.Answers
import ImportLens.Registry.Sharing
import ImportLens.Registry.Flushing
import ImportLens.Registry.Accounting
import ImportLens.Registry.RateLimit
import ImportLens.Extension.StoredRanges
import ImportLens.Cli.Gates
import ImportLens.Document.ScriptRegions
import ImportLens.Document.Ignore
import ImportLens.Document.Template
import ImportLens.Extension.IpcRuns
import ImportLens.Daemon.Revalidation
import ImportLens.Extension.HintRuns
import ImportLens.Cache.StoredValue
import ImportLens.Cache.FlushToDisk
import ImportLens.Cache.MemoryCap
import ImportLens.Cache.Victims
import ImportLens.Cache.Identity
import ImportLens.Pipeline.Observations
import ImportLens.Pipeline.CssImportCycles
import ImportLens.Document.PackageJsonEntries
import ImportLens.Pipeline.BrowserWalk
import ImportLens.Pipeline.CssDependencies
import ImportLens.Pipeline.GeneratedSources
import ImportLens.Registry.SizeCap
import ImportLens.Daemon.RegistryRefresh
import ImportLens.Ipc.FrameChunks
import ImportLens.Extension.ShiftedImports
import ImportLens.Extension.CostHistory
import ImportLens.Extension.GitDiff
import ImportLens.Cache.RecencyClock
import ImportLens.Pipeline.AliasConfigs
import ImportLens.Extension.CrashBreaker
import ImportLens.Extension.RecycleGuard
import ImportLens.Daemon.AtomicWrite
import ImportLens.Report.Summary
import ImportLens.Extension.OvertakingRefreshes
import ImportLens.Engine.DependencyPaths
