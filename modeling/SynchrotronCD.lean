import SynchrotronCD.Diff.KeyedSegments
import SynchrotronCD.Diff.PatchProof
import SynchrotronCD.Diff.Pipeline
import SynchrotronCD.Diff.Pointers
import SynchrotronCD.Kube.Attribution
import SynchrotronCD.Kube.HookRunner
import SynchrotronCD.Kube.InformerRunner
import SynchrotronCD.Kube.Informers
import SynchrotronCD.Kube.Ownership
import SynchrotronCD.Kube.Teardown
import SynchrotronCD.Db.OwnedResources
import SynchrotronCD.Db.SyncRevisions
import SynchrotronCD.Kube.PruneProof
import SynchrotronCD.Plugins.CacheKeys
import SynchrotronCD.Plugins.CacheRuns
import SynchrotronCD.Plugins.TextKeys
import SynchrotronCD.Server.DesiredFollowsProof
import SynchrotronCD.Server.DiffEngine
import SynchrotronCD.Server.OutcomesProof
import SynchrotronCD.Git.HostKeysOnDisk
import SynchrotronCD.Health.Aggregate
import SynchrotronCD.Git.Orchestrator
import SynchrotronCD.Git.HostForms
import SynchrotronCD.Git.Materialize
import SynchrotronCD.Server.CachedRenders
import SynchrotronCD.Server.HostKeyPolicy
import SynchrotronCD.Server.Rollback
import SynchrotronCD.Server.SourcePaths
import SynchrotronCD.Server.StartupRender
import SynchrotronCD.Server.Webhooks
import SynchrotronCD.Server.WorkDirs
import SynchrotronCD.Kube.ScalerDiscoveryProof
import SynchrotronCD.Server.DeliveryProof
import SynchrotronCD.Server.Handler
import SynchrotronCD.Server.StatusWriter
import SynchrotronCD.Server.UpdatesProof
import SynchrotronCD.Server.WatchProof
import SynchrotronCD.Reconcile.DebounceProof
import SynchrotronCD.Reconcile.Dispatcher
import SynchrotronCD.Reconcile.Occupancy
import SynchrotronCD.Reconcile.AutoHeal
import SynchrotronCD.Reconcile.PoolStats
import SynchrotronCD.Reconcile.OneOutcome
import SynchrotronCD.Reconcile.WaveTrace
import SynchrotronCD.Reconcile.Convergence
import SynchrotronCD.Plugins.Raw
import SynchrotronCD.Kube.HookRuns
import SynchrotronCD.Db.SyncStatus
import SynchrotronCD.Server.PluginParams
import SynchrotronCD.Server.Config
import SynchrotronCD.Git.Poller
import SynchrotronCD.Kube.Oidc
import SynchrotronCD.Server.Backoff
import SynchrotronCD.Plugins.LocalPlugin
import SynchrotronCD.Notifier.Notifier
import SynchrotronCD.Core.Coalesce
import SynchrotronCD.Core.EventBus
import SynchrotronCD.Db.HistoryPruning
import SynchrotronCD.Db.Migrations
import SynchrotronCD.Db.RevisionLog
import SynchrotronCD.Cli.Sse
import SynchrotronCD.Server.WatchWire
import SynchrotronCD.Plugins.PluginProcess
import SynchrotronCD.Server.RegistrationSecrets
import SynchrotronCD.Server.Secrets
import SynchrotronCD.Git.GitHubApp
import SynchrotronCD.Kube.Exec
import SynchrotronCD.Plugins.Labeler
import SynchrotronCD.Db.AppCacheRows
import SynchrotronCD.Server.ConfigReload
import SynchrotronCD.Kube.ClusterRegistry
