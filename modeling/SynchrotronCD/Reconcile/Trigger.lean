import SynchrotronCD.Reconcile.Reconcile
import SynchrotronCD.Reconcile.WorkerPool

/-!
# The event-driven trigger

Translates events of the shared bus into coalesced enqueues on the worker pool.
Repository events concern every app that references the repository; a manual
request names its app.
-/

namespace SynchrotronCD

open WorkerPool

inductive WebhookSource where
  | gitHub
  | gitLab
  | bitbucket
deriving DecidableEq, Repr

inductive SystemEvent where
  | repoChanged (repo newHead : String)
  | repoUnchanged (repo head : String)
  | repoFetchFailed (repo error : String)
  | webhookTriggered (repo : String) (source : WebhookSource)
  | syncOutcome (outcome : SyncOutcome)
  | manualSyncRequested (app : AppName)
  | appChanged (app : AppName) (repo : String)
  | appHealthAssessed (app : AppName) (cluster : ClusterName) (status : HealthStatusCode)
    (message : Option String)
deriving DecidableEq, Repr

/-- Apps that reference the given repo. -/
abbrev AppResolver := String → List AppName

/-- The apps an event asks to reconcile, and why; most events ask for none. -/
def SystemEvent.targets (resolver : AppResolver) : SystemEvent → List AppName × Trigger
  | .repoChanged repo _ => (resolver repo, .poll)
  | .webhookTriggered repo _ => (resolver repo, .webhook)
  | .manualSyncRequested app => ([app], .manual)
  | .repoUnchanged _ _ | .repoFetchFailed _ _ | .syncOutcome _ | .appHealthAssessed _ _ _ _
  | .appChanged _ _ => ([], .manual)

/-- Dispatch one event; a refused enqueue is only logged. -/
def dispatch (cfg : PoolConfig) (resolver : AppResolver) (now : Nat) (p : Pool) (e : SystemEvent) :
    Pool :=
  (e.targets resolver).1.foldl (fun p app => p.enqueue cfg app (e.targets resolver).2 now true) p

end SynchrotronCD
