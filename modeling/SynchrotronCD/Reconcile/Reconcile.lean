import SynchrotronCD.Reconcile.Wave

/-!
# Per-app reconcile

One pass reads the desired and the live manifests, plans, and — if the app's
cluster has an executor — reads both again and carries the plan out in waves. It
publishes one `SyncOutcome`.

A pass reads shared stores several times without holding them, so what the reads
return is a parameter of the pass (`PassReads`), one field for each read in the
order they are made. Metrics and log lines are left out. A published message is
kept as the error whose text it is.
-/

namespace SynchrotronCD

open Lib

/-- Reason a source couldn't satisfy a lookup. -/
inductive SourceError where
  | notFound
  | unavailable (reason : String)
deriving DecidableEq, Repr

/-- `Display` for source errors. -/
def SourceError.display : SourceError → String
  | .notFound => "not found"
  | .unavailable reason => "source unavailable: " ++ reason

inductive ReconcileError where
  | appNotFound (app : AppName)
  | clusterNotFound (cluster : ClusterName)
  | desiredFetch (app : AppName) (source : SourceError)
  | liveFetch (app : AppName) (cluster : ClusterName) (source : SourceError)
deriving DecidableEq, Repr

/-- Outcome of a single reconcile pass. -/
structure ReconcileOutcome where
  app : AppName
  cluster : ClusterName
  plan : Option Plan
  error : Option ReconcileError
  apply : Option (Except WaveExecError WaveExecReport)

def ReconcileOutcome.success (o : ReconcileOutcome) : Bool :=
  o.error.isNone && !(match o.apply with
    | some (.error _) => true
    | _ => false)

/-- The error behind a failure message. -/
inductive FailureMessage where
  | reconcile (e : ReconcileError)
  | waves (e : WaveExecError)
  /-- `render failed: …`. -/
  | render (reason : String)
deriving DecidableEq, Repr

/-- The `SystemEvent::SyncOutcome` a pass publishes. -/
structure SyncOutcome where
  app : AppName
  cluster : ClusterName
  success : Bool
  message : Option FailureMessage
  trigger : String
  /-- Git revision the reconcile evaluated. -/
  revision : Option String
  /-- Sum of `Apply` and `Delete` plan entries, as a `u32`. -/
  resourcesSynced : Nat
deriving DecidableEq, Repr

/-- Reports `Healthy` for any input. -/
def alwaysHealthy : HealthChecker := fun _ _ => .healthy

/-- What the reads of one pass return. -/
structure PassReads where
  desired : Except SourceError (List Manifest)
  live : Except SourceError (List Manifest)
  revision : Option String
  /-- The second read, for wave grouping and bodies. -/
  desiredAgain : Except SourceError (List Manifest)
  liveAgain : Except SourceError (List Manifest)

/-- What one pass does. -/
structure Pass where
  outcome : ReconcileOutcome
  published : SyncOutcome
  calls : Trace

structure Reconciler where
  /-- Default executor used when no per-cluster override matches. -/
  defaultExecutor : Option ReconcileExecutor
  clusterExecutors : HashMap ClusterName ReconcileExecutor

namespace Reconciler

def new : Reconciler := ⟨none, ∅⟩

def withExecutor (rec : Reconciler) (ex : ReconcileExecutor) : Reconciler :=
  { rec with defaultExecutor := some ex }

def withClusterExecutor (rec : Reconciler) (cluster : ClusterName) (ex : ReconcileExecutor) :
    Reconciler :=
  { rec with clusterExecutors := rec.clusterExecutors.insert cluster ex }

def executorFor (rec : Reconciler) (cluster : ClusterName) : Option ReconcileExecutor :=
  (rec.clusterExecutors.lookup cluster).or rec.defaultExecutor

end Reconciler

/-- Plan without publishing. -/
def planOnly (app : AppName) (cluster : ClusterName) (desired live : Except SourceError (List Manifest)) :
    Except ReconcileError Plan :=
  match desired with
  | .error .notFound => .error (.appNotFound app)
  | .error other => .error (.desiredFetch app other)
  | .ok desired =>
    match live with
    | .error .notFound => .error (.clusterNotFound cluster)
    | .error other => .error (.liveFetch app cluster other)
    | .ok live => .ok (plan desired live)

/-- A pass that ended before there was a plan. -/
def emitFailure (app : AppName) (cluster : ClusterName) (error : ReconcileError)
    (trigger : String) : Pass where
  outcome := ⟨app, cluster, none, some error, none⟩
  published := ⟨app, cluster, false, some (.reconcile error), trigger, none, 0⟩
  calls := []

/-- A pass on a cluster without an executor. -/
def emitPlanOnly (app : AppName) (cluster : ClusterName) (p : Plan) (trigger : String)
    (revision : Option String) : Pass where
  outcome := ⟨app, cluster, some p, none, none⟩
  published := ⟨app, cluster, true, none, trigger, revision, p.changes % 2 ^ 32⟩
  calls := []

/-- A pass that tried to carry its plan out. -/
def publishApplyResult (app : AppName) (cluster : ClusterName) (p : Plan) (trigger : String)
    (revision : Option String) (calls : Trace) (result : Except WaveExecError WaveExecReport) :
    Pass where
  outcome := ⟨app, cluster, some p, none, some result⟩
  published := match result with
    | .ok _ => ⟨app, cluster, true, none, trigger, revision, p.changes % 2 ^ 32⟩
    | .error e => ⟨app, cluster, false, some (.waves e), trigger, revision, p.changes % 2 ^ 32⟩
  calls := calls

/-- The error of a second read that failed; it names no resource. -/
def refetchError (side : String) (e : SourceError) : WaveExecError :=
  .applyFailed 0 ⟨⟨"", "", ""⟩, none, ""⟩
    ⟨"could not refetch " ++ side ++ " manifests for wave grouping: " ++ e.display⟩

/-- Plan and execute. -/
def Reconciler.reconcileAndApplyApp (rec : Reconciler) (app : AppName) (cluster : ClusterName)
    (trigger : String) (reads : PassReads) : Pass :=
  match planOnly app cluster reads.desired reads.live with
  | .error error => emitFailure app cluster error trigger
  | .ok p =>
    match rec.executorFor cluster with
    | none => emitPlanOnly app cluster p trigger reads.revision
    | some ex =>
      match reads.desiredAgain with
      | .error e =>
        publishApplyResult app cluster p trigger reads.revision []
          (.error (refetchError "desired" e))
      | .ok desired =>
        match reads.liveAgain with
        | .error e =>
          publishApplyResult app cluster p trigger reads.revision []
            (.error (refetchError "live" e))
        | .ok live =>
          let run := executeWaves ex (groupIntoWaves p desired live) desired live
          publishApplyResult app cluster p trigger reads.revision run.1 run.2

end SynchrotronCD
