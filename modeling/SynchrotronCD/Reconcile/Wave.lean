import SynchrotronCD.Reconcile.Plan
import SynchrotronCD.Types

/-!
# Sync waves

A plan is grouped by the `sync-wave` annotation of its resources; wave N is
applied in full and must report healthy before wave N+1 starts. Within a wave
the entries are sorted by kind, dependencies first, deletes in reverse.

The world answers three questions while a plan is carried out: how the applier
fares with an entry, what the health checker sees, and how much time passes. An
executor is a function for each, of everything that has happened so far, so it
may behave in any way at all.
-/

namespace SynchrotronCD

open Lib

/-! ## The wave of a manifest -/

def SYNCHROTRON_WAVE_ANNOTATION : String := "synchrotron.io/sync-wave"

def ARGOCD_WAVE_ANNOTATION : String := "argocd.argoproj.io/sync-wave"

/-- Wave used for manifests with no annotation, or with an unparseable value. -/
def DEFAULT_WAVE : Int := 0

/-- `char::is_whitespace`. -/
def isWhitespace (c : Char) : Bool :=
  let n := c.toNat
  (9 ≤ n && n ≤ 13) || (0x2000 ≤ n && n ≤ 0x200A)
    || n ∈ [0x20, 0x85, 0xA0, 0x1680, 0x2028, 0x2029, 0x202F, 0x205F, 0x3000]

/-- `str::trim`. -/
def trim (cs : List Char) : List Char :=
  ((cs.dropWhile isWhitespace).reverse.dropWhile isWhitespace).reverse

def i32Min : Int := -2 ^ 31

def i32Max : Int := 2 ^ 31 - 1

/-- The value of a non-empty run of decimal digits. -/
def digits (cs : List Char) : Option Nat :=
  if cs.isEmpty || !cs.all Char.isDigit then none
  else some (cs.foldl (fun n c => 10 * n + (c.toNat - 48)) 0)

/-- `str::parse::<i32>`: an optional sign and digits, within range. -/
def parseI32 (cs : List Char) : Option Int :=
  let n : Option Int := match cs with
    | '-' :: ds => (digits ds).map fun n => -(n : Int)
    | '+' :: ds => (digits ds).map fun n => (n : Int)
    | ds => (digits ds).map fun n => (n : Int)
  n.filter (fun n => decide (i32Min ≤ n ∧ n ≤ i32Max))

/-- What one annotation says: a string that parses, or an integer scalar. -/
def waveAnnotation (annotations : Value) (key : String) : Option Int :=
  match ((annotations.get key).bind Value.asStr).bind (fun raw => parseI32 (trim raw.toList)) with
  | some n => some n
  | none => ((annotations.get key).bind Value.asI64).map fun n => max i32Min (min i32Max n)

/-- Read the sync-wave annotation from a manifest's metadata. -/
def waveOf (m : Manifest) : Int :=
  match (m.body.value.get "metadata").bind (fun md => md.get "annotations") with
  | none => DEFAULT_WAVE
  | some annotations =>
    match waveAnnotation annotations SYNCHROTRON_WAVE_ANNOTATION with
    | some n => n
    | none => waveAnnotation annotations ARGOCD_WAVE_ANNOTATION |>.getD DEFAULT_WAVE

/-! ## Order within a wave -/

/-- Priority bucket for an unknown kind. -/
def DEFAULT_PRIORITY : Nat := 1000

/-- Apply-time priority for a kind; lower numbers are applied first. -/
def applyPriority : String → Nat
  | "Namespace" => 100
  | "NetworkPolicy" => 110
  | "ResourceQuota" => 120
  | "LimitRange" => 130
  | "PodSecurityPolicy" => 140
  | "PodDisruptionBudget" => 150
  | "ServiceAccount" => 200
  | "Secret" | "SecretList" => 210
  | "ConfigMap" => 220
  | "StorageClass" => 300
  | "PersistentVolume" => 310
  | "PersistentVolumeClaim" => 320
  | "CustomResourceDefinition" => 400
  | "ClusterRole" | "ClusterRoleList" => 500
  | "ClusterRoleBinding" | "ClusterRoleBindingList" => 510
  | "Role" | "RoleList" => 520
  | "RoleBinding" | "RoleBindingList" => 530
  | "Service" => 1500
  | "DaemonSet" => 1600
  | "Pod" => 1610
  | "ReplicationController" => 1620
  | "ReplicaSet" => 1630
  | "Deployment" => 1640
  | "HorizontalPodAutoscaler" => 1650
  | "StatefulSet" => 1660
  | "Job" => 1670
  | "CronJob" => 1680
  | "Ingress" => 1800
  | "APIService" => 1810
  | _ => DEFAULT_PRIORITY

/-- NoOps travel with applies: they are already-satisfied apply intents. -/
def actionClass : PlannedAction → Nat
  | .apply | .noOp => 0
  | .delete => 1

def compareWithinWave (a b : PlanEntry) : Ordering :=
  let pa := applyPriority a.resource.gvk.kind
  let pb := applyPriority b.resource.gvk.kind
  (compare (actionClass a.action) (actionClass b.action)).then <|
    (if a.action = .delete then compare pb pa else compare pa pb).then <|
      (compare a.resource.gvk.kind b.resource.gvk.kind).then <|
        (compare a.resource.namespace b.resource.namespace).then <|
          compare a.resource.name b.resource.name

/-- Sort the entries of one wave. -/
def sortWithinWave (entries : List PlanEntry) : List PlanEntry :=
  entries.insertionSort (fun a b => (compareWithinWave a b).isLE = true)

/-! ## Grouping -/

/-- A single wave's slice of the plan. -/
structure WaveGroup where
  wave : Int
  entries : List PlanEntry
deriving DecidableEq, Repr

/-- The plan split into waves, sorted ascending by wave number. -/
structure WavePlan where
  waves : List WaveGroup
deriving DecidableEq, Repr

/-- Both sides by reference; live fills in only where desired has nothing. -/
def manifestByRef (desired live : List Manifest) : HashMap ResourceRef Manifest :=
  live.foldl (fun idx m =>
    if ResourceRef.of m ∈ idx then idx else idx.insert (ResourceRef.of m) m) (indexByRef desired)

/-- `by_wave.entry(wave).or_default().push(entry)` for each entry in turn. -/
def byWave (waveFor : ResourceRef → Int) (entries : List PlanEntry) :
    HashMap Int (List PlanEntry) :=
  entries.foldl (fun acc e =>
    acc.insert (waveFor e.resource) ((acc.lookup (waveFor e.resource)).getD [] ++ [e])) ∅

/-- Split a plan into waves. -/
def groupIntoWaves (p : Plan) (desired live : List Manifest) : WavePlan :=
  let byRef := manifestByRef desired live
  let waveFor := fun r => ((byRef.lookup r).map waveOf).getD DEFAULT_WAVE
  let waves := (byWave waveFor p.entries).entries.map fun w => ⟨w.1, sortWithinWave w.2⟩
  ⟨waves.insertionSort (fun a b => a.wave ≤ b.wave)⟩

/-! ## Execution -/

structure ApplyError where
  reason : String
deriving DecidableEq, Repr

/-- Durations in milliseconds. -/
structure WaveExecConfig where
  perWaveTimeout : Nat
  pollInterval : Nat
deriving DecidableEq, Repr

def WaveExecConfig.default : WaveExecConfig := ⟨300000, 500⟩

inductive WaveExecError where
  | applyFailed (wave : Int) (resource : ResourceRef) (source : ApplyError)
  | waveTimeout (wave : Int) (timeout : Nat) (lastStatus : HealthStatusCode)
deriving DecidableEq, Repr

/-- The waves that finished applying and reported healthy, in order. -/
structure WaveExecReport where
  completedWaves : List Int
deriving DecidableEq, Repr

/-- One call to the outside, with its answer. -/
inductive Call where
  | apply (entry : PlanEntry) (manifest : Option Manifest) (result : Except ApplyError Unit)
  | health (resources : List ResourceRef) (status : HealthStatusCode)

/-- Every call so far, oldest first. -/
abbrev Trace := List Call

abbrev Applier := Trace → PlanEntry → Option Manifest → Except ApplyError Unit

abbrev HealthChecker := Trace → List ResourceRef → HealthStatusCode

structure ReconcileExecutor where
  applier : Applier
  health : HealthChecker
  /-- The clock: how often a gate that opens here may find its wave unhealthy
  before its deadline has passed. -/
  pollsBeforeDeadline : Trace → Nat
  config : WaveExecConfig

/-- The body handed to the applier: the desired one to apply, the live one to delete. -/
def manifestFor (desired live : List Manifest) (entry : PlanEntry) : Option Manifest :=
  match entry.action with
  | .apply => (indexByRef desired).lookup entry.resource
  | .delete => (indexByRef live).lookup entry.resource
  | .noOp => none

/-- Hand each entry to the applier, stopping at the first failure. -/
def applyAll (ex : ReconcileExecutor) (wave : Int) (bodyOf : PlanEntry → Option Manifest) :
    Trace → List PlanEntry → Trace × Except WaveExecError Unit
  | t, [] => (t, .ok ())
  | t, entry :: rest =>
    match ex.applier t entry (bodyOf entry) with
    | .error source =>
      (t ++ [.apply entry (bodyOf entry) (.error source)],
        .error (.applyFailed wave entry.resource source))
    | .ok () => applyAll ex wave bodyOf (t ++ [.apply entry (bodyOf entry) (.ok ())]) rest

/-- Poll until healthy, or until a poll at or after the deadline is not. -/
def awaitHealthy (ex : ReconcileExecutor) (wave : Int) (resources : List ResourceRef) :
    Nat → Trace → Trace × Except WaveExecError Unit
  | polls, t =>
    let status := ex.health t resources
    let t' := t ++ [.health resources status]
    if status = .healthy then (t', .ok ())
    else
      match polls with
      | 0 => (t', .error (.waveTimeout wave ex.config.perWaveTimeout status))
      | polls + 1 => awaitHealthy ex wave resources polls t'

/-- One wave: its changes, then its readiness gate if there were any. -/
def executeWave (ex : ReconcileExecutor) (bodyOf : PlanEntry → Option Manifest) (t : Trace)
    (g : WaveGroup) : Trace × Except WaveExecError Unit :=
  let changed := g.entries.filter (fun e => e.action ≠ .noOp)
  match applyAll ex g.wave bodyOf t changed with
  | (t, .error e) => (t, .error e)
  | (t, .ok ()) =>
    if changed.isEmpty then (t, .ok ())
    else awaitHealthy ex g.wave (changed.map PlanEntry.resource) (ex.pollsBeforeDeadline t) t

/-- The loop over the waves; `done` are the waves behind it. -/
def executeFrom (ex : ReconcileExecutor) (bodyOf : PlanEntry → Option Manifest) (done : List Int) :
    Trace → List WaveGroup → Trace × Except WaveExecError WaveExecReport
  | t, [] => (t, .ok ⟨done⟩)
  | t, g :: gs =>
    match executeWave ex bodyOf t g with
    | (t, .error e) => (t, .error e)
    | (t, .ok ()) => executeFrom ex bodyOf (done ++ [g.wave]) t gs

/-- Apply waves sequentially. -/
def executeWaves (ex : ReconcileExecutor) (p : WavePlan) (desired live : List Manifest) :
    Trace × Except WaveExecError WaveExecReport :=
  executeFrom ex (manifestFor desired live) [] [] p.waves

end SynchrotronCD
