import SynchrotronCD.Plugins.Manifest
import SynchrotronCD.Plugins.Mapping
import SynchrotronCD.Types

/-!
# Health checks

The health of a single manifest: by a rule for its kind if there is one, else by the
convention for `status.conditions`, else unknown.
-/

namespace SynchrotronCD

/-- `Value::as_bool`. -/
def Value.asBool (v : Value) : Option Bool :=
  match v.untag with
  | .bool b => some b
  | _ => none

namespace Health

structure HealthAssessment where
  status : HealthStatusCode
  message : Option String
deriving DecidableEq, Repr

namespace HealthAssessment

def healthy : HealthAssessment := ⟨.healthy, none⟩

def progressing (msg : String) : HealthAssessment := ⟨.progressing, some msg⟩

def degraded (msg : String) : HealthAssessment := ⟨.degraded, some msg⟩

def suspended (msg : String) : HealthAssessment := ⟨.suspended, some msg⟩

def unknown (msg : String) : HealthAssessment := ⟨.unknown, some msg⟩

end HealthAssessment

/-! ## Fields -/

def statusOf (body : Value) : Option Value := body.get "status"

def specField (body : Value) (key : String) : Option Value :=
  (body.get "spec").bind fun s => s.get key

def generation (body : Value) : Option Int :=
  ((body.get "metadata").bind fun m => m.get "generation").bind Value.asI64

def observedGeneration (body : Value) : Option Int :=
  ((body.get "status").bind fun s => s.get "observedGeneration").bind Value.asI64

def generationDrift (body : Value) : Bool :=
  match generation body, observedGeneration body with
  | some g, some o => g ≠ o
  -- the controller hasn't seen the update yet
  | some _, none => true
  | _, _ => false

/-- Find a condition by `type`: the first match. -/
def findCondition (status : Value) (type : String) : Option Value :=
  ((status.get "conditions").bind Value.asSequence).bind fun cs =>
    cs.find? fun c => (c.get "type").bind Value.asStr = some type

def conditionStatus (cond : Value) : Option String := (cond.get "status").bind Value.asStr

def conditionReason (cond : Value) : Option String := (cond.get "reason").bind Value.asStr

def i64Field (v : Value) (key : String) : Int := ((v.get key).bind Value.asI64).getD 0

/-- The condition is there and has this status. -/
def conditionIs (status : Value) (type value : String) : Bool :=
  match findCondition status type with
  | some cond => conditionStatus cond = some value
  | none => false

/-- Replicas asked for. -/
def desiredReplicas (body : Value) : Int := ((specField body "replicas").bind Value.asI64).getD 1

def specFlag (body : Value) (key : String) : Bool :=
  (specField body key).bind Value.asBool = some true

/-- Addresses have been assigned. -/
def hasIngress (body : Value) : Bool :=
  match (((statusOf body).bind fun s => s.get "loadBalancer").bind fun l => l.get "ingress").bind
      Value.asSequence with
  | some seq => !seq.isEmpty
  | none => false

/-! ## Per-kind checks -/

open HealthAssessment

/-- The last rollout was given up. -/
def deadlineExceeded (status : Value) : Bool :=
  match findCondition status "Progressing" with
  | some cond => conditionStatus cond = some "False"
      ∧ conditionReason cond = some "ProgressDeadlineExceeded"
  | none => false

def assessDeployment (body : Value) : HealthAssessment :=
  if specFlag body "paused" then suspended "deployment paused"
  else if generationDrift body then progressing "generation not yet observed"
  else
    match statusOf body with
    | none => progressing "status not yet reported"
    | some status =>
      let updated := i64Field status "updatedReplicas"
      if deadlineExceeded status then degraded "progress deadline exceeded"
      else if updated < desiredReplicas body then progressing "rollout in progress"
      else if i64Field status "replicas" > updated then progressing "old replicas pending termination"
      else if i64Field status "availableReplicas" < updated then
        progressing "replicas not yet available"
      else healthy

/-- Two revisions are named, and they differ. -/
def rolling (status : Value) : Bool :=
  match (status.get "currentRevision").bind Value.asStr,
      (status.get "updateRevision").bind Value.asStr with
  | some c, some u => c ≠ u
  | _, _ => false

def assessStatefulset (body : Value) : HealthAssessment :=
  if generationDrift body then progressing "generation not yet observed"
  else
    match statusOf body with
    | none => progressing "status not yet reported"
    | some status =>
      if i64Field status "readyReplicas" < desiredReplicas body then
        progressing "replicas not yet ready"
      else if rolling status then progressing "rolling to new revision"
      else healthy

def assessDaemonset (body : Value) : HealthAssessment :=
  if generationDrift body then progressing "generation not yet observed"
  else
    match statusOf body with
    | none => progressing "status not yet reported"
    | some status =>
      let desired := i64Field status "desiredNumberScheduled"
      if i64Field status "updatedNumberScheduled" < desired then
        progressing "pods not yet updated on all nodes"
      else if i64Field status "numberAvailable" < desired then
        progressing "pods not yet available on all nodes"
      else healthy

def assessJob (body : Value) : HealthAssessment :=
  match statusOf body with
  | none => progressing "job not yet started"
  | some status =>
    if conditionIs status "Failed" "True" then degraded "job failed"
    else if conditionIs status "Complete" "True" then healthy
    else if specFlag body "suspend" then suspended "job suspended"
    else progressing "job running"

/-- Every container reports ready, and there is one. -/
def allReady (status : Value) : Bool :=
  match (status.get "containerStatuses").bind Value.asSequence with
  | some seq => !seq.isEmpty && seq.all fun c => (c.get "ready").bind Value.asBool = some true
  | none => false

def phaseOf (status : Value) : String := ((status.get "phase").bind Value.asStr).getD ""

def assessPod (body : Value) : HealthAssessment :=
  match statusOf body with
  | none => progressing "pod pending"
  | some status =>
    let phase := phaseOf status
    if phase = "Succeeded" then healthy
    else if phase = "Failed" then degraded "pod failed"
    else if phase = "Pending" then progressing "pod pending"
    else if phase = "Running" then
      if allReady status then healthy else progressing "containers not all ready"
    else unknown ("pod phase " ++ phase)

def assessIngress (body : Value) : HealthAssessment :=
  if hasIngress body then healthy else progressing "awaiting load balancer ingress"

/-- Only a load balancer has anything to wait for. -/
def assessService (body : Value) : HealthAssessment :=
  if (specField body "type").bind Value.asStr ≠ some "LoadBalancer" then healthy
  else assessIngress body

def assessPvc (body : Value) : HealthAssessment :=
  match statusOf body with
  | none => progressing "pvc not yet bound"
  | some status =>
    let phase := phaseOf status
    if phase = "Bound" then healthy
    else if phase = "Pending" then progressing "pvc pending"
    else if phase = "Lost" then degraded "pvc lost"
    else unknown ("pvc phase " ++ phase)

def assessCrd (body : Value) : HealthAssessment :=
  match statusOf body with
  | none => progressing "crd not yet established"
  | some status =>
    if conditionIs status "NamesAccepted" "False" then degraded "crd names not accepted"
    else if conditionIs status "Established" "True" then healthy
    else progressing "crd not yet established"

/-- The reason of a condition, if it is there and gives one. -/
def reasonOr (status : Value) (type default : String) : String :=
  ((findCondition status type).bind conditionReason).getD default

def assessHpa (body : Value) : HealthAssessment :=
  match statusOf body with
  | none => progressing "hpa not yet reported"
  | some status =>
    if conditionIs status "AbleToScale" "False" then
      degraded (reasonOr status "AbleToScale" "hpa unable to scale")
    else if conditionIs status "ScalingActive" "True" then healthy
    else if conditionIs status "ScalingActive" "False" then
      degraded (reasonOr status "ScalingActive" "hpa scaling inactive")
    else progressing "hpa initialising"

/-! ## Tiers -/

/-- The kinds there is a rule for. -/
inductive Tier1 where
  | deployment
  | statefulSet
  | daemonSet
  | job
  | pod
  | service
  | ingress
  | persistentVolumeClaim
  | customResourceDefinition
  | horizontalPodAutoscaler
deriving DecidableEq, Repr

def Tier1.of (gvk : Gvk) : Option Tier1 :=
  match gvk.group, gvk.kind with
  | "apps", "Deployment" => some .deployment
  | "apps", "StatefulSet" => some .statefulSet
  | "apps", "DaemonSet" => some .daemonSet
  | "batch", "Job" => some .job
  | "", "Pod" => some .pod
  | "", "Service" => some .service
  | "networking.k8s.io", "Ingress" => some .ingress
  | "", "PersistentVolumeClaim" => some .persistentVolumeClaim
  | "apiextensions.k8s.io", "CustomResourceDefinition" => some .customResourceDefinition
  | "autoscaling", "HorizontalPodAutoscaler" => some .horizontalPodAutoscaler
  | _, _ => none

def Tier1.assess : Tier1 → Value → HealthAssessment
  | .deployment => assessDeployment
  | .statefulSet => assessStatefulset
  | .daemonSet => assessDaemonset
  | .job => assessJob
  | .pod => assessPod
  | .service => assessService
  | .ingress => assessIngress
  | .persistentVolumeClaim => assessPvc
  | .customResourceDefinition => assessCrd
  | .horizontalPodAutoscaler => assessHpa

def assessTier1 (m : Manifest) : Option HealthAssessment :=
  (Tier1.of m.gvk).map fun kind => kind.assess m.body.value

def healthFromCondition (cond : Value) : HealthAssessment :=
  let status := (conditionStatus cond).getD ""
  let detail := ((conditionReason cond).or ((cond.get "message").bind Value.asStr)).getD ""
  if status = "True" then healthy
  else if status = "False" then
    degraded (if detail.isEmpty then "condition reports false" else detail)
  else progressing (if detail.isEmpty then "condition status unknown" else detail)

/-- The community-standard readiness conditions, `Ready` preferred. -/
def readinessCondition (status : Value) : Option Value :=
  (findCondition status "Ready").or (findCondition status "Available")

/-- Health by the `status.conditions` convention. -/
def assessByConditions (m : Manifest) : Option HealthAssessment :=
  ((statusOf m.body.value).bind readinessCondition).map healthFromCondition

/-- Assess the health of a single manifest. -/
def assess (m : Manifest) : HealthAssessment :=
  ((assessTier1 m).or (assessByConditions m)).getD (unknown "no tier-1 or tier-2 signal")

end Health

end SynchrotronCD
