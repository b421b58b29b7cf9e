import SynchrotronCD.Kube.Apply
import SynchrotronCD.Reconcile.WaveProof

/-!
# The two ways to a delete

A resource that is no longer desired can go in two ways. The prune sweep computes
from the recorded resources which are to go (`computePruneSet`) and deletes them
one by one. The reconciler plans a delete for every live resource without a
desired manifest, and its waves hand it to the `KubeApplierAdapter`.

Either way ends in `KubeSsaApplier.delete`. The API server may answer differently
at every call, so it is a function of the calls made before.
-/

namespace SynchrotronCD.Kube

open Lib

/-- One resource the controller has applied for an app. -/
structure OwnedResource where
  gvk : Gvk
  /-- `none` for cluster-scoped resources. -/
  «namespace» : Option String
  name : String
  /-- Sync wave at last apply time. -/
  wave : Int
  /-- The manifest carried an opt-out annotation. -/
  pruneDisabled : Bool
deriving DecidableEq, Repr

def OwnedResource.ref (r : OwnedResource) : ResourceRef := ⟨r.gvk, r.namespace, r.name⟩

/-! ## The exemption -/

def SYNCHROTRON_PRUNE_ANNOTATION : String := "synchrotron.io/prune"

def ARGOCD_SYNC_OPTIONS_ANNOTATION : String := "argocd.argoproj.io/sync-options"

/-- `raw.trim().eq_ignore_ascii_case("false")`. -/
def saysFalse (raw : String) : Bool := (trim raw.toList).map Char.toLower == "false".toList

/-- Some of the comma-separated options is `Prune=false`. -/
def optsOutOfPrune (raw : String) : Bool :=
  (raw.toList.splitOn ',').any fun opt => trim opt == "Prune=false".toList

/-- Read the prune-disabled annotation from a manifest. -/
def isPruneDisabled (m : Manifest) : Bool :=
  match (m.body.value.get "metadata").bind (fun md => md.get "annotations") with
  | none => false
  | some ann =>
    ((ann.get SYNCHROTRON_PRUNE_ANNOTATION).bind Value.asStr).any saysFalse
      || ((ann.get ARGOCD_SYNC_OPTIONS_ANNOTATION).bind Value.asStr).any optsOutOfPrune

/-! ## The prune set -/

/-- Highest wave first. -/
def comparePruneOrder (a b : OwnedResource) : Ordering :=
  (compare b.wave a.wave).then (a.ref.compareSortKey b.ref)

/-- The resources that should be deleted on the next sync, in delete order. -/
def computePruneSet (previouslyOwned : List OwnedResource) (currentlyDesired : List Manifest) :
    List OwnedResource :=
  let desiredKeys := currentlyDesired.map ResourceRef.of
  let candidates := (previouslyOwned.filter fun r => !r.pruneDisabled).filter
    fun r => r.ref ∉ desiredKeys
  candidates.insertionSort (fun a b => (comparePruneOrder a b).isLE = true)

theorem mem_computePruneSet {owned : List OwnedResource} {desired : List Manifest}
    {r : OwnedResource} : r ∈ computePruneSet owned desired
      ↔ r ∈ owned ∧ r.pruneDisabled = false ∧ r.ref ∉ desired.map ResourceRef.of := by
  unfold computePruneSet
  simp only [List.mem_insertionSort, List.mem_filter, Bool.not_eq_true', decide_eq_true_eq, and_assoc]

/-! ## Deleting -/

inductive PropagationPolicy where
  | orphan
  | background
  | foreground
deriving DecidableEq, Repr

structure DeleteRequest where
  resource : ApiResource
  /-- The namespace of the request's path, if it has one. -/
  «namespace» : Option String
  name : String
  propagation : PropagationPolicy
deriving DecidableEq, Repr

/-- An API server that answers deletes too. -/
structure Cluster extends ApiServer where
  delete : DeleteRequest → Except KubeError Unit

def mapDeleteErr : KubeError → ApplyError
  | .api _ reason message => .server (reason ++ ": " ++ message)
  | .hyperError text | .service text | .httpError text | .readEvents text => .transport text
  | .serdeError text | .buildRequest text => .decode text
  | .other text => .transport text

namespace KubeSsaApplier

/-- The namespace of the request; a namespaced resource has to be recorded with one. -/
def deleteNamespace (scope : Scope) (target : OwnedResource) : Except ApplyError (Option String) :=
  match scope with
  | .cluster => .ok none
  | .namespaced =>
    match target.namespace with
    | some ns => .ok (some ns)
    | none => .error (.server (target.gvk.kind ++ " is namespaced but owned-record for "
        ++ target.name ++ " has no namespace"))

/-- Delete a single owned resource; one that is already gone counts as deleted. -/
def delete (k : KubeSsaApplier) (cluster : Cluster) (target : OwnedResource) :
    KubeSsaApplier × Except ApplyError Unit :=
  match k.resolve cluster.toApiServer target.gvk with
  | (k, .error e) => (k, .error e)
  | (k, .ok (resource, scope)) =>
    match deleteNamespace scope target with
    | .error e => (k, .error e)
    | .ok ns =>
      match cluster.delete ⟨resource, ns, target.name, .background⟩ with
      | .ok () => (k, .ok ())
      | .error (.api code reason message) =>
        if code = 404 then (k, .ok ()) else (k, .error (mapDeleteErr (.api code reason message)))
      | .error e => (k, .error (mapDeleteErr e))

end KubeSsaApplier

/-- The prune deletes, each against the cluster as it is then, until one fails; what became
of each. -/
def pruneAll (cluster : List (OwnedResource × Except ApplyError Unit) → Cluster) :
    KubeSsaApplier → List (OwnedResource × Except ApplyError Unit) → List OwnedResource →
    List (OwnedResource × Except ApplyError Unit)
  | _, done, [] => done
  | k, done, target :: rest =>
    match k.delete (cluster done) target with
    | (k, .ok ()) => pruneAll cluster k (done ++ [(target, .ok ())]) rest
    | (_, .error e) => done ++ [(target, .error e)]

/-! ## The adapter -/

/-- What a conflict's message ends in. -/
def managersSuffix (managers : List String) : String :=
  if managers.isEmpty then "" else " (owning managers: " ++ ", ".intercalate managers ++ ")"

def ApplyError.toText : ApplyError → String
  | .conflict kind name reason managers =>
    "conflict applying " ++ kind ++ "/" ++ name ++ ": " ++ reason ++ managersSuffix managers
  | .server message => "server error: " ++ message
  | .transport message => "transport error: " ++ message
  | .decode message => "decode error: " ++ message

/-- `{:?}` of a reference. -/
def debugRef (r : ResourceRef) : String :=
  "ResourceRef \x7b gvk: Gvk \x7b group: " ++ r.gvk.group.quote ++ ", version: "
    ++ r.gvk.version.quote ++ ", kind: " ++ r.gvk.kind.quote ++ " \x7d, namespace: "
    ++ (r.namespace.elim "None" fun ns => "Some(" ++ ns.quote ++ ")")
    ++ ", name: " ++ r.name.quote ++ " \x7d"

section

variable [FloatText]

/-- `KubeApplierAdapter::apply`. The live body that comes with a delete is not looked at. -/
def adapterApply (k : KubeSsaApplier) (cluster : Cluster) (entry : PlanEntry)
    (manifest : Option Manifest) : KubeSsaApplier × Except SynchrotronCD.ApplyError Unit :=
  match entry.action with
  | .apply =>
    match manifest with
    | none => (k, .error ⟨"engine bug: Apply entry without desired manifest for "
        ++ debugRef entry.resource⟩)
    | some m =>
      match k.apply cluster.toApiServer m .default with
      | (k, .ok _) => (k, .ok ())
      | (k, .error e) => (k, .error ⟨e.toText⟩)
  | .delete =>
    let owned : OwnedResource :=
      ⟨entry.resource.gvk, entry.resource.namespace, entry.resource.name, 0, false⟩
    match k.delete cluster owned with
    | (k, .ok ()) => (k, .ok ())
    | (k, .error e) => (k, .error ⟨e.toText⟩)
  | .noOp => (k, .ok ())

/-- The applier inside the adapter after the calls of a trace, and the trace. -/
def adapterAfter (k : KubeSsaApplier) (cluster : Trace → Cluster) (t : Trace) :
    Trace × KubeSsaApplier :=
  t.foldl (fun s c => (s.1 ++ [c],
    match c with
    | .apply entry manifest _ => (adapterApply s.2 (cluster s.1) entry manifest).1
    | .health _ _ => s.2)) ([], k)

/-- The adapter as the executor's applier, with the cluster as it is after each trace. -/
def kubeApplierAdapter (k : KubeSsaApplier) (cluster : Trace → Cluster) : Applier :=
  fun t entry manifest =>
    (adapterApply (adapterAfter k cluster t).2 (cluster t) entry manifest).2

end

end SynchrotronCD.Kube
