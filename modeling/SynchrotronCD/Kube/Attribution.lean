import Mathlib.Data.List.TakeWhile
import SynchrotronCD.Kube.Apply
import SynchrotronCD.Kube.LiveStoreProof

/-!
# From an applied manifest to a live object

A manifest is applied, the cluster stores an object, an informer reports it, the
updater puts it into a slot, and the planner compares it with the manifest. Two
things have to survive the round trip: whose object it is, and which one.

Whose it is says the label the manifest carries, and nothing else
(`applied_tracked_by_label`). Which one it is says the reference, which is taken
from the text on one side and from the object on the other (`recognised_iff`).
-/

namespace SynchrotronCD.Kube

open Lib

/-! ## The API server's side -/

/-- A group and a version are names, without a slash. -/
structure Named (w : Gvk) : Prop where
  group : '/' ∉ w.group.toList
  version : '/' ∉ w.version.toList

/-- The `apiVersion` of an object served under `w`. -/
def apiVersion (w : Gvk) : String := if w.group = "" then w.version else w.group ++ "/" ++ w.version

/-- The label a request sends for a key. -/
def sentLabel (body : Value.Doc) (key : String) : Option String :=
  match body with
  | .obj kvs =>
    match (kvs.find? (fun p => p.1 = "metadata")).map Prod.snd with
    | some (.obj md) =>
      match (md.find? (fun p => p.1 = "labels")).map Prod.snd with
      | some (.obj labels) =>
        match (labels.find? (fun p => p.1 = key)).map Prod.snd with
        | some (.str v) => some v
        | _ => none
      | _ => none
    | _ => none
  | _ => none

/-- What is assumed of the API server about identity: the object a watch under `w` reports for a
request has the name sent, and the request's namespace or none if its kind is cluster-scoped. -/
structure ReportedAs (w : Gvk) (scope : Scope) (req : PatchRequest) (o : DynamicObject) : Prop where
  types : o.types = some ⟨apiVersion w, w.kind⟩
  name : o.name = some req.name
  «namespace» : o.namespace = scope.place req.namespace

/-- What is assumed of it about labels: those reported are those sent. -/
def ReportsLabels (req : PatchRequest) (o : DynamicObject) : Prop :=
  ∀ key, (o.labels.bind fun labels => labels.lookup key) = sentLabel req.body key

theorem splitOnce_eq_none {cs : List Char} {sep : Char} (h : sep ∉ cs) :
    splitOnce sep (String.ofList cs) = none := by
  have hdrop : cs.dropWhile (· ≠ sep) = [] := by
    rw [List.dropWhile_eq_nil_iff]
    intro c hc
    exact decide_eq_true fun heq => h (heq ▸ hc)
  unfold splitOnce
  dsimp only
  rw [String.toList_ofList, hdrop]

theorem splitOnce_append {cs ds : List Char} {sep : Char} (h : sep ∉ cs) :
    splitOnce sep (String.ofList (cs ++ sep :: ds)) = some (String.ofList cs, String.ofList ds) := by
  have hall : ∀ c ∈ cs, decide (c ≠ sep) = true := by
    intro c hc
    exact decide_eq_true fun heq => h (heq ▸ hc)
  have hdrop : (cs ++ sep :: ds).dropWhile (· ≠ sep) = sep :: ds := by
    rw [List.dropWhile_append_of_pos hall]
    simp
  have htake : (cs ++ sep :: ds).takeWhile (· ≠ sep) = cs := by
    rw [List.takeWhile_append_of_pos hall]
    simp
  unfold splitOnce
  dsimp only
  rw [String.toList_ofList, hdrop, htake]

/-- **An object is parsed back to the kind it is served under.** -/
theorem parse_apiVersion {w : Gvk} (h : Named w) : Gvk.parse (apiVersion w) w.kind = w := by
  unfold Gvk.parse apiVersion
  by_cases hg : w.group = ""
  · have hs := splitOnce_eq_none h.version
    rw [String.ofList_toList] at hs
    rw [if_pos hg, hs, ← hg]
  · have hs := @splitOnce_append _ w.version.toList _ h.group
    have happ : String.ofList (w.group.toList ++ '/' :: w.version.toList)
        = w.group ++ "/" ++ w.version := by
      rw [← String.toList_inj]
      simp
    rw [happ, String.ofList_toList, String.ofList_toList] at hs
    rw [if_neg hg, hs]

/-- The reference of a reported object. -/
theorem ReportedAs.ref {w : Gvk} {scope : Scope} {req : PatchRequest} {o : DynamicObject}
    (h : ReportedAs w scope req o) (hw : Named w) :
    o.ref = ⟨w, scope.place req.namespace, req.name⟩ := by
  unfold DynamicObject.ref DynamicObject.gvk
  rw [h.types, h.name, h.namespace]
  dsimp only
  rw [parse_apiVersion hw]
  rfl

/-! ## Whose object it is -/

section

variable [FloatText]

end

/-- A server on which every kind is served and every patch is stored as it was sent,
except that the labels reported are given. -/
def storingServer (scope : Scope) (labels : Option (HashMap String String)) : ApiServer where
  pinnedKind g := .ok (⟨g.group, g.version, apiVersion g, g.kind, ""⟩, scope)
  patch req := .ok ⟨some ⟨req.resource.apiVersion, req.resource.kind⟩, some req.name,
    scope.place req.namespace, labels, req.body⟩

/-- The labels reported for what is the shop's. -/
def shopLabels : HashMap String String := AList.insert "synchrotron.io/app" "shop" ∅

theorem shopLabels_lookup (key : String) : shopLabels.lookup key
    = match ([("synchrotron.io/app", (.str "shop" : Value.Doc))].find?
        (fun p => p.1 = key)).map Prod.snd with
      | some (.str v) => some v
      | _ => none := by
  by_cases hk : key = "synchrotron.io/app"
  · subst hk; rfl
  · rw [shopLabels, AList.lookup_insert_ne hk, List.find?_cons_of_neg (by simpa using Ne.symm hk)]
    rfl

/-- The object has the reference of the manifest, so that no plan in which the manifest is
desired deletes it. -/
structure Recognised (m : Manifest) (o : DynamicObject) : Prop where
  ref : o.ref = ResourceRef.of m
  kept : ∀ desired live, m ∈ desired → ⟨o.ref, .delete⟩ ∉ (plan desired live).entries

theorem recognised_of_ref {m : Manifest} {o : DynamicObject} (h : o.ref = ResourceRef.of m) :
    Recognised m o :=
  ⟨h, fun _ _ hm hdel => (delete_mem_plan.mp hdel).1 m hm h.symm⟩

/--
**When the object is recognised.**

A manifest of a stream is accepted; the object that a watch under `w` reports for
it is recognised if and only if `w` is the very kind and version the manifest
names and, if that kind is cluster-scoped, its text names no namespace.
-/
theorem recognised_iff [FloatText] {label : String} {docs : List (Except String Value)} {ms : List Manifest}
    (hparse : parseStream label docs = .ok ms) {m : Manifest} (hm : m ∈ ms) {k : KubeSsaApplier}
    {api : ApiServer} {opts : ApplyOptions} {applied : Manifest}
    (happly : (k.apply api m opts).2 = .ok applied) :
    ∃ v scope req, .ok v ∈ docs ∧ m.body.value = v
      ∧ (k.prepare api m opts).2 = .ok (scope, req)
      ∧ ∀ w o, Named w → ReportedAs w scope req o →
        (Recognised m o
          ↔ w = m.gvk ∧ (scope = .cluster → metadataStr v "namespace" = none)) := by
  obtain ⟨j, v, hv, _, hman⟩ := mem_parseDocs hparse m hm
  obtain ⟨_, _, _, _, _, _, hns, hbody⟩ := valueToManifest_ok hman
  obtain ⟨scope, req, _, hprep, _⟩ := KubeSsaApplier.apply_ok happly
  refine ⟨v, scope, req, hv, (ManifestBody.fromValue_spec hbody).2, hprep, fun w o hw ho => ?_⟩
  obtain ⟨hname, _, hreq, _⟩ := KubeSsaApplier.prepare_ok hprep
  have href := ho.ref hw
  rw [← hns]
  refine ⟨?_, ?_⟩
  · intro h
    obtain ⟨heq, _⟩ := h
    rw [href, ResourceRef.of] at heq
    injection heq with h1 h2 _
    refine ⟨h1, ?_⟩
    -- a cluster-scoped object is reported without a namespace, so the text has none
    intro h
    subst h
    exact h2.symm
  · intro h
    obtain ⟨rfl, hcluster⟩ := h
    refine recognised_of_ref ?_
    rw [href, ResourceRef.of, hname]
    cases scope with
    | namespaced => rw [hreq]; rfl
    | cluster => rw [hcluster rfl]; rfl

/-- A cluster role whose text names a namespace. -/
def placedRole : Value :=
  .mapping [(.string "apiVersion", .string "rbac.authorization.k8s.io/v1"),
    (.string "kind", .string "ClusterRole"),
    (.string "metadata", .mapping [(.string "name", .string "reader"),
      (.string "namespace", .string "app"),
      (.string "labels", .mapping [(.string "synchrotron.io/app", .string "shop")])])]

/-- The object stored for it. -/
def placedRoleObject : DynamicObject :=
  ⟨some ⟨"rbac.authorization.k8s.io/v1", "ClusterRole"⟩, some "reader", none,
    some shopLabels, (@Value.toJson .ofBits placedRole).getD .null⟩

theorem placedRole_recognised_iff : ∃ m, @parseStream .ofBits "roles.yaml" [.ok placedRole] = .ok [m]
    ∧ ∃ v scope req, .ok v ∈ [(.ok placedRole : Except String Value)] ∧ m.body.value = v
      ∧ (@KubeSsaApplier.prepare .ofBits (.new "synchrotron")
        (storingServer .cluster (some shopLabels)) m .default).2 = .ok (scope, req)
      ∧ ∀ w o, Named w → ReportedAs w scope req o →
        (Recognised m o
          ↔ w = m.gvk ∧ (scope = .cluster → metadataStr v "namespace" = none)) :=
  ⟨_, rfl, @recognised_iff .ofBits "roles.yaml" [.ok placedRole] _ rfl _
    (List.mem_singleton.mpr rfl) (.new "synchrotron") (storingServer .cluster (some shopLabels))
    .default _ rfl⟩

/-- **A cluster role with a namespace in its text is applied and deleted in one pass.** -/
theorem placedRole_unrecognised :
    ∃ m req applied, @parseStream .ofBits "roles.yaml" [.ok placedRole] = .ok [m]
      ∧ (@KubeSsaApplier.apply .ofBits (.new "synchrotron")
        (storingServer .cluster (some shopLabels)) m .default).2 = .ok applied
      ∧ (@KubeSsaApplier.prepare .ofBits (.new "synchrotron")
        (storingServer .cluster (some shopLabels)) m .default).2 = .ok (.cluster, req)
      ∧ ReportedAs m.gvk .cluster req placedRoleObject
      ∧ ReportsLabels req placedRoleObject
      ∧ ⟨placedRoleObject.ref, .delete⟩ ∈ (plan [m] (LiveStore.slot
          (@afterStored .ofBits [m.gvk] (.new "prod") ∅ placedRoleObject) "prod" "shop")).entries
      ∧ ¬ Recognised m placedRoleObject := by
  refine ⟨_, _, _, rfl, rfl, rfl, ⟨rfl, rfl, rfl⟩, shopLabels_lookup, ?_, ?_⟩
  · refine delete_mem_plan.mpr ⟨?_, mem_refsOf.mp ?_⟩
    · intro d hd
      rw [List.mem_singleton.mp hd]
      decide
    · have hstore : @afterStored .ofBits [⟨"rbac.authorization.k8s.io", "v1", "ClusterRole"⟩]
          (.new "prod") ∅ placedRoleObject
          = (@LiveStoreUpdater.handleEvent .ofBits (.new "prod") ∅ (.applied placedRoleObject)).1 :=
        if_pos (by decide)
      exact hstore ▸ (@LiveStoreUpdater.mem_refsOf_applied .ofBits (.new "prod") ∅ placedRoleObject
        "shop" placedRoleObject.ref).mpr (Or.inr ⟨rfl, rfl⟩)
  · exact fun h => absurd h.ref (by decide)

end SynchrotronCD.Kube
