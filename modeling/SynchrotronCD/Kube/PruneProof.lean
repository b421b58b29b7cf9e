import SynchrotronCD.Kube.Prune
import SynchrotronCD.Reconcile.PlanProof

/-!
# When the two delete paths honor the exemption

The prune sweep leaves out what is recorded as exempt; the reconciler deletes
whatever is live and not desired (`mayDelete_iff`), for the adapter never looks at
the live manifest it is handed. So the two agree, and spare what opts out, only
where nothing that is to go opts out (`exemptionsHonored_iff`).

That a resource *may* be deleted is shown with a cluster that obliges.
-/

namespace SynchrotronCD.Kube

open Lib

/-! ## Deletes that go through -/

/-- A prune sweep, against some cluster, has a delete of this resource accepted. -/
def MayPrune (owned : List OwnedResource) (desired : List Manifest) (r : ResourceRef) : Prop :=
  ∃ k cluster target, target.ref = r
    ∧ (target, .ok ()) ∈ pruneAll cluster k [] (computePruneSet owned desired)

/-- A pass that carries out its plan through the adapter, against some cluster, has a delete of
this resource accepted. -/
def MayDelete [FloatText] (desired live : List Manifest) (r : ResourceRef) : Prop :=
  ∃ (k : KubeSsaApplier) (cluster : Trace → Cluster) (ex : ReconcileExecutor)
    (body : Option Manifest), ex.applier = kubeApplierAdapter k cluster
      ∧ .apply ⟨r, .delete⟩ body (.ok ())
        ∈ (executeWaves ex (groupIntoWaves (plan desired live) desired live) desired live).1

/--
**The exemption is honored.** On neither path is a live resource deleted whose manifest opts
out of pruning, and the paths agree on which of the recorded live resources they spare.
-/
structure ExemptionsHonored [FloatText] (desired live : List Manifest)
    (owned : List OwnedResource) : Prop where
  prune : ∀ m ∈ live, isPruneDisabled m = true → ¬ MayPrune owned desired (.of m)
  waves : ∀ m ∈ live, isPruneDisabled m = true → ¬ MayDelete desired live (.of m)
  agree : ∀ m ∈ live, (∃ o ∈ owned, o.ref = .of m) →
    (MayPrune owned desired (.of m) ↔ MayDelete desired live (.of m))

/-! ## A cluster that obliges -/

/-- Serves every kind, as cluster-scoped, and accepts every request. -/
def obliging : Cluster where
  pinnedKind g := .ok (⟨g.group, g.version, g.version, g.kind, g.kind⟩, .cluster)
  patch req := .ok ⟨none, some req.name, none, none, req.body⟩
  delete _ := .ok ()

namespace KubeSsaApplier

/-- Nothing was ever discovered to be namespaced. -/
def AllCluster (k : KubeSsaApplier) : Prop := ∀ g e, k.cache.lookup g = some e → e.2 = .cluster

theorem allCluster_new (fieldManager : String) : (new fieldManager).AllCluster :=
  fun _ _ h => absurd h (by simp [new])

theorem AllCluster.resolve {k : KubeSsaApplier} (hk : k.AllCluster) (g : Gvk) :
    ∃ k' resource, k.resolve obliging.toApiServer g = (k', .ok (resource, .cluster))
      ∧ k'.AllCluster := by
  unfold KubeSsaApplier.resolve
  cases hhit : k.cache.lookup g with
  | some hit =>
      obtain ⟨resource, scope⟩ := hit
      obtain rfl : scope = .cluster := hk g _ hhit
      exact ⟨k, resource, rfl, hk⟩
  | none =>
      refine ⟨_, _, rfl, ?_⟩
      intro g' e he
      by_cases hg : g' = g
      · subst hg
        rw [AList.lookup_insert] at he
        rw [← Option.some.inj he]
      · rw [AList.lookup_insert_ne hg] at he
        exact hk g' e he

theorem AllCluster.delete {k : KubeSsaApplier} (hk : k.AllCluster) (target : OwnedResource) :
    ∃ k', k.delete obliging target = (k', .ok ()) ∧ k'.AllCluster := by
  obtain ⟨k', resource, hres, hk'⟩ := hk.resolve target.gvk
  refine ⟨k', ?_, hk'⟩
  unfold KubeSsaApplier.delete
  rw [hres]
  rfl

theorem AllCluster.apply [FloatText] {k : KubeSsaApplier} (hk : k.AllCluster) (m : Manifest)
    (opts : ApplyOptions) : (k.apply obliging.toApiServer m opts).1.AllCluster
      ∧ (m.body.value.toJson ≠ none →
        ∃ applied, (k.apply obliging.toApiServer m opts).2 = .ok applied) := by
  obtain ⟨k', resource, hres, hk'⟩ := hk.resolve m.gvk
  unfold KubeSsaApplier.apply prepare
  rw [hres]
  cases hbody : m.body.value.toJson with
  | none => exact ⟨hk', fun h => absurd rfl h⟩
  | some body =>
      obtain ⟨b, hb⟩ := ManifestBody.fromValue_ofJson body
      dsimp only [requestNamespace, obliging]
      rw [hb]
      exact ⟨hk', fun _ => ⟨_, rfl⟩⟩

end KubeSsaApplier

/-! ## The prune sweep -/

/-- Only targets are deleted. -/
theorem mem_pruneAll {cluster : List (OwnedResource × Except ApplyError Unit) → Cluster}
    {targets : List OwnedResource} {k : KubeSsaApplier}
    {done : List (OwnedResource × Except ApplyError Unit)}
    {x : OwnedResource × Except ApplyError Unit} (h : x ∈ pruneAll cluster k done targets) :
    x ∈ done ∨ x.1 ∈ targets := by
  induction targets generalizing k done with
  | nil => exact Or.inl h
  | cons target rest ih =>
      rw [pruneAll] at h
      split at h
      · rcases ih h with hd | hr
        · rcases List.mem_append.mp hd with hd | hx
          · exact Or.inl hd
          · rw [List.mem_singleton.mp hx]
            exact Or.inr List.mem_cons_self
        · exact Or.inr (List.mem_cons_of_mem _ hr)
      · rcases List.mem_append.mp h with hd | hx
        · exact Or.inl hd
        · rw [List.mem_singleton.mp hx]
          exact Or.inr List.mem_cons_self

/-- The obliging cluster deletes every target. -/
theorem pruneAll_obliging {targets : List OwnedResource} {k : KubeSsaApplier} (hk : k.AllCluster)
    (done : List (OwnedResource × Except ApplyError Unit)) :
    pruneAll (fun _ => obliging) k done targets = done ++ targets.map fun t => (t, .ok ()) := by
  induction targets generalizing k done with
  | nil => exact (List.append_nil done).symm
  | cons target rest ih =>
      obtain ⟨k', hdel, hk'⟩ := hk.delete target
      rw [pruneAll, hdel]
      show pruneAll _ k' _ rest = _
      rw [ih hk', List.append_assoc]
      rfl

/-- **What the sweep may delete**: what is recorded, not as exempt, and not desired. -/
theorem mayPrune_iff {owned : List OwnedResource} {desired : List Manifest} {r : ResourceRef} :
    MayPrune owned desired r
      ↔ (∃ o ∈ owned, o.ref = r ∧ o.pruneDisabled = false) ∧ r ∉ desired.map ResourceRef.of := by
  refine ⟨?_, ?_⟩
  · intro h
    obtain ⟨k, cluster, target, rfl, hmem⟩ := h
    rcases mem_pruneAll hmem with hd | ht
    · simp at hd
    · obtain ⟨ho, hflag, hnot⟩ := mem_computePruneSet.mp ht
      exact ⟨⟨target, ho, rfl, hflag⟩, hnot⟩
  · intro h
    obtain ⟨⟨o, ho, rfl, hflag⟩, hnot⟩ := h
    refine ⟨.new "synchrotron", fun _ => obliging, o, rfl, ?_⟩
    rw [pruneAll_obliging (KubeSsaApplier.allCluster_new _), List.nil_append]
    exact List.mem_map.mpr ⟨o, mem_computePruneSet.mpr ⟨ho, hflag, hnot⟩, rfl⟩

/-! ## The waves -/

section

variable [FloatText]

theorem adapterApply_obliging {k : KubeSsaApplier} (hk : k.AllCluster) (entry : PlanEntry)
    (manifest : Option Manifest) : (adapterApply k obliging entry manifest).1.AllCluster
      ∧ ((entry.action = .apply → ∃ m, manifest = some m ∧ m.body.value.toJson ≠ none) →
        (adapterApply k obliging entry manifest).2 = .ok ()) := by
  unfold adapterApply
  cases entry.action with
  | apply =>
      cases manifest with
      | none => exact ⟨hk, fun h => absurd (h rfl) (by simp)⟩
      | some m =>
          obtain ⟨hk', hok⟩ := hk.apply m .default
          dsimp only
          split
          · rename_i heq
            rw [heq] at hk'
            exact ⟨hk', fun _ => rfl⟩
          · rename_i heq
            rw [heq] at hk' hok
            refine ⟨hk', fun h => ?_⟩
            obtain ⟨m', hm, hjson⟩ := h rfl
            obtain rfl := Option.some.inj hm
            obtain ⟨applied, happ⟩ := hok hjson
            simp at happ
  | delete =>
      obtain ⟨k', hdel, hk'⟩ := hk.delete
        ⟨entry.resource.gvk, entry.resource.namespace, entry.resource.name, 0, false⟩
      dsimp only
      rw [hdel]
      exact ⟨hk', fun _ => rfl⟩
  | noOp => exact ⟨hk, fun _ => rfl⟩

theorem allCluster_adapterAfter {k : KubeSsaApplier} (hk : k.AllCluster) (t : Trace) :
    (adapterAfter k (fun _ => obliging) t).2.AllCluster := by
  induction t using List.reverseRecOn with
  | nil => exact hk
  | append_singleton t c ih =>
      unfold adapterAfter
      rw [List.foldl_append]
      cases c with
      | apply entry manifest result => exact (adapterApply_obliging ih entry manifest).1
      | health resources status => exact ih

/-- The executor of a cluster that obliges and is healthy. -/
def obligingExecutor : ReconcileExecutor where
  applier := kubeApplierAdapter (.new "synchrotron") fun _ => obliging
  health _ _ := .healthy
  pollsBeforeDeadline _ := 0
  config := .default

/-- It carries out every plan whose desired manifests can be sent. -/
theorem complies_obligingExecutor {desired live : List Manifest}
    (hd : ∀ m ∈ desired, m.body.value.toJson ≠ none) :
    Complies (manifestFor desired live) obligingExecutor
      ((plan desired live).entries.filter fun e => e.action ≠ .noOp) := by
  refine ⟨fun t e he => ?_, fun _ _ => rfl⟩
  have hk := allCluster_adapterAfter (KubeSsaApplier.allCluster_new "synchrotron") t
  refine (adapterApply_obliging hk e _).2 fun haction => ?_
  -- an apply is planned for a desired reference, whose manifest is handed over
  obtain ⟨r, action⟩ := e
  obtain rfl : action = .apply := haction
  obtain ⟨d, hlast, -⟩ := apply_mem_plan.mp (List.mem_filter.mp he).1
  exact ⟨d, hlast, hd d (lastWithRef_some hlast).1⟩

/-- **What a pass may delete**: everything that is live and not desired. -/
theorem mayDelete_iff {desired live : List Manifest} {r : ResourceRef}
    (hd : ∀ m ∈ desired, m.body.value.toJson ≠ none) : MayDelete desired live r
      ↔ (∃ m ∈ live, ResourceRef.of m = r) ∧ r ∉ desired.map ResourceRef.of := by
  have hplan : ⟨r, .delete⟩ ∈ (plan desired live).entries
      ↔ (∃ m ∈ live, ResourceRef.of m = r) ∧ r ∉ desired.map ResourceRef.of := by
    rw [delete_mem_plan, and_comm, List.mem_map]
    simp only [not_exists, not_and, ne_eq]
  rw [← hplan]
  refine ⟨?_, ?_⟩
  · intro h
    obtain ⟨k, cluster, ex, body, -, hcall⟩ := h
    exact (executeWaves_calls hcall).1
  · intro h
    obtain ⟨rep, hrep⟩ := (@complies_obligingExecutor _ _ live hd).executeWaves
    exact ⟨_, _, obligingExecutor, _, rfl, executeWaves_ok hrep h (by simp)⟩

/--
**When the exemption is honored.**

For every desired, live and recorded set: neither path deletes a live resource whose manifest
opts out, and the two agree on what they spare, if and only if no live resource that is not
desired opts out, nor is recorded as exempt only. A desired manifest has a body that can be
sent, as every manifest that was parsed has.
-/
theorem exemptionsHonored_iff {desired live : List Manifest} {owned : List OwnedResource}
    (hd : ∀ m ∈ desired, m.body.value.toJson ≠ none) : ExemptionsHonored desired live owned
      ↔ ∀ m ∈ live, ResourceRef.of m ∉ desired.map ResourceRef.of →
        isPruneDisabled m = false
          ∧ ((∃ o ∈ owned, o.ref = .of m) → ∃ o ∈ owned, o.ref = .of m ∧ o.pruneDisabled = false) := by
  have hdel : ∀ m ∈ live, (MayDelete desired live (.of m)
      ↔ ResourceRef.of m ∉ desired.map ResourceRef.of) := by
    intro m hm
    rw [mayDelete_iff hd, and_iff_right ⟨m, hm, rfl⟩]
  refine ⟨?_, ?_⟩
  · intro h m hm hnot
    refine ⟨?_, fun hrec => ?_⟩
    · by_contra hdis
      exact h.waves m hm (by simpa using hdis) ((hdel m hm).mpr hnot)
    · exact (mayPrune_iff.mp ((h.agree m hm hrec).mpr ((hdel m hm).mpr hnot))).1
  · intro h
    refine ⟨fun m hm hdis hp => ?_, fun m hm hdis hp => ?_, fun m hm hrec => ?_⟩
    · exact absurd (h m hm (mayPrune_iff.mp hp).2).1 (by simp [hdis])
    · exact absurd (h m hm ((hdel m hm).mp hp)).1 (by simp [hdis])
    · rw [hdel m hm, mayPrune_iff]
      exact ⟨And.right, fun hnot => ⟨(h m hm hnot).2 hrec, hnot⟩⟩

end

/-- A config map that opts out of pruning. -/
def pinnedConfigMap : Manifest :=
  let v : Value := .mapping [(.string "apiVersion", .string "v1"),
    (.string "kind", .string "ConfigMap"),
    (.string "metadata", .mapping [(.string "name", .string "settings"),
      (.string "namespace", .string "app"),
      (.string "annotations", .mapping [(.string "synchrotron.io/prune", .string " False")])])]
  let bytes := (@ManifestBody.toVec .ofBits v).getD []
  ⟨⟨"", "v1", "ConfigMap"⟩, "settings", some "app", ⟨bytes, fnv1a64 bytes, v, rfl⟩⟩

theorem exemptionsHonored_pinned :
    @ExemptionsHonored .ofBits [pinnedConfigMap] [pinnedConfigMap, configMap "old" "v1"] []
      ↔ ∀ m ∈ [pinnedConfigMap, configMap "old" "v1"],
        ResourceRef.of m ∉ [pinnedConfigMap].map ResourceRef.of →
        isPruneDisabled m = false ∧ ((∃ o ∈ ([] : List OwnedResource), o.ref = .of m) →
          ∃ o ∈ ([] : List OwnedResource), o.ref = .of m ∧ o.pruneDisabled = false) :=
  @exemptionsHonored_iff .ofBits _ _ _ fun m hm => by
    obtain rfl := List.mem_singleton.mp hm
    simp [pinnedConfigMap, Value.toJson, Value.entriesToJson, Value.keyText]

/-- **The reconciler deletes what opts out.** -/
theorem pinned_deleted : ¬ ∀ (desired live : List Manifest) (owned : List OwnedResource),
    (∀ m ∈ desired, @Value.toJson .ofBits m.body.value ≠ none) →
    @ExemptionsHonored .ofBits desired live owned := by
  intro h
  have hhonored := h [] [pinnedConfigMap] [] (by simp)
  refine @ExemptionsHonored.waves .ofBits _ _ _ hhonored pinnedConfigMap (by simp) (by decide) ?_
  exact (@mayDelete_iff .ofBits _ _ _ (by simp)).mpr ⟨⟨_, by simp, rfl⟩, by simp⟩

end SynchrotronCD.Kube
