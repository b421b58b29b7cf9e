import SynchrotronCD.Reconcile.ReconcileProof
import SynchrotronCD.Reconcile.WorkerPool

/-!
# The server's worker-pool handler

At start-up the server connects to each configured cluster and registers an
executor for those it reaches; the others stay plan-only. The handler of a job
looks the app up in the database and runs one pass on its destination cluster.

The app's sync policy is on the record the handler reads, and nothing after that
looks at it. `prunes_only_under_policy` says when that goes unnoticed.
-/

namespace SynchrotronCD

open Lib WorkerPool

/-- The executor registered for a connected cluster. -/
def kubeExecutor (applier : Applier) : ReconcileExecutor where
  applier := applier
  health := alwaysHealthy
  pollsBeforeDeadline := fun _ => 0
  config := .default

/-- Register an executor for every configured cluster the client of which connects. -/
def wireExecutors (clusters : List (ClusterName × Option Applier)) : Reconciler :=
  clusters.foldl (fun rec c =>
    match c.2 with
    | some applier => rec.withClusterExecutor c.1 (kubeExecutor applier)
    | none => rec) Reconciler.new

/-- What a dispatched job does; an app without a record is skipped. -/
def handle (rec : Reconciler) (getApplication : AppName → Except String (Option Application))
    (reads : PassReads) (ctx : JobCtx) : Option Pass :=
  match getApplication ctx.appId with
  | .ok (some a) =>
    some (rec.reconcileAndApplyApp ctx.appId a.destination.cluster ctx.trigger.asStr reads)
  | .ok none => none
  | .error _ => none

/-! ## Executors -/

theorem wireExecutors_snoc (clusters : List (ClusterName × Option Applier))
    (c : ClusterName × Option Applier) :
    wireExecutors (clusters ++ [c]) = match c.2 with
      | some applier => (wireExecutors clusters).withClusterExecutor c.1 (kubeExecutor applier)
      | none => wireExecutors clusters := by
  simp [wireExecutors, List.foldl_append]

/-- A cluster has an executor exactly if one of its entries connected; there is no default. -/
theorem executorFor_wireExecutors (clusters : List (ClusterName × Option Applier))
    (cluster : ClusterName) :
    (∀ ex, (wireExecutors clusters).executorFor cluster = some ex →
      ∃ applier, (cluster, some applier) ∈ clusters ∧ ex = kubeExecutor applier)
    ∧ ((wireExecutors clusters).executorFor cluster = none →
      ∀ applier, (cluster, some applier) ∉ clusters) := by
  induction clusters using List.reverseRecOn with
  | nil => simp [wireExecutors, Reconciler.new, Reconciler.executorFor]
  | append_singleton clusters c ih =>
      obtain ⟨name, conn⟩ := c
      -- an entry that is no executor of this cluster does not count
      have hother (hne : ∀ applier, (cluster, some applier) ≠ (name, conn)) :
          (∀ ex, (wireExecutors clusters).executorFor cluster = some ex →
            ∃ applier, (cluster, some applier) ∈ clusters ++ [(name, conn)]
              ∧ ex = kubeExecutor applier)
          ∧ ((wireExecutors clusters).executorFor cluster = none →
            ∀ applier, (cluster, some applier) ∉ clusters ++ [(name, conn)]) := by
        refine ⟨fun ex h => ?_, fun h applier hm => ?_⟩
        · obtain ⟨a, hm, he⟩ := ih.1 ex h
          exact ⟨a, List.mem_append_left _ hm, he⟩
        · rcases List.mem_append.mp hm with hm | hm
          · exact ih.2 h applier hm
          · exact hne applier (List.mem_singleton.mp hm)
      rw [wireExecutors_snoc]
      cases conn with
      | none => exact hother (by simp)
      | some a₀ =>
          -- a cluster listed twice gets the executor of its last entry
          by_cases hc : cluster = name
          · subst hc
            simp only [Reconciler.executorFor, Reconciler.withClusterExecutor, AList.lookup_insert,
              Option.some_or, Option.some.injEq, reduceCtorEq, false_implies, and_true]
            intro ex hx
            subst hx
            exact ⟨a₀, by simp, rfl⟩
          · have hlook : ((wireExecutors clusters).withClusterExecutor name
                (kubeExecutor a₀)).executorFor cluster
                = (wireExecutors clusters).executorFor cluster := by
              simp only [Reconciler.executorFor, Reconciler.withClusterExecutor,
                AList.lookup_insert_ne hc]
            dsimp only
            rw [hlook]
            exact hother (by simp [hc])

/-! ## Pruning -/

/-- The wiring in which the clusters that connect use the given appliers. -/
def wireWith (clusters : List (ClusterName × Bool)) (appliers : ClusterName → Applier) : Reconciler :=
  wireExecutors (clusters.map fun c => (c.1, if c.2 then some (appliers c.1) else none))

/-- All four reads of the manifests succeed. -/
def PassReads.complete (reads : PassReads) : Prop :=
  ∃ d l d' l', reads.desired = .ok d ∧ reads.live = .ok l
    ∧ reads.desiredAgain = .ok d' ∧ reads.liveAgain = .ok l'

/-- Every resource that is live is desired. -/
def PassReads.nothingLeftOver (reads : PassReads) : Prop :=
  ∀ d l, reads.desired = .ok d → reads.live = .ok l →
    ∀ x ∈ l, ∃ y ∈ d, ResourceRef.of y = ResourceRef.of x

theorem isSome_wireWith {clusters : List (ClusterName × Bool)} {appliers : ClusterName → Applier}
    {cluster : ClusterName} (h : ((wireWith clusters appliers).executorFor cluster).isSome = true) :
    (cluster, true) ∈ clusters := by
  obtain ⟨ex, hex⟩ := Option.isSome_iff_exists.mp h
  obtain ⟨a, hm, _⟩ := (executorFor_wireExecutors _ cluster).1 ex hex
  obtain ⟨⟨name, conn⟩, hc, heq⟩ := List.mem_map.mp hm
  cases conn with
  | false => simp at heq
  | true =>
      obtain rfl : name = cluster := congrArg Prod.fst heq
      exact hc

theorem executorFor_wireWith {clusters : List (ClusterName × Bool)}
    {appliers : ClusterName → Applier} {cluster : ClusterName} (h : (cluster, true) ∈ clusters) :
    (wireWith clusters appliers).executorFor cluster = some (kubeExecutor (appliers cluster)) := by
  have hm : (cluster, some (appliers cluster))
      ∈ clusters.map fun c => (c.1, if c.2 then some (appliers c.1) else none) :=
    List.mem_map.mpr ⟨_, h, rfl⟩
  cases hex : (wireWith clusters appliers).executorFor cluster with
  | none => exact absurd hm ((executorFor_wireExecutors _ cluster).2 hex _)
  | some ex =>
      obtain ⟨a, ha, rfl⟩ := (executorFor_wireExecutors _ cluster).1 ex hex
      obtain ⟨⟨name, conn⟩, _, heq⟩ := List.mem_map.mp ha
      cases conn with
      | false => simp at heq
      | true =>
          obtain ⟨hname, happ⟩ := Prod.mk.inj heq
          rw [← Option.some.inj happ, ← hname]

/--
**When a pass prunes only under policy.**

For any record the database has for the app, any clusters connected and anything
the reads of the pass return: however the appliers behave, a `Delete` is handed
to one only if the app's policy asks for pruning, if and only if it asks for
pruning anyway, or its cluster is not connected, or a read fails, or every live
resource is desired.
-/
theorem prunes_only_under_policy (clusters : List (ClusterName × Bool))
    (getApplication : AppName → Except String (Option Application)) (reads : PassReads)
    (ctx : JobCtx) :
    (∀ appliers pass, handle (wireWith clusters appliers) getApplication reads ctx = some pass →
      ∀ r m res, .apply ⟨r, .delete⟩ m res ∈ pass.calls →
        ∃ a, getApplication ctx.appId = .ok (some a) ∧ a.syncPolicy.prunes = true)
    ↔ ∀ a, getApplication ctx.appId = .ok (some a) →
      a.syncPolicy.prunes = true ∨ (a.destination.cluster, true) ∉ clusters
        ∨ ¬ reads.complete ∨ reads.nothingLeftOver := by
  refine ⟨?_, ?_⟩
  · intro h a ha
    by_cases hconn : (a.destination.cluster, true) ∈ clusters
    swap
    · exact Or.inr (Or.inl hconn)
    by_cases hcomplete : reads.complete
    swap
    · exact Or.inr (Or.inr (Or.inl hcomplete))
    by_cases hleft : reads.nothingLeftOver
    · exact Or.inr (Or.inr (Or.inr hleft))
    -- something is left over, and an applier that accepts everything is handed its deletion
    left
    obtain ⟨d, l, d', l', hd, hl, hd', hl'⟩ := hcomplete
    unfold PassReads.nothingLeftOver at hleft
    push Not at hleft
    obtain ⟨d₀, l₀, hd₀, hl₀, x, hx, hnone⟩ := hleft
    obtain rfl : d = d₀ := Except.ok.inj (hd.symm.trans hd₀)
    obtain rfl : l = l₀ := Except.ok.inj (hl.symm.trans hl₀)
    have hdel : ⟨ResourceRef.of x, .delete⟩ ∈ (plan d l).entries :=
      delete_mem_plan.mpr ⟨hnone, x, hx, rfl⟩
    let accepting : ClusterName → Applier := fun _ _ _ _ => .ok ()
    have hx : (wireWith clusters accepting).executorFor a.destination.cluster
        = some compliantExecutor := executorFor_wireWith hconn
    obtain ⟨a', ha', hp⟩ := h accepting _ (by rw [handle, ha]) _ _ _
      (calls_of_compliant hx compliant_compliantExecutor hd hl hd' hl' hdel (by simp))
    obtain rfl : a = a' := Option.some.inj (Except.ok.inj (ha.symm.trans ha'))
    exact hp
  · intro h appliers pass hpass r m res hmem
    unfold handle at hpass
    split at hpass
    · rename_i a ha
      obtain rfl := Option.some.inj hpass
      obtain ⟨d, l, d', l', hd, hl, hd', hl', hx, he, _, _⟩ := mem_calls hmem
      obtain ⟨hnone, x, hxl, hxr⟩ := delete_mem_plan.mp he
      rcases h a ha with hp | hconn | hcomplete | hleft
      · exact ⟨a, ha, hp⟩
      · exact absurd (isSome_wireWith hx) hconn
      · exact absurd ⟨d, l, d', l', hd, hl, hd', hl'⟩ hcomplete
      · obtain ⟨y, hy, hyx⟩ := hleft d l hd hl x hxl
        exact absurd (hyx.trans hxr) (hnone y hy)
    · simp at hpass
    · simp at hpass

/-- An app stored with the policy the API gives it by default. -/
def unpolicied : Application where
  id := "1"
  name := "shop"
  destination := ⟨"prod", "app"⟩
  syncPolicy := .default
  status := ⟨.unknown, none⟩

/-- One config map is desired; another is live besides it. -/
def orphaned : PassReads where
  desired := .ok [configMap "settings" "v1"]
  live := .ok [configMap "settings" "v1", configMap "orphan" "v1"]
  revision := some "r1"
  desiredAgain := .ok [configMap "settings" "v1"]
  liveAgain := .ok [configMap "settings" "v1", configMap "orphan" "v1"]

/-- **Nobody agreed to this deletion.** -/
theorem prunes_without_policy : ∃ pass r m,
    handle (wireWith [("prod", true)] (fun _ _ _ _ => .ok ())) (fun _ => .ok (some unpolicied))
      orphaned ⟨"shop", .poll, 0⟩ = some pass
    ∧ .apply ⟨r, .delete⟩ m (.ok ()) ∈ pass.calls
    ∧ unpolicied.syncPolicy.prunes = false :=
  have hx : (wireWith [("prod", true)] (fun _ _ _ _ => .ok ())).executorFor "prod"
      = some compliantExecutor := executorFor_wireWith (by simp)
  have hdel : ⟨⟨⟨"", "v1", "ConfigMap"⟩, some "app", "orphan"⟩, .delete⟩
      ∈ (plan [configMap "settings" "v1"]
        [configMap "settings" "v1", configMap "orphan" "v1"]).entries :=
    delete_mem_plan.mpr ⟨by decide, configMap "orphan" "v1", by simp, rfl⟩
  have hd : orphaned.desired = .ok [configMap "settings" "v1"] := rfl
  ⟨_, _, _, rfl,
    calls_of_compliant hx compliant_compliantExecutor hd rfl rfl rfl hdel (by simp), rfl⟩

end SynchrotronCD
