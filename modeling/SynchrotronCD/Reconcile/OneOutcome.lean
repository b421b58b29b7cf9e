import SynchrotronCD.Reconcile.PlanSpec
import SynchrotronCD.Reconcile.ReconcileProof

/-!
# One outcome per pass

`Reconcile` says what a pass returns and publishes, one of each. The source has no
such rule: each way out of a pass makes its own call to `publish`. Here a pass is
written the way the source has it, as a program over what has been published and
called so far, and `reconcileAndApplyApp_run` shows that it comes to the same.

The count in the event is a `u32`, so it is the number of changes modulo 2^32.
-/

namespace SynchrotronCD

open Lib

/-- What passes have done to the outside so far, oldest first. -/
structure Done where
  published : List SyncOutcome
  calls : Trace

/-- `EventBus::publish`. -/
def publish (ev : SyncOutcome) : StateM Done Unit :=
  modify fun s => { s with published := s.published ++ [ev] }

/-- `execute_waves`, with the calls it makes. -/
def carryOut (ex : ReconcileExecutor) (p : WavePlan) (desired live : List Manifest) :
    StateM Done (Except WaveExecError WaveExecReport) :=
  modifyGet fun s =>
    let run := executeWaves ex p desired live
    (run.2, { s with calls := s.calls ++ run.1 })

namespace OnBus

/-! ## The passes -/

def emitFailure (app : AppName) (cluster : ClusterName) (error : ReconcileError)
    (trigger : String) : StateM Done ReconcileOutcome := do
  publish ⟨app, cluster, false, some (.reconcile error), trigger, none, 0⟩
  return ⟨app, cluster, none, some error, none⟩

def publishApplyResult (app : AppName) (cluster : ClusterName) (result : Except WaveExecError Unit)
    (trigger : String) (revision : Option String) (resourcesSynced : Nat) : StateM Done Unit :=
  let success := result.isOk
  let message := match result with
    | .ok () => none
    | .error e => some (FailureMessage.waves e)
  publish ⟨app, cluster, success, message, trigger, revision, resourcesSynced⟩

/-- One pass that only plans. -/
def reconcileApp (app : AppName) (cluster : ClusterName) (trigger : String) (reads : PassReads) :
    StateM Done ReconcileOutcome :=
  match planOnly app cluster reads.desired reads.live with
  | .ok p => do
    let resourcesSynced := p.changes % 2 ^ 32
    publish ⟨app, cluster, true, none, trigger, reads.revision, resourcesSynced⟩
    return ⟨app, cluster, some p, none, none⟩
  | .error error => emitFailure app cluster error trigger

/-- Plan and execute. -/
def reconcileAndApplyApp (rec : Reconciler) (app : AppName) (cluster : ClusterName)
    (trigger : String) (reads : PassReads) : StateM Done ReconcileOutcome :=
  match planOnly app cluster reads.desired reads.live with
  | .error error => emitFailure app cluster error trigger
  | .ok p =>
    let resourcesSynced := p.changes % 2 ^ 32
    let revision := reads.revision
    match rec.executorFor cluster with
    | none => do
      publish ⟨app, cluster, true, none, trigger, revision, resourcesSynced⟩
      return ⟨app, cluster, some p, none, none⟩
    | some ex =>
      let outcome : ReconcileOutcome := ⟨app, cluster, some p, none, none⟩
      match reads.desiredAgain with
      | .error e => do
        let err := refetchError "desired" e
        publishApplyResult app cluster (.error err) trigger revision resourcesSynced
        return { outcome with apply := some (.error err) }
      | .ok desired =>
        match reads.liveAgain with
        | .error e => do
          let err := refetchError "live" e
          publishApplyResult app cluster (.error err) trigger revision resourcesSynced
          return { outcome with apply := some (.error err) }
        | .ok live => do
          let result ← carryOut ex (groupIntoWaves p desired live) desired live
          publishApplyResult app cluster (result.map fun _ => ()) trigger revision resourcesSynced
          return { outcome with apply := some result }

/-! ## What they come to -/

/-- What has been done once this pass is over. -/
def after (s : Done) (pass : Pass) : ReconcileOutcome × Done :=
  (pass.outcome, ⟨s.published ++ [pass.published], s.calls ++ pass.calls⟩)

variable {app : AppName} {cluster : ClusterName} {trigger : String}

theorem emitFailure_run (error : ReconcileError) (s : Done) :
    (emitFailure app cluster error trigger).run s
      = after s (SynchrotronCD.emitFailure app cluster error trigger) := by
  rw [after, SynchrotronCD.emitFailure, List.append_nil]
  rfl

theorem planned_run (p : Plan) (revision : Option String) (s : Done) :
    (do publish ⟨app, cluster, true, none, trigger, revision, p.changes % 2 ^ 32⟩
        return ⟨app, cluster, some p, none, none⟩ : StateM Done ReconcileOutcome).run s
      = after s (emitPlanOnly app cluster p trigger revision) := by
  rw [after, emitPlanOnly, List.append_nil]
  rfl

theorem applied_run (p : Plan) (revision : Option String)
    (result : Except WaveExecError WaveExecReport) (calls : Trace) (s : Done) :
    (do publishApplyResult app cluster (result.map fun _ => ()) trigger revision
          (p.changes % 2 ^ 32)
        return ⟨app, cluster, some p, none, some result⟩ : StateM Done ReconcileOutcome).run
        ⟨s.published, s.calls ++ calls⟩
      = after s (SynchrotronCD.publishApplyResult app cluster p trigger revision calls result) := by
  cases result with
  | ok report => rfl
  | error e => rfl

/-- Every way out publishes what the pass reports. -/
theorem reconcileAndApplyApp_run (rec : Reconciler) (reads : PassReads) (s : Done) :
    (reconcileAndApplyApp rec app cluster trigger reads).run s
      = after s (rec.reconcileAndApplyApp app cluster trigger reads) := by
  -- before the waves nothing was called
  have hstopped := fun p err => @applied_run app cluster trigger p reads.revision (.error err) [] s
  simp only [List.append_nil] at hstopped
  unfold reconcileAndApplyApp Reconciler.reconcileAndApplyApp
  cases planOnly app cluster reads.desired reads.live with
  | error error => exact emitFailure_run error s
  | ok p =>
    cases rec.executorFor cluster with
    | none => exact planned_run p reads.revision s
    | some ex =>
      cases reads.desiredAgain with
      | error e => exact hstopped p (refetchError "desired" e)
      | ok desired =>
        cases reads.liveAgain with
        | error e => exact hstopped p (refetchError "live" e)
        | ok live => exact applied_run p reads.revision _ _ s

/-- A pass that only plans is one on a cluster without an executor. -/
theorem reconcileApp_run (reads : PassReads) (s : Done) :
    (reconcileApp app cluster trigger reads).run s
      = after s (Reconciler.new.reconcileAndApplyApp app cluster trigger reads) := by
  rw [← reconcileAndApplyApp_run]
  unfold reconcileApp reconcileAndApplyApp
  cases planOnly app cluster reads.desired reads.live with
  | error error => rfl
  | ok p => rfl

/-! ## Exactly one -/

/-- The number of `Apply` and `Delete` entries of the returned plan. -/
def touched (o : ReconcileOutcome) : Nat :=
  (o.plan.elim [] Plan.entries).countP fun e => e.action = .apply ∨ e.action = .delete

/-- A pass that started from `s` published one event: it tells whether the pass succeeded, and
counts `n` resources. -/
def ReportsOnce (s : Done) (r : ReconcileOutcome × Done) (n : Nat) : Prop :=
  ∃ ev, r.2.published = s.published ++ [ev] ∧ ev.app = r.1.app ∧ ev.cluster = r.1.cluster ∧
    (ev.success = true ↔ r.1.success = true) ∧ ev.resourcesSynced = n

theorem changes_eq_countP (p : Plan) :
    p.changes = p.entries.countP fun e => e.action = .apply ∨ e.action = .delete := by
  rw [Plan.changes, ← List.countP_eq_length_filter]
  refine List.countP_congr fun e _ => ?_
  cases e.action <;> decide

theorem after_reportsOnce (rec : Reconciler) (reads : PassReads) (s : Done) :
    ReportsOnce s (after s (rec.reconcileAndApplyApp app cluster trigger reads))
      (touched (rec.reconcileAndApplyApp app cluster trigger reads).outcome % 2 ^ 32) := by
  rcases reconcile_cases rec app cluster trigger reads with ⟨_, _, heq⟩ | ⟨p, _, _, heq⟩ |
    ⟨p, _, _, _, _, _, heq⟩ | ⟨p, _, _, _, _, _, _, _, heq⟩
  · rw [heq]
    exact ⟨_, rfl, rfl, rfl, Iff.rfl, rfl⟩
  · rw [heq]
    exact ⟨_, rfl, rfl, rfl, Iff.rfl, congrArg (· % 2 ^ 32) (changes_eq_countP p)⟩
  · rw [heq]
    exact ⟨_, rfl, rfl, rfl, Iff.rfl, congrArg (· % 2 ^ 32) (changes_eq_countP p)⟩
  · rw [heq]
    refine ⟨_, rfl, ?_⟩
    cases (executeWaves _ (groupIntoWaves p _ _) _ _).2 with
    | ok report => exact ⟨rfl, rfl, Iff.rfl, congrArg (· % 2 ^ 32) (changes_eq_countP p)⟩
    | error e => exact ⟨rfl, rfl, Iff.rfl, congrArg (· % 2 ^ 32) (changes_eq_countP p)⟩

theorem ReportsOnce.unique {s : Done} {r : ReconcileOutcome × Done} {m n : Nat}
    (hm : ReportsOnce s r m) (hn : ReportsOnce s r n) : m = n := by
  obtain ⟨ev, hpub, -, -, -, hcount⟩ := hm
  obtain ⟨ev', hpub', -, -, -, hcount'⟩ := hn
  have hev : s.published ++ [ev] = s.published ++ [ev'] := hpub.symm.trans hpub'
  obtain rfl : ev = ev' := by simpa using hev
  exact hcount.symm.trans hcount'

/--
**Exactly one outcome per pass.**

Whatever the sources answer at each read, with or without an executor and whatever it does, a
pass publishes one outcome: it reports success exactly when the pass returns one, and counts
the applies and deletes of the returned plan, none where there is no plan, as a `u32`.
-/
theorem one_outcome_per_pass (rec : Reconciler) (app : AppName) (cluster : ClusterName)
    (trigger : String) (reads : PassReads) (s : Done) :
    let planned := (reconcileApp app cluster trigger reads).run s
    let applied := (reconcileAndApplyApp rec app cluster trigger reads).run s
    ReportsOnce s planned (touched planned.1 % 2 ^ 32) ∧
      ReportsOnce s applied (touched applied.1 % 2 ^ 32) := by
  dsimp only
  rw [reconcileApp_run, reconcileAndApplyApp_run]
  exact ⟨after_reportsOnce _ reads s, after_reportsOnce rec reads s⟩

/-- With distinct references and nothing live, everything is created. -/
theorem countP_plan_created {ms : List Manifest} (hnd : (ms.map ResourceRef.of).Nodup) :
    (plan ms []).entries.countP (fun e => e.action = .apply ∨ e.action = .delete) = ms.length := by
  have happly : ∀ e ∈ (plan ms []).entries, e.action = .apply := by
    intro e he
    have hintended := mem_plan_iff_intended.mp he
    unfold intendedAction at hintended
    have hlive : lastOf [] e.resource = none := rfl
    rw [hlive] at hintended
    cases hd : lastOf ms e.resource with
    | none => simp [hd] at hintended
    | some d => simpa [hd] using hintended.symm
  have hall : (plan ms []).entries.countP (fun e => e.action = .apply ∨ e.action = .delete)
      = (plan ms []).entries.length :=
    List.countP_eq_length.mpr fun e he => by simp [happly e he]
  have hrefs : ∀ r, r ∈ (plan ms []).entries.map PlanEntry.resource ↔ r ∈ ms.map ResourceRef.of := by
    intro r
    rw [mem_plan_resources, List.map_nil, or_iff_left List.not_mem_nil]
  have hperm := (List.perm_ext_iff_of_nodup (plan_resources_nodup ms []) hnd).mpr hrefs
  have hlength := hperm.length_eq
  rw [List.length_map, List.length_map] at hlength
  exact hall.trans hlength

/-- Config maps `0`, `1` and so on. -/
def crowd (n : Nat) : List Manifest := (List.range n).map fun i => configMap i.repr "v1"

theorem crowd_nodup (n : Nat) : ((crowd n).map ResourceRef.of).Nodup := by
  rw [crowd, List.map_map]
  refine List.nodup_range.map fun i j h => ?_
  exact toDigits_inj (String.ofList_injective (ResourceRef.mk.inj h).2.2)

/-- A pass that finds `n` config maps to create. -/
def createCrowd (n : Nat) : PassReads := ⟨.ok (crowd n), .ok [], none, .ok (crowd n), .ok []⟩

/-- It counts them right if and only if there are fewer than 2^32. -/
theorem createCrowd_reportsOnce (n : Nat) (s : Done) :
    let planned := (reconcileApp "shop" "prod" "manual" (createCrowd n)).run s
    ReportsOnce s planned (touched planned.1) ↔ n < 2 ^ 32 := by
  dsimp only
  rw [reconcileApp_run]
  have hreport := @after_reportsOnce "shop" "prod" "manual" Reconciler.new (createCrowd n) s
  have htouched : touched (Reconciler.new.reconcileAndApplyApp "shop" "prod" "manual"
      (createCrowd n)).outcome = n := by
    have hplan : touched (Reconciler.new.reconcileAndApplyApp "shop" "prod" "manual"
        (createCrowd n)).outcome
        = (plan (crowd n) []).entries.countP fun e => e.action = .apply ∨ e.action = .delete := rfl
    rw [hplan, countP_plan_created (crowd_nodup n), crowd, List.length_map, List.length_range]
  rw [htouched] at hreport
  have hcount : touched (after s (Reconciler.new.reconcileAndApplyApp "shop" "prod" "manual"
      (createCrowd n))).1 = n := htouched
  rw [hcount]
  refine ⟨fun h => ?_, fun h => ?_⟩
  · rw [h.unique hreport]
    exact Nat.mod_lt n (by decide)
  · rwa [Nat.mod_eq_of_lt h] at hreport

/-- A plan that creates 2^32 resources is reported as none. -/
theorem count_wraps :
    let planned := (reconcileApp "shop" "prod" "manual" (createCrowd (2 ^ 32))).run ⟨[], []⟩
    ¬ReportsOnce ⟨[], []⟩ planned (touched planned.1) := by
  intro planned h
  exact lt_irrefl _ ((createCrowd_reportsOnce (2 ^ 32) ⟨[], []⟩).mp h)

end OnBus

end SynchrotronCD
