import SynchrotronCD.Reconcile.ReconcileProof

/-!
# The status writer

Persists every `SyncOutcome` to the application's row and to the sync history.
Row identifiers and timestamps are left out.

`synced_means_applied` follows a pass into the database: what has to have
happened for the row to say `Synced`.
-/

namespace SynchrotronCD

open Lib

inductive SyncTrigger where
  | manual
  | webhook
  | autoHeal
  | poll
deriving DecidableEq, Repr

/-- Anything unknown counts as manual. -/
def SyncTrigger.fromStrLossy : String → SyncTrigger
  | "webhook" => .webhook
  | "auto-heal" => .autoHeal
  | "poll" => .poll
  | _ => .manual

inductive SyncRecordStatus where
  | succeeded
  | failed
deriving DecidableEq, Repr

/-- One row of the sync history. -/
structure SyncRecord where
  appId : String
  revision : String
  status : SyncRecordStatus
  message : Option FailureMessage
  trigger : SyncTrigger
  /-- The `u32` of the event as an `i32`. -/
  resourcesSynced : Int
deriving DecidableEq, Repr

structure Database where
  applications : HashMap AppName Application
  syncHistory : List SyncRecord

/-- Update the sync columns of a row, if there is one; a revision that is not known
leaves the last one in place. -/
def Database.updateApplicationSync (db : Database) (name : AppName) (status : SyncStatusCode)
    (revision : Option String) : Database :=
  match db.applications.lookup name with
  | some a =>
    let a' := { a with status := ⟨status, revision.or a.status.lastSyncedRevision⟩ }
    { db with applications := db.applications.insert name a' }
  | none => db

/-- `n as i32`. -/
def asI32 (n : Nat) : Int := if n < 2 ^ 31 then n else n - 2 ^ 32

/-- The history row of an outcome. -/
def SyncOutcome.record (ev : SyncOutcome) (a : Application) : SyncRecord where
  appId := a.id
  revision := ev.revision.getD ""
  status := if ev.success then .succeeded else .failed
  message := ev.message
  trigger := .fromStrLossy ev.trigger
  resourcesSynced := asI32 ev.resourcesSynced

/-- Handle one `SyncOutcome`. -/
def Database.onSyncOutcome (db : Database) (ev : SyncOutcome) : Database :=
  let status := if ev.success then SyncStatusCode.synced else .syncFailed
  let db := db.updateApplicationSync ev.app status ev.revision
  match db.applications.lookup ev.app with
  | some a => { db with syncHistory := db.syncHistory ++ [ev.record a] }
  | none => db

/-- **The row says what the outcome says.** -/
theorem lookup_onSyncOutcome {db : Database} {ev : SyncOutcome} {a : Application}
    (h : (db.onSyncOutcome ev).applications.lookup ev.app = some a) :
    a.status.sync = if ev.success then .synced else .syncFailed := by
  have happs : (db.onSyncOutcome ev).applications
      = (db.updateApplicationSync ev.app (if ev.success then .synced else .syncFailed)
        ev.revision).applications := by
    unfold Database.onSyncOutcome
    dsimp only
    split <;> rfl
  rw [happs] at h
  unfold Database.updateApplicationSync at h
  split at h
  · rw [AList.lookup_insert] at h
    rw [← Option.some.inj h]
  · rename_i hnone
    rw [hnone] at h
    simp at h

/--
**Where there is an executor, `Synced` means applied.**

When a pass publishes success, or the status writer then has the app as `Synced`,
the pass made a plan; if the cluster has an executor, every change of that plan
was handed to an applier that accepted it, and if it has none, nothing was handed
to anyone.
-/
theorem synced_means_applied (rec : Reconciler) (app : AppName) (cluster : ClusterName)
    (trigger : String) (reads : PassReads) (db : Database)
    (h : (rec.reconcileAndApplyApp app cluster trigger reads).published.success = true
      ∨ ∃ a, (db.onSyncOutcome (rec.reconcileAndApplyApp app cluster trigger
          reads).published).applications.lookup app = some a ∧ a.status.sync = .synced) :
    ((rec.executorFor cluster).isSome = true
      ∧ Handed (rec.reconcileAndApplyApp app cluster trigger reads))
    ∨ (rec.executorFor cluster = none
      ∧ (rec.reconcileAndApplyApp app cluster trigger reads).calls = []
      ∧ (rec.reconcileAndApplyApp app cluster trigger reads).outcome.plan ≠ none) := by
  have hsuccess : (rec.reconcileAndApplyApp app cluster trigger reads).published.success = true := by
    rcases h with h | ⟨a, ha, hs⟩
    · exact h
    · -- the row written is the one of the pass's own app
      have hlook := @lookup_onSyncOutcome db
        (rec.reconcileAndApplyApp app cluster trigger reads).published a
      rw [published_app] at hlook
      have hst := hlook ha
      rw [hs] at hst
      by_contra hf
      rw [if_neg hf] at hst
      simp at hst
  exact success_cases hsuccess

/-- One config map is desired and nothing is live. -/
def firstSync : PassReads where
  desired := .ok [configMap "settings" "v1"]
  live := .ok []
  revision := some "r1"
  desiredAgain := .ok [configMap "settings" "v1"]
  liveAgain := .ok []

/-- The pass of an app on a cluster that the server could not connect to. -/
def disconnectedPass : Pass :=
  Reconciler.new.reconcileAndApplyApp "shop" "prod" "manual" firstSync

/-- The pass of an app on a cluster that gives no trouble. -/
def connectedPass : Pass :=
  (Reconciler.new.withExecutor compliantExecutor).reconcileAndApplyApp "shop" "prod" "manual"
    firstSync

theorem connectedPass_applied :
    (((Reconciler.new.withExecutor compliantExecutor).executorFor "prod").isSome = true
      ∧ Handed connectedPass)
    ∨ ((Reconciler.new.withExecutor compliantExecutor).executorFor "prod" = none
      ∧ connectedPass.calls = [] ∧ connectedPass.outcome.plan ≠ none) :=
  synced_means_applied (Reconciler.new.withExecutor compliantExecutor) "shop" "prod" "manual"
    firstSync ⟨∅, []⟩ (Or.inl (by decide))

/-- **Without an executor, success is the plan's.** An apply is planned, success is
published, the row says `Synced`, and no applier was called. -/
theorem disconnectedPass_synced :
    disconnectedPass.published.success = true ∧ disconnectedPass.calls = []
    ∧ (∃ p r, disconnectedPass.outcome.plan = some p ∧ ⟨r, .apply⟩ ∈ p.entries)
    ∧ ∃ a, (Database.onSyncOutcome
        ⟨AList.insert "shop" ⟨"1", "shop", ⟨"prod", "app"⟩, .default, ⟨.unknown, none⟩⟩ ∅, []⟩
        disconnectedPass.published).applications.lookup "shop" = some a ∧ a.status.sync = .synced :=
  ⟨by decide, rfl, ⟨_, _, rfl, apply_mem_plan.mpr ⟨configMap "settings" "v1",
    lastWithRef_singleton _, fun _ h => absurd h (by simp)⟩⟩, ⟨_, rfl, by decide⟩⟩

end SynchrotronCD
