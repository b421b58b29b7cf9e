import SynchrotronCD.Db.Tables

/-!
# The status writer on the full tables

The two locked sections of the status writer: one for a `SyncOutcome`, one for an
`AppHealthAssessed`. `Ledger` relates the tables to the smaller database in which
the outcomes of passes were followed before; the writer's section does the same
to both (`Ledger.onSyncOutcome`).
-/

namespace SynchrotronCD.Db

open Lib

/-- The history row of an outcome that was published at `publishedAt`. -/
def syncRecordOf (ev : SyncOutcome) (recordId : String) (publishedAt : Timestamp)
    (app : Application) : SyncRecord where
  id := recordId
  appId := app.id
  revision := ev.revision.getD ""
  status := if ev.success then .succeeded else .failed
  message := ev.message
  trigger := .fromStrLossy ev.trigger
  resourcesSynced := asI32 ev.resourcesSynced
  startedAt := publishedAt
  finishedAt := some publishedAt

namespace Database

/-- Handle one `SyncOutcome`; a history insert that fails is only logged. -/
def onSyncOutcome (db : Database) (ev : SyncOutcome) (recordId : String) (publishedAt : Timestamp)
    (now : Timestamp) : Database :=
  let status := if ev.success then SyncStatusCode.synced else .syncFailed
  let db := (db.updateApplicationSync ev.app status ev.revision now).1
  match db.getApplication ev.app with
  | some app => (db.insertSyncRecord (syncRecordOf ev recordId publishedAt app)).toOption.getD db
  | none => db

/-- Handle one `AppHealthAssessed`. -/
def onHealthAssessed (db : Database) (app : AppName) (status : HealthStatusCode)
    (message : Option String) (now : Timestamp) : Database :=
  (db.updateApplicationHealth app status message now).1

/-- The row after a sync write. -/
def syncWritten (status : SyncStatusCode) (revision : Option String) (now : Timestamp)
    (a : Application) : Application :=
  { a with
    status :=
      { a.status with
        sync := status
        lastSyncedAt := some now
        lastSyncedRevision := revision.or a.status.lastSyncedRevision }
    updatedAt := now }

/-- The row after a health write. -/
def healthWritten (status : HealthStatusCode) (message : Option String) (now : Timestamp)
    (a : Application) : Application :=
  { a with status := { a.status with health := status, healthMessage := message }, updatedAt := now }

theorem getApplication_updateApplicationSync (db : Database) (name n : AppName)
    (status : SyncStatusCode) (revision : Option String) (now : Timestamp) :
    (db.updateApplicationSync name status revision now).1.getApplication n
      = if n = name then (db.getApplication n).map (syncWritten status revision now)
        else db.getApplication n :=
  Table.find_modify db.applications name n (syncWritten status revision now) (fun _ => rfl)
    (fun _ => rfl)

theorem getApplication_onHealthAssessed (db : Database) (name n : AppName)
    (status : HealthStatusCode) (message : Option String) (now : Timestamp) :
    (db.onHealthAssessed name status message now).getApplication n
      = if n = name then (db.getApplication n).map (healthWritten status message now)
        else db.getApplication n :=
  Table.find_modify db.applications name n (healthWritten status message now) (fun _ => rfl)
    (fun _ => rfl)

theorem hasId_of_get {db : Database} {name : AppName} {app : Application}
    (h : db.getApplication name = some app) : db.applications.HasId app.id :=
  Table.hasId_iff.mpr ⟨name, app, h, rfl⟩

theorem insertSyncRecord_of_hasId {db : Database} {record : SyncRecord}
    (h : db.applications.HasId record.appId) : db.insertSyncRecord record
      = if record.id ∈ db.syncHistory.map SyncRecord.id then .error .primaryKey
        else .ok { db with syncHistory := db.syncHistory ++ [record] } := by
  unfold insertSyncRecord
  rw [if_neg (not_not_intro h)]

/-- **What an outcome writes.** The sync columns of the row of that name, if there is one, and
then a history row of its identifier, unless that row's own identifier is taken. -/
theorem onSyncOutcome_eq (db : Database) (ev : SyncOutcome) (recordId : String)
    (publishedAt now : Timestamp) : db.onSyncOutcome ev recordId publishedAt now
      = { (db.updateApplicationSync ev.app (if ev.success then .synced else .syncFailed)
            ev.revision now).1 with
          syncHistory := (db.getApplication ev.app).elim db.syncHistory fun app =>
            if recordId ∈ db.syncHistory.map SyncRecord.id then db.syncHistory
            else db.syncHistory ++ [syncRecordOf ev recordId publishedAt app] } := by
  have hget := getApplication_updateApplicationSync db ev.app ev.app
    (if ev.success then .synced else .syncFailed) ev.revision now
  rw [if_pos rfl] at hget
  cases h : db.getApplication ev.app with
  | none =>
      rw [h] at hget
      unfold onSyncOutcome
      simp only [hget]
      rfl
  | some app =>
      rw [h] at hget
      -- the row read back is the one just written, under the same identifier
      have hid := hasId_of_get hget
      have hins := @insertSyncRecord_of_hasId _ (syncRecordOf ev recordId publishedAt app) hid
      unfold onSyncOutcome
      simp only [hget, Option.map_some]
      show (insertSyncRecord _ (syncRecordOf ev recordId publishedAt app)).toOption.getD _ = _
      rw [hins, Option.elim_some]
      show (if recordId ∈ db.syncHistory.map SyncRecord.id then (_ : Except Violation Database)
        else _).toOption.getD _ = _
      by_cases hfresh : recordId ∈ db.syncHistory.map SyncRecord.id
      · rw [if_pos hfresh, if_pos hfresh]
        rfl
      · rw [if_neg hfresh, if_neg hfresh]
        rfl

theorem getApplication_onSyncOutcome (db : Database) (ev : SyncOutcome) (recordId : String)
    (publishedAt now : Timestamp) (n : AppName) :
    (db.onSyncOutcome ev recordId publishedAt now).getApplication n
      = if n = ev.app then (db.getApplication n).map
          (syncWritten (if ev.success then .synced else .syncFailed) ev.revision now)
        else db.getApplication n := by
  rw [onSyncOutcome_eq]
  exact getApplication_updateApplicationSync db ev.app n _ ev.revision now

/-- An outcome of an application that is not stored changes nothing. -/
theorem onSyncOutcome_of_none {db : Database} {ev : SyncOutcome} (h : db.getApplication ev.app = none)
    (recordId : String) (publishedAt now : Timestamp) :
    db.onSyncOutcome ev recordId publishedAt now = db := by
  rw [onSyncOutcome_eq, h]
  unfold updateApplicationSync
  rw [Table.modify_of_find_none h]
  rfl

theorem onHealthAssessed_of_none {db : Database} {app : AppName} (h : db.getApplication app = none)
    (status : HealthStatusCode) (message : Option String) (now : Timestamp) :
    db.onHealthAssessed app status message now = db := by
  unfold onHealthAssessed updateApplicationHealth
  rw [Table.modify_of_find_none h]

end Database

/-! ## The smaller database -/

/-- The columns that the outcomes of passes are about. -/
def Application.core (a : Application) : SynchrotronCD.Application :=
  ⟨a.id, a.name, a.destination, ⟨a.syncPolicy.automated⟩, ⟨a.status.sync, a.status.lastSyncedRevision⟩⟩

def SyncRecord.core (r : SyncRecord) : SynchrotronCD.SyncRecord :=
  ⟨r.appId, r.revision, r.status, r.message, r.trigger, r.resourcesSynced⟩

/-- The tables hold what the smaller database holds. -/
structure Ledger (db : Database) (ledger : SynchrotronCD.Database) : Prop where
  applications : ∀ n, ledger.applications.lookup n = (db.getApplication n).map Application.core
  syncHistory : ledger.syncHistory = db.syncHistory.map SyncRecord.core

theorem Ledger.updateApplicationSync {db : Database} {ledger : SynchrotronCD.Database}
    (h : Ledger db ledger) (name : AppName) (status : SyncStatusCode) (revision : Option String)
    (now : Timestamp) : Ledger (db.updateApplicationSync name status revision now).1
      (ledger.updateApplicationSync name status revision) := by
  refine ⟨?_, ?_⟩
  · intro n
    rw [Database.getApplication_updateApplicationSync]
    unfold SynchrotronCD.Database.updateApplicationSync
    rw [h.applications name]
    cases ha : db.getApplication name with
    | none =>
        show ledger.applications.lookup n = _
        rw [h.applications n]
        by_cases hn : n = name
        · rw [if_pos hn, hn, ha]; rfl
        · rw [if_neg hn]
    | some a =>
        show (ledger.applications.insert name _).lookup n = _
        by_cases hn : n = name
        · rw [if_pos hn, hn, AList.lookup_insert, ha]; rfl
        · rw [if_neg hn, AList.lookup_insert_ne hn, h.applications n]
  · unfold SynchrotronCD.Database.updateApplicationSync
    split
    · exact h.syncHistory
    · exact h.syncHistory

/-- **The writer does the same to both.** -/
theorem Ledger.onSyncOutcome {db : Database} {ledger : SynchrotronCD.Database}
    (h : Ledger db ledger) {ev : SyncOutcome} {recordId : String} (publishedAt now : Timestamp)
    (hfresh : recordId ∉ db.syncHistory.map SyncRecord.id) :
    Ledger (db.onSyncOutcome ev recordId publishedAt now) (ledger.onSyncOutcome ev) := by
  have hsync := h.updateApplicationSync ev.app (if ev.success then .synced else .syncFailed)
    ev.revision now
  have hget := Database.getApplication_updateApplicationSync db ev.app ev.app
    (if ev.success then .synced else .syncFailed) ev.revision now
  rw [if_pos rfl] at hget
  have hrow := hsync.applications ev.app
  rw [hget] at hrow
  rw [Database.onSyncOutcome_eq]
  unfold SynchrotronCD.Database.onSyncOutcome
  dsimp only
  rw [hrow]
  cases ha : db.getApplication ev.app with
  | none => exact ⟨hsync.applications, hsync.syncHistory⟩
  | some app =>
      refine ⟨hsync.applications, ?_⟩
      show (ledger.updateApplicationSync _ _ _).syncHistory ++ [_] = List.map SyncRecord.core
        (if recordId ∈ db.syncHistory.map SyncRecord.id then _ else _)
      rw [if_neg hfresh, hsync.syncHistory, List.map_append]
      rfl

end SynchrotronCD.Db
