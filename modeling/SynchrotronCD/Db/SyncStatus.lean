import SynchrotronCD.Db.StatusWriter
import SynchrotronCD.Lib.Columns
import SynchrotronCD.Reconcile.WorkerPool
import SynchrotronCD.Server.AppsProof

/-!
# The sync status as a fold of events

The status writer handles one event after the other. Of an application's row, an
outcome writes the sync columns and an assessment the health columns, and every
outcome leaves a record in the history.

`last_synced_revision` takes the revision of any outcome that has one, also of a
sync that failed and of a render that failed before there was one
(`status_faithful_iff`).
-/

namespace SynchrotronCD.Db

open Lib
open List (Forall₂)

/-- What the writer handles, with what comes into it from outside. -/
inductive StatusEvent where
  | syncOutcome (ev : SyncOutcome) (recordId : String) (publishedAt now : Timestamp)
  | appHealthAssessed (app : AppName) (status : HealthStatusCode) (message : Option String)
    (now : Timestamp)
deriving DecidableEq, Repr

namespace StatusEvent

def isOutcome : StatusEvent → Bool
  | .syncOutcome _ _ _ _ => true
  | .appHealthAssessed _ _ _ _ => false

/-- The outcome, if it is one of this app. -/
def outcomeOf (n : AppName) : StatusEvent → Option SyncOutcome
  | .syncOutcome ev _ _ _ => if ev.app = n then some ev else none
  | .appHealthAssessed _ _ _ _ => none

/-- The assessment, if it is one of this app. -/
def assessmentOf (n : AppName) : StatusEvent → Option (HealthStatusCode × Option String)
  | .syncOutcome _ _ _ _ => none
  | .appHealthAssessed app status message _ => if app = n then some (status, message) else none

/-- The identifier of the record that the event adds to the history. -/
def recordId : StatusEvent → Option String
  | .syncOutcome _ recordId _ _ => some recordId
  | .appHealthAssessed _ _ _ _ => none

end StatusEvent

/-- One turn of the writer's loop. -/
def Database.onStatusEvent (db : Database) : StatusEvent → Database
  | .syncOutcome ev recordId publishedAt now => db.onSyncOutcome ev recordId publishedAt now
  | .appHealthAssessed app status message now => db.onHealthAssessed app status message now

/-- The database once the writer has processed the events. -/
def Database.afterEvents (db : Database) (es : List StatusEvent) : Database :=
  exec Database.onStatusEvent db es

/-! ## One row -/

def SyncOutcome.status (ev : SyncOutcome) : SyncStatusCode :=
  if ev.success then .synced else .syncFailed

/-- What an event makes of the row of an app. -/
def rowStep (n : AppName) (a : Application) : StatusEvent → Application
  | .syncOutcome ev _ _ now =>
    if ev.app = n then Database.syncWritten (SyncOutcome.status ev) ev.revision now a else a
  | .appHealthAssessed app status message now =>
    if app = n then Database.healthWritten status message now a else a

theorem getApplication_onStatusEvent (n : AppName) (db : Database) (e : StatusEvent) :
    (db.onStatusEvent e).getApplication n = (db.getApplication n).map (rowStep n · e) := by
  cases e with
  | syncOutcome ev recordId publishedAt now =>
      show (db.onSyncOutcome ev recordId publishedAt now).getApplication n = _
      rw [Database.getApplication_onSyncOutcome]
      unfold rowStep
      by_cases h : n = ev.app
      · rw [if_pos h]
        simp only [if_pos h.symm]
        rfl
      · rw [if_neg h]
        simp only [if_neg (Ne.symm h), Option.map_id']
  | appHealthAssessed app status message now =>
      show (db.onHealthAssessed app status message now).getApplication n = _
      rw [Database.getApplication_onHealthAssessed]
      unfold rowStep
      by_cases h : n = app
      · rw [if_pos h]
        simp only [if_pos h.symm]
      · rw [if_neg h]
        simp only [if_neg (Ne.symm h), Option.map_id']

/-- **A row goes its own way.** -/
theorem getApplication_afterEvents (n : AppName) (db : Database) (es : List StatusEvent) :
    (db.afterEvents es).getApplication n
      = (db.getApplication n).map fun a => exec (rowStep n) a es := by
  have hpart := exec_map (f := fun db : Database => db.getApplication n)
    (g := fun a e => a.map (rowStep n · e)) (getApplication_onStatusEvent n) db es
  unfold Database.afterEvents
  rw [hpart]
  cases db.getApplication n with
  | none =>
      rw [Option.map_none]
      exact exec_inv (P := fun a => a = none) (fun a e ha => by rw [ha]; rfl) rfl es
  | some a =>
      rw [Option.map_some]
      exact (exec_map (f := some) (fun _ _ => rfl) a es).symm

theorem id_rowStep (n : AppName) (a : Application) (e : StatusEvent) :
    (rowStep n a e).id = a.id := by
  unfold rowStep
  cases e with
  | syncOutcome ev recordId publishedAt now =>
      dsimp only
      split <;> rfl
  | appHealthAssessed app status message now =>
      dsimp only
      split <;> rfl

/-! ### Its columns -/

def Application.syncColumns (a : Application) : SyncStatusCode × Option Timestamp × Option String :=
  (a.status.sync, a.status.lastSyncedAt, a.status.lastSyncedRevision)

def Application.healthColumns (a : Application) : HealthStatusCode × Option String :=
  (a.status.health, a.status.healthMessage)

/-- The revision of an outcome that has one. -/
def carriedRevision (n : AppName) (e : StatusEvent) : Option String :=
  (e.outcomeOf n).bind (·.revision)

/-- The revision of a successful outcome that has one. -/
def syncedRevision (n : AppName) (e : StatusEvent) : Option String :=
  ((e.outcomeOf n).filter (·.success)).bind (·.revision)

theorem sync_rowStep (n : AppName) (a : Application) (e : StatusEvent) :
    (rowStep n a e).status.sync = ((e.outcomeOf n).map SyncOutcome.status).getD a.status.sync := by
  unfold rowStep StatusEvent.outcomeOf
  cases e with
  | syncOutcome ev recordId publishedAt now =>
      dsimp only
      split <;> rfl
  | appHealthAssessed app status message now =>
      dsimp only
      split <;> rfl

theorem lastSyncedRevision_rowStep (n : AppName) (a : Application) (e : StatusEvent) :
    (rowStep n a e).status.lastSyncedRevision
      = (carriedRevision n e).or a.status.lastSyncedRevision := by
  unfold rowStep carriedRevision StatusEvent.outcomeOf
  cases e with
  | syncOutcome ev recordId publishedAt now =>
      dsimp only
      split <;> rfl
  | appHealthAssessed app status message now =>
      dsimp only
      split <;> rfl

theorem healthColumns_rowStep (n : AppName) (a : Application) (e : StatusEvent) :
    (rowStep n a e).healthColumns = (e.assessmentOf n).getD a.healthColumns := by
  unfold rowStep StatusEvent.assessmentOf
  cases e with
  | syncOutcome ev recordId publishedAt now =>
      dsimp only
      split <;> rfl
  | appHealthAssessed app status message now =>
      dsimp only
      split <;> rfl

/-! ## The history -/

/-- The history of one application. -/
def Database.historyOf (db : Database) (appId : String) : List SyncRecord :=
  db.syncHistory.filter (·.appId = appId)

/-- The record that an event leaves of this app. -/
def recordOf (n : AppName) (a : Application) : StatusEvent → Option SyncRecord
  | .syncOutcome ev recordId publishedAt _ =>
    if ev.app = n then some (syncRecordOf ev recordId publishedAt a) else none
  | .appHealthAssessed _ _ _ _ => none

/-- Of the row, only the identifier goes into a record. -/
theorem recordOf_congr (n : AppName) {a a' : Application} (h : a'.id = a.id) (e : StatusEvent) :
    recordOf n a' e = recordOf n a e := by
  unfold recordOf syncRecordOf
  rw [h]

theorem historyOf_onStatusEvent {db : Database} {n : AppName} {a : Application} {e : StatusEvent}
    (hget : db.getApplication n = some a)
    (hfresh : ∀ r, e.recordId = some r → r ∉ db.syncHistory.map SyncRecord.id) :
    (db.onStatusEvent e).historyOf a.id = db.historyOf a.id ++ (recordOf n a e).toList := by
  cases e with
  | appHealthAssessed app status message now =>
      exact (List.append_nil _).symm
  | syncOutcome ev recordId publishedAt now =>
      have hid : recordId ∉ db.syncHistory.map SyncRecord.id := hfresh recordId rfl
      show (db.onSyncOutcome ev recordId publishedAt now).historyOf a.id = _
      unfold Database.historyOf recordOf
      rw [Database.onSyncOutcome_eq]
      dsimp only
      by_cases happ : ev.app = n
      · rw [happ, hget, Option.elim_some, if_neg hid, if_pos rfl, List.filter_append]
        rw [List.filter_cons_of_pos (by simp [syncRecordOf]), List.filter_nil]
        rfl
      · rw [if_neg happ]
        cases hother : db.getApplication ev.app with
        | none => exact (List.append_nil _).symm
        | some b =>
            -- rows of different names have different identifiers
            have hne : b.id ≠ a.id := by
              intro hid
              have hba : b = a := Table.find_id_inj hother hget hid
              rw [← Table.find_name hother, ← Table.find_name hget, hba] at happ
              exact happ rfl
            rw [Option.elim_some, if_neg hid, List.filter_append,
              List.filter_cons_of_neg (by rw [decide_eq_true_iff]; exact hne), List.filter_nil]
            rfl

theorem mem_ids_onStatusEvent {db : Database} {e : StatusEvent} {r : String}
    (h : r ∈ (db.onStatusEvent e).syncHistory.map SyncRecord.id) :
    r ∈ db.syncHistory.map SyncRecord.id ∨ e.recordId = some r := by
  cases e with
  | appHealthAssessed app status message now => exact .inl h
  | syncOutcome ev recordId publishedAt now =>
      change r ∈ (db.onSyncOutcome ev recordId publishedAt now).syncHistory.map SyncRecord.id at h
      rw [Database.onSyncOutcome_eq] at h
      dsimp only at h
      cases hget : db.getApplication ev.app with
      | none => rw [hget] at h; exact .inl h
      | some app =>
          rw [hget, Option.elim_some] at h
          split at h
          · exact .inl h
          · rw [List.map_append, List.mem_append, List.map_singleton, List.mem_singleton] at h
            exact h.imp id fun hr => by rw [hr]; rfl

theorem mem_ids_afterEvents {db : Database} {es : List StatusEvent} {r : String}
    (h : r ∈ (db.afterEvents es).syncHistory.map SyncRecord.id) :
    r ∈ db.syncHistory.map SyncRecord.id ++ es.filterMap StatusEvent.recordId := by
  induction es using List.reverseRecOn with
  | nil => exact List.mem_append_left _ h
  | append_singleton es e ih =>
      unfold Database.afterEvents at h
      rw [exec_snoc] at h
      rw [List.filterMap_append, ← List.append_assoc]
      rcases mem_ids_onStatusEvent h with h | h
      · exact List.mem_append_left _ (ih h)
      · exact List.mem_append_right _ (List.mem_filterMap.mpr ⟨e, List.mem_singleton_self e, h⟩)

/-- Every record has an identifier of its own, as `Uuid::new_v4` sees to. -/
def FreshIds (db : Database) (es : List StatusEvent) : Prop :=
  (db.syncHistory.map SyncRecord.id ++ es.filterMap StatusEvent.recordId).Nodup

/-- **Every outcome leaves one record, in their order.** -/
theorem historyOf_afterEvents {db : Database} {n : AppName} {a : Application}
    {es : List StatusEvent} (hget : db.getApplication n = some a) (hids : FreshIds db es) :
    (db.afterEvents es).historyOf a.id = db.historyOf a.id ++ es.filterMap (recordOf n a) := by
  induction es using List.reverseRecOn with
  | nil => exact (List.append_nil _).symm
  | append_singleton es e ih =>
      unfold FreshIds at hids
      rw [List.filterMap_append, ← List.append_assoc, List.nodup_append] at hids
      obtain ⟨hes, -, hdisjoint⟩ := hids
      have hrow : (db.afterEvents es).getApplication n = some (exec (rowStep n) a es) := by
        rw [getApplication_afterEvents, hget, Option.map_some]
      have hid : (exec (rowStep n) a es).id = a.id :=
        exec_inv (P := fun a' : Application => a'.id = a.id) (fun a' e h => by rw [id_rowStep, h]) rfl es
      have hfresh : ∀ r, e.recordId = some r →
          r ∉ (db.afterEvents es).syncHistory.map SyncRecord.id := by
        intro r hr hmem
        refine hdisjoint r (mem_ids_afterEvents hmem) r ?_ rfl
        exact List.mem_filterMap.mpr ⟨e, List.mem_singleton_self e, hr⟩
      have hstep := historyOf_onStatusEvent hrow hfresh
      rw [hid, recordOf_congr n hid, ih hes] at hstep
      show ((exec Database.onStatusEvent db (es ++ [e])).historyOf a.id) = _
      rw [exec_snoc, List.filterMap_append, ← List.append_assoc]
      refine hstep.trans ?_
      cases h : recordOf n a e <;> simp [h]

/-! ## The fold -/

/-- What a record says of an outcome. -/
structure Records (a : Application) (ev : SyncOutcome) (r : SyncRecord) : Prop where
  appId : r.appId = a.id
  status : r.status = if ev.success then .succeeded else .failed
  message : r.message = ev.message
  trigger : r.trigger = .fromStrLossy ev.trigger

theorem forall₂_records (n : AppName) (a : Application) (es : List StatusEvent) :
    Forall₂ (Records a) (es.filterMap (·.outcomeOf n)) (es.filterMap (recordOf n a)) := by
  induction es with
  | nil => exact .nil
  | cons e es ih =>
      cases e with
      | appHealthAssessed app status message now => exact ih
      | syncOutcome ev recordId publishedAt now =>
          by_cases happ : ev.app = n
          · have hout : StatusEvent.outcomeOf n (.syncOutcome ev recordId publishedAt now) = some ev :=
              if_pos happ
            have hrec : recordOf n a (.syncOutcome ev recordId publishedAt now)
                = some (syncRecordOf ev recordId publishedAt a) := if_pos happ
            rw [List.filterMap_cons_some hout, List.filterMap_cons_some hrec]
            exact .cons ⟨rfl, rfl, rfl, rfl⟩ ih
          · have hout : StatusEvent.outcomeOf n (.syncOutcome ev recordId publishedAt now) = none :=
              if_neg happ
            have hrec : recordOf n a (.syncOutcome ev recordId publishedAt now) = none := if_neg happ
            rw [List.filterMap_cons_none hout, List.filterMap_cons_none hrec]
            exact ih

/-- The events are folded into the row and the history of an application: `a` and `a'` are
the row before and after. -/
structure Faithful (db : Database) (n : AppName) (es : List StatusEvent) (a a' : Application) :
    Prop where
  /-- That of the last outcome. -/
  sync : a'.status.sync
    = ((lastWrite (·.outcomeOf n) es).map SyncOutcome.status).getD a.status.sync
  /-- That of the last successful outcome that carried one. -/
  lastSyncedRevision : a'.status.lastSyncedRevision
    = (lastWrite (syncedRevision n) es).or a.status.lastSyncedRevision
  /-- Those of the last assessment. -/
  health : a'.healthColumns = (lastWrite (·.assessmentOf n) es).getD a.healthColumns
  /-- Assessments do not change the sync columns. -/
  syncColumns : ((db.afterEvents (es.filter StatusEvent.isOutcome)).getApplication n).map
    Application.syncColumns = some a'.syncColumns
  /-- Outcomes do not change the health columns. -/
  healthColumns : ((db.afterEvents (es.filter (!·.isOutcome))).getApplication n).map
    Application.healthColumns = some a'.healthColumns
  /-- One record for every outcome. -/
  history : ∃ gained, (db.afterEvents es).historyOf a.id = db.historyOf a.id ++ gained ∧
    Forall₂ (Records a) (es.filterMap (·.outcomeOf n)) gained

/-- The text of the `trigger` column. -/
def SyncTrigger.asStr : SyncTrigger → String
  | .manual => "manual"
  | .webhook => "webhook"
  | .autoHeal => "auto-heal"
  | .poll => "poll"

/-- The trigger of a pass is stored as it was published. -/
theorem fromStrLossy_asStr (t : Trigger) :
    SyncTrigger.asStr (.fromStrLossy t.asStr) = t.asStr := by
  cases t <;> rfl

section

variable {db : Database} {n : AppName} {es : List StatusEvent} {a : Application}

/-- What an event makes of the sync columns. -/
def syncColumnsStep (n : AppName) (c : SyncStatusCode × Option Timestamp × Option String) :
    StatusEvent → SyncStatusCode × Option Timestamp × Option String
  | .syncOutcome ev _ _ now =>
    if ev.app = n then (SyncOutcome.status ev, some now, ev.revision.or c.2.2) else c
  | .appHealthAssessed _ _ _ _ => c

theorem syncColumns_rowStep (n : AppName) (a : Application) (e : StatusEvent) :
    (rowStep n a e).syncColumns = syncColumnsStep n a.syncColumns e := by
  unfold rowStep syncColumnsStep
  cases e with
  | syncOutcome ev recordId publishedAt now =>
      dsimp only
      split <;> rfl
  | appHealthAssessed app status message now =>
      dsimp only
      split <;> rfl

/-- **Everything but the revision is folded as it should be**, and the revision is that of
the last outcome that carried one. -/
theorem faithful_iff_revision (hget : db.getApplication n = some a) (hids : FreshIds db es) :
    Faithful db n es a (exec (rowStep n) a es) ↔
      (lastWrite (carriedRevision n) es).or a.status.lastSyncedRevision
        = (lastWrite (syncedRevision n) es).or a.status.lastSyncedRevision := by
  have hrevision := exec_optionColumn (f := fun a : Application => a.status.lastSyncedRevision)
    (lastSyncedRevision_rowStep n) a es
  refine ⟨fun h => hrevision.symm.trans h.lastSyncedRevision, fun h => ?_⟩
  refine ⟨?_, hrevision.trans h, exec_column (healthColumns_rowStep n) a es, ?_, ?_, ?_⟩
  · have hsync := exec_column (f := fun a : Application => a.status.sync) (sync_rowStep n) a es
    rwa [lastWrite_map] at hsync
  · have hcolumns := exec_filter (p := StatusEvent.isOutcome) (syncColumns_rowStep n)
      (fun b e he => by cases e with
        | syncOutcome => cases he
        | appHealthAssessed => rfl) a es
    rw [getApplication_afterEvents, hget, Option.map_some, Option.map_some, hcolumns]
  · have hcolumns := exec_filter (p := fun e => !e.isOutcome)
      (g := fun b e => (e.assessmentOf n).getD b) (healthColumns_rowStep n)
      (fun b e he => by cases e with
        | syncOutcome => rfl
        | appHealthAssessed => cases he) a es
    rw [getApplication_afterEvents, hget, Option.map_some, Option.map_some, hcolumns]
  · exact ⟨_, historyOf_afterEvents hget hids, forall₂_records n a es⟩

/--
**Row and history are a faithful fold of the events exactly when no failed sync has moved
the revision.**

That is, when the last outcome that carried a revision carried the one of the last
success that did, or of the row where none did.
-/
theorem status_faithful_iff (hget : db.getApplication n = some a) (hids : FreshIds db es) :
    (∃ a', (db.afterEvents es).getApplication n = some a' ∧ Faithful db n es a a') ↔
      (lastWrite (carriedRevision n) es).or a.status.lastSyncedRevision
        = (lastWrite (syncedRevision n) es).or a.status.lastSyncedRevision := by
  have hrow : (db.afterEvents es).getApplication n = some (exec (rowStep n) a es) := by
    rw [getApplication_afterEvents, hget, Option.map_some]
  rw [← faithful_iff_revision hget hids, hrow]
  constructor
  · rintro ⟨a', ha', h⟩
    rwa [← Option.some.inj ha'] at h
  · intro h
    exact ⟨_, rfl, h⟩

end

/-! ## A failed render -/

/-- A sync of `c1`, then a render of `c2` that fails. -/
def renderFails : List StatusEvent :=
  [.syncOutcome ⟨"shop", "prod", true, none, "poll", some "c1", 3⟩ "r1" 2 2,
    .syncOutcome ⟨"shop", "prod", false, none, "poll", some "c2", 0⟩ "r2" 3 3]

/-- The row says that `c2` was synced last. -/
theorem renderFails_moves_revision : ¬ ∃ a',
    (shopDb.afterEvents renderFails).getApplication "shop" = some a'
      ∧ Faithful shopDb "shop" renderFails shopApp a' := by
  rintro ⟨a', ha', h⟩
  obtain rfl := Option.some.inj ha'
  have hrevision := h.lastSyncedRevision
  exact absurd hrevision (by decide)

theorem syncThenRenderFails_iff :
    (∃ a', (shopDb.afterEvents renderFails).getApplication "shop" = some a'
      ∧ Faithful shopDb "shop" renderFails shopApp a') ↔
      (lastWrite (carriedRevision "shop") renderFails).or shopApp.status.lastSyncedRevision
        = (lastWrite (syncedRevision "shop") renderFails).or shopApp.status.lastSyncedRevision :=
  status_faithful_iff (by decide) (by unfold FreshIds; decide)

end SynchrotronCD.Db
