import SynchrotronCD.Db.StatusWriter
import SynchrotronCD.Lib.Runs
import SynchrotronCD.Server.AppsProof
import SynchrotronCD.Server.Registrations

/-!
# Updates through the API, section by section

`update_app`, `update_cluster` and `update_repo` have one shape: load the row
under the lock, edit it, and under the lock again delete it and insert the
edited one. An `Endpoint` says how they differ. Any number of updates may be
under way, and between the sections of one there may be sections of the others,
of the delete handler and of the status writer; either statement of the second
section may fail.

Beside the database runs the one of *atomic* updates: an update takes effect at
its second section, on the row that is there then, if there is one and the
handler does not fail. Every other section does there what it does here.
-/

namespace SynchrotronCD.Db

open Lib

/-- A row changed in other columns than its identifier and its name. -/
abbrev Edited {ρ : Type} [Row ρ] (r : ρ) := { r' : ρ // Row.id r' = Row.id r ∧ Row.name r' = Row.name r }

/-- What one of the three update handlers works on. -/
structure Endpoint (ρ Req : Type) [Row ρ] where
  table : Database → Table ρ
  put : Database → Table ρ → Database
  /-- Drop what refers to a row. -/
  cascade : Database → String → Database
  /-- Nothing refers to the row. -/
  unreferenced : Database → String → Prop
  /-- The row with the fields of the request, or why the request is turned down. -/
  edit : Req → Timestamp → (r : ρ) → Except ApiError (Edited r)

namespace Endpoint

section

variable {ρ Req : Type} [Row ρ] (ep : Endpoint ρ Req)

def get (db : Database) (name : String) : Option ρ := (ep.table db).find name

def delete (db : Database) (name : String) : Database × Bool :=
  match ep.get db name with
  | some r => (ep.put (ep.cascade db (Row.id r)) ((ep.table db).delete name), true)
  | none => (db, false)

def insert (db : Database) (r : ρ) : Except Violation Database :=
  ((ep.table db).insert r).map (ep.put db)

/-- The row with the fields of the request; as it is if the request is turned down. -/
def serial (req : Req) (now : Timestamp) (r : ρ) : Edited r :=
  match ep.edit req now r with
  | .ok r' => r'
  | .error _ => ⟨r, rfl, rfl⟩

/-- Change a row in place as the request asks. -/
def updateInPlace (db : Database) (name : String) (req : Req) (now : Timestamp) : Database :=
  ep.put db ((ep.table db).modify name (fun r => (ep.serial req now r).1)
    (fun r => (ep.serial req now r).2.1) (fun r => (ep.serial req now r).2.2))

end

def apps : Endpoint Application UpdateAppRequest where
  table := Database.applications
  put db t := { db with applications := t }
  cascade := Database.cascade
  unreferenced := NoDependents
  edit req now app := .ok ⟨req.apply app now, rfl, rfl⟩

/-- An edit that passed its checks, with the columns it keeps. -/
def checked {ρ : Type} [Row ρ] {r : ρ} (edited : Except ApiError ρ)
    (h : ∀ r', edited = .ok r' → Row.id r' = Row.id r ∧ Row.name r' = Row.name r) :
    Except ApiError (Edited r) :=
  match edited, h with
  | .ok r', h => .ok ⟨r', h r' rfl⟩
  | .error e, _ => .error e

def clusters : Endpoint ClusterRegistration UpdateClusterRequest where
  table := Database.clusters
  put db t := { db with clusters := t }
  cascade db _ := db
  unreferenced _ _ := True
  edit req now reg := checked (req.apply reg now) fun _ h => UpdateClusterRequest.apply_ok h

def repos : Endpoint RepoRegistration UpdateRepoRequest where
  table := Database.repos
  put db t := { db with repos := t }
  cascade db _ := db
  unreferenced _ _ := True
  edit req now reg := checked (req.apply reg now) fun _ h => UpdateRepoRequest.apply_ok h

/-! ### The statements of the three tables -/

section

variable {ρ Req : Type} [Row ρ] {ep : Endpoint ρ Req}

theorem delete_of_some {db : Database} {name : String} {r : ρ} (h : ep.get db name = some r) :
    ep.delete db name = (ep.put (ep.cascade db (Row.id r)) ((ep.table db).delete name), true) := by
  unfold delete
  rw [h]

theorem delete_of_none {db : Database} {name : String} (h : ep.get db name = none) :
    ep.delete db name = (db, false) := by
  unfold delete
  rw [h]

end

theorem apps_delete : apps.delete = Database.deleteApplication := by
  funext db name
  cases h : apps.get db name with
  | some app => rw [delete_of_some h, Database.deleteApplication_of_some h]; rfl
  | none => rw [delete_of_none h, Database.deleteApplication_of_none h]

theorem apps_insert : apps.insert = Database.insertApplication := rfl

theorem clusters_delete : clusters.delete = Database.deleteCluster := by
  funext db name
  unfold Database.deleteCluster Database.getCluster
  cases h : clusters.get db name with
  | some reg => rw [delete_of_some h, show db.clusters.find name = some reg from h]; rfl
  | none =>
      have hfind : db.clusters.find name = none := h
      rw [delete_of_none h, hfind, Table.delete_of_find_none hfind]
      rfl

theorem clusters_insert : clusters.insert = Database.insertCluster := rfl

theorem repos_delete : repos.delete = Database.deleteRepo := by
  funext db name
  unfold Database.deleteRepo Database.getRepo
  cases h : repos.get db name with
  | some reg => rw [delete_of_some h, show db.repos.find name = some reg from h]; rfl
  | none =>
      have hfind : db.repos.find name = none := h
      rw [delete_of_none h, hfind, Table.delete_of_find_none hfind]
      rfl

theorem repos_insert : repos.insert = Database.insertRepo := rfl

end Endpoint

/-! ## The machine -/

/-- Databases from which the same rows are read. -/
structure Database.Same (a b : Database) : Prop where
  applications : a.applications.Same b.applications
  syncHistory : a.syncHistory = b.syncHistory
  syncRevisions : a.syncRevisions = b.syncRevisions
  ownedResources : a.ownedResources = b.ownedResources
  clusters : a.clusters.Same b.clusters
  repos : a.repos.Same b.repos

/-- An update between its two sections. -/
structure PendingUpdate (ρ Req : Type) where
  name : String
  req : Req
  /-- The row as it was loaded. -/
  row : ρ

namespace Updates

structure State (ρ Req : Type) where
  db : Database
  /-- Proof-only: the database had the updates been atomic. -/
  atomic : Database
  /-- The updates that have loaded their row and are still to replace it. -/
  tasks : Nat → Option (PendingUpdate ρ Req)

def State.new {ρ Req : Type} (db : Database) : State ρ Req := ⟨db, db, fun _ => none⟩

/-- One locked section. -/
inductive Event (Req : Type) where
  | load (task : Nat) (name : String) (req : Req)
  | replace (task : Nat) (now : Timestamp) (fault : Database.Fault)
  | delete (name : String)
  | syncOutcome (ev : SyncOutcome) (recordId : String) (publishedAt now : Timestamp)
  | healthAssessed (app : AppName) (status : HealthStatusCode) (message : Option String)
    (now : Timestamp)

variable {ρ Req : Type} [Row ρ] (ep : Endpoint ρ Req)

/-- Edit the loaded row, and replace the stored one by it; what the handler returns. -/
def replaceSection (db : Database) (p : PendingUpdate ρ Req) (now : Timestamp)
    (fault : Database.Fault) : Database × Except ApiError ρ :=
  match ep.edit p.req now p.row with
  | .error e => (db, .error e)
  | .ok r =>
    match db.replace (ep.delete · p.name) (ep.insert · r.1) fault with
    | (db', .ok ()) => (db', .ok r.1)
    | (db', .error e) => (db', .error (.internal e))

/-- What the section does to the database of atomic updates, given what the handler returns. -/
def atomicSection (atomic : Database) (p : PendingUpdate ρ Req) (now : Timestamp) :
    Except ApiError ρ → Database
  | .ok _ => ep.updateInPlace atomic p.name p.req now
  | .error _ => atomic

def step (s : State ρ Req) : Event Req → State ρ Req
  | .load task name req =>
    match ep.get s.db name with
    | some row => { s with tasks := Function.update s.tasks task (some ⟨name, req, row⟩) }
    | none => { s with tasks := Function.update s.tasks task none }
  | .replace task now fault =>
    match s.tasks task with
    | some p =>
      { db := (replaceSection ep s.db p now fault).1
        atomic := atomicSection ep s.atomic p now (replaceSection ep s.db p now fault).2
        tasks := Function.update s.tasks task none }
    | none => s
  | .delete name =>
    { s with db := (ep.delete s.db name).1, atomic := (ep.delete s.atomic name).1 }
  | .syncOutcome ev recordId publishedAt now =>
    { s with
      db := s.db.onSyncOutcome ev recordId publishedAt now
      atomic := s.atomic.onSyncOutcome ev recordId publishedAt now }
  | .healthAssessed app status message now =>
    { s with
      db := s.db.onHealthAssessed app status message now
      atomic := s.atomic.onHealthAssessed app status message now }

/--
**Updates are atomic.** The database is the one of atomic updates: what the other sections
committed is there, an object whose deletion committed is not, and an update that returned
an error has left no trace.
-/
def Atomic (s : State ρ Req) : Prop := s.db.Same s.atomic

/-- A second section finds a row, edits it as it did the one it loaded, with nothing
referring to it, and does not fail between its two statements. -/
def Undisturbed (s : State ρ Req) : Event Req → Prop
  | .replace task now fault =>
    ∀ p r, s.tasks task = some p → ep.edit p.req now p.row = .ok r →
      match fault with
      | .delete _ => True
      | .insert _ => ep.get s.db p.name = none
      | .none => ∃ cur, ep.get s.db p.name = some cur ∧ r.1 = (ep.serial p.req now cur).1
          ∧ ep.unreferenced s.db (Row.id cur)
  | _ => True

end Updates

end SynchrotronCD.Db
