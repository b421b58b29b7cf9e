import SynchrotronCD.Lib.Table
import SynchrotronCD.Plugins.Manifest
import SynchrotronCD.Reconcile.Plan
import SynchrotronCD.Server.StatusWriter

/-!
# The state database

The tables behind the API: applications, with the sync history, the recorded
revisions and the owned resources that refer to them; clusters; repositories.

A column that holds a JSON text or a timestamp is kept as what it encodes. The
rows that refer to an application go when it goes (`ON DELETE CASCADE`); every
statement is committed as it is made.
-/

namespace SynchrotronCD.Db

open Lib

/-- Nanoseconds since the epoch. -/
abbrev Timestamp := Nat

/-! ## Rows -/

structure PluginParam where
  name : String
  value : String
deriving DecidableEq, Repr

structure PluginRef where
  name : String
  parameters : List PluginParam
deriving DecidableEq, Repr

structure AppSource where
  repoUrl : String
  path : String
  targetRevision : String
  plugin : Option PluginRef
deriving DecidableEq, Repr

/-- Auto-ignore fields managed by Kubernetes controllers. -/
structure AutoIgnore where
  hpaReplicas : Bool
  vpaResources : Bool
  defaultedFields : Bool
  mutatingWebhooks : Bool
deriving DecidableEq, Repr

def AutoIgnore.default : AutoIgnore := ⟨true, true, true, true⟩

structure IgnoreRule where
  group : Option String
  kind : String
  jsonPointers : List String
  managedFieldsManagers : List String
deriving DecidableEq, Repr

structure DriftConfig where
  /-- Use server-side dry-run for normalization. -/
  serverSideDiff : Bool
  autoIgnore : AutoIgnore
  ignore : List IgnoreRule
deriving DecidableEq, Repr

def DriftConfig.default : DriftConfig := ⟨true, .default, []⟩

structure SyncPolicy where
  automated : Option AutomatedPolicy
  drift : DriftConfig
deriving DecidableEq, Repr

def SyncPolicy.default : SyncPolicy := ⟨none, .default⟩

structure AppStatus where
  sync : SyncStatusCode
  health : HealthStatusCode
  healthMessage : Option String
  lastSyncedAt : Option Timestamp
  lastSyncedRevision : Option String
deriving DecidableEq, Repr

def AppStatus.default : AppStatus := ⟨.unknown, .unknown, none, none, none⟩

structure Application where
  id : String
  name : AppName
  «namespace» : String
  source : AppSource
  destination : AppDestination
  syncPolicy : SyncPolicy
  status : AppStatus
  createdAt : Timestamp
  updatedAt : Timestamp
deriving DecidableEq, Repr

instance : Row Application := ⟨Application.id, Application.name⟩

/-- One row of the sync history. -/
structure SyncRecord where
  id : String
  appId : String
  revision : String
  status : SyncRecordStatus
  message : Option FailureMessage
  trigger : SyncTrigger
  resourcesSynced : Int
  startedAt : Timestamp
  finishedAt : Option Timestamp
deriving DecidableEq, Repr

/-- The manifests of one successful sync. -/
structure SyncRevision where
  id : Nat
  appId : String
  commitHash : String
  paramsHash : List UInt8
  manifestsJson : String
  recordedAt : Timestamp
deriving DecidableEq, Repr

/-- One resource the controller has applied for an app. -/
structure OwnedRow where
  appId : String
  gvk : Gvk
  /-- Empty for cluster-scoped resources. -/
  «namespace» : String
  name : String
  wave : Int
  pruneDisabled : Bool
deriving DecidableEq, Repr

inductive ClusterAuthSource where
  | kubeconfig
  | inCluster
  | default
deriving DecidableEq, Repr

structure ClusterRegistration where
  id : String
  name : String
  authSource : ClusterAuthSource
  kubeconfigPath : Option String
  context : Option String
  bearerToken : Option String
  labels : Value.Doc
  createdAt : Timestamp
  updatedAt : Timestamp

instance : Row ClusterRegistration := ⟨ClusterRegistration.id, ClusterRegistration.name⟩

structure RepoRegistration where
  id : String
  name : String
  url : String
  branch : Option String
  credentialsSecretRef : Option String
  password : Option String
  labels : Value.Doc
  createdAt : Timestamp
  updatedAt : Timestamp

instance : Row RepoRegistration := ⟨RepoRegistration.id, RepoRegistration.name⟩

/-! ## Statements -/

/-- Why a statement failed: a constraint, or anything else, with its text. -/
inductive DbError where
  | constraint (v : Violation)
  | sqlite (text : String)
deriving DecidableEq, Repr

structure Database where
  applications : Table Application
  syncHistory : List SyncRecord
  syncRevisions : List SyncRevision
  ownedResources : List OwnedRow
  clusters : Table ClusterRegistration
  repos : Table RepoRegistration

namespace Database

def empty : Database := ⟨.empty, [], [], [], .empty, .empty⟩

def getApplication (db : Database) (name : AppName) : Option Application :=
  db.applications.find name

def insertApplication (db : Database) (app : Application) : Except Violation Database :=
  (db.applications.insert app).map fun t => { db with applications := t }

/-- The rows that refer to an application, dropped. -/
def cascade (db : Database) (id : String) : Database :=
  { db with
    syncHistory := db.syncHistory.filter (·.appId ≠ id)
    syncRevisions := db.syncRevisions.filter (·.appId ≠ id)
    ownedResources := db.ownedResources.filter (·.appId ≠ id) }

/-- Whether a row was deleted as well. -/
def deleteApplication (db : Database) (name : AppName) : Database × Bool :=
  match db.getApplication name with
  | some app => ({ db.cascade app.id with applications := db.applications.delete name }, true)
  | none => (db, false)

/-- Update only the sync-side status. -/
def updateApplicationSync (db : Database) (name : AppName) (status : SyncStatusCode)
    (revision : Option String) (now : Timestamp) : Database × Bool :=
  ({ db with applications := db.applications.modify name (fun a =>
      { a with
        status :=
          { a.status with
            sync := status
            lastSyncedAt := some now
            lastSyncedRevision := revision.or a.status.lastSyncedRevision }
        updatedAt := now }) (fun _ => rfl) (fun _ => rfl) },
    (db.getApplication name).isSome)

/-- Update only the health-side status. -/
def updateApplicationHealth (db : Database) (name : AppName) (status : HealthStatusCode)
    (message : Option String) (now : Timestamp) : Database × Bool :=
  ({ db with applications := db.applications.modify name (fun a =>
      { a with
        status := { a.status with health := status, healthMessage := message }
        updatedAt := now }) (fun _ => rfl) (fun _ => rfl) },
    (db.getApplication name).isSome)

def insertSyncRecord (db : Database) (record : SyncRecord) : Except Violation Database :=
  if ¬ db.applications.HasId record.appId then .error .foreignKey
  else if record.id ∈ db.syncHistory.map SyncRecord.id then .error .primaryKey
  else .ok { db with syncHistory := db.syncHistory ++ [record] }

def getCluster (db : Database) (name : String) : Option ClusterRegistration := db.clusters.find name

def insertCluster (db : Database) (c : ClusterRegistration) : Except Violation Database :=
  (db.clusters.insert c).map fun t => { db with clusters := t }

def deleteCluster (db : Database) (name : String) : Database × Bool :=
  ({ db with clusters := db.clusters.delete name }, (db.getCluster name).isSome)

def getRepo (db : Database) (name : String) : Option RepoRegistration := db.repos.find name

def insertRepo (db : Database) (r : RepoRegistration) : Except Violation Database :=
  (db.repos.insert r).map fun t => { db with repos := t }

def deleteRepo (db : Database) (name : String) : Database × Bool :=
  ({ db with repos := db.repos.delete name }, (db.getRepo name).isSome)

/-- Where a locked section that deletes a row and inserts another is hit by a failure that
is not of its own making. -/
inductive Fault where
  | none
  | delete (text : String)
  | insert (text : String)
deriving DecidableEq, Repr

/-- Delete a row, then insert one: two statements, each committed as it is made. -/
def replace (db : Database) (delete : Database → Database × Bool)
    (insert : Database → Except Violation Database) : Fault → Database × Except DbError Unit
  | .delete text => (db, .error (.sqlite text))
  | .insert text => ((delete db).1, .error (.sqlite text))
  | .none =>
    match insert (delete db).1 with
    | .ok db' => (db', .ok ())
    | .error v => ((delete db).1, .error (.constraint v))

end Database

end SynchrotronCD.Db
