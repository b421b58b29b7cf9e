import SynchrotronCD.Lib.Assoc

/-!
# Shared types

The application record and its status, as stored in the database.
-/

namespace SynchrotronCD

abbrev AppName := String

abbrev ClusterName := String

inductive HealthStatusCode where
  | healthy
  | progressing
  | suspended
  | unknown
  | missing
  | degraded
deriving DecidableEq, Repr

inductive SyncStatusCode where
  | unknown
  | synced
  | outOfSync
  | syncFailed
deriving DecidableEq, Repr

structure AutomatedPolicy where
  /-- Auto-correct drift. -/
  selfHeal : Bool
  /-- Auto-delete resources removed from git. -/
  prune : Bool
  /-- Self-heal check interval in seconds. -/
  selfHealIntervalSecs : Nat
deriving DecidableEq, Repr

def AutomatedPolicy.default : AutomatedPolicy := ⟨true, false, 180⟩

structure SyncPolicy where
  automated : Option AutomatedPolicy
deriving DecidableEq, Repr

/-- The policy the API stores when the request names none. -/
def SyncPolicy.default : SyncPolicy := ⟨none⟩

/-- Pruning was opted into: an automated policy is present and says so. -/
def SyncPolicy.prunes (p : SyncPolicy) : Bool := (p.automated.map AutomatedPolicy.prune).getD false

structure AppDestination where
  cluster : ClusterName
  «namespace» : String
deriving DecidableEq, Repr

structure AppStatus where
  sync : SyncStatusCode
  lastSyncedRevision : Option String
deriving DecidableEq, Repr

structure Application where
  id : String
  name : AppName
  destination : AppDestination
  syncPolicy : SyncPolicy
  status : AppStatus
deriving DecidableEq, Repr

end SynchrotronCD
