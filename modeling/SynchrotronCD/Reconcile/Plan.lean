import Mathlib.Data.List.Sort
import SynchrotronCD.Lib.Assoc
import SynchrotronCD.Plugins.Manifest

/-!
# The planner

Given a set of *desired* manifests and the *live* state of those resources,
`plan` enumerates what would need to change. Both sides are indexed by reference
first, so of several manifests with one reference the last one counts.
-/

namespace SynchrotronCD

open Lib

/-- Stable identity of a Kubernetes resource: the GVK plus namespace and name. -/
structure ResourceRef where
  gvk : Gvk
  /-- Cluster-scoped resources use `none`. -/
  «namespace» : Option String
  name : String
deriving DecidableEq, Repr, Inhabited

def ResourceRef.of (m : Manifest) : ResourceRef := ⟨m.gvk, m.namespace, m.name⟩

/-- The order of the sort key `(group, version, kind, namespace, name)`. -/
def ResourceRef.compareSortKey : ResourceRef → ResourceRef → Ordering :=
  compareLex (compareOn (·.gvk.group)) <| compareLex (compareOn (·.gvk.version)) <|
    compareLex (compareOn (·.gvk.kind)) <| compareLex (compareOn (·.namespace)) <|
      compareOn (·.name)

/-- What the planner would do with a given resource. -/
inductive PlannedAction where
  | apply
  | delete
  | noOp
deriving DecidableEq, Repr

structure PlanEntry where
  resource : ResourceRef
  action : PlannedAction
deriving DecidableEq, Repr

structure Plan where
  entries : List PlanEntry
deriving DecidableEq, Repr

namespace Plan

def count (p : Plan) (action : PlannedAction) : Nat :=
  (p.entries.filter (fun e => e.action == action)).length

/-- Count of entries with a non-noop action. -/
def changes (p : Plan) : Nat := (p.entries.filter (fun e => e.action != .noOp)).length

end Plan

/-- `insert(ResourceRef::of(m), m)` for each manifest in turn. -/
def indexByRef (ms : List Manifest) : HashMap ResourceRef Manifest :=
  ms.foldl (fun idx m => idx.insert (ResourceRef.of m) m) ∅

/-- Manifest equality used by the planner. -/
def manifestBodiesEqual (a b : Manifest) : Bool := a.body.beq b.body

/-- The action for a desired manifest, given the live one with its reference. -/
def actionFor (desired : Manifest) : Option Manifest → PlannedAction
  | some live => if manifestBodiesEqual desired live then .noOp else .apply
  | none => .apply

/-- Produce a plan from the desired and live manifest sets. -/
def plan (desired live : List Manifest) : Plan :=
  let desiredByRef := indexByRef desired
  let liveByRef := indexByRef live
  let kept := desiredByRef.entries.map fun d =>
    ⟨d.1, actionFor d.2 (liveByRef.lookup d.1)⟩
  let dropped := (liveByRef.keys.filter (fun r => r ∉ desiredByRef)).map fun r => ⟨r, .delete⟩
  ⟨(kept ++ dropped).insertionSort
    (fun a b => (a.resource.compareSortKey b.resource).isLE = true)⟩

end SynchrotronCD
