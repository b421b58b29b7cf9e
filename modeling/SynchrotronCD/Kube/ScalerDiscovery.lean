import SynchrotronCD.Diff.AutoIgnore
import SynchrotronCD.Kube.LiveStore
import SynchrotronCD.Lib.Runs

/-!
# Scaler discovery

Three informers, one for each kind of controller, feed one cache. Each has a
consumer task that folds its events into a map shared by all three, under a
mutex, and then rebuilds the cache: it takes the mutex again to copy the values
out, and after that waits for the lock of the cache to write them.

The three sections of a task are steps of their own, so anything of the other
tasks may fall between them. The order in which a hash map yields its values is
unspecified; it is part of the step that copies them.
-/

namespace SynchrotronCD

open Lib

deriving instance DecidableEq for ScalerEntry

namespace ScalerDiscovery

/-- What produced an entry, and where it lives. -/
structure SourceKey where
  controller : ControllerKind
  «namespace» : Option String
  name : String
deriving DecidableEq

abbrev Sources := HashMap SourceKey ScalerEntry

namespace Sources

def values (s : Sources) : List ScalerEntry := s.entries.map Sigma.snd

/-- Keep the entries of the other kinds of controller. -/
def retainOthers (s : Sources) (controller : ControllerKind) : Sources :=
  ⟨s.entries.filter (fun e => e.1.controller ≠ controller),
    s.nodupKeys.sublist List.filter_sublist⟩

end Sources

def sourceKeyOf (o : DynamicObject) (controller : ControllerKind) : Option SourceKey :=
  o.name.map fun name => ⟨controller, o.namespace, name⟩

section

variable [FloatText]

/-- The object as a manifest, through JSON. -/
def manifestFor (o : DynamicObject) : Option Manifest := do
  let types ← o.types
  let name ← o.name
  let body ← ManifestBody.fromValue (.ofJson o.json)
  return ⟨Gvk.parse types.apiVersion types.kind, name, o.namespace, body⟩

/-- What an object says when it is a scaler. -/
def entryOf (o : DynamicObject) : Option ScalerEntry := (manifestFor o).bind parseScaler

/-- `map.insert(key, entry)` for an object that has both. -/
def insertSource (controller : ControllerKind) (s : Sources) (o : DynamicObject) : Sources :=
  match sourceKeyOf o controller, entryOf o with
  | some key, some entry => s.insert key entry
  | _, _ => s

/-- The first section: fold an event into the sources, and whether to rebuild the cache. -/
def fold (controller : ControllerKind) (s : Sources) : InformerEvent → Sources × Bool
  | .applied o =>
    match sourceKeyOf o controller, entryOf o with
    | none, _ => (s, false)
    | some key, some entry => (s.insert key entry, s.lookup key ≠ some entry)
    | some key, none => (s.erase key, (s.lookup key).isSome)
  | .deleted o =>
    match sourceKeyOf o controller with
    | none => (s, false)
    | some key => (s.erase key, (s.lookup key).isSome)
  | .restarted os => (os.foldl (insertSource controller) (s.retainOthers controller), true)

end

/-- Where a consumer task stands. -/
inductive Task where
  /-- Waiting for its next event. -/
  | idle
  /-- The sources have changed and are still to be copied. -/
  | rebuilding
  /-- The copied entries are still to be written. -/
  | writing (entries : List ScalerEntry)
deriving DecidableEq

structure State where
  sources : Sources
  cache : ScalerCache
  tasks : ControllerKind → Task

def State.new : State := ⟨∅, .new, fun _ => .idle⟩

/-- A section of the task of one kind of controller. -/
inductive Event where
  | consume (controller : ControllerKind) (e : InformerEvent)
  /-- The values of the map, in the order it yields them. -/
  | snapshot (controller : ControllerKind) (entries : List ScalerEntry)
  | write (controller : ControllerKind)

/-- One section; a task that is elsewhere does not take it. -/
def step [FloatText] (s : State) : Event → State
  | .consume controller e =>
    match s.tasks controller with
    | .idle =>
      let (sources, changed) := fold controller s.sources e
      { s with
        sources := sources
        tasks := if changed then Function.update s.tasks controller .rebuilding else s.tasks }
    | _ => s
  | .snapshot controller entries =>
    match s.tasks controller with
    | .rebuilding =>
      if entries.Perm s.sources.values then
        { s with tasks := Function.update s.tasks controller (.writing entries) }
      else s
    | _ => s
  | .write controller =>
    match s.tasks controller with
    | .writing entries =>
      { s with
        cache := s.cache.replaceWith entries
        tasks := Function.update s.tasks controller .idle }
    | _ => s

/-- Every task waits for its next event. -/
def State.Idle (s : State) : Prop := ∀ controller, s.tasks controller = .idle

/-- The cache holds the entries of the sources, each under its target, and nothing else. -/
structure IndexOf (cache : ScalerCache) (sources : Sources) : Prop where
  entries : ∀ target,
    (cache.entriesFor target).Perm (sources.values.filter fun e => e.target = target)
  targets : ∀ target, target ∈ cache.byTarget ↔ ∃ e ∈ sources.values, e.target = target

/-- **The cache converges.** -/
def Converged (s : State) : Prop := s.Idle → IndexOf s.cache s.sources

/-- A relist of one kind of controller leaves the sources of the others in place. -/
def KeepsOthers [FloatText] (s : State) : Event → Prop
  | .consume controller (.restarted os) => ∀ key : SourceKey, key.controller ≠ controller →
      (step s (.consume controller (.restarted os))).sources.lookup key = s.sources.lookup key
  | _ => True

/-- The last task to write does not write entries copied before the sources last changed. -/
def Fresh (s : State) : Event → Prop
  | .write controller => ∀ entries, s.tasks controller = .writing entries →
      (∀ other, other ≠ controller → s.tasks other = .idle) → entries.Perm s.sources.values
  | _ => True

end ScalerDiscovery

end SynchrotronCD
