import SynchrotronCD.Plugins.Manifest
import SynchrotronCD.Reconcile.Reconcile

/-!
# The live-state store

What is live in each cluster, per app, as the informers report it. There is one
informer per watched kind, and each has an updater that turns its events into
writes to the one shared store. Every write is one locked section.

An object is attributed to an app by a label. Objects without that label are
silently ignored.
-/

namespace SynchrotronCD

open Lib

structure TypeMeta where
  apiVersion : String
  kind : String
deriving DecidableEq, Repr

/-- A Kubernetes object of a kind not known at compile time. -/
structure DynamicObject where
  types : Option TypeMeta
  name : Option String
  «namespace» : Option String
  labels : Option (HashMap String String)
  /-- The whole object as JSON. -/
  json : Value.Doc

namespace DynamicObject

def gvk (o : DynamicObject) : Gvk :=
  match o.types with
  | some t => Gvk.parse t.apiVersion t.kind
  | none => ⟨"", "", ""⟩

/-- The identity a live object has in a plan. -/
def ref (o : DynamicObject) : ResourceRef := ⟨o.gvk, o.namespace, o.name.getD ""⟩

/-- A core-group object in namespace `app`, labelled or not. -/
def sample (kind name : String) (app : Option AppName) : DynamicObject where
  types := some ⟨"v1", kind⟩
  name := some name
  «namespace» := some "app"
  labels := app.map fun a => AList.insert "synchrotron.io/app" a ∅
  json := .obj [("apiVersion", .str "v1"), ("kind", .str kind),
    ("metadata", .obj ([("name", .str name), ("namespace", .str "app")]
      ++ (app.map fun a => ("labels", .obj [("synchrotron.io/app", .str a)])).toList))]

end DynamicObject

/-- What an informer emits; a restart carries the full set of objects. -/
inductive InformerEvent where
  | applied (o : DynamicObject)
  | deleted (o : DynamicObject)
  | restarted (os : List DynamicObject)

/-- Default label key consulted to attribute a live resource to an app. -/
def DEFAULT_APP_LABEL : String := "synchrotron.io/app"

/-- Presence of a cluster key means the cluster is registered. -/
abbrev LiveStore := HashMap ClusterName (HashMap AppName (List Manifest))

namespace LiveStore

/-- Declare a cluster known. -/
def registerCluster (s : LiveStore) (cluster : ClusterName) : LiveStore :=
  if cluster ∈ s then s else s.insert cluster ∅

def get (s : LiveStore) (cluster : ClusterName) (app : AppName) :
    Except SourceError (List Manifest) :=
  match s.lookup cluster with
  | none => .error .notFound
  | some apps => .ok ((apps.lookup app).getD [])

/-- What the store holds for an app: what `get` returns on a registered cluster. -/
def slot (s : LiveStore) (cluster : ClusterName) (app : AppName) : List Manifest :=
  (((s.lookup cluster).getD ∅).lookup app).getD []

end LiveStore

/-- Manifest identity within an app's slot. -/
def sameResource (a b : Manifest) : Bool :=
  a.gvk == b.gvk && a.namespace == b.namespace && a.name == b.name

/-- Translates informer events into store mutations. -/
structure LiveStoreUpdater where
  cluster : ClusterName
  label : String
deriving DecidableEq, Repr

namespace LiveStoreUpdater

def new (cluster : ClusterName) : LiveStoreUpdater := ⟨cluster, DEFAULT_APP_LABEL⟩

/-- The app an object is labelled with. -/
def labelOf (u : LiveStoreUpdater) (o : DynamicObject) : Option AppName :=
  o.labels.bind fun labels => labels.lookup u.label

section

variable [FloatText]

/-- The app and the manifest of an object; `none` if it is not ours. The body is
made from JSON, so making it cannot panic. -/
def parse (u : LiveStoreUpdater) (o : DynamicObject) : Option (AppName × Manifest) := do
  let labels ← o.labels
  let app ← labels.lookup u.label
  let body ← ManifestBody.fromValue (.ofJson o.json)
  return (app, ⟨o.gvk, o.name.getD "", o.namespace, body⟩)

end

def upsertOne (u : LiveStoreUpdater) (s : LiveStore) (app : AppName) (m : Manifest) : LiveStore :=
  let apps := (s.lookup u.cluster).getD ∅
  let existing := (apps.lookup app).getD []
  s.insert u.cluster (apps.insert app (existing.filter (fun x => !sameResource x m) ++ [m]))

def removeOne (u : LiveStoreUpdater) (s : LiveStore) (app : AppName) (m : Manifest) : LiveStore :=
  match s.lookup u.cluster with
  | none => s
  | some apps =>
    match apps.lookup app with
    | none => s
    | some existing =>
      s.insert u.cluster (apps.insert app (existing.filter fun x => !sameResource x m))

/-- The cluster's apps are cleared and rewritten, so what is left is the argument. -/
def replaceAll (u : LiveStoreUpdater) (s : LiveStore) (byApp : HashMap AppName (List Manifest)) :
    LiveStore :=
  s.insert u.cluster byApp

section

variable [FloatText]

/-- Re-bucket every observed object by app. -/
def bucket (u : LiveStoreUpdater) (os : List DynamicObject) : HashMap AppName (List Manifest) :=
  os.foldl (fun byApp o =>
    match u.parse o with
    | some (app, m) => byApp.insert app ((byApp.lookup app).getD [] ++ [m])
    | none => byApp) ∅

/-- Apply a single informer event; returns the app that was affected, if any. -/
def handleEvent (u : LiveStoreUpdater) (s : LiveStore) : InformerEvent → LiveStore × Option AppName
  | .applied o =>
    match u.parse o with
    | some (app, m) => (u.upsertOne s app m, some app)
    | none => (s, none)
  | .deleted o =>
    match u.parse o with
    | some (app, m) => (u.removeOne s app m, some app)
    | none => (s, none)
  | .restarted os => (u.replaceAll s (u.bucket os), none)

end

end LiveStoreUpdater

end SynchrotronCD
