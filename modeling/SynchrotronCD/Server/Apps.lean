import SynchrotronCD.Db.Tables

/-!
# The apps API

Creating, updating and deleting applications. A request body is a JSON document;
decoding it takes the fields of a struct by name from an object, or by position
from an array, ignores what it does not know and refuses a field given twice.

An update loads the application under one lock and replaces it under another.
-/

namespace SynchrotronCD.Db

open Lib

abbrev Doc := Value.Doc

inductive ApiError where
  | badRequest (message : String)
  | notFound (message : String)
  | conflict (message : String)
  /-- `database error: …` -/
  | internal (e : DbError)
deriving DecidableEq, Repr

/-! ## Decoding -/

theorem bind_ok {ε α β : Type} {x : Except ε α} {f : α → Except ε β} {b : β}
    (h : (x >>= f) = .ok b) : ∃ a, x = .ok a ∧ f a = .ok b := by
  cases x with
  | error e => simp [bind, Except.bind] at h
  | ok a => exact ⟨a, rfl, h⟩

theorem map_ok {ε α β : Type} {x : Except ε α} {f : α → β} {b : β}
    (h : x.map f = .ok b) : ∃ a, x = .ok a ∧ f a = b := by
  cases x with
  | error e => simp [Except.map] at h
  | ok a => exact ⟨a, rfl, Except.ok.inj h⟩

inductive DecodeError where
  | duplicateField (name : String)
  | missingField (name : String)
  | invalidType
  | invalidLength
deriving DecidableEq, Repr

/-- The value of a field of an object, if it is there. -/
def member (kvs : List (String × Doc)) (key : String) : Except DecodeError (Option Doc) :=
  match kvs.filter (fun kv => kv.1 = key) with
  | [] => .ok none
  | [kv] => .ok (some kv.2)
  | _ => .error (.duplicateField key)

/-- The fields of a struct of which the first `required` have no default. -/
def structFields (keys : List String) (required : Nat) : Doc →
    Except DecodeError (List (Option Doc))
  | .obj kvs => keys.mapM (member kvs)
  | .arr xs =>
    if required ≤ xs.length ∧ xs.length ≤ keys.length then
      .ok ((List.range keys.length).map fun i => xs[i]?)
    else .error .invalidLength
  | _ => .error .invalidType

def stringOf : Doc → Except DecodeError String
  | .str s => .ok s
  | _ => .error .invalidType

/-- A field of type `String`. -/
def requiredString (name : String) : Option Doc → Except DecodeError String
  | some v => stringOf v
  | none => .error (.missingField name)

/-- A field of type `Option<String>`: `null` is as good as absent. -/
def optionalString : Option Doc → Except DecodeError (Option String)
  | none | some .null => .ok none
  | some v => (stringOf v).map some

def pluginParam (v : Doc) : Except DecodeError PluginParam := do
  let fields ← structFields ["name", "value"] 2 v
  match fields with
  | [name, value] => return ⟨← requiredString "name" name, ← requiredString "value" value⟩
  | _ => .error .invalidLength

def pluginParams : Option Doc → Except DecodeError (List PluginParam)
  | none => .ok []
  | some (.arr xs) => xs.mapM pluginParam
  | some _ => .error .invalidType

def pluginRef (v : Doc) : Except DecodeError PluginRef := do
  let fields ← structFields ["name", "parameters"] 1 v
  match fields with
  | [name, parameters] => return ⟨← requiredString "name" name, ← pluginParams parameters⟩
  | _ => .error .invalidLength

/-- A field of type `Option<PluginRef>`. -/
def optionalPlugin : Option Doc → Except DecodeError (Option PluginRef)
  | none | some .null => .ok none
  | some v => (pluginRef v).map some

/-- `deserialize_optional_plugin`, with the default for an absent field. An outer option
takes `null` for itself, so the inner one never sees it. -/
def deserializeOptionalPlugin : Option Doc → Except DecodeError (Option (Option PluginRef))
  | none | some .null => .ok none
  | some v => (optionalPlugin (some v)).map some

/-! ## Requests -/

structure CreateAppRequest where
  name : String
  «namespace» : String
  repoUrl : String
  path : String
  targetRevision : String
  destCluster : String
  destNamespace : String
  plugin : Option PluginRef
deriving DecidableEq, Repr

structure UpdateAppRequest where
  «namespace» : Option String
  repoUrl : Option String
  path : Option String
  targetRevision : Option String
  destCluster : Option String
  destNamespace : Option String
  plugin : Option (Option PluginRef)
deriving DecidableEq, Repr

namespace UpdateAppRequest

def fieldNames : List String :=
  ["namespace", "repo_url", "path", "target_revision", "dest_cluster", "dest_namespace", "plugin"]

/-- A request from its fields, given how the plugin field is read. -/
def ofFields (plugin : Option Doc → Except DecodeError (Option (Option PluginRef))) :
    List (Option Doc) → Except DecodeError UpdateAppRequest
  | [ns, repoUrl, path, targetRevision, destCluster, destNamespace, pluginField] => do
    return ⟨← optionalString ns, ← optionalString repoUrl, ← optionalString path,
      ← optionalString targetRevision, ← optionalString destCluster,
      ← optionalString destNamespace, ← plugin pluginField⟩
  | _ => .error .invalidLength

def deserialize (body : Doc) : Except DecodeError UpdateAppRequest := do
  ofFields deserializeOptionalPlugin (← structFields fieldNames 6 body)

/-- The application with the fields of the request in place of its own. -/
def apply (req : UpdateAppRequest) (app : Application) (now : Timestamp) : Application :=
  { app with
    «namespace» := req.namespace.getD app.namespace
    source :=
      { repoUrl := req.repoUrl.getD app.source.repoUrl
        path := req.path.getD app.source.path
        targetRevision := req.targetRevision.getD app.source.targetRevision
        plugin := req.plugin.getD app.source.plugin }
    destination :=
      { cluster := req.destCluster.getD app.destination.cluster
        «namespace» := req.destNamespace.getD app.destination.namespace }
    updatedAt := now }

end UpdateAppRequest

/-! ## Handlers -/

/-- What a new application starts with. -/
def CreateAppRequest.application (req : CreateAppRequest) (id : String) (now : Timestamp) :
    Application where
  id := id
  name := req.name
  «namespace» := req.namespace
  source := ⟨req.repoUrl, req.path, req.targetRevision, req.plugin⟩
  destination := ⟨req.destCluster, req.destNamespace⟩
  syncPolicy := .default
  status := .default
  createdAt := now
  updatedAt := now

/-- The locked section of `create_app`; the handler then publishes `AppChanged`. -/
def createApp (db : Database) (req : CreateAppRequest) (id : String) (now : Timestamp) :
    Except ApiError (Database × Application) :=
  if trim req.name.toList = [] then .error (.badRequest "name is required")
  else
    match db.getApplication req.name with
    | some _ => .error (.conflict ("app \u0060" ++ req.name ++ "\u0060 already exists"))
    | none =>
      match db.insertApplication (req.application id now) with
      | .ok db' => .ok (db', req.application id now)
      | .error v => .error (.internal (.constraint v))

def appNotFound (name : AppName) : ApiError :=
  .notFound ("app \u0060" ++ name ++ "\u0060 not found")

/-- The first locked section of `update_app`. -/
def loadApp (db : Database) (name : AppName) : Except ApiError Application :=
  match db.getApplication name with
  | some app => .ok app
  | none => .error (appNotFound name)

/-- The second locked section of `update_app`. -/
def replaceApp (db : Database) (name : AppName) (app : Application) (fault : Database.Fault) :
    Database × Except ApiError Application :=
  match db.replace (·.deleteApplication name) (·.insertApplication app) fault with
  | (db', .ok ()) => (db', .ok app)
  | (db', .error e) => (db', .error (.internal e))

/-- How a request can be turned down. -/
inductive Rejection where
  | decode (e : DecodeError)
  | api (e : ApiError)
deriving DecidableEq, Repr

/-- `update_app`, with nothing between its two sections. -/
def updateApp (db : Database) (name : AppName) (body : Doc) (now : Timestamp) :
    Except Rejection (Database × Application) :=
  match UpdateAppRequest.deserialize body with
  | .error e => .error (.decode e)
  | .ok req =>
    match loadApp db name with
    | .error e => .error (.api e)
    | .ok app =>
      match replaceApp db name (req.apply app now) .none with
      | (db', .ok app') => .ok (db', app')
      | (_, .error e) => .error (.api e)

/-- The locked section of `delete_app`. -/
def deleteApp (db : Database) (name : AppName) : Database × Except ApiError Unit :=
  match db.deleteApplication name with
  | (db', true) => (db', .ok ())
  | (db', false) => (db', .error (appNotFound name))

end SynchrotronCD.Db
