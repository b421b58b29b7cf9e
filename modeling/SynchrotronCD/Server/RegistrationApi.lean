import SynchrotronCD.Server.UpdatesProof

/-!
# The registration APIs, request by request

Clusters and repositories are registered through two APIs of one shape: create,
get, list, update, delete; clusters can be checked as well. An `Api` says how they
differ. The requests to both are served over one database, one locked section after
another, in any order, and any statement may fail.
-/

namespace SynchrotronCD.Db

open Lib

/-! ## Clusters -/

structure ClusterView where
  id : String
  name : String
  authSource : String
  kubeconfigPath : Option String
  context : Option String
  /-- The token itself is never returned. -/
  hasBearerToken : Bool
  labels : Doc
  createdAt : Timestamp
  updatedAt : Timestamp

def ClusterAuthSource.asStr : ClusterAuthSource → String
  | .kubeconfig => "kubeconfig"
  | .inCluster => "in_cluster"
  | .default => "default"

def ClusterView.from (c : ClusterRegistration) : ClusterView where
  id := c.id
  name := c.name
  authSource := c.authSource.asStr
  kubeconfigPath := c.kubeconfigPath
  context := c.context
  hasBearerToken := c.bearerToken.isSome
  labels := c.labels
  createdAt := c.createdAt
  updatedAt := c.updatedAt

structure CreateClusterRequest where
  name : String
  authSource : String
  kubeconfigPath : Option String
  context : Option String
  bearerToken : Option String
  labels : Option Doc

/-- The registration a request asks for. -/
def CreateClusterRequest.build (req : CreateClusterRequest) (id : String) (now : Timestamp) :
    Except ApiError ClusterRegistration := do
  let authSource ← parseAuthSource req.authSource
  validateAuthFields authSource req.kubeconfigPath
  return {
    id := id
    name := req.name
    authSource := authSource
    kubeconfigPath := req.kubeconfigPath
    context := req.context
    bearerToken := req.bearerToken
    labels := req.labels.getD (.obj [])
    createdAt := now
    updatedAt := now }

/-- `synchrotron_kube::AuthSource`. -/
inductive AuthSource where
  | kubeconfig (path : String) (context : Option String)
  | inCluster
  | default (context : Option String)
deriving DecidableEq, Repr

structure ClusterConfig where
  name : String
  source : AuthSource
deriving DecidableEq, Repr

def registrationToKubeCfg (reg : ClusterRegistration) : Except String ClusterConfig :=
  match reg.authSource with
  | .kubeconfig =>
    match reg.kubeconfigPath with
    | some path => .ok ⟨reg.name, .kubeconfig path reg.context⟩
    | none => .error "kubeconfig auth_source missing kubeconfig_path"
  | .inCluster => .ok ⟨reg.name, .inCluster⟩
  | .default => .ok ⟨reg.name, .default reg.context⟩

structure ConnectivityCheckResponse where
  cluster : String
  ok : Bool
  apiserverVersion : Option String
  failedStage : Option String
  error : Option String
deriving DecidableEq, Repr

/-- `KubeClient::connect` and `apiserver_version`, as they turn out. -/
structure Apiserver where
  Client : Type
  connect : ClusterConfig → Except String Client
  version : Client → Except String String

/-- `check_cluster`, of the registration that was loaded. -/
def checkCluster (k8s : Apiserver) (name : String) (reg : ClusterRegistration) :
    ConnectivityCheckResponse :=
  match registrationToKubeCfg reg with
  | .error msg => ⟨name, false, none, some "build_config", some msg⟩
  | .ok cfg =>
    match k8s.connect cfg with
    | .error e => ⟨name, false, none, some "connect", some e⟩
    | .ok client =>
      match k8s.version client with
      | .ok v => ⟨name, true, some v, none, none⟩
      | .error e => ⟨name, false, none, some "version", some e⟩

/-! ## Repositories -/

structure RepoView where
  id : String
  name : String
  url : String
  branch : Option String
  credentialsSecretRef : Option String
  /-- The password itself is never returned. -/
  hasPassword : Bool
  labels : Doc
  createdAt : Timestamp
  updatedAt : Timestamp

def RepoView.from (r : RepoRegistration) : RepoView where
  id := r.id
  name := r.name
  url := r.url
  branch := r.branch
  credentialsSecretRef := r.credentialsSecretRef
  hasPassword := r.password.isSome
  labels := r.labels
  createdAt := r.createdAt
  updatedAt := r.updatedAt

structure CreateRepoRequest where
  name : String
  url : String
  branch : Option String
  credentialsSecretRef : Option String
  password : Option String
  labels : Option Doc

def CreateRepoRequest.build (req : CreateRepoRequest) (id : String) (now : Timestamp) :
    Except ApiError RepoRegistration := do
  validateUrl req.url
  ifGiven validateSecretRef req.credentialsSecretRef
  return {
    id := id
    name := req.name
    url := req.url
    branch := req.branch
    credentialsSecretRef := req.credentialsSecretRef
    password := req.password
    labels := req.labels.getD (.obj [])
    createdAt := now
    updatedAt := now }

/-! ## The handlers -/

/-- What the handlers of one of the two APIs work on. -/
structure Api (ρ Req Create View : Type) [Row ρ] where
  endpoint : Endpoint ρ Req
  /-- What a registration is called in messages. -/
  noun : String
  nameOf : Create → String
  build : Create → String → Timestamp → Except ApiError ρ
  view : ρ → View
  /-- The connectivity check, where there is one. -/
  check : Option (String → ρ → ConnectivityCheckResponse)

def clustersApi (k8s : Apiserver) :
    Api ClusterRegistration UpdateClusterRequest CreateClusterRequest ClusterView where
  endpoint := .clusters
  noun := "cluster"
  nameOf := CreateClusterRequest.name
  build := CreateClusterRequest.build
  view := ClusterView.from
  check := some (checkCluster k8s)

def reposApi : Api RepoRegistration UpdateRepoRequest CreateRepoRequest RepoView where
  endpoint := .repos
  noun := "repo"
  nameOf := CreateRepoRequest.name
  build := CreateRepoRequest.build
  view := RepoView.from
  check := none

/-- Which statement of a section fails, if one does. -/
inductive Failing where
  | no
  | first (text : String)
  | second (text : String)

def Failing.atFirst : Failing → Option String
  | .first text => some text
  | .no | .second _ => none

def Failing.atSecond : Failing → Option String
  | .second text => some text
  | .no | .first _ => none

inductive Response (View : Type) where
  | created (v : View)
  | shown (v : View)
  | listed (vs : List View)
  | deleted
  | checked (r : ConnectivityCheckResponse)
  | refused (e : ApiError)

namespace Api

variable {ρ Req Create View : Type} [Row ρ] (api : Api ρ Req Create View)

def notFound (name : String) : ApiError :=
  .notFound (api.noun ++ " \u0060" ++ name ++ "\u0060 not found")

/-- `load_cluster` and `load_repo`. -/
def load (db : Database) (name : String) (failing : Failing) : Except ApiError ρ :=
  match failing.atFirst with
  | some text => .error (.internal (.sqlite text))
  | none =>
    match api.endpoint.get db name with
    | some r => .ok r
    | none => .error (api.notFound name)

/-- The locked section of `create_cluster` and `create_repo`: a row is looked for, then
inserted. -/
def insertNew (db : Database) (name : String) (r : ρ) (failing : Failing) :
    Database × Response View :=
  match failing.atFirst with
  | some text => (db, .refused (.internal (.sqlite text)))
  | none =>
    match api.endpoint.get db name with
    | some _ =>
      (db, .refused (.conflict (api.noun ++ " \u0060" ++ name ++ "\u0060 already exists")))
    | none =>
      match failing.atSecond with
      | some text => (db, .refused (.internal (.sqlite text)))
      | none =>
        match api.endpoint.insert db r with
        | .ok db' => (db', .created (api.view r))
        | .error v => (db, .refused (.internal (.constraint v)))

/-- `create_cluster` and `create_repo`. -/
def create (db : Database) (req : Create) (id : String) (now : Timestamp) (failing : Failing) :
    Database × Response View :=
  if trim (api.nameOf req).toList = [] then (db, .refused (.badRequest "name is required"))
  else
    match api.build req id now with
    | .error e => (db, .refused e)
    | .ok r => api.insertNew db (api.nameOf req) r failing

/-- The rows, `ORDER BY name`. -/
def list (db : Database) : List ρ :=
  (api.endpoint.table db).rows.mergeSort fun a b => decide (Row.name a ≤ Row.name b)

def listed (db : Database) (failing : Failing) : Response View :=
  match failing.atFirst with
  | some text => .refused (.internal (.sqlite text))
  | none => .listed ((api.list db).map api.view)

def delete (db : Database) (name : String) (failing : Failing) : Database × Response View :=
  match failing.atFirst with
  | some text => (db, .refused (.internal (.sqlite text)))
  | none =>
    match api.endpoint.delete db name with
    | (db', true) => (db', .deleted)
    | (db', false) => (db', .refused (api.notFound name))

end Api

namespace Registrations

variable {ρ Req Create View : Type} [Row ρ]

structure State (ρ Req : Type) where
  db : Database
  /-- The updates between their two sections. -/
  tasks : Nat → Option (PendingUpdate ρ Req)

/-- One locked section, or a check. -/
inductive Event (Req Create : Type) where
  | create (req : Create) (id : String) (now : Timestamp) (failing : Failing)
  | get (name : String) (failing : Failing)
  | list (failing : Failing)
  | load (task : Nat) (name : String) (req : Req) (failing : Failing)
  | replace (task : Nat) (now : Timestamp) (fault : Database.Fault)
  | delete (name : String) (failing : Failing)
  | check (name : String) (failing : Failing)

variable (api : Api ρ Req Create View)

/-- The state after a section, and the response it makes the handler send. -/
def serve (s : State ρ Req) : Event Req Create → State ρ Req × Option (Response View)
  | .create req id now failing =>
    ({ s with db := (api.create s.db req id now failing).1 },
      some (api.create s.db req id now failing).2)
  | .get name failing =>
    match api.load s.db name failing with
    | .ok r => (s, some (.shown (api.view r)))
    | .error e => (s, some (.refused e))
  | .list failing => (s, some (api.listed s.db failing))
  | .load task name req failing =>
    match api.load s.db name failing with
    | .ok r => ({ s with tasks := Function.update s.tasks task (some ⟨name, req, r⟩) }, none)
    | .error e => ({ s with tasks := Function.update s.tasks task none }, some (.refused e))
  | .replace task now fault =>
    match s.tasks task with
    | some p =>
      let (db, result) := Updates.replaceSection api.endpoint s.db p now fault
      (⟨db, Function.update s.tasks task none⟩,
        some (match result with
          | .ok r => .shown (api.view r)
          | .error e => .refused e))
    | none => (s, none)
  | .delete name failing =>
    ({ s with db := (api.delete s.db name failing).1 }, some (api.delete s.db name failing).2)
  | .check name failing =>
    match api.check, api.load s.db name failing with
    | some check, .ok r => (s, some (.checked (check name r)))
    | some _, .error e => (s, some (.refused e))
    | none, _ => (s, none)

end Registrations

/-! ## Both APIs over one database -/

namespace BothApis

structure State where
  db : Database
  clusterTasks : Nat → Option (PendingUpdate ClusterRegistration UpdateClusterRequest)
  repoTasks : Nat → Option (PendingUpdate RepoRegistration UpdateRepoRequest)

namespace State

def new (db : Database) : State := ⟨db, fun _ => none, fun _ => none⟩

def clusters (s : State) : Registrations.State ClusterRegistration UpdateClusterRequest :=
  ⟨s.db, s.clusterTasks⟩

def repos (s : State) : Registrations.State RepoRegistration UpdateRepoRequest :=
  ⟨s.db, s.repoTasks⟩

def withClusters (s : State) (t : Registrations.State ClusterRegistration UpdateClusterRequest) :
    State := ⟨t.db, t.tasks, s.repoTasks⟩

def withRepos (s : State) (t : Registrations.State RepoRegistration UpdateRepoRequest) : State :=
  ⟨t.db, s.clusterTasks, t.tasks⟩

end State

inductive Event where
  | cluster (e : Registrations.Event UpdateClusterRequest CreateClusterRequest)
  | repo (e : Registrations.Event UpdateRepoRequest CreateRepoRequest)

inductive Answer where
  | cluster (r : Response ClusterView)
  | repo (r : Response RepoView)

def serve (k8s : Apiserver) (s : State) : Event → State × Option Answer
  | .cluster e =>
    let (t, response) := Registrations.serve (clustersApi k8s) s.clusters e
    (s.withClusters t, response.map .cluster)
  | .repo e =>
    let (t, response) := Registrations.serve reposApi s.repos e
    (s.withRepos t, response.map .repo)

def step (k8s : Apiserver) (s : State) (e : Event) : State := (serve k8s s e).1

/-- The responses of a run, in order. -/
def responses (k8s : Apiserver) (s : State) : List Event → List Answer
  | [] => []
  | e :: es => (serve k8s s e).2.toList ++ responses k8s (step k8s s e) es

end BothApis

end SynchrotronCD.Db
