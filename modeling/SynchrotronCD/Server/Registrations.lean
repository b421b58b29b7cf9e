import SynchrotronCD.Server.Apps

/-!
# The cluster and repository APIs

What an update request does to a registration, with the checks it makes. Between
the two locked sections of an update nothing else is looked at.
-/

namespace SynchrotronCD.Db

open Lib

/-! ## Clusters -/

structure UpdateClusterRequest where
  authSource : Option String
  kubeconfigPath : Option String
  context : Option String
  bearerToken : Option String
  labels : Option Doc

def parseAuthSource : String → Except ApiError ClusterAuthSource
  | "kubeconfig" => .ok .kubeconfig
  | "in_cluster" => .ok .inCluster
  | "default" => .ok .default
  | other => .error (.badRequest ("unknown auth_source \u0060" ++ other
      ++ "\u0060 (expected kubeconfig, in_cluster, or default)"))

/-- The auth source of a request, or else the old one. -/
def givenAuthSource (old : ClusterAuthSource) : Option String → Except ApiError ClusterAuthSource
  | some s => parseAuthSource s
  | none => .ok old

def validateAuthFields (authSource : ClusterAuthSource) (kubeconfigPath : Option String) :
    Except ApiError Unit :=
  if authSource = .kubeconfig ∧ kubeconfigPath = none then
    .error (.badRequest "kubeconfig auth_source requires kubeconfig_path")
  else .ok ()

/-- The registration with the fields of the request in place of its own. -/
def UpdateClusterRequest.apply (req : UpdateClusterRequest) (reg : ClusterRegistration)
    (now : Timestamp) : Except ApiError ClusterRegistration := do
  let authSource ← givenAuthSource reg.authSource req.authSource
  let reg' : ClusterRegistration :=
    { reg with
      authSource := authSource
      kubeconfigPath := req.kubeconfigPath.or reg.kubeconfigPath
      context := req.context.or reg.context
      bearerToken := req.bearerToken.or reg.bearerToken
      labels := req.labels.getD reg.labels
      updatedAt := now }
  validateAuthFields reg'.authSource reg'.kubeconfigPath
  return reg'

/-! ## Repositories -/

structure UpdateRepoRequest where
  url : Option String
  branch : Option String
  credentialsSecretRef : Option String
  password : Option String
  labels : Option Doc

def gitUrlPrefixes : List String := ["https://", "http://", "git@", "ssh://", "file://"]

/-- Only obvious garbage is refused. -/
def validateUrl (url : String) : Except ApiError Unit :=
  if trim url.toList = [] then .error (.badRequest "url is required")
  else if gitUrlPrefixes.any fun p => p.toList.isPrefixOf url.toList then .ok ()
  else .error (.badRequest ("url \u0060" ++ url ++ "\u0060 does not look like a git URL "
    ++ "(expected https://, http://, ssh://, file://, or git@host:path)"))

def validateSecretRef (s : String) : Except ApiError Unit :=
  if trim s.toList = [] then
    .error (.badRequest "credentials_secret_ref must not be blank when present")
  else if ':' ∈ s.toList then .ok ()
  else .error (.badRequest ("credentials_secret_ref \u0060" ++ s ++ "\u0060 must be of the form "
    ++ "\u0060<store>:<path>\u0060 (e.g. \u0060vault://secret/git/org\u0060)"))

/-- A check of a field, if the field is given. -/
def ifGiven (check : String → Except ApiError Unit) : Option String → Except ApiError Unit
  | some s => check s
  | none => .ok ()

/-- The registration with the fields of the request in place of its own. -/
def UpdateRepoRequest.apply (req : UpdateRepoRequest) (reg : RepoRegistration) (now : Timestamp) :
    Except ApiError RepoRegistration := do
  ifGiven validateUrl req.url
  ifGiven validateSecretRef req.credentialsSecretRef
  return { reg with
    url := req.url.getD reg.url
    branch := req.branch.or reg.branch
    credentialsSecretRef := req.credentialsSecretRef.or reg.credentialsSecretRef
    password := req.password.or reg.password
    labels := req.labels.getD reg.labels
    updatedAt := now }

/-- An edit keeps the identifier and the name. -/
theorem UpdateClusterRequest.apply_ok {req : UpdateClusterRequest} {reg reg' : ClusterRegistration}
    {now : Timestamp} (h : req.apply reg now = .ok reg') : reg'.id = reg.id ∧ reg'.name = reg.name := by
  obtain ⟨authSource, -, h⟩ := bind_ok h
  obtain ⟨-, -, h⟩ := bind_ok h
  obtain rfl := Except.ok.inj h
  exact ⟨rfl, rfl⟩

theorem UpdateRepoRequest.apply_ok {req : UpdateRepoRequest} {reg reg' : RepoRegistration}
    {now : Timestamp} (h : req.apply reg now = .ok reg') : reg'.id = reg.id ∧ reg'.name = reg.name := by
  obtain ⟨-, -, h⟩ := bind_ok h
  obtain ⟨-, -, h⟩ := bind_ok h
  obtain rfl := Except.ok.inj h
  exact ⟨rfl, rfl⟩

end SynchrotronCD.Db
