import SynchrotronCD.Kube.LiveStore

/-!
# Server-side apply

The production write path: a desired manifest becomes a patch request against the
live cluster. Discovery says which resource a kind is served as and whether it is
namespaced, and with that where the request goes; the body is sent as it is.

The API server is a parameter: what discovery and the patch call answer.
-/

namespace SynchrotronCD.Kube

open Lib

structure ApplyOptions where
  /-- Take ownership of fields currently owned by other managers. -/
  force : Bool
deriving DecidableEq, Repr

def ApplyOptions.default : ApplyOptions := ⟨false⟩

inductive ApplyError where
  /-- Another field manager owns at least one field we'd write. -/
  | conflict (kind name reason : String) (managers : List String)
  | server (message : String)
  | transport (message : String)
  | decode (message : String)
deriving DecidableEq, Repr

/-- An error of the client library. -/
inductive KubeError where
  /-- A status response of the API server. -/
  | api (code : Nat) (reason message : String)
  | hyperError (text : String)
  | service (text : String)
  | httpError (text : String)
  | readEvents (text : String)
  | serdeError (text : String)
  | buildRequest (text : String)
  | other (text : String)
deriving DecidableEq, Repr

/-- What follows the first occurrence of `pat`. -/
def afterFirst (pat : List Char) : List Char → Option (List Char)
  | [] => if pat.isEmpty then some [] else none
  | c :: cs => if pat.isPrefixOf (c :: cs) then some ((c :: cs).drop pat.length) else afterFirst pat cs

/-- One round for every quoted name after a `conflict with`; a round uses up
characters, so as many rounds as characters are enough. -/
def conflictManagers : Nat → List Char → List String → List String
  | 0, _, out => out
  | rounds + 1, rest, out =>
    match afterFirst "conflict with".toList rest with
    | none => out
    | some rest =>
      match afterFirst ['"'] rest with
      | none => out
      | some afterOpen =>
        match afterFirst ['"'] afterOpen with
        | none => out
        | some afterClose =>
          let manager := String.ofList (afterOpen.takeWhile (· ≠ '"'))
          if manager ≠ "" ∧ manager ∉ out then conflictManagers rounds afterClose (out ++ [manager])
          else conflictManagers rounds afterClose out

/-- Best-effort parse of conflicting manager names from an SSA conflict message. -/
def parseConflictManagers (message : String) : List String :=
  conflictManagers message.toList.length message.toList []

def mapKubeErr (e : KubeError) (gvk : Gvk) (name : String) : ApplyError :=
  match e with
  | .api code reason message =>
    if code = 409 then .conflict gvk.kind name message (parseConflictManagers message)
    else .server (reason ++ ": " ++ message)
  | .hyperError text | .service text | .httpError text | .readEvents text => .transport text
  | .serdeError text | .buildRequest text => .decode text
  | .other text => .transport text

inductive Scope where
  | namespaced
  | cluster
deriving DecidableEq, Repr

/-- Where an object of that scope ends up, given the namespace it was sent to. -/
def Scope.place (scope : Scope) (ns : Option String) : Option String :=
  match scope with
  | .namespaced => ns
  | .cluster => none

structure ApiResource where
  group : String
  version : String
  apiVersion : String
  kind : String
  plural : String
deriving DecidableEq, Repr

/-- A server-side-apply patch. -/
structure PatchRequest where
  resource : ApiResource
  /-- The namespace of the request's path, if it has one. -/
  «namespace» : Option String
  name : String
  fieldManager : String
  force : Bool
  body : Value.Doc

/-- What the API server answers. -/
structure ApiServer where
  pinnedKind : Gvk → Except KubeError (ApiResource × Scope)
  patch : PatchRequest → Except KubeError DynamicObject

/-- SSA writer; discovery results are cached. -/
structure KubeSsaApplier where
  fieldManager : String
  cache : HashMap Gvk (ApiResource × Scope)

namespace KubeSsaApplier

def new (fieldManager : String) : KubeSsaApplier := ⟨fieldManager, ∅⟩

def resolve (k : KubeSsaApplier) (api : ApiServer) (gvk : Gvk) :
    KubeSsaApplier × Except ApplyError (ApiResource × Scope) :=
  match k.cache.lookup gvk with
  | some hit => (k, .ok hit)
  | none =>
    match api.pinnedKind gvk with
    | .error e => (k, .error (mapKubeErr e gvk ""))
    | .ok entry => ({ k with cache := k.cache.insert gvk entry }, .ok entry)

/-- The namespace of the request; a namespaced manifest has to name one. -/
def requestNamespace (scope : Scope) (m : Manifest) : Except ApplyError (Option String) :=
  match scope with
  | .cluster => .ok none
  | .namespaced =>
    match m.namespace with
    | some ns => .ok (some ns)
    | none => .error (.server
        (m.gvk.kind ++ " is namespaced but manifest " ++ m.name ++ " has no namespace"))

section

variable [FloatText]

/-- Everything up to the patch call. -/
def prepare (k : KubeSsaApplier) (api : ApiServer) (m : Manifest) (opts : ApplyOptions) :
    KubeSsaApplier × Except ApplyError (Scope × PatchRequest) :=
  match k.resolve api m.gvk with
  | (k, .error e) => (k, .error e)
  | (k, .ok (resource, scope)) =>
    match requestNamespace scope m with
    | .error e => (k, .error e)
    | .ok ns =>
      match m.body.value.toJson with
      | none => (k, .error (.decode "body→json: key must be a string"))
      | some body => (k, .ok (scope, ⟨resource, ns, m.name, k.fieldManager, opts.force, body⟩))

/-- Apply a manifest; on success, the manifest as the server now stores it. -/
def apply (k : KubeSsaApplier) (api : ApiServer) (m : Manifest) (opts : ApplyOptions) :
    KubeSsaApplier × Except ApplyError Manifest :=
  match k.prepare api m opts with
  | (k, .error e) => (k, .error e)
  | (k, .ok (_, req)) =>
    match api.patch req with
    | .error e => (k, .error (mapKubeErr e m.gvk m.name))
    | .ok patched =>
      match ManifestBody.fromValue (.ofJson patched.json) with
      | some body => (k, .ok { m with body := body })
      -- a body made from JSON can always be written as JSON
      | none => (k, .error (.decode "response→yaml: "))

/-- **What is sent.** A manifest that is accepted was sent under its own name, in its own
namespace if its kind is namespaced and in none otherwise, with its body unchanged. -/
theorem prepare_ok {k : KubeSsaApplier} {api : ApiServer} {m : Manifest} {opts : ApplyOptions}
    {scope : Scope} {req : PatchRequest} (h : (k.prepare api m opts).2 = .ok (scope, req)) :
    req.name = m.name ∧ m.body.value.toJson = some req.body
      ∧ req.namespace = scope.place m.namespace
      ∧ (scope = .namespaced → m.namespace ≠ none) := by
  unfold prepare at h
  split at h
  · simp at h
  · rename_i k' resource scope' _
    cases hns : requestNamespace scope' m with
    | error e => rw [hns] at h; simp at h
    | ok ns =>
    cases hb : m.body.value.toJson with
    | none => rw [hns, hb] at h; simp at h
    | some body =>
        rw [hns, hb] at h
        simp only [Except.ok.injEq, Prod.mk.injEq] at h
        obtain ⟨rfl, rfl⟩ := h
        refine ⟨rfl, rfl, ?_, ?_⟩
        · unfold requestNamespace at hns
          cases scope' with
          | cluster => exact (Except.ok.inj hns).symm
          | namespaced =>
              cases hm : m.namespace with
              | none => rw [hm] at hns; simp at hns
              | some n => rw [hm] at hns; exact (Except.ok.inj hns).symm
        · intro hx hm
          subst hx
          rw [requestNamespace, hm] at hns
          simp at hns

/-- An apply that succeeds has prepared a request and had it accepted. -/
theorem apply_ok {k : KubeSsaApplier} {api : ApiServer} {m : Manifest} {opts : ApplyOptions}
    {applied : Manifest} (h : (k.apply api m opts).2 = .ok applied) :
    ∃ scope req patched, (k.prepare api m opts).2 = .ok (scope, req)
      ∧ api.patch req = .ok patched := by
  unfold apply at h
  split at h
  · simp at h
  · rename_i scope req heq
    cases hp : api.patch req with
    | error e => rw [hp] at h; simp at h
    | ok patched => exact ⟨scope, req, patched, by rw [heq], hp⟩

end

end KubeSsaApplier

/-! ## Informer set-up -/

structure InformerConfig where
  «namespace» : Option String
  labelSelector : Option String
  fieldSelector : Option String
deriving DecidableEq, Repr

/-- Only resources we own: those that have the app label, whatever its value. -/
def informerConfig : InformerConfig := ⟨none, some DEFAULT_APP_LABEL, none⟩

/-- Whether a label selector that is a bare key selects an object. -/
def InformerConfig.selects (cfg : InformerConfig) (o : DynamicObject) : Bool :=
  match cfg.labelSelector with
  | none => true
  | some key => (o.labels.bind fun labels => labels.lookup key).isSome

/-- The store once an object has been stored in the cluster: the informer of its kind,
if there is one and it selects the object, reports it to its updater. -/
def afterStored [FloatText] (watched : List Gvk) (u : LiveStoreUpdater) (s : LiveStore)
    (o : DynamicObject) : LiveStore :=
  if o.gvk ∈ watched ∧ informerConfig.selects o = true then (u.handleEvent s (.applied o)).1 else s

end SynchrotronCD.Kube
