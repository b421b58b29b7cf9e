import SynchrotronCD.Kube.Apply
import SynchrotronCD.Kube.HookRunner
import SynchrotronCD.Lib.Runs
import SynchrotronCD.Reconcile.Wave

/-!
# Running a hook

Optional pre-delete, apply, poll, clean up. What the cluster holds under the hook's
name can change before every request, by the controllers and by deletions under
way; only an apply creates an object. An apply of what is there already leaves it
with its status.

So the outcome can be that of an earlier run: nothing but the pre-delete sees to it
that the object that is polled is a new one (`outcome_own_iff`).
-/

namespace SynchrotronCD.Kube

open Lib

/-! ## Delete policies -/

def SYNCHROTRON_HOOK_DELETE_POLICY_ANNOTATION : String := "synchrotron.io/hook-delete-policy"

def ARGOCD_HOOK_DELETE_POLICY_ANNOTATION : String := "argocd.argoproj.io/hook-delete-policy"

inductive HookDeletePolicy where
  | hookSucceeded
  | hookFailed
  | beforeHookCreation
deriving DecidableEq, Repr

def annotationOf (m : Manifest) (key : String) : Option String :=
  (((m.body.value.get "metadata").bind (·.get "annotations")).bind (·.get key)).bind Value.asStr

/-- What a token of the list stands for; one that is not known is ignored. -/
def HookDeletePolicy.ofToken : String → Option HookDeletePolicy
  | "HookSucceeded" => some .hookSucceeded
  | "HookFailed" => some .hookFailed
  | "BeforeHookCreation" => some .beforeHookCreation
  | _ => none

/-- Read the hook delete-policy set from a manifest's annotations. -/
def parseHookDeletePolicies (m : Manifest) : List HookDeletePolicy :=
  let raw := (annotationOf m SYNCHROTRON_HOOK_DELETE_POLICY_ANNOTATION).or
    (annotationOf m ARGOCD_HOOK_DELETE_POLICY_ANNOTATION)
  match raw with
  | none => []
  | some raw =>
    let tokens := ((raw.toList.splitOn ',').map trim).filter fun t => !t.isEmpty
    tokens.filterMap fun t => HookDeletePolicy.ofToken (String.ofList t)

/-! ## The cluster -/

/-- The object that has the hook's name. -/
structure HookObject where
  status : Value.Doc
  /-- Created by an apply of this call. -/
  ours : Bool

def HookObject.earlier (status : Value.Doc) : HookObject := ⟨status, false⟩

/-- What happens to an object between two requests. -/
inductive Change where
  | status (d : Value.Doc)
  | gone

def Change.on (object : Option HookObject) : Change → Option HookObject
  | .status d => object.map fun o => { o with status := d }
  | .gone => none

/-- `ErrorResponse` of an object that is not there. -/
def KubeError.isNotFound : KubeError → Bool
  | .api code reason _ => code == 404 || reason == "NotFound"
  | .hyperError _ | .service _ | .httpError _ | .readEvents _ | .serdeError _
  | .buildRequest _ | .other _ => false

/-- An error that does not say that there is no such object. -/
structure Fault where
  error : KubeError
  found : error.isNotFound = false

/-- A request: what has changed by the time it arrives, and how it fares. -/
structure Turn where
  before : List Change
  fault : Option Fault
  /-- The deadline has passed when the answer is there. -/
  late : Bool

def Turn.arrive (t : Turn) (object : Option HookObject) : Option HookObject :=
  t.before.foldl Change.on object

/-- The answer to a request for the object or to delete it. -/
def Turn.answer (t : Turn) (object : Option HookObject) : Except KubeError HookObject :=
  match t.fault, object with
  | some fault, _ => .error fault.error
  | none, some o => .ok o
  | none, none => .error (.api 404 "NotFound" "not found")

/-! ## The call -/

inductive HookError where
  | unsupportedKind (kind : String)
  | missingNamespace
  | timeout (after : Nat)
  | apply (e : ApplyError)
  | kube (e : KubeError)
deriving DecidableEq, Repr

structure HookRunOptions where
  deletePolicies : List HookDeletePolicy
  /-- Maximum time to wait for the hook to reach a terminal state. -/
  timeout : Nat
  pollInterval : Nat

/-- The namespace in which the hook is looked up. -/
def apiForManifest (k : KubeSsaApplier) (api : ApiServer) (m : Manifest) :
    KubeSsaApplier × Except HookError (Option String) :=
  match k.resolve api m.gvk with
  | (k, .error e) => (k, .error (.apply e))
  | (k, .ok (_, .namespaced)) =>
    match m.namespace with
    | some ns => (k, .ok (some ns))
    | none => (k, .error .missingNamespace)
  | (k, .ok (_, .cluster)) => (k, .ok none)

def deleteIfExists (answer : Except KubeError HookObject) : Except HookError Unit :=
  match answer with
  | .ok _ => .ok ()
  | .error (.api code reason message) =>
    if code = 404 then .ok () else .error (.kube (.api code reason message))
  | .error other => .error (.kube other)

/-- `Api::get_opt`. -/
def getOpt (answer : Except KubeError HookObject) : Except KubeError (Option HookObject) :=
  match answer with
  | .ok o => .ok (some o)
  | .error e => if e.isNotFound then .ok none else .error e

/-- What a call needs once the kind is known to be supported. -/
structure HookCall where
  gvk : Gvk
  name : String
  options : HookRunOptions
  /-- What the apply will send. -/
  request : Except ApplyError PatchRequest

/-- The next request, or what was returned. -/
inductive Point where
  | deleting
  | waiting
  | applying
  | polling
  | cleaning (outcome : HookOutcome)
  | returned (result : Except HookError HookOutcome)

structure HookRun where
  point : Point
  object : Option HookObject
  /-- The object whose status decided the outcome. -/
  decidedBy : Option HookObject

/-- Clean up after an outcome, if the policies say so. -/
def afterOutcome (c : HookCall) (outcome : HookOutcome) : Point :=
  let cleanup := match outcome with
    | .succeeded => HookDeletePolicy.hookSucceeded
    | .failed => .hookFailed
  if cleanup ∈ c.options.deletePolicies then .cleaning outcome else .returned (.ok outcome)

/-- One request of a call. -/
def HookRun.step (c : HookCall) (r : HookRun) (t : Turn) : HookRun :=
  let object := t.arrive r.object
  match r.point with
  | .deleting =>
    match deleteIfExists (t.answer object) with
    | .ok () => ⟨.waiting, object, none⟩
    | .error e => ⟨.returned (.error e), object, none⟩
  | .waiting =>
    match getOpt (t.answer object) with
    | .ok none => ⟨.applying, object, none⟩
    | .ok (some _) =>
      if t.late then ⟨.returned (.error (.timeout c.options.timeout)), object, none⟩
      else ⟨.waiting, object, none⟩
    | .error other => ⟨.returned (.error (.kube other)), object, none⟩
  | .applying =>
    match c.request, t.fault with
    | .error e, _ => ⟨.returned (.error (.apply e)), object, none⟩
    | .ok _, some fault =>
      ⟨.returned (.error (.apply (mapKubeErr fault.error c.gvk c.name))), object, none⟩
    | .ok _, none =>
      -- what is there is left as it is; otherwise it is created, without a status
      ⟨.polling, some (object.getD ⟨.null, true⟩), none⟩
  | .polling =>
    match t.answer object with
    | .error e => ⟨.returned (.error (.kube e)), object, none⟩
    | .ok o =>
      match classify c.gvk.kind o.status with
      | some outcome => ⟨afterOutcome c outcome, object, some o⟩
      | none =>
        if t.late then ⟨.returned (.error (.timeout c.options.timeout)), object, none⟩
        else ⟨.polling, object, none⟩
  -- a cleanup that fails is only logged
  | .cleaning outcome => ⟨.returned (.ok outcome), object, r.decidedBy⟩
  | .returned _ => { r with object := object }

/-- A call, where nothing is returned before the first request. -/
def HookCall.begin (c : HookCall) (object : Option HookObject) : HookRun :=
  if .beforeHookCreation ∈ c.options.deletePolicies then ⟨.deleting, object, none⟩
  else ⟨.applying, object, none⟩

section

variable [FloatText]

/-- What is checked before the first request. -/
def hookCall (k : KubeSsaApplier) (api : ApiServer) (m : Manifest) (opts : HookRunOptions) :
    Except HookError HookCall :=
  if m.gvk.kind ≠ "Job" ∧ m.gvk.kind ≠ "Pod" then .error (.unsupportedKind m.gvk.kind)
  else
    match apiForManifest k api m with
    | (_, .error e) => .error e
    | (k, .ok _) => .ok ⟨m.gvk, m.name, opts, (k.prepare api m .default).2.map Prod.snd⟩

/-- Run one hook, as far as the answers go. -/
def runHook (k : KubeSsaApplier) (api : ApiServer) (m : Manifest) (opts : HookRunOptions)
    (object : Option HookObject) (turns : List Turn) : HookRun :=
  match hookCall k api m opts with
  | .error e => ⟨.returned (.error e), object, none⟩
  | .ok c => exec (HookRun.step c) (c.begin object) turns

end

/-! ## Whose status it is -/

/-- What stands under the name, if anything, was created by this call. -/
def Fresh (object : Option HookObject) : Prop := ∀ o, object = some o → o.ours = true

theorem fresh_none : Fresh none := fun _ h => absurd h (by simp)

theorem Fresh.on {object : Option HookObject} (h : Fresh object) (c : Change) :
    Fresh (c.on object) := by
  cases c with
  | gone => exact fresh_none
  | status d =>
      intro o ho
      obtain ⟨o', ho', rfl⟩ := Option.map_eq_some_iff.mp ho
      exact h o' ho'

theorem Fresh.arrive {object : Option HookObject} (h : Fresh object) (t : Turn) :
    Fresh (t.arrive object) := by
  unfold Turn.arrive
  induction t.before generalizing object with
  | nil => exact h
  | cons c cs ih => exact ih (h.on c)

theorem Fresh.getD {object : Option HookObject} (h : Fresh object) (status : Value.Doc) :
    Fresh (some (object.getD ⟨status, true⟩)) := by
  cases object with
  | none => intro o ho; rw [← Option.some.inj ho]; rfl
  | some o => exact h

/-- An answer with an object is the object. -/
theorem Turn.answer_ok {t : Turn} {object : Option HookObject} {o : HookObject}
    (h : t.answer object = .ok o) : object = some o := by
  unfold Turn.answer at h
  split at h
  · cases h
  · rw [Except.ok.inj h]
  · cases h

/-- Nothing is found only where there is nothing: a fault is no such answer. -/
theorem getOpt_none {t : Turn} {object : Option HookObject}
    (h : getOpt (t.answer object) = .ok none) : object = none := by
  unfold Turn.answer at h
  split at h
  · rename_i fault _
    unfold getOpt at h
    dsimp only at h
    rw [fault.found] at h
    simp at h
  · simp [getOpt] at h
  · rfl

/-- The decision of a run: the outcome that is, or is about to be, returned. -/
def Point.outcome : Point → Option HookOutcome
  | .cleaning outcome => some outcome
  | .returned (.ok outcome) => some outcome
  | .deleting | .waiting | .applying | .polling | .returned (.error _) => none

theorem outcome_afterOutcome (c : HookCall) (outcome : HookOutcome) :
    (afterOutcome c outcome).outcome = some outcome := by
  unfold afterOutcome
  cases outcome with
  | succeeded => dsimp only; split <;> rfl
  | failed => dsimp only; split <;> rfl

/-- The manifest is applied and polled. -/
def Point.Working (p : Point) : Prop := p = .applying ∨ p = .polling

/-- What is applied to or polled is nothing but what this call created, and the outcome is
that object's. -/
structure OwnsItsObject (r : HookRun) : Prop where
  object : r.point.Working → Fresh r.object
  decidedBy : ∀ outcome, r.point.outcome = some outcome → ∃ o, r.decidedBy = some o ∧ o.ours = true

/-- Where nothing has been decided, only the object matters. -/
theorem OwnsItsObject.of_undecided {point : Point} {object : Option HookObject}
    (hpoint : point.outcome = none) (hobject : point.Working → Fresh object) :
    OwnsItsObject ⟨point, object, none⟩ :=
  ⟨hobject, fun outcome h => by rw [hpoint] at h; cases h⟩

theorem not_working_deleting : ¬ Point.Working .deleting := by simp [Point.Working]

theorem not_working_waiting : ¬ Point.Working .waiting := by simp [Point.Working]

theorem not_working_returned (result : Except HookError HookOutcome) :
    ¬ Point.Working (.returned result) := by simp [Point.Working]

theorem not_working_of_outcome {p : Point} {outcome : HookOutcome}
    (h : p.outcome = some outcome) : ¬ p.Working := by
  rintro (rfl | rfl) <;> cases h

theorem HookCall.begin_owns {c : HookCall} {object : Option HookObject}
    (h : .beforeHookCreation ∈ c.options.deletePolicies ∨ object = none) :
    OwnsItsObject (c.begin object) := by
  unfold HookCall.begin
  by_cases hpolicy : .beforeHookCreation ∈ c.options.deletePolicies
  · rw [if_pos hpolicy]
    exact .of_undecided rfl fun hw => absurd hw not_working_deleting
  · rw [if_neg hpolicy, h.resolve_left hpolicy]
    exact .of_undecided rfl fun _ => fresh_none

theorem HookRun.step_owns (c : HookCall) {r : HookRun} (t : Turn) (h : OwnsItsObject r) :
    OwnsItsObject (r.step c t) := by
  have herr : ∀ e object, OwnsItsObject ⟨.returned (.error e), object, none⟩ := fun e object =>
    .of_undecided rfl fun hw => absurd hw (not_working_returned _)
  obtain ⟨point, object, decidedBy⟩ := r
  unfold HookRun.step
  cases point with
  | deleting =>
      dsimp only
      split
      · exact .of_undecided rfl fun hw => absurd hw not_working_waiting
      · exact herr _ _
  | waiting =>
      dsimp only
      split
      · -- the wait ends with nothing there, and so the apply will create the object
        rename_i hnone
        rw [getOpt_none hnone]
        exact .of_undecided rfl fun _ => fresh_none
      · split
        · exact herr _ _
        · exact .of_undecided rfl fun hw => absurd hw not_working_waiting
      · exact herr _ _
  | applying =>
      have hnow : Fresh (t.arrive object) := (h.object (.inl rfl)).arrive t
      dsimp only
      split
      · exact herr _ _
      · exact herr _ _
      · exact .of_undecided rfl fun _ => hnow.getD _
  | polling =>
      have hnow : Fresh (t.arrive object) := (h.object (.inr rfl)).arrive t
      dsimp only
      split
      · exact herr _ _
      · rename_i o ho
        split
        · rename_i outcome _
          -- the outcome is read off the object of this run, which is fresh
          have hdone := outcome_afterOutcome c outcome
          exact ⟨fun hw => absurd hw (not_working_of_outcome hdone),
            fun _ _ => ⟨o, rfl, hnow o (Turn.answer_ok ho)⟩⟩
        · split
          · exact herr _ _
          · exact .of_undecided rfl fun _ => hnow
  | cleaning outcome =>
      exact ⟨fun hw => absurd hw (not_working_returned _), fun _ _ => h.decidedBy outcome rfl⟩
  | returned result =>
      exact ⟨fun hw => absurd hw (not_working_returned _), h.decidedBy⟩

/-! ## When an apply is sent -/

theorem resolve_again {k k' : KubeSsaApplier} {api : ApiServer} {gvk : Gvk}
    {entry : ApiResource × Scope} (h : k.resolve api gvk = (k', .ok entry)) :
    k'.resolve api gvk = (k', .ok entry) := by
  have hcached : k'.cache.lookup gvk = some entry := by
    unfold KubeSsaApplier.resolve at h
    cases hit : k.cache.lookup gvk with
    | some found =>
        rw [hit] at h
        obtain ⟨rfl, hfound⟩ := Prod.mk.inj h
        rw [hit, Except.ok.inj hfound]
    | none =>
        rw [hit] at h
        cases hpinned : api.pinnedKind gvk with
        | error e => rw [hpinned] at h; simp at h
        | ok found =>
            rw [hpinned] at h
            obtain ⟨rfl, hfound⟩ := Prod.mk.inj h
            rw [AList.lookup_insert, Except.ok.inj hfound]
  unfold KubeSsaApplier.resolve
  rw [hcached]

section

variable [FloatText]

/-- The manifest is of a supported kind, has a place in the cluster and a JSON body. -/
def Sends (k : KubeSsaApplier) (api : ApiServer) (m : Manifest) : Prop :=
  (m.gvk.kind = "Job" ∨ m.gvk.kind = "Pod") ∧
    (∃ resource scope, (k.resolve api m.gvk).2 = .ok (resource, scope) ∧
      (scope = .namespaced → m.namespace ≠ none)) ∧
    ∃ body, m.body.value.toJson = some body

variable {k : KubeSsaApplier} {api : ApiServer} {m : Manifest} {opts : HookRunOptions}

/-- A call that comes as far as its first request has found the manifest's place. -/
theorem hookCall_ok {c : HookCall} (h : hookCall k api m opts = .ok c) :
    (m.gvk.kind = "Job" ∨ m.gvk.kind = "Pod") ∧ c.options = opts ∧ c.gvk = m.gvk ∧
      ∃ k' resource scope, k.resolve api m.gvk = (k', .ok (resource, scope)) ∧
        (scope = .namespaced → m.namespace ≠ none) ∧
        c.request = (k'.prepare api m .default).2.map Prod.snd := by
  unfold hookCall at h
  split at h
  · cases h
  · rename_i hkind
    have hsupported : m.gvk.kind = "Job" ∨ m.gvk.kind = "Pod" := by
      by_contra hno
      exact hkind (not_or.mp hno)
    unfold apiForManifest at h
    rcases hr : k.resolve api m.gvk with ⟨k', e | ⟨resource, scope⟩⟩
    · rw [hr] at h; cases h
    · rw [hr] at h
      cases scope with
      | cluster =>
          obtain rfl := Except.ok.inj h
          exact ⟨hsupported, rfl, rfl, k', resource, .cluster, rfl, by simp, rfl⟩
      | namespaced =>
          cases hns : m.namespace with
          | none => rw [hns] at h; cases h
          | some ns =>
              rw [hns] at h
              obtain rfl := Except.ok.inj h
              exact ⟨hsupported, rfl, rfl, k', resource, .namespaced, rfl, by simp, rfl⟩

theorem sends_of_request {c : HookCall} {req : PatchRequest} (h : hookCall k api m opts = .ok c)
    (hreq : c.request = .ok req) : Sends k api m := by
  obtain ⟨hkind, -, -, k', resource, scope, hr, hns, hprep⟩ := hookCall_ok h
  refine ⟨hkind, ⟨resource, scope, by rw [hr], hns⟩, ?_⟩
  rw [hprep] at hreq
  cases hp : (k'.prepare api m .default).2 with
  | error e => rw [hp] at hreq; cases hreq
  | ok sent =>
      obtain ⟨scope', req'⟩ := sent
      exact ⟨_, (KubeSsaApplier.prepare_ok hp).2.1⟩

omit [FloatText] in
theorem apiForManifest_of_place {k' : KubeSsaApplier} {resource : ApiResource} {scope : Scope}
    (hr : k.resolve api m.gvk = (k', .ok (resource, scope)))
    (hns : scope = .namespaced → m.namespace ≠ none) :
    ∃ ns, apiForManifest k api m = (k', .ok ns) := by
  unfold apiForManifest
  rw [hr]
  cases scope with
  | cluster => exact ⟨none, rfl⟩
  | namespaced =>
      obtain ⟨ns, hm⟩ := Option.ne_none_iff_exists'.mp (hns rfl)
      exact ⟨some ns, by rw [hm]⟩

theorem prepare_of_place {resource : ApiResource} {scope : Scope} {body : Value.Doc}
    (hr : k.resolve api m.gvk = (k, .ok (resource, scope)))
    (hns : scope = .namespaced → m.namespace ≠ none) (hbody : m.body.value.toJson = some body) :
    ∃ req, (k.prepare api m .default).2 = .ok (scope, req) := by
  unfold KubeSsaApplier.prepare KubeSsaApplier.requestNamespace
  rw [hr, hbody]
  cases scope with
  | cluster => exact ⟨_, rfl⟩
  | namespaced =>
      obtain ⟨ns, hm⟩ := Option.ne_none_iff_exists'.mp (hns rfl)
      rw [hm]
      exact ⟨_, rfl⟩

theorem request_of_sends (h : Sends k api m) (opts : HookRunOptions) :
    ∃ c req, hookCall k api m opts = .ok c ∧ c.request = .ok req := by
  obtain ⟨hkind, ⟨resource, scope, hr, hns⟩, body, hbody⟩ := h
  obtain ⟨k', hr⟩ : ∃ k', k.resolve api m.gvk = (k', .ok (resource, scope)) := ⟨_, Prod.ext rfl hr⟩
  obtain ⟨ns, hplace⟩ := apiForManifest_of_place hr hns
  obtain ⟨req, hreq⟩ := prepare_of_place (resolve_again hr) hns hbody
  have hsupported : ¬ (m.gvk.kind ≠ "Job" ∧ m.gvk.kind ≠ "Pod") := fun hno =>
    hkind.elim hno.1 hno.2
  refine ⟨⟨m.gvk, m.name, opts, (k'.prepare api m .default).2.map Prod.snd⟩, req, ?_, ?_⟩
  · unfold hookCall
    rw [if_neg hsupported, hplace]
  · rw [hreq]
    rfl

end

/-! ## Runs -/

/-- No apply has been sent, and nothing has been decided. -/
def Point.Idle (p : Point) : Prop := p ≠ .polling ∧ p.outcome = none

/-- Without a request to send, a call ends at the latest where it would be sent. -/
theorem HookRun.step_idle {c : HookCall} {r : HookRun} (t : Turn) {e : ApplyError}
    (hreq : c.request = .error e) (h : r.point.Idle) : (r.step c t).point.Idle := by
  obtain ⟨point, object, decidedBy⟩ := r
  unfold HookRun.step
  cases point with
  | deleting => dsimp only; split <;> exact ⟨by simp, rfl⟩
  | waiting =>
      dsimp only
      split
      · exact ⟨by simp, rfl⟩
      · split <;> exact ⟨by simp, rfl⟩
      · exact ⟨by simp, rfl⟩
  | applying => dsimp only; rw [hreq]; exact ⟨by simp, rfl⟩
  | polling => exact absurd rfl h.1
  | cleaning outcome => exact absurd h.2 (by simp [Point.outcome])
  | returned result => exact h

theorem HookCall.begin_idle (c : HookCall) (object : Option HookObject) :
    (c.begin object).point.Idle := by
  unfold HookCall.begin
  split <;> exact ⟨by simp, rfl⟩

/-- A status that is terminal for a Job and for a Pod. -/
def doneStatus : Value.Doc := .obj [("succeeded", .num (.posInt 1)), ("phase", .str "Succeeded")]

/-- An apply that succeeds, a poll that finds the object done, and a cleanup. -/
def staleTurns : List Turn :=
  [⟨[], none, false⟩, ⟨[.status doneStatus], none, false⟩, ⟨[], none, false⟩]

/-- **Without the pre-delete an earlier object is polled as if it were new.** -/
theorem exec_staleTurns {c : HookCall} {req : PatchRequest} (status : Value.Doc)
    (hreq : c.request = .ok req) (hkind : c.gvk.kind = "Job" ∨ c.gvk.kind = "Pod")
    (hpolicy : .beforeHookCreation ∉ c.options.deletePolicies) :
    ∃ r, exec (HookRun.step c) (c.begin (some (.earlier status))) staleTurns = r ∧
      r.point = .returned (.ok .succeeded) ∧ r.decidedBy = some (.earlier doneStatus) := by
  have hclass : classify c.gvk.kind doneStatus = some .succeeded := by
    rcases hkind with h | h
    · rw [h]; rfl
    · rw [h]; rfl
  have hbegin : c.begin (some (.earlier status)) = ⟨.applying, some (.earlier status), none⟩ := by
    unfold HookCall.begin
    rw [if_neg hpolicy]
  have happly : HookRun.step c ⟨.applying, some (.earlier status), none⟩ ⟨[], none, false⟩
      = ⟨.polling, some (.earlier status), none⟩ := by
    unfold HookRun.step
    dsimp only
    rw [hreq]
    rfl
  have hpoll : HookRun.step c ⟨.polling, some (.earlier status), none⟩
      ⟨[.status doneStatus], none, false⟩
      = ⟨afterOutcome c .succeeded, some (.earlier doneStatus), some (.earlier doneStatus)⟩ := by
    show (match classify c.gvk.kind doneStatus with | some outcome => _ | none => _) = _
    rw [hclass]
    rfl
  refine ⟨_, rfl, ?_⟩
  rw [staleTurns, exec_cons, exec_cons, exec_cons, exec_nil, hbegin, happly, hpoll]
  unfold afterOutcome
  dsimp only
  split <;> exact ⟨rfl, rfl⟩

section

variable [FloatText]

/-- What a call makes of an object of the hook's name with this status, or of none. -/
def runOn (k : KubeSsaApplier) (api : ApiServer) (m : Manifest) (timeout pollInterval : Nat)
    (earlier : Option Value.Doc) (turns : List Turn) : HookRun :=
  runHook k api m ⟨parseHookDeletePolicies m, timeout, pollInterval⟩ (earlier.map .earlier) turns

/-- However the answers and the changes between the requests fall, the status that decides
the outcome is that of an object the call created. -/
def OutcomeOwn (k : KubeSsaApplier) (api : ApiServer) (m : Manifest) (timeout pollInterval : Nat)
    (earlier : Option Value.Doc) : Prop :=
  ∀ turns outcome,
    (runOn k api m timeout pollInterval earlier turns).point = .returned (.ok outcome) →
    ∃ o, (runOn k api m timeout pollInterval earlier turns).decidedBy = some o ∧ o.ours = true

/--
**A hook's outcome is its own exactly with the pre-delete, or where nothing was there.**

The manifest asks for `BeforeHookCreation`, or no object had its name when the call
began, or the call has nothing to apply.
-/
theorem outcome_own_iff (k : KubeSsaApplier) (api : ApiServer) (m : Manifest)
    (timeout pollInterval : Nat) (earlier : Option Value.Doc) :
    OutcomeOwn k api m timeout pollInterval earlier ↔
      .beforeHookCreation ∈ parseHookDeletePolicies m ∨ earlier = none ∨ ¬ Sends k api m := by
  unfold OutcomeOwn runOn runHook
  constructor
  · intro h
    by_contra hno
    obtain ⟨hpolicy, hno⟩ := not_or.mp hno
    obtain ⟨hearlier, hsends⟩ := not_or.mp hno
    obtain ⟨status, rfl⟩ := Option.ne_none_iff_exists'.mp hearlier
    obtain ⟨c, req, hc, hreq⟩ := request_of_sends (not_not.mp hsends)
      ⟨parseHookDeletePolicies m, timeout, pollInterval⟩
    obtain ⟨hkind, hopts, hgvk, -⟩ := hookCall_ok hc
    rw [hc] at h
    -- the object that was there already has its verdict
    obtain ⟨r, hr, hpoint, hby⟩ := exec_staleTurns status hreq (hgvk ▸ hkind) (by rw [hopts]; exact hpolicy)
    have hown := h staleTurns .succeeded
    simp only [Option.map_some, hr] at hown
    obtain ⟨o, ho, hours⟩ := hown hpoint
    rw [hby] at ho
    rw [← Option.some.inj ho] at hours
    exact Bool.false_ne_true hours
  · intro h turns outcome hpoint
    cases hc : hookCall k api m ⟨parseHookDeletePolicies m, timeout, pollInterval⟩ with
    | error e => rw [hc] at hpoint; cases hpoint
    | ok c =>
        rw [hc] at hpoint
        obtain ⟨-, hopts, -, -⟩ := hookCall_ok hc
        dsimp only at hpoint ⊢
        cases hreq : c.request with
        | error e =>
            have hidle := exec_inv (P := fun r : HookRun => r.point.Idle)
              (fun r t hr => HookRun.step_idle t hreq hr) (c.begin_idle (earlier.map .earlier)) turns
            rw [hpoint] at hidle
            exact absurd hidle.2 (by simp [Point.outcome])
        | ok req =>
            have hbegin : .beforeHookCreation ∈ c.options.deletePolicies ∨
                earlier.map HookObject.earlier = none := by
              rw [hopts, Option.map_eq_none_iff]
              exact h.imp id (Or.resolve_right · (not_not.mpr (sends_of_request hc hreq)))
            have howns := exec_inv (P := OwnsItsObject) (fun r t hr => HookRun.step_owns c t hr)
              (HookCall.begin_owns hbegin) turns
            exact howns.decidedBy outcome (by rw [hpoint]; rfl)

end

/-! ## A migration that does not run -/

/-- A Job to run before a sync; its annotations name no delete policy. -/
def migration : Manifest :=
  let v : Value := .mapping [(.string "apiVersion", .string "batch/v1"), (.string "kind", .string "Job"),
    (.string "metadata", .mapping [(.string "name", .string "migrate"),
      (.string "namespace", .string "app"),
      (.string "annotations", .mapping [(.string "synchrotron.io/hook", .string "PreSync")])])]
  let bytes := (@ManifestBody.toVec .ofBits v).getD []
  ⟨⟨"batch", "v1", "Job"⟩, "migrate", some "app", ⟨bytes, fnv1a64 bytes, v, rfl⟩⟩

/-- A server that knows the kind. -/
def jobServer : ApiServer where
  pinnedKind _ := .ok (⟨"batch", "v1", "batch/v1", "Job", "jobs"⟩, .namespaced)
  patch _ := .error (.other "")

/-- The Job of the last sync is still there, and done: the call reports its success. -/
theorem migration_not_run :
    ¬ @OutcomeOwn .ofBits (.new "synchrotron") jobServer migration 300 1 (some doneStatus) := by
  intro h
  obtain ⟨o, ho, hours⟩ := h [⟨[], none, false⟩, ⟨[], none, false⟩] .succeeded rfl
  -- the second request finds the status that was there before the call
  have hby : some (HookObject.earlier doneStatus) = some o := ho
  rw [← Option.some.inj hby] at hours
  exact Bool.false_ne_true hours

end SynchrotronCD.Kube
