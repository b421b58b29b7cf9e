import SynchrotronCD.Git.Webhooks
import SynchrotronCD.Reconcile.WorkerPoolProof
import SynchrotronCD.Server.PipelineProof

/-!
# Webhooks and the applications they concern

The webhook routes: verify, parse, and publish `WebhookTriggered` for a push. The
event trigger resolves the repository of the event against the stored applications
and enqueues each.

The route names the repository by its id, the resolver looks for its URL. So a
webhook reaches its applications exactly if the id of the URL is the URL itself
(`webhook_reaches_iff`), which is no URL's case.
-/

namespace SynchrotronCD.Db.Webhooks

open Lib Git WorkerPool

/-! ## The routes -/

/-- Per-provider shared secrets. -/
structure WebhookSecrets where
  github : Option Bytes
  gitlab : Option Bytes
  bitbucket : Option Bytes

structure Response where
  status : Nat
  text : String
deriving DecidableEq, Repr

/-- A header as it is received: its value may be no text. -/
abbrev RawHeaders := List (String × Bytes)

/-- `HeaderValue::to_str`: visible ASCII and tabs. -/
def toStr (value : Bytes) : Option String :=
  if value.all fun b => (32 ≤ b && b < 127) || b == 9 then
    some (String.ofList (value.map fun b => Char.ofNat b.toNat))
  else none

def headersPairs (headers : RawHeaders) : Headers :=
  headers.filterMap fun h => (toStr h.2).map fun v => (h.1, v)

section

variable [Sha256]

/-- Publish what a push is about; `registered` are the repositories of the orchestrator, whose
pollers are woken. -/
def dispatch (registered : RepoId → Bool) (parsed : ParsedWebhook) (source : WebhookSource) :
    Response × Option SystemEvent :=
  if ¬ parsed.isPush then (⟨202, "ignored non-push event"⟩, none)
  else
    let repoId := RepoId.fromUrl parsed.repoUrl
    if registered repoId then
      (⟨202, "trigger enqueued"⟩, some (.webhookTriggered repoId source))
    else (⟨202, "no matching repo; ignored"⟩, some (.webhookTriggered repoId source))

/-- What the three routes have in common. -/
def handler (registered : RepoId → Bool) (secret : Option Bytes) (unconfigured : String)
    (verify : Bytes → Except GitError Unit) (parse : Except GitError ParsedWebhook)
    (source : WebhookSource) : Response × Option SystemEvent :=
  match secret with
  | none => (⟨503, unconfigured⟩, none)
  | some secret =>
    match verify secret with
    | .error _ => (⟨401, "signature verification failed"⟩, none)
    | .ok () =>
      match parse with
      | .ok parsed => dispatch registered parsed source
      | .error _ => (⟨400, "malformed payload"⟩, none)

/-- What is verified and parsed is dispatched. -/
theorem handler_ok {registered : RepoId → Bool} {secret : Option Bytes} {s : Bytes}
    {unconfigured : String} {verify : Bytes → Except GitError Unit}
    {parse : Except GitError ParsedWebhook} {parsed : ParsedWebhook} {source : WebhookSource}
    (hsecret : secret = some s) (hverify : verify s = .ok ()) (hparse : parse = .ok parsed) :
    handler registered secret unconfigured verify parse source
      = dispatch registered parsed source := by
  unfold handler
  rw [hsecret, hparse]
  dsimp only
  rw [hverify]

variable [Hmac] [SerdeJson] (secrets : WebhookSecrets) (registered : RepoId → Bool)
  (headers : RawHeaders) (body : Bytes)

def githubHandler : Response × Option SystemEvent :=
  handler registered secrets.github "github webhook secret not configured"
    (fun secret => verifyGithub secret (headersPairs headers) body)
    (parseGithub (headersPairs headers) body) .gitHub

def gitlabHandler : Response × Option SystemEvent :=
  handler registered secrets.gitlab "gitlab webhook secret not configured"
    (fun secret => verifyGitlab secret (headersPairs headers))
    (parseGitlab (headersPairs headers) body) .gitLab

def bitbucketHandler : Response × Option SystemEvent :=
  handler registered secrets.bitbucket "bitbucket webhook secret not configured"
    (fun secret => verifyBitbucket secret (headersPairs headers) body)
    (parseBitbucket (headersPairs headers) body) .bitbucket

/-- The route of a forge. -/
def route : WebhookSource → Response × Option SystemEvent
  | .gitHub => githubHandler secrets registered headers body
  | .gitLab => gitlabHandler secrets registered headers body
  | .bitbucket => bitbucketHandler secrets registered headers body

/-- A request that a route accepts as coming from its forge, and what is read from it. -/
def Verified (parsed : ParsedWebhook) : WebhookSource → Prop
  | .gitHub => ∃ secret, secrets.github = some secret
      ∧ verifyGithub secret (headersPairs headers) body = .ok ()
      ∧ parseGithub (headersPairs headers) body = .ok parsed
  | .gitLab => ∃ secret, secrets.gitlab = some secret
      ∧ verifyGitlab secret (headersPairs headers) = .ok ()
      ∧ parseGitlab (headersPairs headers) body = .ok parsed
  | .bitbucket => ∃ secret, secrets.bitbucket = some secret
      ∧ verifyBitbucket secret (headersPairs headers) body = .ok ()
      ∧ parseBitbucket (headersPairs headers) body = .ok parsed

end

/-! ## The trigger -/

/-- `DbAppResolver`: the applications whose repository is the given text. -/
def appsForRepo (db : Database) : AppResolver := fun repo =>
  ((Pipeline.State.listApplications db).filter fun a => a.source.repoUrl = repo).map Application.name

/-- The application is stored and refers to the repository. -/
def References (db : Database) (url : String) (app : AppName) : Prop :=
  ∃ a, db.getApplication app = some a ∧ a.source.repoUrl = url

/-- One after the other, as the trigger does it. -/
def enqueueAll (cfg : PoolConfig) (now : Nat) (apps : List AppName) (p : Pool) : Pool :=
  apps.foldl (fun p app => p.enqueue cfg app .webhook now true) p

/-- **The trigger enqueues exactly the applications of a repository**, each once, whatever the pool
does with them. -/
def EnqueuesExactly (db : Database) (url : String) (e : SystemEvent) : Prop :=
  ∃ apps : List AppName, apps.Nodup ∧ (∀ app, app ∈ apps ↔ References db url app)
    ∧ ∀ cfg now p, SynchrotronCD.dispatch cfg (appsForRepo db) now p e = enqueueAll cfg now apps p

theorem mem_appsForRepo {db : Database} {repo : String} {app : AppName} :
    app ∈ appsForRepo db repo ↔ References db repo app := by
  unfold appsForRepo References
  rw [List.mem_map]
  refine ⟨fun h => ?_, fun h => ?_⟩
  · obtain ⟨a, ha, rfl⟩ := h
    obtain ⟨hmem, hurl⟩ := List.mem_filter.mp ha
    exact ⟨a, Pipeline.mem_listApplications.mp hmem, of_decide_eq_true hurl⟩
  · obtain ⟨a, ha, hurl⟩ := h
    have hname : a.name = app := Table.find_name ha
    refine ⟨a, List.mem_filter.mpr ⟨Pipeline.mem_listApplications.mpr ?_, decide_eq_true hurl⟩, hname⟩
    rw [hname]
    exact ha

theorem nodup_appsForRepo (db : Database) (repo : String) : (appsForRepo db repo).Nodup := by
  unfold appsForRepo Pipeline.State.listApplications
  refine List.Nodup.sublist (List.Sublist.map _ List.filter_sublist) ?_
  exact ((List.perm_insertionSort _ _).map _).nodup_iff.mpr db.applications.names

/-- An open pool has an entry for each app it was asked to enqueue. -/
theorem mem_apps_enqueueAll (cfg : PoolConfig) (now : Nat) (apps : List AppName) (a : AppName) :
    ∀ {p : Pool}, p.state.shutdown = false →
      (a ∈ (enqueueAll cfg now apps p).state.apps ↔ a ∈ apps ∨ a ∈ p.state.apps) := by
  induction apps with
  | nil => intro p _; exact ⟨Or.inr, fun h => h.resolve_left (by simp)⟩
  | cons app apps ih =>
      intro p hopen
      have hframe := enqueue_frame cfg p app .webhook now true
      show a ∈ (enqueueAll cfg now apps (p.enqueue cfg app .webhook now true)).state.apps ↔ _
      rw [ih (hframe.2.2.1.trans hopen), mem_apps_enqueueCoalesce cfg hopen, List.mem_cons]
      exact or_left_comm.trans or_assoc.symm

/-- The trigger asks the pool for the applications whose repository is the text in the event. -/
theorem enqueuesExactly_iff {db : Database} {url repo : String} {source : WebhookSource} :
    EnqueuesExactly db url (.webhookTriggered repo source)
      ↔ ∀ app, References db repo app ↔ References db url app := by
  refine ⟨fun h app => ?_, fun h => ?_⟩
  · obtain ⟨apps, -, hmem, henq⟩ := h
    -- what a new pool has entries for is what it was asked for
    have hpool : enqueueAll ⟨1, 1⟩ 0 (appsForRepo db repo) Pool.new
        = enqueueAll ⟨1, 1⟩ 0 apps Pool.new := henq ⟨1, 1⟩ 0 Pool.new
    have hnew : ∀ l : List AppName, app ∈ (enqueueAll ⟨1, 1⟩ 0 l Pool.new).state.apps ↔ app ∈ l := by
      intro l
      rw [mem_apps_enqueueAll ⟨1, 1⟩ 0 l app rfl]
      exact ⟨fun h => h.resolve_right (by simp [Pool.new, State.new]), Or.inl⟩
    rw [← mem_appsForRepo, ← hmem, ← hnew, ← hnew, hpool]
  · exact ⟨appsForRepo db repo, nodup_appsForRepo db repo, fun app => mem_appsForRepo.trans (h app),
      fun _ _ _ => rfl⟩

section

variable [Sha256] [Hmac] [SerdeJson] {secrets : WebhookSecrets} {registered : RepoId → Bool}
  {headers : RawHeaders} {body : Bytes} {parsed : ParsedWebhook} {source : WebhookSource}

/-- **What a verified push publishes**, whether or not its repository is registered. -/
theorem route_push (hverified : Verified secrets headers body parsed source)
    (hpush : parsed.isPush = true) : (route secrets registered headers body source).2
      = some (.webhookTriggered (RepoId.fromUrl parsed.repoUrl) source) := by
  have hdispatch : (dispatch registered parsed source).2
      = some (.webhookTriggered (RepoId.fromUrl parsed.repoUrl) source) := by
    unfold dispatch
    rw [if_neg (not_not_intro hpush)]
    dsimp only
    split
    · rfl
    · rfl
  have hhandler : route secrets registered headers body source
      = dispatch registered parsed source := by
    cases source with
    | gitHub =>
        obtain ⟨secret, hsecret, hverify, hparse⟩ := hverified
        exact handler_ok hsecret hverify hparse
    | gitLab =>
        obtain ⟨secret, hsecret, hverify, hparse⟩ := hverified
        exact handler_ok hsecret hverify hparse
    | bitbucket =>
        obtain ⟨secret, hsecret, hverify, hparse⟩ := hverified
        exact handler_ok hsecret hverify hparse
  rw [hhandler]
  exact hdispatch

/--
**When a webhook reaches its applications.**

For any stored applications and any verified push about a repository that some of them refer
to: the event that the route publishes makes the trigger enqueue exactly these applications,
if and only if the id of the repository is its URL.
-/
theorem webhook_reaches_iff {db : Database}
    (hverified : Verified secrets headers body parsed source) (hpush : parsed.isPush = true)
    (href : ∃ app, References db parsed.repoUrl app) :
    (∃ e, (route secrets registered headers body source).2 = some e
        ∧ EnqueuesExactly db parsed.repoUrl e)
      ↔ RepoId.fromUrl parsed.repoUrl = parsed.repoUrl := by
  have hroute : (route secrets registered headers body source).2
      = some (.webhookTriggered (RepoId.fromUrl parsed.repoUrl) source) :=
    route_push hverified hpush
  refine ⟨fun h => ?_, fun h => ?_⟩
  · obtain ⟨e, he, henq⟩ := h
    obtain rfl := Option.some.inj (hroute.symm.trans he)
    -- an application of the URL is enqueued only if its URL is the id
    obtain ⟨app, a, ha, hurl⟩ := href
    obtain ⟨a', ha', hid⟩ := (enqueuesExactly_iff.mp henq app).mpr ⟨a, ha, hurl⟩
    obtain rfl := Option.some.inj (ha.symm.trans ha')
    exact hid.symm.trans hurl
  · refine ⟨_, hroute, enqueuesExactly_iff.mpr fun app => ?_⟩
    rw [h]

end

/-- No text with one of these characters is an id. -/
theorem fromUrl_ne [Sha256] {url : String} {c : Char} (hc : c ∈ [':', '/', '.', '@'])
    (hmem : c ∈ url.toList) : RepoId.fromUrl url ≠ url := by
  intro h
  rw [← h] at hmem
  obtain ⟨n, hn, rfl⟩ := mem_hexEncode hmem
  exact hexDigit_ne n hn _ hc rfl

/-! ## A push to the shop -/

def shopPush : ParsedWebhook := ⟨.gitLab, "https://example.com/shop.git", "Push Hook"⟩

def shopBody : Bytes :=
  "\x7b\"repository\":\x7b\"git_http_url\":\"https://example.com/shop.git\"\x7d\x7d".toUTF8.data.toList

/-- What the body of the push says. -/
@[reducible] def shopJson : SerdeJson where
  fromSlice bytes :=
    if bytes = shopBody then
      .ok (.obj [("repository", .obj [("git_http_url", .str "https://example.com/shop.git")])])
    else .error "expected value at line 1 column 1"

/-- No payload is signed here. -/
@[reducible] def unsigned : Hmac := ⟨fun _ _ => [], fun _ _ => []⟩

def shopSecrets : WebhookSecrets := ⟨none, some "s3cret".toUTF8.data.toList, none⟩

def shopHeaders : RawHeaders :=
  [("x-gitlab-token", "s3cret".toUTF8.data.toList), ("x-gitlab-event", "Push Hook".toUTF8.data.toList)]

theorem shop_verified : @Verified unsigned shopJson shopSecrets shopHeaders shopBody shopPush .gitLab :=
  ⟨_, rfl, by decide +kernel, by decide +kernel⟩

theorem shop_webhook :
    (∃ e, (@route Pipeline.digests unsigned shopJson shopSecrets (fun _ => false) shopHeaders shopBody
        .gitLab).2 = some e ∧ EnqueuesExactly shopDb "https://example.com/shop.git" e)
      ↔ @RepoId.fromUrl Pipeline.digests "https://example.com/shop.git"
        = "https://example.com/shop.git" :=
  @webhook_reaches_iff Pipeline.digests unsigned shopJson shopSecrets (fun _ => false) shopHeaders
    shopBody shopPush .gitLab shopDb shop_verified rfl ⟨"shop", shopApp, rfl, rfl⟩

/-- **A push to the shop's repository enqueues nothing.** -/
theorem push_unheard : ¬ ∀ (db : Database) (secrets : WebhookSecrets) (registered : RepoId → Bool)
    (headers : RawHeaders) (body : Bytes) (parsed : ParsedWebhook) (source : WebhookSource),
    @Verified unsigned shopJson secrets headers body parsed source → parsed.isPush = true →
    (∃ app, References db parsed.repoUrl app) →
    ∃ e, (@route Pipeline.digests unsigned shopJson secrets registered headers body source).2 = some e
      ∧ EnqueuesExactly db parsed.repoUrl e := by
  intro h
  obtain ⟨e, he, henq⟩ := h shopDb shopSecrets (fun _ => false) shopHeaders shopBody shopPush .gitLab
    shop_verified rfl ⟨"shop", shopApp, rfl, rfl⟩
  obtain rfl := Option.some.inj ((@route_push Pipeline.digests unsigned shopJson _ _ _ _ _ _
    shop_verified rfl).symm.trans he)
  obtain ⟨a, ha, hid⟩ := (enqueuesExactly_iff.mp henq "shop").mpr ⟨shopApp, rfl, rfl⟩
  obtain rfl := Option.some.inj (show some shopApp = some a from ha)
  -- the application names its repository by a URL, which has a colon
  exact @fromUrl_ne Pipeline.digests "https://example.com/shop.git" ':' (by decide) (by decide) hid.symm

end SynchrotronCD.Db.Webhooks
