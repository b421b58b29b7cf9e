import SynchrotronCD.Lib.Runs
import SynchrotronCD.Plugins.AppRenderer
import SynchrotronCD.Reconcile.DesiredStore
import SynchrotronCD.Reconcile.Trigger
import SynchrotronCD.Server.AppsProof

/-!
# From git to the desired-state store

A poller for each configured repository, a bridge that turns what it fetched into
events of the bus, and one render loop. On an event about a repository the loop
lists the applications that refer to it, materializes the commit and renders one
application after the other into the store.

One event of the machine is one step of one of these tasks, or a request to the
API. The loop's receiver and the bridges' are queues, and what falls out of them
because the consumer lags is an event too.
-/

namespace SynchrotronCD.Db.Pipeline

open Lib Git

/-! ## Configuration -/

structure RepoCfg where
  url : String
  branch : Option String
deriving DecidableEq, Repr

section

variable [Sha256]

def RepoCfg.repo (r : RepoCfg) : Repo := .new r.url (r.branch.getD "main")

/-- The repositories that are polled, by id: of several configurations the last. -/
def buildRepoMap (cfgs : List RepoCfg) : HashMap RepoId Repo :=
  cfgs.foldl (fun out r => out.insert r.repo.id r.repo) ∅

/-- The repositories the render loop knows, by URL: of several configurations the last. -/
def urlToRepo (cfgs : List RepoCfg) : HashMap String Repo :=
  cfgs.foldl (fun out r => out.insert r.url r.repo) ∅

/-- The initial clones, with what `origin` answers to each. -/
def cloneAll (cfgs : List RepoCfg) (clone : Nat → Except GitError Pack) (d : Disk) : Disk :=
  cfgs.zipIdx.foldl (fun d r => (d.ensureCloned r.1.repo (clone r.2)).1) d

end

/-- What does not change while the server runs. -/
structure Site where
  cfgs : List RepoCfg
  /-- The tree of each commit. -/
  trees : Sha → Tree
  registry : Registry

/-! ## What is rendered -/

/-- Set a member of an object that is sorted by its keys. -/
def insertMember (key : String) (v : Value.Doc) :
    List (String × Value.Doc) → List (String × Value.Doc)
  | [] => [(key, v)]
  | (k, x) :: kvs =>
    if key = k then (k, v) :: kvs
    else if key < k then (key, v) :: (k, x) :: kvs
    else (k, x) :: insertMember key v kvs

/-- Map (name, value) pairs into a flat object. -/
def pluginParams : Option PluginRef → Value.Doc
  | none => .obj []
  | some p => .obj (p.parameters.foldl (fun map kv => insertMember kv.name (.str kv.value) map) [])

/-- The components of a path that name something; `..`, `.` and the root are dropped. -/
def subpath (path : String) : List String :=
  ((path.toList.splitOn '/').map String.ofList).filter fun c => c ∉ ["", ".", ".."]

/-- Seven characters, as in the names of working directories. -/
def short (sha : Sha) : String := String.ofList (sha.toList.take 7)

/-- What a render takes from an application. -/
structure RenderSource where
  repoUrl : String
  path : String
  plugin : Option PluginRef
deriving DecidableEq, Repr

def renderSource (a : Application) : RenderSource :=
  ⟨a.source.repoUrl, a.source.path, a.source.plugin⟩

/-- The render of a source at a commit, in a working directory. -/
def renderSpec (app : AppName) (source : RenderSource) (head : Sha) (workDir : Dir) :
    AppRenderSpec where
  appId := app
  commitHash := head
  plugin := (source.plugin.map PluginRef.name).getD "raw"
  sourcePath := ⟨workDir, subpath source.path⟩
  params := pluginParams source.plugin

/-! ## The machine -/

inductive PollEvent where
  | fetched (result : FetchResult)
  | fetchFailed (message : String)
deriving DecidableEq, Repr

/-- A repository and a commit to render its applications at. -/
structure Job where
  repo : Repo
  url : String
  head : Sha
deriving DecidableEq, Repr

def Job.workDir (job : Job) : String := job.repo.id ++ "-" ++ short job.head

/-- Where the render loop is. -/
inductive Stage where
  /-- Waiting for an event. -/
  | idle
  /-- About to list the applications. -/
  | resolved (job : Job)
  /-- About to materialize the commit. -/
  | listed (job : Job) (apps : List Application)
  /-- About to render the first of these. -/
  | rendering (job : Job) (todo : List Application)

structure State where
  db : Database
  disk : Disk
  cache : AppCache
  store : DesiredStore
  /-- What each poller has sent and its bridge has not received. -/
  polls : RepoId → List PollEvent
  /-- The render loop's receiver exists. -/
  subscribed : Bool
  /-- What has been published and the render loop has not received. -/
  bus : List SystemEvent
  stage : Stage
  /-- Proof-only: the repositories that have been polled with success. -/
  polled : List RepoId
  /-- Proof-only: the applications whose last render failed. -/
  failed : List AppName

/-- The server right after `spawn`, with the stored applications and what is on disk. -/
def State.start [Sha256] (site : Site) (clone : Nat → Except GitError Pack) (db : Database)
    (disk : Disk) : State where
  db := db
  disk := cloneAll site.cfgs clone disk
  cache := ∅
  store := ∅
  polls _ := []
  subscribed := false
  bus := []
  stage := .idle
  polled := []
  failed := []

inductive Event where
  /-- A poller fetches its repository; `clone` counts if the cache is missing. -/
  | poll (id : RepoId) (clone answer : Except GitError Pack)
  | bridge (id : RepoId)
  /-- A bridge lost the oldest `n` of what was sent to it. -/
  | pollLag (id : RepoId) (n : Nat)
  /-- The render loop's task runs for the first time. -/
  | subscribe
  | receive
  | list
  | materialize (fault : Option (GitError × Dir))
  | render
  /-- The loop lost the oldest `n` of what was published. -/
  | lag (n : Nat)
  /-- The cache is full. -/
  | evict (key : AppCacheKey)
  | createApp (req : CreateAppRequest) (id : String) (now : Timestamp)
  | updateApp (name : AppName) (body : Doc) (now : Timestamp)
  | deleteApp (name : AppName)

namespace State

variable (s : State)

/-- Only what is published after the loop has subscribed reaches it. -/
def publish (e : SystemEvent) : State :=
  if s.subscribed then { s with bus := s.bus ++ [e] } else s

def pollEvent : Except GitError FetchResult → PollEvent
  | .ok result => .fetched result
  | .error e => .fetchFailed e.toText

/-- What a bridge publishes for an event of the poller of `url`. -/
def bridged (url : String) : PollEvent → Option SystemEvent
  | .fetched result =>
    if (result.previousHead.map fun p => p != result.currentHead).getD true then
      some (.repoChanged url result.currentHead)
    else none
  | .fetchFailed message => some (.repoFetchFailed url message)

def listApplications (db : Database) : List Application :=
  db.applications.rows.insertionSort fun a b => a.name ≤ b.name

/-- Rendering what is left, or waiting again. -/
def rest (job : Job) : List Application → Stage
  | [] => .idle
  | app :: todo => .rendering job (app :: todo)

variable [Sha256] (site : Site)

def poll (id : RepoId) (clone answer : Except GitError Pack) : State :=
  match (buildRepoMap site.cfgs).lookup id with
  | none => s
  | some repo =>
    let fetch := s.disk.fetch repo clone answer
    { s with
      disk := fetch.1
      polls := Function.update s.polls id (s.polls id ++ [pollEvent fetch.2])
      polled := if fetch.2.isOk then id :: s.polled else s.polled }

def bridge (id : RepoId) : State :=
  match (buildRepoMap site.cfgs).lookup id, s.polls id with
  | some repo, ev :: rest =>
    match bridged repo.url ev with
    | some e => { s with polls := Function.update s.polls id rest }.publish e
    | none => { s with polls := Function.update s.polls id rest }
  | _, _ => s

/-- What an event asks the render loop to do. -/
def jobFor : SystemEvent → Option Job
  | .repoChanged url newHead => ((urlToRepo site.cfgs).lookup url).map fun repo => ⟨repo, url, newHead⟩
  | .appChanged _ url =>
    match (urlToRepo site.cfgs).lookup url with
    | none => none
    | some repo =>
      match s.disk.currentHead repo with
      | .ok head => some ⟨repo, url, head⟩
      | .error _ => none
  | _ => none

def receive : State :=
  match s.stage, s.bus with
  | .idle, e :: rest =>
    match s.jobFor site e with
    | some job => { s with bus := rest, stage := .resolved job }
    | none => { s with bus := rest }
  | _, _ => s

def list : State :=
  match s.stage with
  | .resolved job =>
    match (listApplications s.db).filter fun a => a.source.repoUrl = job.url with
    | [] => { s with stage := .idle }
    | app :: apps => { s with stage := .listed job (app :: apps) }
  | _ => s

def materialize (fault : Option (GitError × Dir)) : State :=
  match s.stage with
  | .listed job apps =>
    match s.disk.materialize site.trees job.repo job.head job.workDir fault with
    | (disk, .ok ()) => { s with disk := disk, stage := .rendering job apps }
    | (disk, .error _) =>
      { s with disk := disk, stage := .idle, failed := apps.map Application.name ++ s.failed }
  | _ => s

variable [FloatText]

def render : State :=
  match s.stage with
  | .rendering job (app :: todo) =>
    match (renderSpec app.name (renderSource app) job.head (s.disk.work job.workDir)).render
      site.registry s.cache with
    | (cache, .ok manifests) =>
      { s with
        cache := cache
        store := s.store.putWithRevision app.name manifests (some job.head)
        stage := rest job todo
        failed := s.failed.filter (· ≠ app.name) }.publish (.manualSyncRequested app.name)
    | (cache, .error e) =>
      { s with
        cache := cache
        stage := rest job todo
        failed := app.name :: s.failed }.publish
          (.syncOutcome ⟨app.name, app.destination.cluster, false, some (.render e), "poll",
            some job.head, 0⟩)
  | _ => s

/-- `create_app`: the row, then the event. -/
def createApp (req : CreateAppRequest) (id : String) (now : Timestamp) : State :=
  match Db.createApp s.db req id now with
  | .ok (db, app) => { s with db := db }.publish (.appChanged app.name app.source.repoUrl)
  | .error _ => s

/-- `update_app` publishes nothing. -/
def updateApp (name : AppName) (body : Doc) (now : Timestamp) : State :=
  match Db.updateApp s.db name body now with
  | .ok (db, _) => { s with db := db }
  | .error _ => s

/-- `delete_app` publishes nothing. -/
def deleteApp (name : AppName) : State := { s with db := (Db.deleteApp s.db name).1 }

end State

section

variable [Sha256] [FloatText] (site : Site)

def step (s : State) : Event → State
  | .poll id clone answer => s.poll site id clone answer
  | .bridge id => s.bridge site id
  | .pollLag id n => { s with polls := Function.update s.polls id ((s.polls id).drop n) }
  | .subscribe => { s with subscribed := true }
  | .receive => s.receive site
  | .list => s.list
  | .materialize fault => s.materialize site fault
  | .render => s.render site
  | .lag n => { s with bus := s.bus.drop n }
  | .evict key => { s with cache := s.cache.erase key }
  | .createApp req id now => s.createApp req id now
  | .updateApp name body now => s.updateApp name body now
  | .deleteApp name => s.deleteApp name

end

/-- Nothing is on its way to the render loop, and the loop waits. -/
structure Drained (s : State) : Prop where
  subscribed : s.subscribed = true
  stage : s.stage = .idle
  bus : s.bus = []
  polls : ∀ id, s.polls id = []

end SynchrotronCD.Db.Pipeline
