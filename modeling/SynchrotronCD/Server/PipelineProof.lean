import Mathlib.Data.List.Find
import SynchrotronCD.Server.Pipeline

/-!
# What the pipeline's steps do

Facts about the maps made from the configuration, about publishing, and about one
step of each task, which the statements about whole runs are assembled from.
-/

namespace SynchrotronCD.Db.Pipeline

open Lib Git

/-! ## The configured repositories -/

section

variable [Sha256]

/-- Configured URLs are told apart by their ids. -/
def DistinctIds (cfgs : List RepoCfg) : Prop :=
  ∀ c ∈ cfgs, ∀ c' ∈ cfgs, c.repo.id = c'.repo.id → c.url = c'.url

theorem lookup_urlToRepo {cfgs : List RepoCfg} {url : String} {repo : Repo}
    (h : (urlToRepo cfgs).lookup url = some repo) :
    repo.url = url ∧ ∃ c ∈ cfgs, c.url = url ∧ c.repo = repo := by
  unfold urlToRepo at h
  rw [lookup_foldl_insert RepoCfg.url RepoCfg.repo] at h
  obtain ⟨c, hc, rfl⟩ := Option.map_eq_some_iff.mp h
  have hurl : c.url = url := by simpa using List.find?_some hc
  exact ⟨hurl, c, by simpa using List.mem_of_find?_eq_some hc, hurl, rfl⟩

theorem lookup_buildRepoMap {cfgs : List RepoCfg} {id : RepoId} {repo : Repo}
    (h : (buildRepoMap cfgs).lookup id = some repo) :
    repo.id = id ∧ ∃ c ∈ cfgs, c.repo = repo := by
  unfold buildRepoMap at h
  rw [lookup_foldl_insert (fun c => c.repo.id) RepoCfg.repo] at h
  obtain ⟨c, hc, rfl⟩ := Option.map_eq_some_iff.mp h
  exact ⟨by simpa using List.find?_some hc, c, by simpa using List.mem_of_find?_eq_some hc, rfl⟩

/-- What is polled is known to the render loop. -/
theorem urlToRepo_of_polled {cfgs : List RepoCfg} {id : RepoId} {repo : Repo}
    (h : (buildRepoMap cfgs).lookup id = some repo) :
    ∃ repo', (urlToRepo cfgs).lookup repo.url = some repo' := by
  obtain ⟨-, c, hc, rfl⟩ := lookup_buildRepoMap h
  unfold urlToRepo
  rw [lookup_foldl_insert RepoCfg.url RepoCfg.repo]
  obtain ⟨c', hc'⟩ := Option.isSome_iff_exists.mp
    (List.find?_isSome (p := fun c' => decide (c'.url = c.url)) |>.mpr
      ⟨c, List.mem_reverse.mpr hc, decide_eq_true rfl⟩)
  exact ⟨c'.repo, by rw [show c.repo.url = c.url from rfl, hc', Option.map_some]⟩

/-- The poller of a repository polls what the render loop takes it for. -/
theorem buildRepoMap_of_urlToRepo {cfgs : List RepoCfg} (hids : DistinctIds cfgs) {url : String}
    {repo : Repo} (h : (urlToRepo cfgs).lookup url = some repo) :
    (buildRepoMap cfgs).lookup repo.id = some repo := by
  obtain ⟨-, c, hc, hurl, rfl⟩ := lookup_urlToRepo h
  unfold urlToRepo at h
  unfold buildRepoMap
  rw [lookup_foldl_insert RepoCfg.url RepoCfg.repo] at h
  rw [lookup_foldl_insert (fun c => c.repo.id) RepoCfg.repo, ← h]
  refine congrArg (Option.map RepoCfg.repo) (List.find?_congr fun c' hc' => ?_)
  have hc' := List.mem_reverse.mp hc'
  refine decide_eq_decide.mpr ⟨fun hid => ?_, fun hu => ?_⟩
  · rw [hids c' hc' c hc hid, hurl]
  · show Repo.id (.new c'.url _) = Repo.id (.new c.url _)
    rw [hu, hurl]
    rfl

end

/-! ## Reading the table -/

theorem mem_listApplications {db : Database} {a : Application} :
    a ∈ State.listApplications db ↔ db.getApplication a.name = some a := by
  unfold State.listApplications Database.getApplication
  rw [List.mem_insertionSort, Table.find_eq_some]
  exact ⟨fun h => ⟨h, rfl⟩, And.left⟩

/-! ## The loop's hands -/

/-- The applications the loop has in hand. -/
def Stage.apps : Stage → List Application
  | .idle | .resolved _ => []
  | .listed _ apps => apps
  | .rendering _ todo => todo

/-- What the loop is working on. -/
def Stage.job : Stage → Option Job
  | .idle => none
  | .resolved job | .listed job _ | .rendering job _ => some job

/-- The loop starts on a job, if an event gives it one. -/
@[simp] theorem Stage.job_elim (o : Option Job) : (o.elim Stage.idle .resolved).job = o := by
  cases o <;> rfl

@[simp] theorem Stage.apps_elim (o : Option Job) : (o.elim Stage.idle .resolved).apps = [] := by
  cases o <;> rfl

theorem Stage.elim_ne_rendering (o : Option Job) (job : Job) (todo : List Application) :
    o.elim Stage.idle .resolved ≠ .rendering job todo := by
  cases o <;> exact nofun

@[simp] theorem State.rest_apps (job : Job) (todo : List Application) :
    (State.rest job todo).apps = todo := by
  cases todo with
  | nil => rfl
  | cons app todo => rfl

theorem State.rest_job {job j : Job} {todo : List Application} :
    (State.rest job todo).job = some j ↔ todo ≠ [] ∧ j = job := by
  cases todo with
  | nil => simp [State.rest, Stage.job]
  | cons app todo => simp [State.rest, Stage.job, eq_comm]

/-! ## Publishing -/

/-- Two states that differ at most in what is on its way. -/
structure SameButEvents (s s' : State) : Prop where
  db : s'.db = s.db
  disk : s'.disk = s.disk
  cache : s'.cache = s.cache
  store : s'.store = s.store
  subscribed : s'.subscribed = s.subscribed
  stage : s'.stage = s.stage
  polled : s'.polled = s.polled
  failed : s'.failed = s.failed

namespace State

section

variable (s : State) (e : SystemEvent)

@[simp] theorem publish_polls : (s.publish e).polls = s.polls := by unfold publish; split <;> rfl

theorem publish_frame : SameButEvents s (s.publish e) := by
  unfold publish
  split
  · exact ⟨rfl, rfl, rfl, rfl, rfl, rfl, rfl, rfl⟩
  · exact ⟨rfl, rfl, rfl, rfl, rfl, rfl, rfl, rfl⟩

theorem publish_bus : (s.publish e).bus = if s.subscribed then s.bus ++ [e] else s.bus := by
  unfold publish
  split <;> rfl

end

/-- What was published stays published. -/
theorem mem_publish {s : State} {e e' : SystemEvent} (h : e' ∈ s.bus) : e' ∈ (s.publish e).bus := by
  rw [publish_bus]
  split
  · exact List.mem_append_left _ h
  · exact h

/-- A bridge announces a head exactly if it is not the one before. -/
theorem bridged_eq_repoChanged {url u : String} {ev : PollEvent} {h : Sha} :
    bridged url ev = some (.repoChanged u h)
      ↔ u = url ∧ ∃ res, ev = .fetched res ∧ res.previousHead ≠ some res.currentHead
        ∧ res.currentHead = h := by
  cases ev with
  | fetchFailed message => simp [bridged]
  | fetched res =>
      have hmoved : (res.previousHead.map fun p => p != res.currentHead).getD true = true
          ↔ res.previousHead ≠ some res.currentHead := by
        cases res.previousHead with
        | none => simp
        | some p => simp
      unfold bridged
      dsimp only
      split
      · rename_i hm
        refine ⟨fun heq => ?_, fun hex => ?_⟩
        · obtain ⟨rfl, rfl⟩ := SystemEvent.repoChanged.inj (Option.some.inj heq)
          exact ⟨rfl, res, rfl, hmoved.mp hm, rfl⟩
        · obtain ⟨rfl, res', hres, -, rfl⟩ := hex
          obtain rfl := PollEvent.fetched.inj hres
          rfl
      · rename_i hm
        refine ⟨fun heq => by simp at heq, fun hex => ?_⟩
        obtain ⟨-, res', hres, hne, -⟩ := hex
        obtain rfl := PollEvent.fetched.inj hres
        exact absurd (hmoved.mpr hne) hm

/-! ## What each task's step does -/

/-- Every state but one in which a step does something is left as it is. -/
theorem poll_cases [Sha256] (s : State) (site : Site) (id : RepoId)
    (clone answer : Except GitError Pack) : s.poll site id clone answer = s
      ∨ ∃ repo, (buildRepoMap site.cfgs).lookup id = some repo
        ∧ s.poll site id clone answer
          = { s with
              disk := (s.disk.fetch repo clone answer).1
              polls := Function.update s.polls id
                (s.polls id ++ [pollEvent (s.disk.fetch repo clone answer).2])
              polled := if (s.disk.fetch repo clone answer).2.isOk then id :: s.polled
                else s.polled } := by
  unfold poll
  cases h : (buildRepoMap site.cfgs).lookup id with
  | none => exact Or.inl rfl
  | some repo => exact Or.inr ⟨repo, rfl, rfl⟩

theorem bridge_cases [Sha256] (s : State) (site : Site) (id : RepoId) : s.bridge site id = s
      ∨ ∃ repo ev rest, (buildRepoMap site.cfgs).lookup id = some repo ∧ s.polls id = ev :: rest
        ∧ s.bridge site id = (bridged repo.url ev).elim
            { s with polls := Function.update s.polls id rest }
            { s with polls := Function.update s.polls id rest }.publish := by
  unfold bridge
  cases h : (buildRepoMap site.cfgs).lookup id with
  | none => exact Or.inl rfl
  | some repo =>
      cases hp : s.polls id with
      | nil => exact Or.inl rfl
      | cons ev rest =>
          refine Or.inr ⟨repo, ev, rest, rfl, rfl, ?_⟩
          dsimp only
          cases bridged repo.url ev with
          | none => rfl
          | some e => rfl

theorem bridge_frame [Sha256] (s : State) (site : Site) (id : RepoId) :
    SameButEvents s (s.bridge site id) := by
  rcases s.bridge_cases site id with heq | ⟨repo, ev, rest, -, -, heq⟩
  · rw [heq]
    exact ⟨rfl, rfl, rfl, rfl, rfl, rfl, rfl, rfl⟩
  · rw [heq]
    cases bridged repo.url ev with
    | none => exact ⟨rfl, rfl, rfl, rfl, rfl, rfl, rfl, rfl⟩
    | some e =>
        have hf := publish_frame { s with polls := Function.update s.polls id rest } e
        exact ⟨hf.db, hf.disk, hf.cache, hf.store, hf.subscribed, hf.stage, hf.polled, hf.failed⟩

/-- **What makes the loop start**: an announced head, or a created application, whose repository
has its branch in the cache. -/
theorem jobFor_eq_some [Sha256] {s : State} {site : Site} {e : SystemEvent} {job : Job} :
    s.jobFor site e = some job ↔ (urlToRepo site.cfgs).lookup job.url = some job.repo
      ∧ (e = .repoChanged job.url job.head
        ∨ ∃ app, e = .appChanged app job.url ∧ s.disk.head job.repo = some job.head) := by
  obtain ⟨repo, url, head⟩ := job
  unfold jobFor
  cases e with
  | repoChanged u h =>
      rw [Option.map_eq_some_iff]
      simp only [Job.mk.injEq, SystemEvent.repoChanged.injEq, reduceCtorEq, false_and, exists_false,
        or_false]
      refine ⟨fun hex => ?_, fun hc => ⟨repo, ?_, rfl, hc.2.1, hc.2.2⟩⟩
      · obtain ⟨r, hr, rfl, rfl, rfl⟩ := hex
        exact ⟨hr, rfl, rfl⟩
      · rw [hc.2.1]
        exact hc.1
  | appChanged app u =>
      simp only [SystemEvent.appChanged.injEq, reduceCtorEq, false_or]
      cases hr : (urlToRepo site.cfgs).lookup u with
      | none =>
          refine ⟨fun h => by simp at h, fun hc => ?_⟩
          obtain ⟨hlook, app', ⟨-, rfl⟩, -⟩ := hc
          exact absurd (hr.symm.trans hlook) (by simp)
      | some r =>
          dsimp only
          cases hh : s.disk.currentHead r with
          | error err =>
              refine ⟨fun h => by simp at h, fun hc => ?_⟩
              obtain ⟨hlook, app', ⟨-, rfl⟩, hhead⟩ := hc
              obtain rfl := Option.some.inj (hr.symm.trans hlook)
              exact absurd (hh.symm.trans (Disk.currentHead_eq_ok.mpr hhead)) (by simp)
          | ok h =>
              refine ⟨fun heq => ?_, fun hc => ?_⟩
              · obtain ⟨rfl, rfl, rfl⟩ := Job.mk.inj (Option.some.inj heq)
                exact ⟨hr, app, ⟨rfl, rfl⟩, Disk.currentHead_eq_ok.mp hh⟩
              · obtain ⟨hlook, app', ⟨-, rfl⟩, hhead⟩ := hc
                obtain rfl := Option.some.inj (hr.symm.trans hlook)
                obtain rfl := Except.ok.inj (hh.symm.trans (Disk.currentHead_eq_ok.mpr hhead))
                rfl
  | _ => simp

theorem receive_cases [Sha256] (s : State) (site : Site) : s.receive site = s
      ∨ ∃ e rest, s.stage = .idle ∧ s.bus = e :: rest
        ∧ s.receive site = { s with
            bus := rest
            stage := (s.jobFor site e).elim .idle .resolved } := by
  unfold receive
  split
  · rename_i e rest hstage hbus
    refine Or.inr ⟨e, rest, hstage, hbus, ?_⟩
    cases hjob : s.jobFor site e with
    | none =>
        rw [← hstage]
        rfl
    | some job => rfl
  · exact Or.inl rfl

theorem list_cases (s : State) : s.list = s
      ∨ ∃ job apps, s.stage = .resolved job
        ∧ (∀ a, a ∈ apps ↔ s.db.getApplication a.name = some a ∧ a.source.repoUrl = job.url)
        ∧ s.list = { s with stage := if apps.isEmpty then .idle else .listed job apps } := by
  unfold list
  split
  · rename_i job hstage
    refine Or.inr ⟨job, (listApplications s.db).filter fun a => a.source.repoUrl = job.url,
      hstage, fun a => ?_, ?_⟩
    · rw [List.mem_filter, mem_listApplications, decide_eq_true_eq]
    · split
      · rename_i hnil
        rw [hnil]
        rfl
      · rename_i app apps hcons
        rw [hcons]
        rfl
  · exact Or.inl rfl

/-- A failed attempt fails the render of every application that was listed. It fails if the clone
lacks the commit, or a write fails. -/
theorem materialize_cases [Sha256] (s : State) (site : Site) (fault : Option (GitError × Dir)) :
    s.materialize site fault = s
      ∨ ∃ job apps, s.stage = .listed job apps
        ∧ ((∃ disk, ¬ (fault = none ∧ s.disk.Has job.repo.id job.head)
              ∧ disk.bares = s.disk.bares ∧ s.materialize site fault
              = { s with disk := disk, stage := .idle, failed := apps.map Application.name ++ s.failed })
          ∨ (fault = none ∧ s.disk.Has job.repo.id job.head ∧ s.materialize site fault
              = { s with
                  disk := s.disk.putWork job.workDir
                    (writeTree [] (site.trees job.head) (s.disk.work job.workDir))
                  stage := .rendering job apps })) := by
  unfold materialize Disk.materialize
  split
  · rename_i job apps hstage
    refine Or.inr ⟨job, apps, hstage, ?_⟩
    cases hb : s.disk.bares job.repo.id with
    | none =>
        refine Or.inl ⟨s.disk, fun hok => ?_, rfl, rfl⟩
        obtain ⟨-, bare, hbare, -⟩ := hok
        exact absurd (hb.symm.trans hbare) (by simp)
    | some bare =>
        dsimp only
        by_cases hc : job.head ∉ bare.commits
        · rw [if_pos hc]
          refine Or.inl ⟨s.disk, fun hok => ?_, rfl, rfl⟩
          obtain ⟨-, bare', hbare, hmem⟩ := hok
          obtain rfl := Option.some.inj (hb.symm.trans hbare)
          exact hc hmem
        · rw [if_neg hc]
          cases fault with
          | some f => exact Or.inl ⟨s.disk.putWork job.workDir f.2, fun hok => by simp at hok, rfl, rfl⟩
          | none => exact Or.inr ⟨rfl, ⟨bare, hb, not_not.mp hc⟩, rfl⟩
  · exact Or.inl rfl

/-- What is handed to the renderer for an application. -/
def specOf (s : State) (job : Job) (app : Application) : AppRenderSpec :=
  renderSpec app.name (renderSource app) job.head (s.disk.work job.workDir)

theorem render_cases [Sha256] [FloatText] (s : State) (site : Site) : s.render site = s
      ∨ ∃ job app todo, s.stage = .rendering job (app :: todo)
        ∧ ((∃ manifests, ((s.specOf job app).render site.registry s.cache).2 = .ok manifests
            ∧ s.render site = { s with
                cache := ((s.specOf job app).render site.registry s.cache).1
                store := s.store.putWithRevision app.name manifests (some job.head)
                stage := rest job todo
                failed := s.failed.filter (· ≠ app.name) }.publish (.manualSyncRequested app.name))
          ∨ ∃ e, ((s.specOf job app).render site.registry s.cache).2 = .error e
            ∧ s.render site = { s with
                cache := ((s.specOf job app).render site.registry s.cache).1
                stage := rest job todo
                failed := app.name :: s.failed }.publish (.syncOutcome ⟨app.name,
                  app.destination.cluster, false, some (.render e), "poll", some job.head, 0⟩)) := by
  unfold render
  split
  · rename_i job app todo hstage
    refine Or.inr ⟨job, app, todo, hstage, ?_⟩
    generalize hr : (s.specOf job app).render site.registry s.cache = r
    have hr' : (renderSpec app.name (renderSource app) job.head (s.disk.work job.workDir)).render
        site.registry s.cache = r := hr
    rw [hr']
    obtain ⟨cache, result⟩ := r
    cases result with
    | ok manifests => exact Or.inl ⟨manifests, rfl, rfl⟩
    | error e => exact Or.inr ⟨e, rfl, rfl⟩
  · exact Or.inl rfl

/-- The entry that a successful render leaves. -/
theorem lookup_render [Sha256] [FloatText] {s : State} {site : Site} {job : Job} {app : Application}
    {todo : List Application} (hstage : s.stage = .rendering job (app :: todo))
    {manifests : List Manifest}
    (hok : ((s.specOf job app).render site.registry s.cache).2 = .ok manifests) :
    (s.render site).store.lookup app.name = some ⟨manifests, some job.head⟩ := by
  unfold render
  rw [hstage]
  unfold specOf at hok
  dsimp only
  generalize (renderSpec app.name (renderSource app) job.head (s.disk.work job.workDir)).render
    site.registry s.cache = r at hok ⊢
  obtain ⟨cache, result⟩ := r
  obtain rfl : result = .ok manifests := hok
  rw [(publish_frame _ _).store]
  exact AList.lookup_insert _

end State

/-! ## A shop -/

/-- SHA-256 of the texts below. -/
@[reducible] def digests : Sha256 where
  digest bytes :=
    if bytes = "https://example.com/shop.git".toUTF8.data.toList then
      [10, 139, 239, 252, 36, 24, 163, 129, 107, 252, 160, 24, 18, 43, 26, 89, 157, 157, 44, 87,
        59, 90, 231, 254, 207, 125, 84, 50, 181, 166, 66, 37]
    else if bytes = "\x7b\x7d".toUTF8.data.toList then
      [68, 19, 111, 163, 85, 179, 103, 138, 17, 70, 173, 22, 247, 232, 100, 158, 148, 251, 79, 194,
        31, 231, 126, 131, 16, 192, 96, 246, 28, 170, 255, 138]
    else []

/-- One repository, whose commits are empty; every plugin renders the path it is given. -/
def shopSite : Site where
  cfgs := [⟨"https://example.com/shop.git", none⟩]
  trees _ := []
  registry _ source _ := .ok [configMap (String.join source.path) "v1"]

def shopRepo : Repo := @RepoCfg.repo digests ⟨"https://example.com/shop.git", none⟩

/-- A branch at a commit. -/
def packOf (head : Sha) : Pack := ⟨head, [head], List.mem_singleton_self _⟩

/-- Nothing was ever cloned or checked out. -/
def emptyDisk : Disk := ⟨fun _ => none, fun _ => .empty⟩

/-- A shop that has just started, on an empty disk. -/
def shopStart : State := @State.start digests shopSite (fun _ => .ok (packOf "c1")) shopDb emptyDisk

/-- The first render of the shop. -/
def shopRun : List Event :=
  [.subscribe, .poll shopRepo.id (.ok (packOf "c1")) (.ok (packOf "c2")), .bridge shopRepo.id,
    .receive, .list, .materialize none, .render, .receive]

def shopJob : Job := ⟨shopRepo, shopRepo.url, "c2"⟩

/-- What it materializes the commit for. -/
theorem shopRun_listed : (exec (@step digests .ofBits shopSite) shopStart (shopRun.take 5)).stage
    = .listed shopJob [shopApp] := rfl

end SynchrotronCD.Db.Pipeline
