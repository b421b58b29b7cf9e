import SynchrotronCD.Server.PipelineProof

/-!
# Which commit an application is rendered from

The render loop renders all applications of a repository at one commit: the head
of the one branch that is tracked for its URL, whatever revision an application
asks for. What it writes comes from that commit, also where it comes from the
cache (`Provenance`), so it is what an application asked for where the application
asks for that branch or that commit.
-/

namespace SynchrotronCD.Db.Pipeline

open Lib Git

/-! ## Revisions -/

/-- The commit a revision names in a clone: a branch is where its last fetch found it. -/
def revParse (bare : Bare) (revision : String) : Option Sha :=
  match bare.heads.lookup revision with
  | some head => some head
  | none => if revision ∈ bare.commits then some revision else none

/-- Manifests rendered from a commit. -/
def FromCommit (site : Site) (commit : Sha) (manifests : List Manifest) : Prop :=
  ∃ plugin path params,
    site.registry plugin ⟨checkout (site.trees commit), path⟩ params = .ok manifests

section

variable [Sha256]

/-- The commit that an application's target revision names in its repository. -/
def targetCommit (d : Disk) (source : AppSource) : Option Sha :=
  (d.bares (.fromUrl source.repoUrl)).bind fun bare => revParse bare source.targetRevision

variable (site : Site)

/-- What is rendered asks for the tracked branch of its repository, of which the loop has the head,
or for the very commit; and nothing else is in the working directory. -/
def AsksForRendered (s : State) : Event → Prop
  | .materialize _ => ∀ job apps, s.stage = .listed job apps →
      writeTree [] (site.trees job.head) (s.disk.work job.workDir) = checkout (site.trees job.head)
  | .render => ∀ job app todo a, s.stage = .rendering job (app :: todo) →
      s.db.getApplication app.name = some a → a.source.repoUrl = job.url
        ∧ ((a.source.targetRevision = job.repo.branch ∧ s.disk.head job.repo = some job.head)
          ∨ (a.source.targetRevision = job.head ∧
            s.disk.head { job.repo with branch := a.source.targetRevision } = none))
  | _ => True

/-! ## Where manifests come from -/

/-- The loop renders a commit of the clone, in a directory that holds its tree; what is cached for
a commit was rendered from it. -/
structure Provenance (s : State) : Prop where
  job : ∀ job, s.stage.job = some job → job.repo.id = .fromUrl job.url
  has : ∀ job todo, s.stage = .rendering job todo → s.disk.Has job.repo.id job.head
  workDir : ∀ job todo, s.stage = .rendering job todo →
    s.disk.work job.workDir = checkout (site.trees job.head)
  cache : ∀ key manifests, s.cache.lookup key = some manifests →
    FromCommit site key.commitHash manifests

theorem provenance_start (clone : Nat → Except GitError Pack) (db : Database) (disk : Disk) :
    Provenance site (State.start site clone db disk) where
  job _ h := absurd h (by simp [State.start, Stage.job])
  has _ _ h := absurd h (by simp [State.start])
  workDir _ _ h := absurd h (by simp [State.start])
  cache _ _ h := absurd h (by simp [State.start])

variable {site}

/-- A step that leaves the loop alone, and the clones and the cache no poorer or richer. -/
theorem Provenance.of_world {s s' : State} (h : Provenance site s) (hstage : s'.stage = s.stage)
    (hwork : s'.disk.work = s.disk.work)
    (hhas : ∀ id commit, s.disk.Has id commit → s'.disk.Has id commit)
    (hcache : ∀ key manifests, s'.cache.lookup key = some manifests →
      s.cache.lookup key = some manifests) : Provenance site s' := by
  refine ⟨fun job hj => ?_, fun job todo hj => ?_, fun job todo hj => ?_,
    fun key manifests hk => h.cache key manifests (hcache key manifests hk)⟩
  · rw [hstage] at hj
    exact h.job job hj
  · rw [hstage] at hj
    exact hhas _ _ (h.has job todo hj)
  · rw [hstage] at hj
    rw [hwork]
    exact h.workDir job todo hj

theorem Provenance.of_events {s s' : State} (h : Provenance site s) (hf : SameButEvents s s') :
    Provenance site s' := by
  refine h.of_world hf.stage (by rw [hf.disk]) (fun _ _ hh => ?_) fun _ _ hk => ?_
  · rw [hf.disk]
    exact hh
  · rw [hf.cache] at hk
    exact hk

/-- The loop turns to something else, or to nothing; it does not start to render. -/
theorem Provenance.of_stage {s s' : State} (h : Provenance site s) (hcache : s'.cache = s.cache)
    (hjob : ∀ job, s'.stage.job = some job → job.repo.id = .fromUrl job.url)
    (hstage : ∀ job todo, s'.stage ≠ .rendering job todo) : Provenance site s' := by
  refine ⟨hjob, fun job todo hj => absurd hj (hstage job todo),
    fun job todo hj => absurd hj (hstage job todo), fun key manifests hk => ?_⟩
  rw [hcache] at hk
  exact h.cache key manifests hk

theorem provenance_poll {s : State} (h : Provenance site s) (id : RepoId)
    (clone answer : Except GitError Pack) : Provenance site (s.poll site id clone answer) := by
  rcases s.poll_cases site id clone answer with heq | ⟨repo, -, heq⟩
  · rw [heq]
    exact h
  · rw [heq]
    have hasked := Disk.asked_fetch s.disk repo clone answer
    exact h.of_world rfl hasked.work hasked.has fun _ _ hk => hk

theorem provenance_receive {s : State} (h : Provenance site s) :
    Provenance site (s.receive site) := by
  rcases s.receive_cases site with heq | ⟨e, rest, -, -, heq⟩
  · rw [heq]
    exact h
  rw [heq]
  refine h.of_stage rfl (fun job hj => ?_) fun job todo hj => ?_
  · -- the loop knows a repository under its own URL
    have hjob : s.jobFor site e = some job := (Stage.job_elim _).symm.trans hj
    obtain ⟨-, c, -, hurl, hrepo⟩ := lookup_urlToRepo (State.jobFor_eq_some.mp hjob).1
    rw [← hrepo, ← hurl]
    rfl
  · exact absurd hj (Stage.elim_ne_rendering _ job todo)

theorem provenance_list {s : State} (h : Provenance site s) : Provenance site s.list := by
  rcases s.list_cases with heq | ⟨job, apps, hstage, -, heq⟩
  · rw [heq]
    exact h
  rw [heq]
  have hjob := h.job job (by rw [hstage]; rfl)
  cases apps with
  | nil => exact h.of_stage rfl (fun _ hj => by simp [Stage.job] at hj) fun _ _ hj => by simp at hj
  | cons app apps =>
      refine h.of_stage rfl (fun j hj => ?_) fun _ _ hj => by simp at hj
      obtain rfl := Option.some.inj (show some job = some j from hj)
      exact hjob

theorem provenance_materialize {s : State} (h : Provenance site s)
    {fault : Option (GitError × Dir)} (hclean : AsksForRendered site s (.materialize fault)) :
    Provenance site (s.materialize site fault) := by
  rcases s.materialize_cases site fault with
    heq | ⟨job, apps, hstage, ⟨disk, -, -, heq⟩ | ⟨-, hhas, heq⟩⟩
  · rw [heq]
    exact h
  · rw [heq]
    exact h.of_stage rfl (fun _ hj => by simp [Stage.job] at hj) fun _ _ hj => by simp at hj
  · rw [heq]
    have hjob := h.job job (by rw [hstage]; rfl)
    refine ⟨fun j hj => ?_, fun j todo hj => ?_, fun j todo hj => ?_, h.cache⟩
    · obtain rfl := Option.some.inj (show some job = some j from hj)
      exact hjob
    · obtain ⟨rfl, -⟩ := Stage.rendering.inj hj
      exact hhas
    · obtain ⟨rfl, -⟩ := Stage.rendering.inj hj
      show Function.update s.disk.work job.workDir _ job.workDir = _
      rw [Function.update_self]
      exact hclean job apps hstage

/-- What a render without the cache yields is from the commit the loop works on. -/
theorem Provenance.fresh {s : State} (h : Provenance site s) {job : Job} {app : Application}
    {todo : List Application} (hstage : s.stage = .rendering job (app :: todo))
    {manifests : List Manifest} (hok : (s.specOf job app).fresh site.registry = .ok manifests) :
    FromCommit site job.head manifests := by
  refine ⟨(s.specOf job app).plugin, subpath app.source.path, (s.specOf job app).params, ?_⟩
  rw [← h.workDir job (app :: todo) hstage]
  exact hok

/-- The commit that is rendered is the one asked for. -/
theorem Provenance.targetCommit {s : State} (h : Provenance site s) {job : Job} {app a : Application}
    {todo : List Application} (hstage : s.stage = .rendering job (app :: todo))
    (ha : s.db.getApplication app.name = some a) (hasks : AsksForRendered site s .render) :
    targetCommit s.disk a.source = some job.head := by
  obtain ⟨hurl, hrev⟩ := hasks job app todo a hstage ha
  obtain ⟨bare, hbare, hmem⟩ := h.has job (app :: todo) hstage
  have hid := h.job job (by rw [hstage]; rfl)
  have htarget : Pipeline.targetCommit s.disk a.source = revParse bare a.source.targetRevision := by
    unfold Pipeline.targetCommit
    rw [hurl, ← hid, hbare, Option.bind_some]
  rw [htarget]
  unfold revParse
  unfold Disk.head at hrev
  rw [hbare, Option.bind_some] at hrev
  rcases hrev with ⟨hbranch, hhead⟩ | ⟨hcommit, hnone⟩
  · rw [hbranch, hhead]
  · dsimp only at hnone
    rw [Option.bind_some, hcommit] at hnone
    rw [hcommit, hnone]
    exact if_pos hmem

end

section

variable [Sha256] [FloatText] {site : Site}

theorem provenance_render {s : State} (h : Provenance site s) : Provenance site (s.render site) := by
  rcases s.render_cases site with heq | ⟨job, app, todo, hstage, hres⟩
  · rw [heq]
    exact h
  have hcache : ∀ key manifests,
      ((s.specOf job app).render site.registry s.cache).1.lookup key = some manifests →
      FromCommit site key.commitHash manifests := by
    intro key manifests hk
    rcases AppRenderSpec.lookup_render hk with hold | ⟨rfl, hok⟩
    · exact h.cache key manifests hold
    · exact h.fresh hstage hok
  -- the loop goes on with the same commit
  have hrest : ∀ s' : State, s'.stage = State.rest job todo → s'.disk = s.disk →
      (∀ key manifests, s'.cache.lookup key = some manifests →
        FromCommit site key.commitHash manifests) → Provenance site s' := by
    intro s' hstage' hdisk hcache'
    have hjob : ∀ j todo', s'.stage = .rendering j todo' → j = job := by
      intro j todo' hj
      rw [hstage'] at hj
      exact (State.rest_job.mp (show (State.rest job todo).job = some j by rw [hj]; rfl)).2
    refine ⟨fun j hj => ?_, fun j todo' hj => ?_, fun j todo' hj => ?_, hcache'⟩
    · rw [hstage'] at hj
      obtain ⟨-, rfl⟩ := State.rest_job.mp hj
      exact h.job j (by rw [hstage]; rfl)
    · obtain rfl := hjob j todo' hj
      rw [hdisk]
      exact h.has j (app :: todo) hstage
    · obtain rfl := hjob j todo' hj
      rw [hdisk]
      exact h.workDir j (app :: todo) hstage
  rcases hres with ⟨manifests, -, heq⟩ | ⟨e, -, heq⟩
  · rw [heq]
    refine Provenance.of_events ?_ (State.publish_frame _ _)
    exact hrest _ rfl rfl hcache
  · rw [heq]
    refine Provenance.of_events ?_ (State.publish_frame _ _)
    exact hrest _ rfl rfl hcache

theorem provenance_step {s : State} {e : Event} (h : Provenance site s)
    (hasks : AsksForRendered site s e) : Provenance site (step site s e) := by
  have hsame : ∀ s' : State, s'.stage = s.stage → s'.disk = s.disk → s'.cache = s.cache →
      Provenance site s' := by
    intro s' hstage hdisk hcache
    exact h.of_world hstage (by rw [hdisk]) (fun _ _ hh => by rw [hdisk]; exact hh)
      fun _ _ hk => by rw [← hcache]; exact hk
  cases e with
  | poll id clone answer => exact provenance_poll h id clone answer
  | bridge id => exact h.of_events (s.bridge_frame site id)
  | pollLag id n => exact hsame _ rfl rfl rfl
  | subscribe => exact hsame _ rfl rfl rfl
  | receive => exact provenance_receive h
  | list => exact provenance_list h
  | materialize fault => exact provenance_materialize h hasks
  | render => exact provenance_render h
  | lag n => exact hsame _ rfl rfl rfl
  | evict key =>
      refine h.of_world rfl rfl (fun _ _ hh => hh) fun k manifests hk => ?_
      have hne : k ≠ key := by
        intro heq
        rw [heq] at hk
        exact absurd ((AList.lookup_erase key s.cache).symm.trans hk) (by simp)
      exact (AList.lookup_erase_ne hne).symm.trans hk
  | createApp req id now =>
      show Provenance site (s.createApp req id now)
      unfold State.createApp
      split
      · refine Provenance.of_events ?_ (State.publish_frame _ _)
        exact hsame _ rfl rfl rfl
      · exact h
  | updateApp name body now =>
      show Provenance site (s.updateApp name body now)
      unfold State.updateApp
      split
      · exact hsame _ rfl rfl rfl
      · exact h
  | deleteApp name => exact hsame _ rfl rfl rfl

/-! ## Runs -/

variable (site)

/-- **Every application is rendered from its own revision.** An entry that the loop writes holds
manifests rendered from the commit that the application asks for. -/
def OwnRevision (s : State) : Event → Prop
  | .render => ∀ job app todo entry, s.stage = .rendering job (app :: todo) →
      ((s.specOf job app).render site.registry s.cache).2.isOk = true →
      (s.render site).store.lookup app.name = some entry →
      ∀ a, s.db.getApplication app.name = some a →
        ∃ commit, targetCommit s.disk a.source = some commit ∧ FromCommit site commit entry.manifests
  | _ => True

variable {site}

theorem Provenance.ownRevision {s : State} {e : Event} (h : Provenance site s)
    (hasks : AsksForRendered site s e) : OwnRevision site s e := by
  cases e with
  | render =>
      intro job app todo entry hstage hwritten hentry a ha
      refine ⟨job.head, h.targetCommit hstage ha hasks, ?_⟩
      cases hok : ((s.specOf job app).render site.registry s.cache).2 with
      | error err =>
          rw [hok] at hwritten
          simp [Except.isOk, Except.toBool] at hwritten
      | ok manifests =>
          obtain rfl := Option.some.inj ((State.lookup_render hstage hok).symm.trans hentry)
          rcases AppRenderSpec.render_ok hok with hhit | hfresh
          · exact h.cache _ manifests hhit
          · exact h.fresh hstage hfresh
  | _ => trivial

/--
**Applications that ask for what is tracked get it.**

For any configured repositories, any stored applications and anything on disk, in any order
of requests, polls and the steps of the tasks, whatever `origin` answers: if every
application that is rendered asks, when its entry is written, for the branch tracked for its
repository, which is still where the loop found it, or for the very commit, then every entry
is rendered from the commit that its application asks for.
-/
theorem rendered_from_own_revision (clone : Nat → Except GitError Pack) (db : Database)
    (disk : Disk) (es : List Event)
    (hasks : Each (step site) (AsksForRendered site) (State.start site clone db disk) es) :
    Each (step site) (OwnRevision site) (State.start site clone db disk) es := by
  intro pre e hp
  have hinv : Provenance site (exec (step site) (State.start site clone db disk) pre) :=
    exec_inv_of_each (fun s e h hc => provenance_step h hc) (provenance_start site clone db disk)
      (hasks.of_prefix ((List.prefix_append pre [e]).trans hp))
  exact hinv.ownRevision (hasks pre e hp)

end

/-- The shop asks for the branch that is tracked. -/
theorem shop_own_revision :
    Each (@step digests .ofBits shopSite) (@OwnRevision digests .ofBits shopSite) shopStart shopRun :=
  @rendered_from_own_revision digests .ofBits shopSite (fun _ => .ok (packOf "c1")) shopDb
    emptyDisk shopRun (by
      unfold shopRun
      rw [each_cons, each_cons, each_cons, each_cons, each_cons, each_cons, each_cons, each_cons]
      refine ⟨trivial, trivial, trivial, trivial, trivial, fun job apps hstage => ?_,
        fun job app todo a hstage ha => ?_, trivial, each_nil⟩
      · obtain ⟨rfl, -⟩ := Stage.listed.inj (shopRun_listed.symm.trans hstage)
        exact writeTree_eq_checkout.mpr fun _ _ => rfl
      · obtain ⟨rfl, htodo⟩ := Stage.rendering.inj
          ((show _ = Stage.rendering shopJob [shopApp] from rfl).symm.trans hstage)
        obtain ⟨rfl, -⟩ := List.cons.inj htodo
        obtain rfl := Option.some.inj (show some shopApp = some a from ha)
        exact ⟨rfl, Or.inl ⟨rfl, rfl⟩⟩)

/-- One repository with two branches, the commit `r1` of which alone has a file `release`. -/
def branchesSite : Site where
  cfgs := [⟨"https://example.com/shop.git", none⟩, ⟨"https://example.com/shop.git", some "release"⟩]
  trees sha := if sha = "r1" then [("release", .blob ⟨[], false⟩)] else []
  registry _ source _ :=
    .ok [configMap (if (source.workDir ["release"]).isSome then "release" else "main") "v1"]

/-- The branch `release` is fetched, and rendered. -/
def releaseRun : List Event :=
  [.subscribe, .poll shopRepo.id (.ok (packOf "c1")) (.ok (packOf "r1")), .bridge shopRepo.id,
    .receive, .list, .materialize none]

/-- **An application that asks for `main` is rendered from `release`.** -/
theorem main_rendered_from_release : ¬ ∀ (site : Site) (clone : Nat → Except GitError Pack)
    (db : Database) (disk : Disk) (es : List Event),
    Each (@step digests .ofBits site) (@OwnRevision digests .ofBits site)
      (@State.start digests site clone db disk) es := by
  intro h
  have hown := (each_snoc.mp (h branchesSite (fun _ => .ok (packOf "c1")) shopDb emptyDisk
    (releaseRun ++ [.render]))).2
  obtain ⟨commit, hcommit, _, path, _, hfrom⟩ := hown ⟨⟨shopRepo.id, shopRepo.url, "release"⟩,
    shopRepo.url, "r1"⟩ shopApp [] ⟨[configMap "release" "v1"], some "r1"⟩ rfl rfl rfl shopApp rfl
  obtain rfl := Option.some.inj (show some "c1" = some commit from hcommit)
  -- a render of the head of `main` finds no file `release`
  have hmain : [configMap "main" "v1"] = [configMap "release" "v1"] := Except.ok.inj hfrom
  have hname := congrArg Manifest.name (List.cons.inj hmain).1
  exact absurd hname (by decide)

end SynchrotronCD.Db.Pipeline
