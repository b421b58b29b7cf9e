import SynchrotronCD.Server.Revisions

/-!
# Renders out of the cache

The key of a cached render is the application's name, the commit and the
parameters. A render also depends on the plugin and the path, which an update may
change, and the call that would drop an application's renders then,
`invalidate_app`, has no caller.

A render out of the cache is as good as one without it where what is cached was
rendered with the same plugin, path and parameters (`SameInputs`). For that a
history runs along: what each cached render was rendered from.
-/

namespace SynchrotronCD.Db.Pipeline

open Lib Git

/-- The pipeline, and what its cache was filled from. -/
structure Recorded where
  state : State
  /-- Proof-only: what the render that is cached under a key was asked for. -/
  origin : AppCacheKey → Option AppRenderSpec

section

variable [Sha256] [FloatText] (site : Site)

/-- What is cached after an event, and from what: a render fills the cache on a miss. -/
def Recorded.recorded (r : Recorded) : Event → AppCacheKey → Option AppRenderSpec
  | .render =>
    match r.state.stage with
    | .rendering job (app :: _) =>
      let spec := r.state.specOf job app
      if r.state.cache.lookup spec.cacheKey = none then
        Function.update r.origin spec.cacheKey (some spec)
      else r.origin
    | _ => r.origin
  | _ => r.origin

def Recorded.step (r : Recorded) (e : Event) : Recorded :=
  ⟨Pipeline.step site r.state e, r.recorded e⟩

/-- The server right after it has started; the cache is empty. -/
def Recorded.start (clone : Nat → Except GitError Pack) (db : Database) (disk : Disk) : Recorded :=
  ⟨State.start site clone db disk, fun _ => none⟩

/-- The application as it is stored now; one that was deleted since it was listed, as it was. -/
def State.stored (s : State) (app : Application) : Application :=
  (s.db.getApplication app.name).getD app

/-- The tree that is rendered is that of the commit: nothing else is in the working directory. -/
def TreeOfCommit (r : Recorded) : Event → Prop
  | .materialize _ => ∀ job apps, r.state.stage = .listed job apps →
      writeTree [] (site.trees job.head) (r.state.disk.work job.workDir)
        = checkout (site.trees job.head)
  | _ => True

/-- What an application is rendered with, now that its turn has come. -/
def currentSpec (s : State) (job : Job) (app : Application) : AppRenderSpec :=
  renderSpec app.name (renderSource (s.stored app)) job.head (checkout (site.trees job.head))

/-- **A render yields what it would without the cache**, with the application's current plugin,
path and parameters. -/
def RendersAsUncached (r : Recorded) : Event → Prop
  | .render => ∀ job app todo, r.state.stage = .rendering job (app :: todo) →
      ((r.state.specOf job app).render site.registry r.state.cache).2
        = (currentSpec site r.state job app).fresh site.registry
  | _ => True

/-- The plugin, the path and the parameters of two renders are the same. -/
structure SameSource (a b : AppRenderSpec) : Prop where
  plugin : a.plugin = b.plugin
  path : a.sourcePath.path = b.sourcePath.path
  params : a.params = b.params

/-- An application that is rendered has not changed its plugin, path or parameters since it was
listed; and if its render is cached, that one was rendered with these too. -/
def SameInputs (r : Recorded) : Event → Prop
  | .render => ∀ job app todo, r.state.stage = .rendering job (app :: todo) →
      SameSource (r.state.specOf job app) (currentSpec site r.state job app)
        ∧ ∀ cached, r.state.cache.lookup (r.state.specOf job app).cacheKey ≠ none →
          r.origin (r.state.specOf job app).cacheKey = some cached →
          SameSource cached (r.state.specOf job app)
  | _ => True

/-! ## The invariant -/

/-- Whatever is cached is what rendering its origin yields, at the commit of the key. -/
def OriginKnown (r : Recorded) : Prop :=
  ∀ key manifests, r.state.cache.lookup key = some manifests → ∃ spec, r.origin key = some spec
    ∧ spec.sourcePath.workDir = checkout (site.trees key.commitHash)
    ∧ spec.fresh site.registry = .ok manifests

variable {site}

omit [Sha256] [FloatText] in
theorem SameSource.fresh {a b : AppRenderSpec} (h : SameSource a b)
    (hdir : a.sourcePath.workDir = b.sourcePath.workDir) (registry : Registry) :
    a.fresh registry = b.fresh registry := by
  obtain ⟨_, _, _, ⟨dir, path⟩, _⟩ := a
  obtain ⟨_, _, _, ⟨dir', path'⟩, _⟩ := b
  obtain ⟨rfl, rfl, rfl⟩ := h
  obtain rfl : dir = dir' := hdir
  rfl

/-- Only a render and an eviction touch the cache. -/
theorem cache_step {s : State} {e : Event} (he : e ≠ .render) (hevict : ∀ key, e ≠ .evict key) :
    (step site s e).cache = s.cache := by
  cases e with
  | render => exact absurd rfl he
  | evict key => exact absurd rfl (hevict key)
  | poll id clone answer =>
      show (s.poll site id clone answer).cache = s.cache
      rcases s.poll_cases site id clone answer with heq | ⟨repo, -, heq⟩ <;> rw [heq]
  | bridge id => exact (s.bridge_frame site id).cache
  | receive =>
      show (s.receive site).cache = s.cache
      rcases s.receive_cases site with heq | ⟨ev, rest, -, -, heq⟩ <;> rw [heq]
  | list =>
      show s.list.cache = s.cache
      rcases s.list_cases with heq | ⟨job, apps, -, -, heq⟩ <;> rw [heq]
  | materialize fault =>
      show (s.materialize site fault).cache = s.cache
      rcases s.materialize_cases site fault with
        heq | ⟨job, apps, -, ⟨disk, -, -, heq⟩ | ⟨-, -, heq⟩⟩ <;> rw [heq]
  | createApp req id now =>
      show (s.createApp req id now).cache = s.cache
      unfold State.createApp
      split
      · exact (State.publish_frame _ _).cache
      · rfl
  | updateApp name body now =>
      show (s.updateApp name body now).cache = s.cache
      unfold State.updateApp
      split <;> rfl
  | pollLag | subscribe | lag | deleteApp => rfl

/-- Only a render puts anything into the cache. -/
theorem lookup_step {s : State} {e : Event} (he : e ≠ .render) {key : AppCacheKey}
    {manifests : List Manifest} (h : (step site s e).cache.lookup key = some manifests) :
    s.cache.lookup key = some manifests := by
  by_cases hevict : ∃ k, e = .evict k
  · obtain ⟨k, rfl⟩ := hevict
    have hk : (s.cache.erase k).lookup key = some manifests := h
    by_cases hne : key = k
    · rw [hne, AList.lookup_erase] at hk
      simp at hk
    · rw [AList.lookup_erase_ne hne] at hk
      exact hk
  · push Not at hevict
    rw [← cache_step he hevict]
    exact h

/-- The cache after a render. -/
theorem cache_render {s : State} {job : Job} {app : Application} {todo : List Application}
    (hstage : s.stage = .rendering job (app :: todo)) :
    (s.render site).cache = ((s.specOf job app).render site.registry s.cache).1 := by
  unfold State.render State.specOf
  rw [hstage]
  dsimp only
  generalize (renderSpec app.name (renderSource app) job.head (s.disk.work job.workDir)).render
    site.registry s.cache = res
  obtain ⟨cache, result⟩ := res
  cases result with
  | ok manifests => exact (State.publish_frame _ _).cache
  | error err => exact (State.publish_frame _ _).cache

/-- The specification a key was rendered from is recorded at the render that misses. -/
theorem origin_render {r : Recorded} {job : Job} {app : Application} {todo : List Application}
    (hstage : r.state.stage = .rendering job (app :: todo)) : (r.step site .render).origin
      = if r.state.cache.lookup (r.state.specOf job app).cacheKey = none then
          Function.update r.origin (r.state.specOf job app).cacheKey (some (r.state.specOf job app))
        else r.origin := by
  show r.recorded .render = _
  unfold Recorded.recorded
  rw [hstage]

theorem originKnown_render {r : Recorded} (h : OriginKnown site r) (hprov : Provenance site r.state)
    {job : Job} {app : Application} {todo : List Application}
    (hstage : r.state.stage = .rendering job (app :: todo)) :
    OriginKnown site (r.step site .render) := by
  intro key manifests hk
  have hk : ((r.state.specOf job app).render site.registry r.state.cache).1.lookup key
      = some manifests := by
    rw [← cache_render hstage]
    exact hk
  have hdir := hprov.workDir job (app :: todo) hstage
  rw [origin_render hstage]
  by_cases hmiss : r.state.cache.lookup (r.state.specOf job app).cacheKey = none
  · rw [if_pos hmiss]
    rcases AppRenderSpec.lookup_render hk with hold | ⟨rfl, hok⟩
    · obtain ⟨spec, hspec⟩ := h key manifests hold
      have hne : key ≠ (r.state.specOf job app).cacheKey := by
        intro heq
        rw [heq, hmiss] at hold
        simp at hold
      rw [Function.update_of_ne hne]
      exact ⟨spec, hspec⟩
    · rw [Function.update_self]
      exact ⟨_, rfl, hdir, hok⟩
  · -- a hit leaves the cache as it is
    rw [if_neg hmiss]
    obtain ⟨hit, hhit⟩ := Option.ne_none_iff_exists'.mp hmiss
    unfold AppRenderSpec.render at hk
    rw [hhit] at hk
    exact h key manifests hk

/-- With nothing left to render, the event changes nothing. -/
theorem step_idle {r : Recorded}
    (hidle : ∀ job app todo, r.state.stage ≠ .rendering job (app :: todo)) :
    r.step site .render = r := by
  have hstate : r.state.render site = r.state := by
    rcases r.state.render_cases site with heq | ⟨job, app, todo, hstage, -⟩
    · exact heq
    · exact absurd hstage (hidle job app todo)
  have horigin : r.recorded .render = r.origin := by
    unfold Recorded.recorded
    dsimp only
    split
    · rename_i job app todo hstage
      exact absurd hstage (hidle job app todo)
    · rfl
  show Recorded.mk (r.state.render site) (r.recorded .render) = r
  rw [hstate, horigin]

theorem originKnown_step {r : Recorded} {e : Event} (h : OriginKnown site r)
    (hprov : Provenance site r.state) : OriginKnown site (r.step site e) := by
  by_cases he : e = .render
  · subst he
    by_cases hr : ∃ job app todo, r.state.stage = .rendering job (app :: todo)
    · obtain ⟨job, app, todo, hstage⟩ := hr
      exact originKnown_render h hprov hstage
    · push Not at hr
      rw [step_idle hr]
      exact h
  · intro key manifests hk
    obtain ⟨spec, horigin, hspec⟩ := h key manifests (lookup_step he hk)
    have hsame : (r.step site e).origin = r.origin := by
      cases e with
      | render => exact absurd rfl he
      | _ => rfl
    exact ⟨spec, by rw [hsame]; exact horigin, hspec⟩

/-- A render of the inputs that its cache entry, if there is one, was rendered from. -/
theorem OriginKnown.renders {r : Recorded} {e : Event} (h : OriginKnown site r)
    (hprov : Provenance site r.state) (hsame : SameInputs site r e) : RendersAsUncached site r e := by
  cases e with
  | render =>
      intro job app todo hstage
      obtain ⟨hcurrent, hcached⟩ := hsame job app todo hstage
      have hdir := hprov.workDir job (app :: todo) hstage
      rw [← hcurrent.fresh hdir site.registry]
      unfold AppRenderSpec.render
      cases hhit : r.state.cache.lookup (r.state.specOf job app).cacheKey with
      | none => cases (r.state.specOf job app).fresh site.registry <;> rfl
      | some hit =>
          obtain ⟨spec, horigin, hspecdir, hok⟩ := h _ _ hhit
          have hsource := hcached spec (by rw [hhit]; simp) horigin
          rw [← hsource.fresh (hspecdir.trans hdir.symm) site.registry, hok]
  | _ => trivial

/-! ## Runs -/

/-- The pipeline of a recorded run is a run of the pipeline. -/
theorem provenance_recorded {r : Recorded} {e : Event} (h : Provenance site r.state)
    (htree : TreeOfCommit site r e) : Provenance site (r.step site e).state := by
  by_cases he : e = .render
  · subst he
    exact provenance_render h
  · refine provenance_step h ?_
    cases e with
    | render => exact absurd rfl he
    | materialize fault => exact htree
    | _ => trivial

variable (site)

/--
**Renders from unchanged inputs are as good as uncached.**

For any repositories, stored applications and anything on disk, in any order of polls,
requests, evictions and renders, where the tree that is rendered is that of the commit:
if an application's plugin, path and parameters are, when it is rendered, as it was listed
with, and as its cached render for the commit and these parameters was made with, if there
is one, then every render yields what the plugin yields for the current ones.
-/
theorem renders_as_uncached (clone : Nat → Except GitError Pack) (db : Database) (disk : Disk)
    (es : List Event)
    (htree : Each (Recorded.step site) (TreeOfCommit site) (Recorded.start site clone db disk) es)
    (hsame : Each (Recorded.step site) (SameInputs site) (Recorded.start site clone db disk) es) :
    Each (Recorded.step site) (RendersAsUncached site) (Recorded.start site clone db disk) es := by
  intro pre e hp
  have hinv : ∀ {es}, Each (Recorded.step site) (TreeOfCommit site)
      (Recorded.start site clone db disk) es →
      Provenance site (exec (Recorded.step site) (Recorded.start site clone db disk) es).state
        ∧ OriginKnown site (exec (Recorded.step site) (Recorded.start site clone db disk) es) :=
    exec_inv_of_each
      (P := fun r => Provenance site r.state ∧ OriginKnown site r)
      (fun r e h ht => ⟨provenance_recorded h.1 ht, originKnown_step h.2 h.1⟩)
      ⟨provenance_start site clone db disk, fun key manifests hk => absurd hk (by
        simp [Recorded.start, State.start])⟩
  obtain ⟨hprov, hknown⟩ := hinv (htree.of_prefix ((List.prefix_append pre [e]).trans hp))
  exact hknown.renders hprov (hsame pre e hp)

end

/-! ## The shop moves to another path -/

abbrev shopStep : Recorded → Event → Recorded := @Recorded.step digests .ofBits shopSite

def shopRecorded : Recorded :=
  @Recorded.start digests shopSite (fun _ => .ok (packOf "c1")) shopDb emptyDisk

/-- The first render of the shop starts from nothing. -/
theorem shopRun_tree : Each shopStep (TreeOfCommit shopSite) shopRecorded shopRun := by
  unfold shopRun
  rw [each_cons, each_cons, each_cons, each_cons, each_cons, each_cons, each_cons, each_cons]
  refine ⟨trivial, trivial, trivial, trivial, trivial, fun job apps hstage => ?_, trivial, trivial,
    each_nil⟩
  obtain ⟨rfl, -⟩ := Stage.listed.inj (shopRun_listed.symm.trans hstage)
  exact writeTree_eq_checkout.mpr fun _ _ => rfl

theorem shopRun_as_uncached :
    Each shopStep (@RendersAsUncached digests .ofBits shopSite) shopRecorded shopRun :=
  @renders_as_uncached digests .ofBits shopSite (fun _ => .ok (packOf "c1")) shopDb emptyDisk
    shopRun shopRun_tree (by
      unfold shopRun
      rw [each_cons, each_cons, each_cons, each_cons, each_cons, each_cons, each_cons, each_cons]
      refine ⟨trivial, trivial, trivial, trivial, trivial, trivial,
        fun job app todo hstage => ?_, trivial, each_nil⟩
      obtain ⟨rfl, htodo⟩ := Stage.rendering.inj
        ((show _ = Stage.rendering shopJob [shopApp] from rfl).symm.trans hstage)
      obtain ⟨rfl, -⟩ := List.cons.inj htodo
      -- nothing is cached yet
      exact ⟨⟨rfl, rfl, rfl⟩, fun cached hhit => absurd rfl hhit⟩)

/-- A second application of the shop's repository. -/
def toolRequest : CreateAppRequest where
  name := "tool"
  «namespace» := "synchrotron-system"
  repoUrl := "https://example.com/shop.git"
  path := "tool"
  targetRevision := "main"
  plugin := none
  destCluster := "prod"
  destNamespace := "tool"

/-- The shop moves, and another application of its repository has the loop come by again. -/
def movedRun : List Event :=
  shopRun ++ [.updateApp "shop" repath 7, .createApp toolRequest "2" 8, .receive, .list]
    ++ [.materialize none]

/-- The shop as it is after it has moved. -/
def movedApp : Application :=
  { shopApp with source := { shopApp.source with path := "overlays/prod" }, updatedAt := 7 }

/-- Where the loop is when the shop's turn comes again. -/
theorem movedRun_stage : (exec shopStep shopRecorded movedRun).state.stage
    = .rendering shopJob [movedApp, toolRequest.application "2" 8] := rfl

theorem movedRun_tree : Each shopStep (TreeOfCommit shopSite) shopRecorded movedRun := by
  refine each_snoc.mpr ⟨?_, fun job apps hstage => ?_⟩
  · refine shopRun_tree.append_of_forall ?_
    intro r e he
    simp only [List.mem_cons, List.not_mem_nil, or_false] at he
    rcases he with rfl | rfl | rfl | rfl <;> trivial
  · -- the working directory holds the empty tree already
    obtain ⟨rfl, -⟩ := Stage.listed.inj
      ((show _ = Stage.listed shopJob [movedApp, toolRequest.application "2" 8] from rfl).symm.trans
        hstage)
    exact writeTree_eq_checkout.mpr fun _ _ => rfl

/-- **The shop has moved, and is rendered from where it was.** -/
theorem moved_app_rendered_from_old_path : ¬ ∀ (site : Site) (clone : Nat → Except GitError Pack)
    (db : Database) (disk : Disk) (es : List Event),
    Each (@Recorded.step digests .ofBits site) (TreeOfCommit site)
      (@Recorded.start digests site clone db disk) es →
    Each (@Recorded.step digests .ofBits site) (@RendersAsUncached digests .ofBits site)
      (@Recorded.start digests site clone db disk) es := by
  intro h
  have htree : Each shopStep (TreeOfCommit shopSite) shopRecorded (movedRun ++ [.render]) :=
    each_snoc.mpr ⟨movedRun_tree, trivial⟩
  have hend := (each_snoc.mp (h shopSite (fun _ => .ok (packOf "c1")) shopDb emptyDisk _ htree)).2
  have hrendered := hend shopJob movedApp [toolRequest.application "2" 8] movedRun_stage
  have hbodies : [configMap "deploy" "v1"] = [configMap "overlaysprod" "v1"] :=
    Except.ok.inj hrendered
  have hname := congrArg Manifest.name (List.cons.inj hbodies).1
  exact absurd hname (by decide)

end SynchrotronCD.Db.Pipeline
