import SynchrotronCD.Server.PipelineProof

/-!
# When the desired-state store follows the table

Whoever makes an entry of the store wrong has to see to it that the render loop
comes by again: a fetch that moves a branch announces it, and a created
application announces itself. An update or a deletion announces nothing, so the
store follows the table only where they concern no entry, or something else
announces the repository (`Repairs`).

Then an entry is right, or an announcement of its repository is pending, or the
loop has it in hand (`Following`).
-/

namespace SynchrotronCD.Db.Pipeline

open Lib Git

/-! ## What is on its way -/

/-- The events about a repository that the render loop is going to receive: what is on the bus,
and what the bridge is going to put there. -/
def pending (s : State) (repo : Repo) : List SystemEvent :=
  s.bus ++ (s.polls repo.id).filterMap (State.bridged repo.url)

/-- The head an event announces of a repository. -/
def headIn (url : String) : SystemEvent → Option Sha
  | .repoChanged u h => if u = url then some h else none
  | _ => none

/-- The event makes the render loop render the applications of a repository. -/
def Wakes (url : String) (e : SystemEvent) : Prop :=
  (∃ h, e = .repoChanged url h) ∨ ∃ app, e = .appChanged app url

section

variable [Sha256] (site : Site)

/-- The render loop is going to render the applications of a repository once more. -/
def Announced (s : State) (url : String) : Prop :=
  ∃ repo, (urlToRepo site.cfgs).lookup url = some repo ∧ s.disk.head repo ≠ none
    ∧ ∃ e ∈ pending s repo, Wakes url e

/-- What a render of an application has to yield: its path and plugin, at the head of its
repository. -/
def Current (s : State) (a : Application) (entry : DesiredEntry) : Prop :=
  ∃ repo head, (urlToRepo site.cfgs).lookup a.source.repoUrl = some repo
    ∧ s.disk.head repo = some head ∧ entry.revision = some head
    ∧ (renderSpec a.name (renderSource a) head (checkout (site.trees head))).fresh site.registry
      = .ok entry.manifests

/-- **The store follows the table**, whenever nothing is on its way any more. -/
def FollowsTable (s : State) : Prop :=
  Drained s → ∀ name entry, s.store.lookup name = some entry →
    ∃ a, s.db.getApplication name = some a ∧ Current site s a entry

/-! ## The condition -/

variable [FloatText]

/-- Every render succeeds. -/
def RendersSucceed (s : State) : Event → Prop
  | .materialize fault => ∀ job apps, s.stage = .listed job apps →
      fault = none ∧ s.disk.Has job.repo.id job.head
  | .render => ∀ job app todo, s.stage = .rendering job (app :: todo) →
      ((s.specOf job app).fresh site.registry).isOk = true
  | _ => True

/-- An update of what is rendered, and a deletion, finds no entry and nothing in the loop's hands,
or for an update something that announces the new repository; nothing else is in the working
directory, and the cache holds what a render would yield; no receiver loses an announcement. -/
def Repairs (s : State) : Event → Prop
  | .updateApp name body now => ∀ req a, UpdateAppRequest.deserialize body = .ok req →
      s.db.getApplication name = some a → renderSource (req.apply a now) = renderSource a
        ∨ (s.store.lookup name = none ∧ ∀ x ∈ s.stage.apps, x.name ≠ name)
        ∨ Announced site s (req.apply a now).source.repoUrl
        ∨ ∃ job, s.stage = .resolved job ∧ job.url = (req.apply a now).source.repoUrl
  | .deleteApp name => s.db.getApplication name ≠ none →
      s.store.lookup name = none ∧ ∀ x ∈ s.stage.apps, x.name ≠ name
  | .materialize _ => ∀ job apps, s.stage = .listed job apps →
      writeTree [] (site.trees job.head) (s.disk.work job.workDir) = checkout (site.trees job.head)
  | .render => ∀ job app todo, s.stage = .rendering job (app :: todo) →
      ∀ hit, s.cache.lookup (s.specOf job app).cacheKey = some hit →
        (s.specOf job app).fresh site.registry = .ok hit
  | .pollLag id n => ∀ ev ∈ (s.polls id).take n, ∀ url head,
      State.bridged url ev ≠ some (.repoChanged url head)
  | .lag n => ∀ e ∈ s.bus.take n, ∀ url, ¬ Wakes url e
  | _ => True

end

/-! ## The invariant -/

/-- The loop is going to render this application at the head, as the table has it. -/
def InHand (s : State) (a : Application) : Prop :=
  ∃ job, s.stage.job = some job ∧ job.url = a.source.repoUrl ∧ s.disk.head job.repo = some job.head
    ∧ (s.stage = .resolved job
      ∨ ∃ x ∈ s.stage.apps, x.name = a.name ∧ renderSource x = renderSource a)

theorem InHand.congr {s : State} {a a' : Application} (h : InHand s a) (hname : a'.name = a.name)
    (hsource : renderSource a' = renderSource a) : InHand s a' := by
  have hurl : a'.source.repoUrl = a.source.repoUrl := congrArg RenderSource.repoUrl hsource
  unfold InHand
  rw [hname, hsource, hurl]
  exact h

section

variable [Sha256] (site : Site)

structure Following (s : State) : Prop where
  /-- Before the loop runs, nothing has been rendered. -/
  fresh : s.subscribed = false → s.store = ∅ ∧ s.stage = .idle ∧ s.bus = []
  /-- The last announcement is of the head. -/
  heads : ∀ url repo, (urlToRepo site.cfgs).lookup url = some repo → ∀ h,
    ((pending s repo).filterMap (headIn url)).getLast? = some h → s.disk.head repo = some h
  /-- The loop works on a configured repository at its head, or will be back. -/
  job : ∀ job, s.stage.job = some job → (urlToRepo site.cfgs).lookup job.url = some job.repo
    ∧ (s.disk.head job.repo = some job.head ∨ Announced site s job.url)
  /-- What it has in hand is as in the table, or it will be back. -/
  apps : ∀ x ∈ s.stage.apps, (∃ job, s.stage.job = some job ∧ x.source.repoUrl = job.url)
    ∧ ∃ a, s.db.getApplication x.name = some a
      ∧ (renderSource x = renderSource a ∨ Announced site s a.source.repoUrl)
  workDir : ∀ job todo, s.stage = .rendering job todo →
    s.disk.work job.workDir = checkout (site.trees job.head)
  /-- An entry is right, or the loop will be back, or has it in hand. -/
  entries : ∀ name entry, s.store.lookup name = some entry →
    ∃ a, s.db.getApplication name = some a
      ∧ (Current site s a entry ∨ Announced site s a.source.repoUrl ∨ InHand s a)

theorem following_start (clone : Nat → Except GitError Pack) (db : Database) (disk : Disk) :
    Following site (State.start site clone db disk) where
  fresh _ := ⟨rfl, rfl, rfl⟩
  heads _ _ _ _ h := absurd h (by simp [pending, State.start])
  job _ h := absurd h (by simp [State.start, Stage.job])
  apps _ h := absurd h (by simp [State.start, Stage.apps])
  workDir _ _ h := absurd h (by simp [State.start])
  entries _ _ h := absurd h (by simp [State.start])

variable {site}

/-- A loop that is at work has subscribed. -/
theorem Following.listens {s : State} (h : Following site s) (hstage : s.stage ≠ .idle) :
    s.subscribed ≠ false := fun hs => hstage (h.fresh hs).2.1

theorem Announced.mono {s s' : State} {url : String} (h : Announced site s url)
    (hhead : ∀ repo, (urlToRepo site.cfgs).lookup url = some repo → s.disk.head repo ≠ none →
      s'.disk.head repo ≠ none)
    (hwakes : ∀ repo, (urlToRepo site.cfgs).lookup url = some repo → ∀ e ∈ pending s repo,
      Wakes url e → e ∈ pending s' repo) : Announced site s' url := by
  obtain ⟨repo, hrepo, hne, e, he, hw⟩ := h
  exact ⟨repo, hrepo, hhead repo hrepo hne, e, hwakes repo hrepo e he hw, hw⟩

/-- Two rows of which a render takes the same. -/
theorem Current.congr {s : State} {a a' : Application} {entry : DesiredEntry}
    (h : Current site s a entry) (hname : a'.name = a.name)
    (hsource : renderSource a' = renderSource a) : Current site s a' entry := by
  have hurl : a'.source.repoUrl = a.source.repoUrl := congrArg RenderSource.repoUrl hsource
  unfold Current
  rw [hname, hsource, hurl]
  exact h

/-- A step that leaves the table, the store and the loop where they are. -/
theorem Following.of_world {s s' : State} (h : Following site s) (hdb : s'.db = s.db)
    (hstore : s'.store = s.store) (hstage : s'.stage = s.stage)
    (hwork : s'.disk.work = s.disk.work)
    (hfresh : s'.subscribed = false → s.subscribed = false ∧ s'.bus = [])
    (hheads : ∀ url repo, (urlToRepo site.cfgs).lookup url = some repo → ∀ h,
      ((pending s' repo).filterMap (headIn url)).getLast? = some h → s'.disk.head repo = some h)
    (hmoved : ∀ url repo, (urlToRepo site.cfgs).lookup url = some repo → ∀ h,
      s.disk.head repo = some h → s'.disk.head repo = some h ∨ Announced site s' url)
    (hann : ∀ url, Announced site s url → Announced site s' url) : Following site s' := by
  refine ⟨fun hs => ?_, hheads, fun job hj => ?_, fun x hx => ?_, fun job todo hj => ?_,
    fun name entry he => ?_⟩
  · obtain ⟨hsub, hbus⟩ := hfresh hs
    obtain ⟨hempty, hidle, -⟩ := h.fresh hsub
    exact ⟨hstore.trans hempty, hstage.trans hidle, hbus⟩
  · rw [hstage] at hj
    obtain ⟨hrepo, hhead⟩ := h.job job hj
    refine ⟨hrepo, ?_⟩
    rcases hhead with hhead | han
    · exact hmoved _ _ hrepo _ hhead
    · exact Or.inr (hann _ han)
  · rw [hstage] at hx ⊢
    obtain ⟨hjob, a, ha, hsrc⟩ := h.apps x hx
    rw [hdb]
    exact ⟨hjob, a, ha, hsrc.imp_right (hann _)⟩
  · rw [hstage] at hj
    rw [hwork]
    exact h.workDir job todo hj
  · rw [hstore] at he
    obtain ⟨a, ha, hok⟩ := h.entries name entry he
    rw [hdb]
    refine ⟨a, ha, ?_⟩
    rcases hok with ⟨repo, head, hrepo, hhead, hrev, hfr⟩ | han | ⟨job, hj, hurl, hhead, hin⟩
    · rcases hmoved _ _ hrepo _ hhead with hhead | han
      · exact Or.inl ⟨repo, head, hrepo, hhead, hrev, hfr⟩
      · exact Or.inr (Or.inl han)
    · exact Or.inr (Or.inl (hann _ han))
    · rcases hmoved _ _ (h.job job hj).1 _ hhead with hhead | han
      · refine Or.inr (Or.inr ⟨job, ?_, hurl, hhead, ?_⟩)
        · rw [hstage]
          exact hj
        · rw [hstage]
          exact hin
      · rw [hurl] at han
        exact Or.inr (Or.inl han)

/-- A step that only concerns events, and once the loop listens loses none that matters. -/
theorem Following.of_events {s s' : State} (h : Following site s) (hdb : s'.db = s.db)
    (hdisk : s'.disk = s.disk) (hstore : s'.store = s.store) (hstage : s'.stage = s.stage)
    (hfresh : s'.subscribed = false → s.subscribed = false ∧ s'.bus = [])
    (hheads : ∀ url repo, (urlToRepo site.cfgs).lookup url = some repo → ∀ h,
      ((pending s' repo).filterMap (headIn url)).getLast? = some h →
      ((pending s repo).filterMap (headIn url)).getLast? = some h)
    (hwakes : s.subscribed = true → ∀ url repo, (urlToRepo site.cfgs).lookup url = some repo →
      ∀ e ∈ pending s repo, Wakes url e → e ∈ pending s' repo) : Following site s' := by
  have hheads' : ∀ url repo, (urlToRepo site.cfgs).lookup url = some repo → ∀ h,
      ((pending s' repo).filterMap (headIn url)).getLast? = some h →
      s'.disk.head repo = some h := by
    intro url repo hrepo head hl
    rw [hdisk]
    exact h.heads url repo hrepo head (hheads url repo hrepo head hl)
  cases hsub : s.subscribed with
  | true =>
      refine h.of_world hdb hstore hstage (by rw [hdisk]) hfresh hheads'
        (fun url repo _ head hh => Or.inl (by rw [hdisk]; exact hh)) fun url ha => ?_
      exact ha.mono (fun repo _ hne => by rw [hdisk]; exact hne) (hwakes hsub url)
  | false =>
      -- nothing has been rendered yet
      obtain ⟨hempty, hidle, -⟩ := h.fresh hsub
      have hidle' : s'.stage = .idle := hstage.trans hidle
      refine ⟨fun hs => ⟨hstore.trans hempty, hidle', (hfresh hs).2⟩, hheads', fun job hj => ?_,
        fun x hx => ?_, fun job todo hj => ?_, fun name entry he => ?_⟩
      · rw [hidle'] at hj
        simp [Stage.job] at hj
      · rw [hidle'] at hx
        simp [Stage.apps] at hx
      · rw [hidle'] at hj
        simp at hj
      · rw [hstore, hempty] at he
        simp at he

theorem Following.follows {s : State} (h : Following site s) : FollowsTable site s := by
  intro hdrained name entry he
  obtain ⟨a, ha, hok⟩ := h.entries name entry he
  refine ⟨a, ha, ?_⟩
  rcases hok with hcur | ⟨repo, -, -, e, hpend, -⟩ | ⟨job, hj, -⟩
  · exact hcur
  · rw [pending, hdrained.bus, hdrained.polls] at hpend
    simp at hpend
  · rw [hdrained.stage] at hj
    simp [Stage.job] at hj

end

end SynchrotronCD.Db.Pipeline
