import SynchrotronCD.Server.PipelineProof

/-!
# What is rendered after start

A poll announces a repository only if its branch moved. The clones are made before
the first poll, so unless the branch moves in between, or a clone that was on disk
is behind, the first successful poll announces nothing, and no application is
rendered (`unmoved_unrendered`). Where it does announce something, every stored
application of the repository is on its way into the store until it is there or
its render has failed (`Seeded`).
-/

namespace SynchrotronCD.Db.Pipeline

open Lib Git

/-- A request to the API. -/
def Event.IsRequest : Event → Prop
  | .createApp _ _ _ | .updateApp _ _ _ | .deleteApp _ => True
  | _ => False

section

variable [Sha256] (site : Site)

/--
**Every application is rendered.** When nothing is on its way any more, each stored
application of a repository that was polled with success has an entry, unless its render
failed.
-/
def RenderedAfterPoll (s : State) : Prop :=
  Drained s → ∀ id ∈ s.polled, ∀ repo, (buildRepoMap site.cfgs).lookup id = some repo →
    ∀ a, s.db.getApplication a.name = some a → a.source.repoUrl = repo.url → a.name ∉ s.failed →
      ∃ entry, s.store.lookup a.name = some entry

/-- The first successful poll of a repository finds its branch moved, or not in the clone; what is
then announced reaches the render loop. -/
def Seeds (s : State) : Event → Prop
  | .poll id clone answer => ∀ repo pack, id ∉ s.polled →
      (buildRepoMap site.cfgs).lookup id = some repo → answer = .ok pack →
      (s.disk.ensureCloned repo clone).1.head repo ≠ some pack.head
  | .bridge id => ∀ ev rest url head, s.polls id = ev :: rest →
      State.bridged url ev = some (.repoChanged url head) → s.subscribed = true
  | .pollLag id n => ∀ ev ∈ (s.polls id).take n, ∀ url head,
      State.bridged url ev ≠ some (.repoChanged url head)
  | .lag n => ∀ url head, .repoChanged url head ∉ s.bus.take n
  | _ => True

end

/-- The render loop is going to render this application. -/
def Stage.Awaits (a : Application) : Stage → Prop
  | .idle => False
  | .resolved job => job.url = a.source.repoUrl
  | .listed _ apps => a ∈ apps
  | .rendering _ todo => a ∈ todo

/-- An announcement of the repository is on its way, or the loop is about to render this
application. -/
def Coming (s : State) (id : RepoId) (url : String) (a : Application) : Prop :=
  (∃ head, .repoChanged url head ∈ s.bus)
    ∨ (∃ ev ∈ s.polls id, ∃ head, State.bridged url ev = some (.repoChanged url head))
    ∨ s.stage.Awaits a

/-- An entry is there, or there is a reason why not. -/
def Settled (s : State) (a : Application) : Prop :=
  (∃ entry, s.store.lookup a.name = some entry) ∨ a.name ∈ s.failed

theorem Coming.mono {s s' : State} {id : RepoId} {url : String} {a : Application}
    (h : Coming s id url a) (hbus : s.bus ⊆ s'.bus) (hpolls : s.polls id ⊆ s'.polls id)
    (hstage : s.stage.Awaits a → s'.stage.Awaits a) : Coming s' id url a := by
  rcases h with ⟨head, hmem⟩ | ⟨ev, hev, head, hb⟩ | hst
  · exact Or.inl ⟨head, hbus hmem⟩
  · exact Or.inr (Or.inl ⟨ev, hpolls hev, head, hb⟩)
  · exact Or.inr (Or.inr (hstage hst))

/-- A step of the loop, with which an application that it was about to render may be settled. -/
theorem Coming.of_loop {s s' : State} {id : RepoId} {url : String} {a : Application}
    (h : Coming s id url a) (hbus : s'.bus = s.bus) (hpolls : s'.polls = s.polls)
    (hstage : s.stage.Awaits a → Settled s' a ∨ s'.stage.Awaits a) :
    Settled s' a ∨ Coming s' id url a := by
  rcases h with hb | hp | hst
  · rw [← hbus] at hb
    exact Or.inr (Or.inl hb)
  · rw [← hpolls] at hp
    exact Or.inr (Or.inr (Or.inl hp))
  · exact (hstage hst).imp_right fun hst => Or.inr (Or.inr hst)

section

variable [Sha256] (site : Site)

/-- Each stored application of a polled repository has its entry, or failed, or is on its way. -/
def Seeded (s : State) : Prop :=
  ∀ id ∈ s.polled, ∀ repo, (buildRepoMap site.cfgs).lookup id = some repo →
    ∀ a, s.db.getApplication a.name = some a → a.source.repoUrl = repo.url →
      Settled s a ∨ Coming s id repo.url a

variable {site}

/-- What is settled stays so, and what is coming stays so or is settled. -/
theorem Seeded.of_step {s s' : State} (h : Seeded site s) (hdb : s'.db = s.db)
    (hpolled : s'.polled = s.polled) (hsettled : ∀ a, Settled s a → Settled s' a)
    (hcoming : ∀ id repo a, (buildRepoMap site.cfgs).lookup id = some repo →
      s.db.getApplication a.name = some a → a.source.repoUrl = repo.url →
      Coming s id repo.url a → Settled s' a ∨ Coming s' id repo.url a) : Seeded site s' := by
  intro id hid repo hrepo a ha hurl
  rw [hpolled] at hid
  rw [hdb] at ha
  rcases h id hid repo hrepo a ha hurl with hs | hc
  · exact Or.inl (hsettled a hs)
  · exact hcoming id repo a hrepo ha hurl hc

/-- Publishing loses nothing. -/
theorem Seeded.publish {s : State} (h : Seeded site s) (e : SystemEvent) :
    Seeded site (s.publish e) := by
  have hf := s.publish_frame e
  refine h.of_step hf.db hf.polled (fun a hs => ?_) fun id repo a _ _ _ hc => Or.inr ?_
  · unfold Settled
    rw [hf.store, hf.failed]
    exact hs
  · refine hc.mono (fun _ hx => State.mem_publish hx) ?_ ?_
    · rw [State.publish_polls]
      exact fun _ hx => hx
    · rw [hf.stage]
      exact fun hx => hx

theorem seeded_poll {s : State} (h : Seeded site s) {id : RepoId} {clone answer : Except GitError Pack}
    (hseeds : Seeds site s (.poll id clone answer)) : Seeded site (s.poll site id clone answer) := by
  rcases s.poll_cases site id clone answer with heq | ⟨repo, hrepo, heq⟩
  · rw [heq]
    exact h
  rw [heq]
  intro i hi repo' hrepo' a ha hurl
  have hpolls : ∀ j, s.polls j ⊆ Function.update s.polls id
      (s.polls id ++ [State.pollEvent (s.disk.fetch repo clone answer).2]) j := by
    intro j
    by_cases hj : j = id
    · rw [hj, Function.update_self]
      exact List.subset_append_left _ _
    · rw [Function.update_of_ne hj]
      exact fun _ hx => hx
  by_cases hold : i ∈ s.polled
  · exact (h i hold repo' hrepo' a ha hurl).imp_right
      fun hc => hc.mono (fun _ hx => hx) (hpolls i) (fun hx => hx)
  · -- the first successful poll: what it fetched was not there before
    dsimp only at hi
    cases hf : (s.disk.fetch repo clone answer).2 with
    | error e =>
        rw [hf] at hi
        exact absurd hi hold
    | ok res =>
        rw [hf] at hi
        rcases List.mem_cons.mp hi with rfl | hi
        · obtain rfl := Option.some.inj (hrepo.symm.trans hrepo')
          obtain ⟨-, -, hprev, pack, hpack, hcur⟩ := Disk.fetch_ok hf
          have hne := hseeds repo pack hold hrepo hpack
          refine Or.inr (Or.inr (Or.inl ⟨.fetched res, ?_, res.currentHead, ?_⟩))
          · show _ ∈ Function.update s.polls i _ i
            rw [Function.update_self]
            exact List.mem_append_right _ (List.mem_singleton_self _)
          · exact State.bridged_eq_repoChanged.mpr
              ⟨rfl, res, rfl, by rw [hprev, ← hcur]; exact hne, rfl⟩
        · exact absurd hi hold

theorem seeded_bridge {s : State} (h : Seeded site s) {id : RepoId}
    (hseeds : Seeds site s (.bridge id)) : Seeded site (s.bridge site id) := by
  rcases s.bridge_cases site id with heq | ⟨repo, ev, rest, hrepo, hpolls, heq⟩
  · rw [heq]
    exact h
  have hbus : ∀ {b : Option SystemEvent}, s.bus
      ⊆ (b.elim { s with polls := Function.update s.polls id rest }
        { s with polls := Function.update s.polls id rest }.publish).bus := by
    intro b
    cases b with
    | none => exact fun _ hx => hx
    | some e => exact fun _ hx => State.mem_publish hx
  have hf := s.bridge_frame site id
  refine h.of_step hf.db hf.polled (fun a hs => ?_) fun i repo' a hrepo' ha hurl hc => Or.inr ?_
  · unfold Settled
    rw [hf.store, hf.failed]
    exact hs
  · rcases hc with ⟨head, hmem⟩ | ⟨ev', hev', head, hb⟩ | hst
    · exact Or.inl ⟨head, by rw [heq]; exact hbus hmem⟩
    · rw [heq]
      by_cases hi : i = id
      · subst hi
        obtain rfl := Option.some.inj (hrepo.symm.trans hrepo')
        rw [hpolls] at hev'
        rcases List.mem_cons.mp hev' with rfl | hev'
        · -- the announcement is the one being published
          refine Or.inl ⟨head, ?_⟩
          rw [hb]
          show _ ∈ (State.publish _ _).bus
          rw [State.publish_bus, if_pos (hseeds ev' rest repo.url head hpolls hb)]
          exact List.mem_append_right _ (List.mem_singleton_self _)
        · refine Or.inr (Or.inl ⟨ev', ?_, head, hb⟩)
          cases State.bridged repo.url ev <;> simpa using hev'
      · refine Or.inr (Or.inl ⟨ev', ?_, head, hb⟩)
        cases State.bridged repo.url ev <;> simpa [Function.update_of_ne hi] using hev'
    · refine Or.inr (Or.inr ?_)
      rw [hf.stage]
      exact hst

theorem seeded_receive {s : State} (h : Seeded site s) : Seeded site (s.receive site) := by
  rcases s.receive_cases site with heq | ⟨e, rest, hstage, hbus, heq⟩
  · rw [heq]
    exact h
  rw [heq]
  refine h.of_step rfl rfl (fun _ hs => hs) fun id repo a hrepo ha hurl hc => Or.inr ?_
  rcases hc with ⟨head, hmem⟩ | hpoll | hst
  · rw [hbus] at hmem
    rcases List.mem_cons.mp hmem with rfl | hmem
    · -- the loop knows the repository, and starts on it
      obtain ⟨repo', hrepo'⟩ := urlToRepo_of_polled hrepo
      have hjob : s.jobFor site (.repoChanged repo.url head) = some ⟨repo', repo.url, head⟩ :=
        State.jobFor_eq_some.mpr ⟨hrepo', Or.inl rfl⟩
      refine Or.inr (Or.inr ?_)
      rw [hjob]
      exact hurl.symm
    · exact Or.inl ⟨head, hmem⟩
  · exact Or.inr (Or.inl hpoll)
  · rw [hstage] at hst
    exact hst.elim

theorem seeded_list {s : State} (h : Seeded site s) : Seeded site s.list := by
  rcases s.list_cases with heq | ⟨job, apps, hstage, happs, heq⟩
  · rw [heq]
    exact h
  rw [heq]
  refine h.of_step rfl rfl (fun _ hs => hs) fun id repo a hrepo ha hurl hc => Or.inr ?_
  refine hc.mono (fun _ hx => hx) (fun _ hx => hx) fun hst => ?_
  rw [hstage] at hst
  have ha' : a ∈ apps := (happs a).mpr ⟨ha, hst.symm⟩
  have hne : apps.isEmpty = false := by
    cases apps with
    | nil => simp at ha'
    | cons x xs => rfl
  show Stage.Awaits a (if apps.isEmpty then .idle else .listed job apps)
  rw [hne]
  exact ha'

theorem seeded_materialize {s : State} (h : Seeded site s) (fault : Option (GitError × Dir)) :
    Seeded site (s.materialize site fault) := by
  rcases s.materialize_cases site fault with heq | ⟨job, apps, hstage, ⟨disk, -, -, heq⟩ | ⟨-, -, heq⟩⟩
  · rw [heq]
    exact h
  · rw [heq]
    refine h.of_step rfl rfl (fun a hs => hs.imp_right fun hf => List.mem_append_right _ hf)
      fun id repo a _ _ _ hc => hc.of_loop rfl rfl fun hst => ?_
    rw [hstage] at hst
    exact Or.inl (Or.inr (List.mem_append_left _ (List.mem_map_of_mem hst)))
  · rw [heq]
    refine h.of_step rfl rfl (fun _ hs => hs) fun id repo a hrepo ha hurl hc => Or.inr ?_
    refine hc.mono (fun _ hx => hx) (fun _ hx => hx) fun hst => ?_
    rw [hstage] at hst
    exact hst

theorem Seeded.rendered {s : State} (h : Seeded site s) : RenderedAfterPoll site s := by
  intro hdrained id hid repo hrepo a ha hurl hfailed
  rcases h id hid repo hrepo a ha hurl with hs | ⟨head, hmem⟩ | ⟨ev, hev, -⟩ | hst
  · exact hs.resolve_right hfailed
  · rw [hdrained.bus] at hmem
    simp at hmem
  · rw [hdrained.polls] at hev
    simp at hev
  · rw [hdrained.stage] at hst
    exact hst.elim

end

section

variable [Sha256] [FloatText] {site : Site}

theorem seeded_render {s : State} (h : Seeded site s) : Seeded site (s.render site) := by
  rcases s.render_cases site with heq | ⟨job, app, todo, hstage, hres⟩
  · rw [heq]
    exact h
  have hawaits : ∀ a : Application, s.stage.Awaits a → a = app ∨ (State.rest job todo).Awaits a := by
    intro a hst
    rw [hstage] at hst
    rcases List.mem_cons.mp hst with rfl | hst
    · exact Or.inl rfl
    · cases todo with
      | nil => simp at hst
      | cons x xs => exact Or.inr hst
  rcases hres with ⟨manifests, -, heq⟩ | ⟨e, -, heq⟩
  · rw [heq]
    refine Seeded.publish ?_ _
    refine h.of_step rfl rfl (fun a hs => ?_) fun id repo a _ _ _ hc => ?_
    · by_cases hname : a.name = app.name
      · exact Or.inl ⟨_, by rw [hname]; exact AList.lookup_insert _⟩
      · rcases hs with ⟨entry, hentry⟩ | hfailed
        · exact Or.inl ⟨entry, (AList.lookup_insert_ne hname).trans hentry⟩
        · exact Or.inr (List.mem_filter.mpr ⟨hfailed, decide_eq_true hname⟩)
    · refine hc.of_loop rfl rfl fun hst => ?_
      rcases hawaits a hst with rfl | hst
      · exact Or.inl (Or.inl ⟨_, AList.lookup_insert _⟩)
      · exact Or.inr hst
  · rw [heq]
    refine Seeded.publish ?_ _
    refine h.of_step rfl rfl (fun a hs => ?_) fun id repo a _ _ _ hc => ?_
    · exact hs.imp_right fun hf => List.mem_cons_of_mem _ hf
    · refine hc.of_loop rfl rfl fun hst => ?_
      rcases hawaits a hst with rfl | hst
      · exact Or.inl (Or.inr List.mem_cons_self)
      · exact Or.inr hst

theorem seeded_step {s : State} {e : Event} (h : Seeded site s) (hseeds : Seeds site s e)
    (hinternal : ¬ e.IsRequest) : Seeded site (step site s e) := by
  cases e with
  | poll id clone answer => exact seeded_poll h hseeds
  | bridge id => exact seeded_bridge h hseeds
  | pollLag id n =>
      refine h.of_step rfl rfl (fun _ hs => hs) fun i repo a _ _ _ hc => Or.inr ?_
      rcases hc with hb | ⟨ev, hev, head, hb⟩ | hst
      · exact Or.inl hb
      · refine Or.inr (Or.inl ⟨ev, ?_, head, hb⟩)
        show ev ∈ Function.update s.polls id ((s.polls id).drop n) i
        by_cases hi : i = id
        · subst hi
          rw [Function.update_self]
          rw [← List.take_append_drop n (s.polls i)] at hev
          -- what was lost announced nothing
          rcases List.mem_append.mp hev with hlost | hev
          · exact absurd hb (hseeds ev hlost repo.url head)
          · exact hev
        · rw [Function.update_of_ne hi]
          exact hev
      · exact Or.inr (Or.inr hst)
  | subscribe => exact h
  | receive => exact seeded_receive h
  | list => exact seeded_list h
  | materialize fault => exact seeded_materialize h fault
  | render => exact seeded_render h
  | lag n =>
      refine h.of_step rfl rfl (fun _ hs => hs) fun i repo a _ _ _ hc => Or.inr ?_
      rcases hc with ⟨head, hmem⟩ | hp | hst
      · rw [← List.take_append_drop n s.bus] at hmem
        rcases List.mem_append.mp hmem with hlost | hmem
        · exact absurd hlost (hseeds repo.url head)
        · exact Or.inl ⟨head, hmem⟩
      · exact Or.inr (Or.inl hp)
      · exact Or.inr (Or.inr hst)
  | evict key => exact h
  | createApp req id now => exact absurd trivial hinternal
  | updateApp name body now => exact absurd trivial hinternal
  | deleteApp name => exact absurd trivial hinternal

/--
**Every application is rendered after start**, if the polls see something move.

From any stored applications and anything on disk, whatever the initial clones, the polls and
the file system answer, and in any order of the steps of the tasks: if no request to the API
comes in (`hinternal`), the first successful poll of each repository finds the branch moved or
missing, and what a bridge announces reaches the render loop, then whenever nothing is on its
way any more, every stored application of a repository that was polled has an entry or its
render failed.
-/
theorem rendered_after_start (clone : Nat → Except GitError Pack) (db : Database) (disk : Disk)
    (es : List Event) (hinternal : ∀ e ∈ es, ¬ e.IsRequest)
    (hseeds : Each (step site) (Seeds site) (State.start site clone db disk) es) :
    Always (step site) (RenderedAfterPoll site) (State.start site clone db disk) es := by
  intro pre hpre
  have hinv : Seeded site (exec (step site) (State.start site clone db disk) pre) :=
    exec_inv_of_each (C := fun s e => Seeds site s e ∧ ¬ e.IsRequest)
      (fun s e h hc => seeded_step h hc.1 hc.2)
      (fun id hid => absurd hid (by simp [State.start]))
      (fun p e hp => ⟨hseeds p e (hp.trans hpre),
        hinternal e ((hp.trans hpre).subset (by simp))⟩)
  exact hinv.rendered

end

theorem shop_rendered :
    Always (@step digests .ofBits shopSite) (@RenderedAfterPoll digests shopSite) shopStart
      [.subscribe, .poll shopRepo.id (.ok (packOf "c1")) (.ok (packOf "c2")), .bridge shopRepo.id,
        .receive, .list, .materialize none, .render, .receive] :=
  @rendered_after_start digests .ofBits shopSite (fun _ => .ok (packOf "c1")) shopDb emptyDisk _
    (by simp [Event.IsRequest]) (by
      rw [each_cons, each_cons, each_cons, each_cons, each_cons, each_cons, each_cons, each_cons]
      refine ⟨trivial, fun repo pack _ hrepo hpack => ?_, fun _ _ _ _ _ _ => rfl, trivial, trivial,
        trivial, trivial, trivial, each_nil⟩
      -- the branch has moved since it was cloned
      obtain rfl := Option.some.inj (hrepo.symm.trans (show _ = some shopRepo from rfl))
      obtain rfl := Except.ok.inj hpack
      decide +kernel)

/-- **The first poll after a start renders nothing**: it finds the head that was just cloned. -/
theorem unmoved_unrendered : ¬ ∀ (site : Site) (clone : Nat → Except GitError Pack) (db : Database)
    (disk : Disk) (es : List Event), (∀ e ∈ es, ¬ e.IsRequest) →
    Always (@step digests .ofBits site) (@RenderedAfterPoll digests site)
      (@State.start digests site clone db disk) es := by
  intro h
  let polled : State := exec (@step digests .ofBits shopSite) shopStart
    [.subscribe, .poll shopRepo.id (.ok (packOf "c1")) (.ok (packOf "c1")), .bridge shopRepo.id]
  have hend : @RenderedAfterPoll digests shopSite polled :=
    (h shopSite _ shopDb emptyDisk _ (by simp [Event.IsRequest])).final
  have hdrained : Drained polled := by
    refine ⟨rfl, rfl, by decide +kernel, fun id => ?_⟩
    show Function.update (Function.update (fun _ => []) shopRepo.id _) shopRepo.id [] id = _
    rw [Function.update_idem, Function.update_apply]
    exact ite_self _
  obtain ⟨entry, hentry⟩ := hend hdrained shopRepo.id (by decide +kernel) shopRepo rfl shopApp rfl rfl
    (by decide +kernel)
  have hnone : polled.store.lookup shopApp.name = none := rfl
  exact absurd (hnone.symm.trans hentry) (by simp)

end SynchrotronCD.Db.Pipeline
