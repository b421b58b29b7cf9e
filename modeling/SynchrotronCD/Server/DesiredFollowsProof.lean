import SynchrotronCD.Server.DesiredFollows

/-!
# The store follows the table

What each step of the pipeline does to the invariant, and from it the statement
about whole runs (`follows_table`). An announcement that is received is in the
loop's hand from then on, unless a later one is pending; what the loop has in
hand it renders as it was listed.
-/

namespace SynchrotronCD.Db.Pipeline

open Lib Git

/-! ## Events on their way -/

/-- Appending an event that announces no head. -/
theorem filterMap_headIn_append {url : String} {l : List SystemEvent} {e : SystemEvent}
    (h : headIn url e = none) : (l ++ [e]).filterMap (headIn url) = l.filterMap (headIn url) := by
  rw [List.filterMap_append, List.filterMap_cons_none h, List.filterMap_nil, List.append_nil]

theorem headIn_eq_some {url : String} {e : SystemEvent} {h : Sha} :
    headIn url e = some h ↔ e = .repoChanged url h := by
  unfold headIn
  split
  · rename_i u head
    by_cases hu : u = url
    · simp [hu]
    · simp [hu]
  · rename_i hne
    exact ⟨fun hf => by simp at hf, fun he => absurd he (hne url h)⟩

theorem mem_filterMap_headIn {url : String} {l : List SystemEvent} {h : Sha} :
    h ∈ l.filterMap (headIn url) ↔ .repoChanged url h ∈ l := by
  rw [List.mem_filterMap]
  simp only [headIn_eq_some, exists_eq_right]

theorem filterMap_headIn_eq_nil {url : String} {l : List SystemEvent}
    (h : ∀ head, .repoChanged url head ∉ l) : l.filterMap (headIn url) = [] :=
  List.eq_nil_iff_forall_not_mem.mpr fun head hmem => h head (mem_filterMap_headIn.mp hmem)

/-- The last head announced in a suffix is the last of the whole. -/
theorem getLast?_filterMap_append {url : String} {l₁ l₂ : List SystemEvent} {h : Sha}
    (hl : (l₂.filterMap (headIn url)).getLast? = some h) :
    ((l₁ ++ l₂).filterMap (headIn url)).getLast? = some h := by
  rw [List.filterMap_append, List.getLast?_append, hl, Option.some_or]

/-- A bridge announces nothing but heads of its own repository. -/
theorem wakes_bridged {url u : String} {ev : PollEvent} {e : SystemEvent}
    (hb : State.bridged url ev = some e) (hw : Wakes u e) :
    u = url ∧ ∃ head, State.bridged url ev = some (.repoChanged u head) := by
  rcases hw with ⟨head, rfl⟩ | ⟨app, rfl⟩
  · exact ⟨(State.bridged_eq_repoChanged.mp hb).1, head, hb⟩
  · cases ev with
    | fetchFailed message => simp [State.bridged] at hb
    | fetched res =>
        unfold State.bridged at hb
        dsimp only at hb
        split at hb
        · simp at hb
        · simp at hb

theorem pending_publish (s : State) (e : SystemEvent) (repo : Repo) :
    pending (s.publish e) repo
      = (if s.subscribed then s.bus ++ [e] else s.bus)
        ++ (s.polls repo.id).filterMap (State.bridged repo.url) := by
  unfold pending
  rw [State.publish_bus, State.publish_polls]

section

variable [Sha256] {site : Site}

/-! ## What only concerns events -/

/-- Publishing what announces no head. -/
theorem Following.publish {s : State} (h : Following site s) {e : SystemEvent}
    (he : ∀ url, headIn url e = none) : Following site (s.publish e) := by
  have hf := s.publish_frame e
  refine h.of_events hf.db hf.disk hf.store hf.stage (fun hs => ?_)
    (fun url repo _ head hl => ?_) ?_
  · rw [hf.subscribed] at hs
    refine ⟨hs, ?_⟩
    rw [State.publish_bus, hs]
    exact (h.fresh hs).2.2
  · rw [pending_publish] at hl
    rw [← hl, pending]
    split
    · rw [List.filterMap_append, List.filterMap_append, filterMap_headIn_append (he url)]
    · rfl
  · intro hsub url repo _ x hx _
    rw [pending_publish, if_pos hsub]
    rcases List.mem_append.mp hx with hb | hp
    · exact List.mem_append_left _ (List.mem_append_left _ hb)
    · exact List.mem_append_right _ hp

/-- A bridge hands on what it has received, in its place. -/
theorem pending_bridge (hids : DistinctIds site.cfgs) {s : State} (hsub : s.subscribed = true)
    (id : RepoId) {url : String} {r : Repo} (hr : (urlToRepo site.cfgs).lookup url = some r) :
    (pending (s.bridge site id) r).filterMap (headIn url) = (pending s r).filterMap (headIn url)
      ∧ ∀ e ∈ pending s r, e ∈ pending (s.bridge site id) r := by
  rcases s.bridge_cases site id with heq | ⟨repo, ev, rest, hrepo, hpolls, heq⟩
  · rw [heq]
    exact ⟨rfl, fun _ he => he⟩
  rw [heq]
  have hpolled := buildRepoMap_of_urlToRepo hids hr
  by_cases hid : r.id = id
  · -- the bridge's own repository: an event moves from one queue to the other
    subst hid
    obtain rfl := Option.some.inj (hrepo.symm.trans hpolled)
    have hsame : pending ((State.bridged repo.url ev).elim
        { s with polls := Function.update s.polls repo.id rest }
        { s with polls := Function.update s.polls repo.id rest }.publish) repo = pending s repo := by
      cases hb : State.bridged repo.url ev with
      | none => simp [pending, hpolls, hb]
      | some e =>
          rw [Option.elim_some, pending_publish]
          simp [pending, hpolls, hb, hsub]
    rw [hsame]
    exact ⟨rfl, fun _ he => he⟩
  · -- another's: its announcement says nothing about this repository
    cases hb : State.bridged repo.url ev with
    | none =>
        have hsame : pending { s with polls := Function.update s.polls id rest } r = pending s r := by
          simp [pending, Function.update_of_ne hid]
        rw [Option.elim_none, hsame]
        exact ⟨rfl, fun _ he => he⟩
    | some e =>
        have hhead : headIn url e = none := by
          rw [Option.eq_none_iff_forall_ne_some]
          intro head hh
          have hurl := (wakes_bridged hb (Or.inl ⟨head, headIn_eq_some.mp hh⟩)).1
          -- one URL has one id
          obtain ⟨hrid, c, -, rfl⟩ := lookup_buildRepoMap hrepo
          obtain ⟨-, c', -, hc', rfl⟩ := lookup_urlToRepo hr
          refine hid (Eq.trans ?_ hrid)
          show RepoId.fromUrl c'.url = RepoId.fromUrl c.url
          exact congrArg _ (hc'.trans hurl)
        have hsame : pending ({ s with polls := Function.update s.polls id rest }.publish e) r
            = (s.bus ++ [e]) ++ (s.polls r.id).filterMap (State.bridged r.url) := by
          rw [pending_publish]
          simp [Function.update_of_ne hid, hsub]
        rw [Option.elim_some, hsame]
        refine ⟨?_, fun x hx => ?_⟩
        · rw [List.filterMap_append, filterMap_headIn_append hhead, pending, List.filterMap_append]
        · rcases List.mem_append.mp hx with hx | hx
          · exact List.mem_append_left _ (List.mem_append_left _ hx)
          · exact List.mem_append_right _ hx

theorem following_bridge (hids : DistinctIds site.cfgs) {s : State} (h : Following site s)
    (id : RepoId) : Following site (s.bridge site id) := by
  cases hsub : s.subscribed with
  | true =>
      have hf := s.bridge_frame site id
      refine h.of_events hf.db hf.disk hf.store hf.stage (fun hs => ?_)
        (fun url r hr head hl => ?_) fun _ url r hr e he _ => (pending_bridge hids hsub id hr).2 e he
      · rw [hf.subscribed, hsub] at hs
        simp at hs
      · rw [(pending_bridge hids hsub id hr).1] at hl
        exact hl
  | false =>
      -- nobody listens
      rcases s.bridge_cases site id with heq | ⟨repo, ev, rest, hrepo, hpolls, heq⟩
      · rw [heq]
        exact h
      have hlost : s.bridge site id = { s with polls := Function.update s.polls id rest } := by
        rw [heq]
        cases State.bridged repo.url ev with
        | none => rfl
        | some e => exact if_neg (by simp [hsub])
      rw [hlost]
      refine h.of_events rfl rfl rfl rfl (fun hs => ⟨hs, (h.fresh hs).2.2⟩)
        (fun url r hr head hl => ?_) fun hs => absurd hs (by simp [hsub])
      rw [pending, (h.fresh hsub).2.2, List.nil_append] at hl ⊢
      by_cases hid : r.id = id
      · subst hid
        dsimp only at hl
        rw [Function.update_self] at hl
        have hsplit : (s.polls r.id).filterMap (State.bridged r.url)
            = (State.bridged r.url ev).toList ++ rest.filterMap (State.bridged r.url) := by
          rw [hpolls]
          cases hb : State.bridged r.url ev with
          | none => rw [List.filterMap_cons_none hb]; rfl
          | some e => rw [List.filterMap_cons_some hb]; rfl
        rw [hsplit]
        exact getLast?_filterMap_append hl
      · dsimp only at hl
        rw [Function.update_of_ne hid] at hl
        exact hl

theorem following_pollLag {s : State} (h : Following site s) (id : RepoId) (n : Nat)
    (hlost : ∀ ev ∈ (s.polls id).take n, ∀ url head,
      State.bridged url ev ≠ some (.repoChanged url head)) :
    Following site { s with polls := Function.update s.polls id ((s.polls id).drop n) } := by
  refine h.of_events rfl rfl rfl rfl (fun hs => ⟨hs, (h.fresh hs).2.2⟩)
    (fun url r _ head hl => ?_) fun _ url r _ e he hw => ?_
  · by_cases hid : r.id = id
    · subst hid
      have hsplit : (s.polls r.id).filterMap (State.bridged r.url)
          = ((s.polls r.id).take n).filterMap (State.bridged r.url)
            ++ ((s.polls r.id).drop n).filterMap (State.bridged r.url) := by
        rw [← List.filterMap_append, List.take_append_drop]
      have hnone : (((s.polls r.id).take n).filterMap (State.bridged r.url)).filterMap (headIn url)
          = [] := by
        refine filterMap_headIn_eq_nil fun head hmem => ?_
        obtain ⟨ev, hev, hb⟩ := List.mem_filterMap.mp hmem
        obtain rfl := (State.bridged_eq_repoChanged.mp hb).1
        exact hlost ev hev r.url head hb
      rw [← hl, pending, pending, hsplit, List.filterMap_append, List.filterMap_append,
        List.filterMap_append, hnone, List.nil_append]
      dsimp only
      rw [Function.update_self]
    · rw [← hl, pending, pending]
      dsimp only
      rw [Function.update_of_ne hid]
  · rcases List.mem_append.mp he with hb | hp
    · exact List.mem_append_left _ hb
    · obtain ⟨ev, hev, hb⟩ := List.mem_filterMap.mp hp
      refine List.mem_append_right _ (List.mem_filterMap.mpr ⟨ev, ?_, hb⟩)
      dsimp only
      by_cases hid : r.id = id
      · subst hid
        rw [Function.update_self]
        rw [← List.take_append_drop n (s.polls r.id)] at hev
        -- what was lost wakes nobody
        rcases List.mem_append.mp hev with hev | hev
        · obtain ⟨rfl, head, hb⟩ := wakes_bridged hb hw
          exact absurd hb (hlost ev hev r.url head)
        · exact hev
      · rw [Function.update_of_ne hid]
        exact hev

theorem following_lag {s : State} (h : Following site s) (n : Nat)
    (hlost : ∀ e ∈ s.bus.take n, ∀ url, ¬ Wakes url e) :
    Following site { s with bus := s.bus.drop n } := by
  refine h.of_events rfl rfl rfl rfl (fun hs => ⟨hs, ?_⟩) (fun url r _ head hl => ?_)
    fun _ url r _ e he hw => ?_
  · show s.bus.drop n = []
    rw [(h.fresh hs).2.2, List.drop_nil]
  · have hnone : (s.bus.take n).filterMap (headIn url) = [] :=
      filterMap_headIn_eq_nil fun head hmem => hlost _ hmem url (Or.inl ⟨head, rfl⟩)
    have hsplit : s.bus.filterMap (headIn url) = (s.bus.drop n).filterMap (headIn url) := by
      conv_lhs => rw [← List.take_append_drop n s.bus, List.filterMap_append, hnone, List.nil_append]
    rw [← hl, pending, pending, List.filterMap_append, List.filterMap_append, hsplit]
  · rcases List.mem_append.mp he with hb | hp
    · rw [← List.take_append_drop n s.bus] at hb
      rcases List.mem_append.mp hb with hb | hb
      · exact absurd hw (hlost e hb url)
      · exact List.mem_append_left _ hb
    · exact List.mem_append_right _ hp

/-! ## Polling -/

/-- **What a poll does about a repository the loop knows.** A head that moved from somewhere is
announced, and what is announced is the head. -/
theorem poll_known (hids : DistinctIds site.cfgs) (s : State) (id : RepoId)
    (clone answer : Except GitError Pack) {url : String} {r : Repo}
    (hr : (urlToRepo site.cfgs).lookup url = some r) :
    ∃ evs, pending (s.poll site id clone answer) r = pending s r ++ evs
      ∧ (evs.filterMap (headIn url) = [] →
        (s.poll site id clone answer).disk.head r = s.disk.head r ∨ s.disk.head r = none)
      ∧ ∀ head, .repoChanged url head ∈ evs →
        (s.poll site id clone answer).disk.head r = some head := by
  rcases s.poll_cases site id clone answer with heq | ⟨repo, hrepo, heq⟩
  · rw [heq]
    exact ⟨[], (List.append_nil _).symm, fun _ => Or.inl rfl, fun head hh => by simp at hh⟩
  have hasked := Disk.asked_fetch s.disk repo clone answer
  have hrid := (lookup_buildRepoMap hrepo).1
  rw [heq]
  by_cases hid : r.id = id
  · subst hid
    obtain rfl := Option.some.inj (hrepo.symm.trans (buildRepoMap_of_urlToRepo hids hr))
    obtain rfl := (lookup_urlToRepo hr).1
    refine ⟨(State.bridged repo.url (State.pollEvent (s.disk.fetch repo clone answer).2)).toList, ?_,
      fun hnil => ?_, fun head hh => ?_⟩
    · rw [pending, pending]
      dsimp only
      rw [Function.update_self, List.filterMap_append, List.append_assoc]
      cases hb : State.bridged repo.url (State.pollEvent (s.disk.fetch repo clone answer).2) with
      | none => rw [List.filterMap_cons_none hb]; rfl
      | some e => rw [List.filterMap_cons_some hb]; rfl
    · -- a head that is not announced did not move, or there was none
      rcases hasked.kept with hkept | hnone | ⟨res, hres, hne⟩
      · exact Or.inl hkept
      · exact Or.inr hnone
      · have hb : State.bridged repo.url (State.pollEvent (s.disk.fetch repo clone answer).2)
            = some (.repoChanged repo.url res.currentHead) := by
          rw [hres]
          exact State.bridged_eq_repoChanged.mpr ⟨rfl, res, rfl, hne, rfl⟩
        rw [hb] at hnil
        simp [headIn] at hnil
    · have hb := Option.mem_toList.mp hh
      obtain ⟨-, res, hev, -, rfl⟩ := State.bridged_eq_repoChanged.mp hb
      cases hres : (s.disk.fetch repo clone answer).2 with
      | error e =>
          rw [hres] at hev
          simp [State.pollEvent] at hev
      | ok res' =>
          rw [hres] at hev
          obtain rfl := PollEvent.fetched.inj hev
          exact (Disk.fetch_ok hres).1
  · -- another repository's clone, branch and queue are left alone
    refine ⟨[], ?_, fun _ => Or.inl ?_, fun head hh => by simp at hh⟩
    · rw [List.append_nil, pending, pending]
      dsimp only
      rw [Function.update_of_ne hid]
    · exact hasked.others r fun hsame => hid (hsame.1.trans hrid)

/-- A poll leaves the rows, the store, the loop and its subscription alone. -/
theorem poll_frame (site : Site) (s : State) (id : RepoId) (clone answer : Except GitError Pack) :
    (s.poll site id clone answer).db = s.db
      ∧ (s.poll site id clone answer).store = s.store
      ∧ (s.poll site id clone answer).stage = s.stage
      ∧ (s.poll site id clone answer).disk.work = s.disk.work
      ∧ (s.poll site id clone answer).subscribed = s.subscribed
      ∧ (s.poll site id clone answer).bus = s.bus := by
  rcases s.poll_cases site id clone answer with heq | ⟨repo, -, heq⟩
  · rw [heq]
    exact ⟨rfl, rfl, rfl, rfl, rfl, rfl⟩
  · rw [heq]
    exact ⟨rfl, rfl, rfl, (Disk.asked_fetch s.disk repo clone answer).work, rfl, rfl⟩

/-- A head that a poll moves is announced. -/
theorem poll_moved (hids : DistinctIds site.cfgs) (s : State) (id : RepoId)
    (clone answer : Except GitError Pack) {url : String} {r : Repo}
    (hr : (urlToRepo site.cfgs).lookup url = some r) {head : Sha} (hh : s.disk.head r = some head) :
    (s.poll site id clone answer).disk.head r = some head
      ∨ Announced site (s.poll site id clone answer) url := by
  obtain ⟨evs, hpend, hkept, hnew⟩ := poll_known hids s id clone answer hr
  cases hevs : evs.filterMap (headIn url) with
  | nil =>
      rcases hkept hevs with hkept | hnone
      · exact Or.inl (hkept.trans hh)
      · exact absurd (hnone.symm.trans hh) (by simp)
  | cons cur rest =>
      have he : .repoChanged url cur ∈ evs :=
        mem_filterMap_headIn.mp (by rw [hevs]; exact List.mem_cons_self)
      refine Or.inr ⟨r, hr, by rw [hnew cur he]; simp, _, ?_, Or.inl ⟨cur, rfl⟩⟩
      rw [hpend]
      exact List.mem_append_right _ he

theorem following_poll (hids : DistinctIds site.cfgs) {s : State} (h : Following site s)
    (id : RepoId) (clone answer : Except GitError Pack) :
    Following site (s.poll site id clone answer) := by
  obtain ⟨hdb, hstore, hstage, hwork, hsub, hbus⟩ := poll_frame site s id clone answer
  have hmoved : ∀ url r, (urlToRepo site.cfgs).lookup url = some r → ∀ head,
      s.disk.head r = some head → (s.poll site id clone answer).disk.head r = some head
        ∨ Announced site (s.poll site id clone answer) url :=
    fun _ _ hr _ hh => poll_moved hids s id clone answer hr hh
  refine h.of_world hdb hstore hstage hwork (fun hs => ?_) (fun url r hr head hl => ?_) hmoved
    fun url ha => ?_
  · rw [hsub] at hs
    exact ⟨hs, hbus.trans (h.fresh hs).2.2⟩
  · obtain ⟨evs, hpend, hkept, hnew⟩ := poll_known hids s id clone answer hr
    rw [hpend, List.filterMap_append, List.getLast?_append] at hl
    cases hevs : (evs.filterMap (headIn url)).getLast? with
    | some cur =>
        rw [hevs, Option.some_or] at hl
        obtain rfl := Option.some.inj hl
        exact hnew cur (mem_filterMap_headIn.mp (List.mem_of_getLast? hevs))
    | none =>
        rw [hevs, Option.none_or] at hl
        have hold := h.heads url r hr head hl
        rcases hkept (List.getLast?_eq_none_iff.mp hevs) with hkept | hnone
        · exact hkept.trans hold
        · exact absurd (hnone.symm.trans hold) (by simp)
  · obtain ⟨r, hr, hne, e, he, hw⟩ := ha
    obtain ⟨head, hh⟩ := Option.ne_none_iff_exists'.mp hne
    rcases hmoved url r hr head hh with hh' | ha'
    · obtain ⟨evs, hpend, -⟩ := poll_known hids s id clone answer hr
      refine ⟨r, hr, by rw [hh']; simp, e, ?_, hw⟩
      rw [hpend]
      exact List.mem_append_left _ he
    · exact ha'

/-! ## The loop -/

/-- A head that was just received is the head, or a later one is announced. -/
theorem received_head {s s' : State} (h : Following site s) {url : String} {r : Repo} {head : Sha}
    (hr : (urlToRepo site.cfgs).lookup url = some r) (hdisk : s'.disk = s.disk)
    (hpend : pending s r = .repoChanged url head :: pending s' r) :
    s.disk.head r = some head ∨ Announced site s' url := by
  have hheads := h.heads url r hr
  rw [hpend, List.filterMap_cons_some (headIn_eq_some.mpr rfl)] at hheads
  cases hlast : ((pending s' r).filterMap (headIn url)).getLast? with
  | none =>
      rw [List.getLast?_eq_none_iff.mp hlast] at hheads
      exact Or.inl (hheads head rfl)
  | some cur =>
      have he := mem_filterMap_headIn.mp (List.mem_of_getLast? hlast)
      refine Or.inr ⟨r, hr, ?_, _, he, Or.inl ⟨cur, rfl⟩⟩
      rw [hdisk, hheads cur (by rw [List.getLast?_cons, hlast]; rfl)]
      simp

/-- An application whose repository was announced is in the loop's hands once the announcement is
received, unless a later one is pending. -/
theorem received_inHand {s s' : State} {e : SystemEvent} {a : Application} {r : Repo}
    (hr : (urlToRepo site.cfgs).lookup a.source.repoUrl = some r) (hne : s.disk.head r ≠ none)
    (hw : Wakes a.source.repoUrl e) (hdisk : s'.disk = s.disk)
    (hstage : s'.stage = (s.jobFor site e).elim .idle .resolved)
    (hjob : ∀ job, s.jobFor site e = some job → s.disk.head job.repo = some job.head
      ∨ Announced site s' job.url) : Announced site s' a.source.repoUrl ∨ InHand s' a := by
  obtain ⟨head, hh⟩ := Option.ne_none_iff_exists'.mp hne
  have hstart : ∃ job, s.jobFor site e = some job ∧ job.url = a.source.repoUrl := by
    rcases hw with ⟨cur, rfl⟩ | ⟨app, rfl⟩
    · exact ⟨⟨r, _, cur⟩, State.jobFor_eq_some.mpr ⟨hr, Or.inl rfl⟩, rfl⟩
    · exact ⟨⟨r, _, head⟩, State.jobFor_eq_some.mpr ⟨hr, Or.inr ⟨app, rfl, hh⟩⟩, rfl⟩
  obtain ⟨job, hj, hurl⟩ := hstart
  have hresolved : s'.stage = .resolved job := by rw [hstage, hj]; rfl
  rcases hjob job hj with hhead | han
  · refine Or.inr ⟨job, ?_, hurl, ?_, Or.inl hresolved⟩
    · rw [hresolved]
      rfl
    · rw [hdisk]
      exact hhead
  · rw [hurl] at han
    exact Or.inl han

/-- The head of the job that an event starts is the head, or a later one is announced. -/
theorem received_job {s s' : State} (h : Following site s) {e : SystemEvent}
    (hdisk : s'.disk = s.disk) (hpend : ∀ r, pending s r = e :: pending s' r) {job : Job}
    (hj : s.jobFor site e = some job) :
    s.disk.head job.repo = some job.head ∨ Announced site s' job.url := by
  obtain ⟨hr, he | ⟨app, -, hhead⟩⟩ := State.jobFor_eq_some.mp hj
  · exact received_head h hr hdisk (by rw [hpend, he])
  · exact Or.inl hhead

theorem following_receive {s : State} (h : Following site s) : Following site (s.receive site) := by
  rcases s.receive_cases site with heq | ⟨e, rest, hstage, hbus, heq⟩
  · rw [heq]
    exact h
  rw [heq]
  generalize hs' : ({ s with
    bus := rest
    stage := (s.jobFor site e).elim .idle .resolved } : State) = s'
  have hdisk : s'.disk = s.disk := by rw [← hs']
  have hstage' : s'.stage = (s.jobFor site e).elim .idle .resolved := by rw [← hs']
  have hpend : ∀ r, pending s r = e :: pending s' r := by
    intro r
    rw [← hs', pending, pending, hbus]
    rfl
  have hjob : ∀ job, s.jobFor site e = some job → s.disk.head job.repo = some job.head
      ∨ Announced site s' job.url := fun _ hj => received_job h hdisk hpend hj
  have happs : s'.stage.apps = [] := by rw [hstage', Stage.apps_elim]
  refine ⟨fun hs => ?_, fun url r hr head hl => ?_, fun job hj => ?_, fun x hx => ?_,
    fun job todo hj => ?_, fun name entry he => ?_⟩
  · rw [← hs'] at hs
    rw [(h.fresh hs).2.2] at hbus
    simp at hbus
  · rw [hdisk]
    refine h.heads url r hr head ?_
    rw [hpend]
    exact @getLast?_filterMap_append url [e] _ head hl
  · rw [hstage', Stage.job_elim] at hj
    rw [hdisk]
    exact ⟨(State.jobFor_eq_some.mp hj).1, hjob job hj⟩
  · rw [happs] at hx
    simp at hx
  · exact absurd (hstage'.symm.trans hj) (Stage.elim_ne_rendering _ job todo)
  · rw [← hs'] at he
    obtain ⟨a, ha, hok⟩ := h.entries name entry he
    refine ⟨a, by rw [← hs']; exact ha, ?_⟩
    rcases hok with hcur | ⟨r, hr, hne, x, hx, hw⟩ | hin
    · refine Or.inl ?_
      unfold Current
      rw [hdisk]
      exact hcur
    · rw [hpend] at hx
      rcases List.mem_cons.mp hx with rfl | hx
      · -- the announcement is the one received: the loop starts on it
        exact Or.inr (received_inHand hr hne hw hdisk hstage' hjob)
      · exact Or.inr (Or.inl ⟨r, hr, by rw [hdisk]; exact hne, x, hx, hw⟩)
    · obtain ⟨job, hj, -⟩ := hin
      rw [hstage] at hj
      simp [Stage.job] at hj

theorem following_list {s : State} (h : Following site s) : Following site s.list := by
  rcases s.list_cases with heq | ⟨job, apps, hstage, happs, heq⟩
  · rw [heq]
    exact h
  rw [heq]
  have hjob := h.job job (by rw [hstage]; rfl)
  cases apps with
  | nil =>
      -- no row refers to the repository
      refine ⟨fun hs => ⟨(h.fresh hs).1, rfl, (h.fresh hs).2.2⟩, h.heads, fun j hj => ?_,
        fun x hx => ?_, fun j todo hj => ?_, fun name entry he => ?_⟩
      · simp [Stage.job] at hj
      · simp [Stage.apps] at hx
      · simp at hj
      · obtain ⟨a, ha, hok⟩ := h.entries name entry he
        refine ⟨a, ha, hok.imp_right fun hok => Or.inl (hok.resolve_right fun hin => ?_)⟩
        obtain ⟨j, hj, hurl, -⟩ := hin
        rw [hstage] at hj
        obtain rfl := Option.some.inj hj
        have hmem : a ∈ [] := (happs a).mpr
          ⟨by rw [show a.name = name from Table.find_name ha]; exact ha, hurl.symm⟩
        simp at hmem
  | cons y ys =>
      refine ⟨fun hs => ?_, h.heads, fun j hj => ?_, fun x hx => ?_, fun j todo hj => ?_,
        fun name entry he => ?_⟩
      · exact absurd hs (h.listens (by simp [hstage]))
      · obtain rfl := Option.some.inj (show some job = some j from hj)
        exact hjob
      · obtain ⟨hrow, hurl⟩ := (happs x).mp hx
        exact ⟨⟨job, rfl, hurl⟩, x, hrow, Or.inl rfl⟩
      · simp at hj
      · obtain ⟨a, ha, hok⟩ := h.entries name entry he
        refine ⟨a, ha, hok.imp_right fun hok => hok.imp_right fun hin => ?_⟩
        obtain ⟨j, hj, hurl, hhead, -⟩ := hin
        rw [hstage] at hj
        obtain rfl := Option.some.inj (show some job = some j from hj)
        -- the row is among those that were listed
        have hmem : a ∈ y :: ys := (happs a).mpr
          ⟨by rw [show a.name = name from Table.find_name ha]; exact ha, hurl.symm⟩
        exact ⟨job, rfl, hurl, hhead, Or.inr ⟨a, hmem, rfl, rfl⟩⟩

theorem following_materialize {s : State} (h : Following site s) {fault : Option (GitError × Dir)}
    (hsucceeds : ∀ job apps, s.stage = .listed job apps →
      fault = none ∧ s.disk.Has job.repo.id job.head)
    (hclean : ∀ job apps, s.stage = .listed job apps →
      writeTree [] (site.trees job.head) (s.disk.work job.workDir)
        = checkout (site.trees job.head)) :
    Following site (s.materialize site fault) := by
  rcases s.materialize_cases site fault with
    heq | ⟨job, apps, hstage, ⟨disk, hfails, -, -⟩ | ⟨-, -, heq⟩⟩
  · rw [heq]
    exact h
  · exact absurd (hsucceeds job apps hstage) hfails
  rw [heq]
  refine ⟨fun hs => ?_, h.heads, fun j hj => ?_, fun x hx => ?_, fun j todo hj => ?_,
    fun name entry he => ?_⟩
  · exact absurd hs (h.listens (by simp [hstage]))
  · exact h.job j (by rw [hstage]; exact hj)
  · have hx' := h.apps x (by rw [hstage]; exact hx)
    rw [hstage] at hx'
    exact hx'
  · obtain ⟨rfl, -⟩ := Stage.rendering.inj hj
    show Function.update s.disk.work job.workDir _ job.workDir = _
    rw [Function.update_self]
    exact hclean job apps hstage
  · obtain ⟨a, ha, hok⟩ := h.entries name entry he
    refine ⟨a, ha, hok.imp_right fun hok => hok.imp_right fun hin => ?_⟩
    unfold InHand at hin
    rw [hstage] at hin
    obtain ⟨j, hj, hurl, hhead, hres | hx⟩ := hin
    · simp at hres
    · exact ⟨j, hj, hurl, hhead, Or.inr hx⟩

/-! ## Requests -/

/-- A step that changes the row of one name. -/
theorem Following.of_row {s : State} (h : Following site s) {db : Database} {name : AppName}
    (hothers : ∀ n, n ≠ name → db.getApplication n = s.db.getApplication n)
    (happs : ∀ x ∈ s.stage.apps, x.name = name → ∃ a, db.getApplication name = some a
      ∧ (renderSource x = renderSource a ∨ Announced site s a.source.repoUrl))
    (hentry : ∀ entry, s.store.lookup name = some entry → ∃ a, db.getApplication name = some a
      ∧ (Current site s a entry ∨ Announced site s a.source.repoUrl ∨ InHand s a)) :
    Following site { s with db := db } := by
  refine ⟨h.fresh, h.heads, h.job, fun x hx => ?_, h.workDir, fun n entry he => ?_⟩
  · obtain ⟨hjob, a, ha, hsrc⟩ := h.apps x hx
    refine ⟨hjob, ?_⟩
    by_cases hn : x.name = name
    · rw [hn]
      exact happs x hx hn
    · exact ⟨a, (hothers _ hn).trans ha, hsrc⟩
  · by_cases hn : n = name
    · subst hn
      exact hentry entry he
    · obtain ⟨a, ha, hok⟩ := h.entries n entry he
      exact ⟨a, (hothers n hn).trans ha, hok⟩

theorem following_createApp {s : State} (h : Following site s) (req : CreateAppRequest)
    (id : String) (now : Timestamp) : Following site (s.createApp req id now) := by
  unfold State.createApp
  split
  · rename_i db app hok
    obtain ⟨-, hnone, hrows, -⟩ := createApp_ok hok
    have hothers : ∀ n, n ≠ req.name → db.getApplication n = s.db.getApplication n := by
      intro n hn
      rw [hrows, if_neg hn]
    refine Following.publish (h.of_row hothers (fun x hx hn => ?_) fun entry he => ?_)
      fun url => rfl
    · -- the name is new, so nothing in the loop's hands is about it
      obtain ⟨-, a, ha, -⟩ := h.apps x hx
      rw [hn, hnone] at ha
      simp at ha
    · obtain ⟨a, ha, -⟩ := h.entries req.name entry he
      rw [hnone] at ha
      simp at ha
  · exact h

variable [FloatText]

theorem following_updateApp {s : State} (h : Following site s) {name : AppName} {body : Doc}
    {now : Timestamp} (hrepairs : Repairs site s (.updateApp name body now)) :
    Following site (s.updateApp name body now) := by
  unfold State.updateApp
  split
  · rename_i db app hok
    obtain ⟨a, ha⟩ := updateApp_loaded hok
    obtain ⟨req, hreq, rfl, hrows, -⟩ := updateApp_ok ha hok
    have hrow : db.getApplication name = some (req.apply a now) := by rw [hrows, if_pos rfl]
    have hothers : ∀ n, n ≠ name → db.getApplication n = s.db.getApplication n := by
      intro n hn
      rw [hrows, if_neg hn]
    rcases hrepairs req a hreq ha with hsame | ⟨hnone, happs⟩ | han | ⟨job, hstage, hurl⟩
    · -- nothing that is rendered changed
      have hurl : (req.apply a now).source.repoUrl = a.source.repoUrl :=
        congrArg RenderSource.repoUrl hsame
      refine h.of_row hothers (fun x hx hn => ⟨_, hrow, ?_⟩) fun entry he => ⟨_, hrow, ?_⟩
      · obtain ⟨-, a', ha', hsrc⟩ := h.apps x hx
        rw [hn] at ha'
        obtain rfl := Option.some.inj (ha.symm.trans ha')
        rw [hsame, hurl]
        exact hsrc
      · obtain ⟨a', ha', hok⟩ := h.entries name entry he
        obtain rfl := Option.some.inj (ha.symm.trans ha')
        rcases hok with hcur | han | hin
        · exact Or.inl (hcur.congr rfl hsame)
        · rw [hurl]
          exact Or.inr (Or.inl han)
        · exact Or.inr (Or.inr (hin.congr rfl hsame))
    · refine h.of_row hothers (fun x hx hn => absurd hn (happs x hx)) fun entry he => ?_
      rw [hnone] at he
      simp at he
    · exact h.of_row hothers (fun x _ _ => ⟨_, hrow, Or.inr han⟩)
        fun entry _ => ⟨_, hrow, Or.inr (Or.inl han)⟩
    · -- the loop is about to list the applications of the new repository
      refine h.of_row hothers (fun x hx _ => ?_) fun entry _ => ⟨_, hrow, ?_⟩
      · rw [hstage] at hx
        simp [Stage.apps] at hx
      · have hj : s.stage.job = some job := by rw [hstage]; rfl
        rcases (h.job job hj).2 with hhead | han
        · exact Or.inr (Or.inr ⟨job, hj, hurl, hhead, Or.inl hstage⟩)
        · rw [hurl] at han
          exact Or.inr (Or.inl han)
  · exact h

theorem following_deleteApp {s : State} (h : Following site s) {name : AppName}
    (hrepairs : Repairs site s (.deleteApp name)) : Following site (s.deleteApp name) := by
  unfold State.deleteApp
  rw [deleteApp_fst]
  have hothers : ∀ n, n ≠ name →
      (s.db.deleteApplication name).1.getApplication n = s.db.getApplication n := by
    intro n hn
    rw [Database.getApplication_deleteApplication, if_neg hn]
  cases ha : s.db.getApplication name with
  | none =>
      rw [Database.deleteApplication_of_none ha]
      exact h
  | some a =>
      obtain ⟨hnone, happs⟩ := hrepairs (by rw [ha]; simp)
      refine h.of_row hothers (fun x hx hn => absurd hn (happs x hx)) fun entry he => ?_
      rw [hnone] at he
      simp at he

/-! ## Rendering -/

/-- What is rendered is what a render without the cache yields. -/
theorem rendered_fresh {s : State} {job : Job} {app : Application} {todo : List Application}
    (hstage : s.stage = .rendering job (app :: todo)) (hsucceeds : RendersSucceed site s .render)
    (hcached : Repairs site s .render) : ∃ manifests,
    ((s.specOf job app).render site.registry s.cache).2 = .ok manifests
      ∧ (s.specOf job app).fresh site.registry = .ok manifests := by
  have hok := hsucceeds job app todo hstage
  cases hf : (s.specOf job app).fresh site.registry with
  | error e =>
      rw [hf] at hok
      simp [Except.isOk, Except.toBool] at hok
  | ok manifests =>
      refine ⟨manifests, ?_, rfl⟩
      unfold AppRenderSpec.render
      cases hhit : s.cache.lookup (s.specOf job app).cacheKey with
      | none => simp only [hf]
      | some hit => exact (hcached job app todo hstage hit hhit).symm.trans hf

omit [FloatText] in
/-- The entry a render leaves is right, or the loop will be back. -/
theorem Following.rendered {s : State} (h : Following site s) {job : Job} {app : Application}
    {todo : List Application} (hstage : s.stage = .rendering job (app :: todo))
    {manifests : List Manifest} (hf : (renderSpec app.name (renderSource app) job.head
      (checkout (site.trees job.head))).fresh site.registry = .ok manifests) :
    ∃ a, s.db.getApplication app.name = some a
      ∧ (Current site s a ⟨manifests, some job.head⟩ ∨ Announced site s a.source.repoUrl) := by
  have hjob : s.stage.job = some job := by rw [hstage]; rfl
  obtain ⟨hr, hhead⟩ := h.job job hjob
  obtain ⟨⟨j, hj, hurl⟩, a, ha, hsrc⟩ := h.apps app (by rw [hstage]; exact List.mem_cons_self)
  obtain rfl := Option.some.inj (hjob.symm.trans hj)
  refine ⟨a, ha, ?_⟩
  rcases hsrc with hsrc | han
  · have hurl' : a.source.repoUrl = job.url :=
      (congrArg RenderSource.repoUrl hsrc).symm.trans hurl
    rcases hhead with hhead | han
    · refine Or.inl ⟨job.repo, job.head, by rw [hurl']; exact hr, hhead, rfl, ?_⟩
      rw [show a.name = app.name from Table.find_name ha, ← hsrc]
      exact hf
    · rw [← hurl'] at han
      exact Or.inr han
  · exact Or.inr han

omit [Sha256] [FloatText] in
/-- What the loop has in hand besides the application it renders stays there. -/
theorem InHand.rest {s s' : State} {a app : Application} {job : Job} {todo : List Application}
    (h : InHand s a) (hstage : s.stage = .rendering job (app :: todo)) (hne : a.name ≠ app.name)
    (hstage' : s'.stage = State.rest job todo) (hdisk : s'.disk = s.disk) : InHand s' a := by
  obtain ⟨j, hj, hurl, hhead, hres | ⟨x, hx, hxname, hsrc⟩⟩ := h
  · rw [hstage] at hres
    simp at hres
  have hjob : s.stage.job = some job := by rw [hstage]; rfl
  obtain rfl := Option.some.inj (hjob.symm.trans hj)
  have happs : s.stage.apps = app :: todo := by rw [hstage]; rfl
  rw [happs] at hx
  rcases List.mem_cons.mp hx with rfl | hx
  · exact absurd hxname.symm hne
  · unfold InHand
    rw [hstage', hdisk, State.rest_apps]
    exact ⟨job, State.rest_job.mpr ⟨List.ne_nil_of_mem hx, rfl⟩, hurl, hhead,
      Or.inr ⟨x, hx, hxname, hsrc⟩⟩

theorem following_render {s : State} (h : Following site s)
    (hsucceeds : RendersSucceed site s .render) (hcached : Repairs site s .render) :
    Following site (s.render site) := by
  rcases s.render_cases site with heq | ⟨job, app, todo, hstage, hres⟩
  · rw [heq]
    exact h
  obtain ⟨manifests, hok, hf⟩ := rendered_fresh hstage hsucceeds hcached
  -- a render that fails is ruled out, so the entry is written
  rcases hres with ⟨manifests', hok', heq⟩ | ⟨e, herr, -⟩
  · obtain rfl := Except.ok.inj (hok.symm.trans hok')
    rw [heq]
    refine Following.publish ?_ fun url => rfl
    unfold State.specOf at hf
    rw [h.workDir job (app :: todo) hstage] at hf
    have happs : s.stage.apps = app :: todo := by rw [hstage]; rfl
    have hjob : s.stage.job = some job := by rw [hstage]; rfl
    obtain ⟨hr, hhead⟩ := h.job job hjob
    refine ⟨fun hs => ?_, h.heads, fun j hj => ?_, fun x hx => ?_, fun j todo' hj => ?_,
      fun name entry he => ?_⟩
    · exact absurd hs (h.listens (by simp [hstage]))
    · obtain ⟨-, rfl⟩ := State.rest_job.mp hj
      exact ⟨hr, hhead⟩
    · have hx : x ∈ todo := by rw [← State.rest_apps job todo]; exact hx
      obtain ⟨⟨j, hj, hurl⟩, hrow⟩ := h.apps x (by rw [happs]; exact List.mem_cons_of_mem _ hx)
      obtain rfl := Option.some.inj (hjob.symm.trans hj)
      exact ⟨⟨job, State.rest_job.mpr ⟨List.ne_nil_of_mem hx, rfl⟩, hurl⟩, hrow⟩
    · have hj : State.rest job todo = .rendering j todo' := hj
      obtain ⟨-, rfl⟩ := State.rest_job.mp (show (State.rest job todo).job = some j by rw [hj]; rfl)
      exact h.workDir j (app :: todo) hstage
    · by_cases hname : name = app.name
      · -- the entry just written
        subst hname
        obtain rfl : ⟨manifests, some job.head⟩ = entry :=
          Option.some.inj ((AList.lookup_insert _).symm.trans he)
        obtain ⟨a, ha, hright | han⟩ := h.rendered hstage hf
        · exact ⟨a, ha, Or.inl hright⟩
        · exact ⟨a, ha, Or.inr (Or.inl han)⟩
      · have he' : s.store.lookup name = some entry := (AList.lookup_insert_ne hname).symm.trans he
        obtain ⟨a, ha, hok⟩ := h.entries name entry he'
        have hne : a.name ≠ app.name := fun happ => hname ((Table.find_name ha).symm.trans happ)
        exact ⟨a, ha, hok.imp_right fun hok => hok.imp_right fun hin => hin.rest hstage hne rfl rfl⟩
  · rw [hok] at herr
    simp at herr

/-! ## Runs -/

theorem following_step (hids : DistinctIds site.cfgs) {s : State} {e : Event}
    (h : Following site s) (hsucceeds : RendersSucceed site s e) (hrepairs : Repairs site s e) :
    Following site (step site s e) := by
  cases e with
  | poll id clone answer => exact following_poll hids h id clone answer
  | bridge id => exact following_bridge hids h id
  | pollLag id n => exact following_pollLag h id n hrepairs
  | subscribe =>
      exact h.of_events rfl rfl rfl rfl (fun hs => by simp [step] at hs)
        (fun _ _ _ _ hl => hl) fun _ _ _ _ _ he _ => he
  | receive => exact following_receive h
  | list => exact following_list h
  | materialize fault => exact following_materialize h hsucceeds hrepairs
  | render => exact following_render h hsucceeds hrepairs
  | lag n => exact following_lag h n hrepairs
  | evict key =>
      exact h.of_events rfl rfl rfl rfl (fun hs => ⟨hs, (h.fresh hs).2.2⟩)
        (fun _ _ _ _ hl => hl) fun _ _ _ _ _ he _ => he
  | createApp req id now => exact following_createApp h req id now
  | updateApp name body now => exact following_updateApp h hrepairs
  | deleteApp name => exact following_deleteApp h hrepairs

/--
**The store follows the table.**

From any stored applications and anything on disk, in any order of requests, polls and the
steps of the tasks, whatever `origin` answers: if every render succeeds, and each step that
makes an entry wrong leaves something on its way that repairs it, then whenever nothing is
on its way any more each entry is of a stored application, rendered from its current
repository, path and plugin at the head.
-/
theorem follows_table (hids : DistinctIds site.cfgs) (clone : Nat → Except GitError Pack)
    (db : Database) (disk : Disk) (es : List Event)
    (hsucceeds : Each (step site) (RendersSucceed site) (State.start site clone db disk) es)
    (hrepairs : Each (step site) (Repairs site) (State.start site clone db disk) es) :
    Always (step site) (FollowsTable site) (State.start site clone db disk) es := by
  intro pre hpre
  have hinv : Following site (exec (step site) (State.start site clone db disk) pre) :=
    exec_inv_of_each (C := fun s e => RendersSucceed site s e ∧ Repairs site s e)
      (fun s e h hc => following_step hids h hc.1 hc.2) (following_start site clone db disk)
      (fun p e hp => ⟨hsucceeds p e (hp.trans hpre), hrepairs p e (hp.trans hpre)⟩)
  exact hinv.follows

end

theorem distinctIds_shop : @DistinctIds digests shopSite.cfgs := by
  intro c hc c' hc' _
  rw [List.mem_singleton.mp hc, List.mem_singleton.mp hc']

theorem shopRun_succeeds :
    Each (@step digests .ofBits shopSite) (RendersSucceed shopSite) shopStart shopRun := by
  unfold shopRun
  rw [each_cons, each_cons, each_cons, each_cons, each_cons, each_cons, each_cons, each_cons]
  refine ⟨trivial, trivial, trivial, trivial, trivial, fun job apps hstage => ⟨rfl, ?_⟩,
    fun job app todo _ => rfl, trivial, each_nil⟩
  obtain ⟨rfl, -⟩ := Stage.listed.inj (shopRun_listed.symm.trans hstage)
  exact ⟨_, rfl, List.mem_append_right _ (List.mem_singleton_self _)⟩

theorem shop_follows :
    Always (@step digests .ofBits shopSite) (@FollowsTable digests shopSite) shopStart shopRun :=
  @follows_table digests shopSite .ofBits distinctIds_shop (fun _ => .ok (packOf "c1")) shopDb
    emptyDisk shopRun shopRun_succeeds (by
      unfold shopRun
      rw [each_cons, each_cons, each_cons, each_cons, each_cons, each_cons, each_cons, each_cons]
      refine ⟨trivial, trivial, trivial, trivial, trivial, fun job apps hstage => ?_,
        fun job app todo hstage hit hhit => ?_, trivial, each_nil⟩
      · -- the working directory is new
        obtain ⟨rfl, -⟩ := Stage.listed.inj (shopRun_listed.symm.trans hstage)
        exact writeTree_eq_checkout.mpr fun _ _ => rfl
      · -- the cache is empty
        exact absurd (show none = some hit from hhit) (by simp))

/-- **A deleted application keeps its entry.** -/
theorem deleted_entry_stays : ¬ ∀ (site : Site) (clone : Nat → Except GitError Pack) (db : Database)
    (disk : Disk) (es : List Event), @DistinctIds digests site.cfgs →
    Each (@step digests .ofBits site) (RendersSucceed site)
      (@State.start digests site clone db disk) es →
    Always (@step digests .ofBits site) (@FollowsTable digests site)
      (@State.start digests site clone db disk) es := by
  intro h
  have hsucceeds : Each (@step digests .ofBits shopSite) (RendersSucceed shopSite) shopStart
      (shopRun ++ [.deleteApp "shop"]) := each_snoc.mpr ⟨shopRun_succeeds, trivial⟩
  have hend := (h shopSite _ shopDb emptyDisk _ distinctIds_shop hsucceeds).final
  have hdrained : Drained (exec (@step digests .ofBits shopSite) shopStart
      (shopRun ++ [.deleteApp "shop"])) := by
    refine ⟨rfl, rfl, rfl, fun id => ?_⟩
    show Function.update (Function.update (fun _ => []) shopRepo.id _) shopRepo.id [] id = _
    rw [Function.update_idem, Function.update_apply]
    exact ite_self _
  obtain ⟨a, ha, -⟩ := hend hdrained "shop" ⟨[configMap "deploy" "v1"], some "c2"⟩ rfl
  exact absurd (show none = some a from ha) (by simp)

end SynchrotronCD.Db.Pipeline
