import SynchrotronCD.Server.RegistrationApi

/-!
# What is registered passes the checks

Each of the two APIs works on a table of its own and takes no notice of the other
(`serve_elsewhere`). What one section stores was checked as it is, so whatever was stored
by a run of both passes the checks (`registrations_valid`), and a check of a cluster never
fails while its configuration is built.
-/

namespace SynchrotronCD.Db

open Lib

/-! ## One table at a time -/

/-- A change of the database that an API takes no notice of. -/
structure Api.Elsewhere {ρ Req Create View : Type} [Row ρ] (api : Api ρ Req Create View)
    (change : Database → Database) : Prop where
  cascade : ∀ db id, api.endpoint.cascade db id = db
  table : ∀ db, api.endpoint.table (change db) = api.endpoint.table db
  put : ∀ db t, api.endpoint.put (change db) t = change (api.endpoint.put db t)

namespace Registrations

variable {ρ Req Create View : Type} [Row ρ] {api : Api ρ Req Create View}
  {change : Database → Database}

section

variable (h : api.Elsewhere change)

include h

theorem get_elsewhere (db : Database) (name : String) :
    api.endpoint.get (change db) name = api.endpoint.get db name := by
  unfold Endpoint.get
  rw [h.table]

theorem delete_elsewhere (db : Database) (name : String) :
    api.endpoint.delete (change db) name
      = (change (api.endpoint.delete db name).1, (api.endpoint.delete db name).2) := by
  unfold Endpoint.delete
  rw [get_elsewhere h]
  cases api.endpoint.get db name with
  | none => rfl
  | some r => simp only [h.cascade, h.put, h.table]

theorem insert_elsewhere (db : Database) (r : ρ) :
    api.endpoint.insert (change db) r = (api.endpoint.insert db r).map change := by
  unfold Endpoint.insert
  rw [h.table]
  cases (api.endpoint.table db).insert r with
  | error v => rfl
  | ok t => simp only [Except.map, h.put]

theorem load_elsewhere (db : Database) (name : String) (failing : Failing) :
    api.load (change db) name failing = api.load db name failing := by
  unfold Api.load
  rw [get_elsewhere h]

theorem create_elsewhere (db : Database) (req : Create) (id : String) (now : Timestamp)
    (failing : Failing) : api.create (change db) req id now failing
      = (change (api.create db req id now failing).1, (api.create db req id now failing).2) := by
  unfold Api.create
  split
  · rfl
  · cases api.build req id now with
    | error e => rfl
    | ok r =>
        unfold Api.insertNew
        cases failing.atFirst with
        | some text => rfl
        | none =>
            simp only [get_elsewhere h]
            cases api.endpoint.get db (api.nameOf req) with
            | some r' => rfl
            | none =>
                cases failing.atSecond with
                | some text => rfl
                | none =>
                    simp only [insert_elsewhere h]
                    cases api.endpoint.insert db r <;> rfl

theorem deleteNamed_elsewhere (db : Database) (name : String) (failing : Failing) :
    api.delete (change db) name failing
      = (change (api.delete db name failing).1, (api.delete db name failing).2) := by
  unfold Api.delete
  cases failing.atFirst with
  | some text => rfl
  | none =>
      simp only [delete_elsewhere h]
      obtain ⟨db', removed⟩ := api.endpoint.delete db name
      cases removed <;> rfl

theorem replace_elsewhere (db : Database) (p : PendingUpdate ρ Req) (now : Timestamp)
    (fault : Database.Fault) :
    Updates.replaceSection api.endpoint (change db) p now fault
      = (change (Updates.replaceSection api.endpoint db p now fault).1,
        (Updates.replaceSection api.endpoint db p now fault).2) := by
  unfold Updates.replaceSection
  cases api.endpoint.edit p.req now p.row with
  | error e => rfl
  | ok r =>
      cases fault with
      | delete text => rfl
      | insert text => simp only [Database.replace, delete_elsewhere h]
      | none =>
          simp only [Database.replace, delete_elsewhere h, insert_elsewhere h]
          cases api.endpoint.insert (api.endpoint.delete db p.name).1 r.1 <;> rfl

/-- **One section** does and answers what it would without the change. -/
theorem serve_elsewhere (s : State ρ Req) (e : Event Req Create) :
    serve api { s with db := change s.db } e
      = ({ (serve api s e).1 with db := change (serve api s e).1.db }, (serve api s e).2) := by
  cases e with
  | create req id now failing => simp only [serve, create_elsewhere h]
  | get name failing =>
      simp only [serve, load_elsewhere h]
      cases api.load s.db name failing <;> rfl
  | list failing =>
      simp only [serve, Api.listed, Api.list, h.table]
  | load task name req failing =>
      simp only [serve, load_elsewhere h]
      cases api.load s.db name failing <;> rfl
  | replace task now fault =>
      simp only [serve]
      cases s.tasks task with
      | none => rfl
      | some p => simp only [replace_elsewhere h]
  | delete name failing => simp only [serve, deleteNamed_elsewhere h]
  | check name failing =>
      simp only [serve, load_elsewhere h]
      cases api.check with
      | none => rfl
      | some check => cases api.load s.db name failing <;> rfl

/-- What the change makes of the database as it was is all that the section could undo. -/
theorem serve_fixed {s : State ρ Req} (hs : change s.db = s.db) (e : Event Req Create) :
    change (serve api s e).1.db = (serve api s e).1.db := by
  have hserve := serve_elsewhere h s e
  rw [hs] at hserve
  exact (congrArg (fun t => t.1.db) hserve).symm

end

end Registrations

theorem clusters_elsewhere (k8s : Apiserver) (t : Table RepoRegistration → Table RepoRegistration) :
    (clustersApi k8s).Elsewhere fun db => { db with repos := t db.repos } where
  cascade _ _ := rfl
  table _ := rfl
  put _ _ := rfl

theorem repos_elsewhere (t : Table ClusterRegistration → Table ClusterRegistration) :
    reposApi.Elsewhere fun db => { db with clusters := t db.clusters } where
  cascade _ _ := rfl
  table _ := rfl
  put _ _ := rfl

/-- The clusters API leaves the repositories alone. -/
theorem repos_of_serve_clusters (k8s : Apiserver)
    (s : Registrations.State ClusterRegistration UpdateClusterRequest)
    (e : Registrations.Event UpdateClusterRequest CreateClusterRequest) :
    (Registrations.serve (clustersApi k8s) s e).1.db.repos = s.db.repos := by
  have hfixed := Registrations.serve_fixed (clusters_elsewhere k8s fun _ => s.db.repos) rfl e
  exact (congrArg Database.repos hfixed).symm

/-- The repositories API leaves the clusters alone. -/
theorem clusters_of_serve_repos (s : Registrations.State RepoRegistration UpdateRepoRequest)
    (e : Registrations.Event UpdateRepoRequest CreateRepoRequest) :
    (Registrations.serve reposApi s e).1.db.clusters = s.db.clusters := by
  have hfixed := Registrations.serve_fixed (repos_elsewhere fun _ => s.db.clusters) rfl e
  exact (congrArg Database.clusters hfixed).symm

/-! ## What is stored passes the checks -/

/-- What an API keeps of its registrations. -/
structure Api.Keeps {ρ Req Create View : Type} [Row ρ] (api : Api ρ Req Create View)
    (Valid : ρ → Prop) : Prop where
  lawful : api.endpoint.Lawful
  cascade : ∀ db id, api.endpoint.cascade db id = db
  build : ∀ {req id now r}, trim (api.nameOf req).toList ≠ [] → api.build req id now = .ok r →
    Valid r
  edit : ∀ {req now r} {r' : Edited r}, Valid r → api.endpoint.edit req now r = .ok r' →
    Valid r'.1

namespace Registrations

variable {ρ Req Create View : Type} [Row ρ] {api : Api ρ Req Create View} {Valid : ρ → Prop}

/-- Every registration that is stored, or that an update has loaded. -/
structure AllValid (api : Api ρ Req Create View) (Valid : ρ → Prop) (s : State ρ Req) : Prop where
  stored : ∀ name r, api.endpoint.get s.db name = some r → Valid r
  loaded : ∀ t p, s.tasks t = some p → Valid p.row

theorem stored_delete (h : api.Keeps Valid) {db : Database}
    (hdb : ∀ name r, api.endpoint.get db name = some r → Valid r) (name : String) :
    ∀ n r, api.endpoint.get (api.endpoint.delete db name).1 n = some r → Valid r := by
  intro n r hr
  rw [h.lawful.get_delete] at hr
  split at hr
  · cases hr
  · exact hdb n r hr

theorem stored_insert (h : api.Keeps Valid) {db db' : Database} {row : ρ} (hrow : Valid row)
    (hdb : ∀ name r, api.endpoint.get db name = some r → Valid r)
    (hins : api.endpoint.insert db row = .ok db') :
    ∀ n r, api.endpoint.get db' n = some r → Valid r := by
  intro n r hr
  rw [h.lawful.get_insert hins] at hr
  split at hr
  · cases hr
    exact hrow
  · exact hdb n r hr

theorem stored_create (h : api.Keeps Valid) {db : Database}
    (hdb : ∀ name r, api.endpoint.get db name = some r → Valid r) (req : Create) (id : String)
    (now : Timestamp) (failing : Failing) :
    ∀ n r, api.endpoint.get (api.create db req id now failing).1 n = some r → Valid r := by
  unfold Api.create
  split
  · exact hdb
  · rename_i hname
    split
    · exact hdb
    · rename_i row hbuild
      unfold Api.insertNew
      split
      · exact hdb
      · split
        · exact hdb
        · split
          · exact hdb
          · split
            · rename_i db' hins
              exact stored_insert h (h.build hname hbuild) hdb hins
            · exact hdb

/-- The second section of an update: what it inserts was edited from a row that was valid. -/
theorem stored_replace (h : api.Keeps Valid) {db : Database}
    (hdb : ∀ name r, api.endpoint.get db name = some r → Valid r) {p : PendingUpdate ρ Req}
    (hp : Valid p.row) (now : Timestamp) (fault : Database.Fault) :
    ∀ n r, api.endpoint.get (Updates.replaceSection api.endpoint db p now fault).1 n = some r →
      Valid r := by
  unfold Updates.replaceSection
  split
  · exact hdb
  · rename_i r' hedit
    have hdelete := stored_delete h hdb p.name
    cases fault with
    | delete text => exact hdb
    | insert text => exact hdelete
    | none =>
        unfold Database.replace
        cases hins : api.endpoint.insert (api.endpoint.delete db p.name).1 r'.1 with
        | ok db' =>
            simp only [hins]
            exact stored_insert h (h.edit hp hedit) hdelete hins
        | error v =>
            simp only [hins]
            exact hdelete

/-- **One section** leaves only what passes the checks. -/
theorem allValid_serve (h : api.Keeps Valid) (s : State ρ Req) (e : Event Req Create)
    (hs : AllValid api Valid s) : AllValid api Valid (serve api s e).1 := by
  cases e with
  | create req id now failing => exact ⟨stored_create h hs.stored req id now failing, hs.loaded⟩
  | get name failing =>
      simp only [serve]
      split <;> exact hs
  | list failing => exact hs
  | load task name req failing =>
      simp only [serve]
      split
      · rename_i r hload
        refine ⟨hs.stored, fun t p hp => ?_⟩
        rcases Updates.tasks_update hp with hp | hp
        · -- the row that was loaded is one that is stored
          obtain rfl := Option.some.inj hp
          unfold Api.load at hload
          split at hload
          · cases hload
          · split at hload
            · rename_i row hget
              obtain rfl := Except.ok.inj hload
              exact hs.stored name row hget
            · cases hload
        · exact hs.loaded t p hp
      · refine ⟨hs.stored, fun t p hp => ?_⟩
        rcases Updates.tasks_update hp with hp | hp
        · cases hp
        · exact hs.loaded t p hp
  | replace task now fault =>
      simp only [serve]
      split
      · rename_i p hp
        refine ⟨stored_replace h hs.stored (hs.loaded task p hp) now fault, fun t q hq => ?_⟩
        rcases Updates.tasks_update hq with hq | hq
        · cases hq
        · exact hs.loaded t q hq
      · exact hs
  | delete name failing =>
      refine ⟨?_, hs.loaded⟩
      show ∀ n r, api.endpoint.get (api.delete s.db name failing).1 n = some r → Valid r
      unfold Api.delete
      split
      · exact hs.stored
      · have hdelete := stored_delete h hs.stored name
        split
        · rename_i hd
          rw [hd] at hdelete
          exact hdelete
        · rename_i hd
          rw [hd] at hdelete
          exact hdelete
  | check name failing =>
      simp only [serve]
      split <;> exact hs

/-- What is answered to a check is what the check made of a row that is valid. -/
theorem checked_of_valid {s : State ρ Req} (hs : AllValid api Valid s) {e : Event Req Create}
    {r : ConnectivityCheckResponse} (hr : (serve api s e).2 = some (.checked r)) :
    ∃ check name row, api.check = some check ∧ Valid row ∧ r = check name row := by
  cases e with
  | create req id now failing =>
      simp only [serve, Option.some.injEq] at hr
      unfold Api.create Api.insertNew at hr
      grind
  | get name failing => simp only [serve] at hr; split at hr <;> cases hr
  | list failing =>
      simp only [serve, Option.some.injEq] at hr
      unfold Api.listed at hr
      grind
  | load task name req failing => simp only [serve] at hr; split at hr <;> cases hr
  | replace task now fault =>
      simp only [serve] at hr
      split at hr
      · simp only [Option.some.injEq] at hr
        split at hr <;> cases hr
      · cases hr
  | delete name failing =>
      simp only [serve, Option.some.injEq] at hr
      unfold Api.delete at hr
      grind
  | check name failing =>
      simp only [serve] at hr
      split at hr
      · rename_i check row hcheck hload
        unfold Api.load at hload
        split at hload
        · cases hload
        · split at hload
          · rename_i row' hget
            obtain rfl := Except.ok.inj hload
            cases hr
            exact ⟨check, name, row', hcheck, hs.stored name row' hget, rfl⟩
          · cases hload
      · cases hr
      · cases hr

end Registrations

/-- Named, and a kubeconfig is given where one is needed. -/
def ClusterRegistration.Valid (reg : ClusterRegistration) : Prop :=
  trim reg.name.toList ≠ [] ∧ validateAuthFields reg.authSource reg.kubeconfigPath = .ok ()

/-- Named, with a URL of git and a reference into a store. -/
def RepoRegistration.Valid (reg : RepoRegistration) : Prop :=
  trim reg.name.toList ≠ [] ∧ validateUrl reg.url = .ok () ∧
    ifGiven validateSecretRef reg.credentialsSecretRef = .ok ()

theorem checked_ok {ρ : Type} [Row ρ] {r : ρ} {edited : Except ApiError ρ}
    {h : ∀ r', edited = .ok r' → Row.id r' = Row.id r ∧ Row.name r' = Row.name r}
    {r' : Edited r} (hc : Endpoint.checked edited h = .ok r') : edited = .ok r'.1 := by
  unfold Endpoint.checked at hc
  split at hc
  · obtain rfl := Except.ok.inj hc
    rfl
  · cases hc

theorem clusters_keep (k8s : Apiserver) : (clustersApi k8s).Keeps ClusterRegistration.Valid where
  lawful := Endpoint.clusters_lawful
  cascade _ _ := rfl
  build hname h := by
    obtain ⟨authSource, -, h⟩ := bind_ok h
    obtain ⟨u, hvalid, h⟩ := bind_ok h
    obtain rfl := Except.ok.inj h
    exact ⟨hname, hvalid⟩
  edit {req now r r'} hr h := by
    have happly := checked_ok h
    have hname := (UpdateClusterRequest.apply_ok happly).2
    obtain ⟨authSource, -, happly⟩ := bind_ok happly
    obtain ⟨u, hvalid, happly⟩ := bind_ok happly
    have heq := Except.ok.inj happly
    refine ⟨by rw [hname]; exact hr.1, ?_⟩
    rw [← heq]
    exact hvalid

/-- A field of the request that passes its check, or else the old one that did. -/
theorem ifGiven_or {check : String → Except ApiError Unit} {new old : Option String}
    (hnew : ifGiven check new = .ok ()) (hold : ifGiven check old = .ok ()) :
    ifGiven check (new.or old) = .ok () := by
  cases new with
  | none => exact hold
  | some s => exact hnew

theorem repos_keep : reposApi.Keeps RepoRegistration.Valid where
  lawful := Endpoint.repos_lawful
  cascade _ _ := rfl
  build hname h := by
    obtain ⟨u, hurl, h⟩ := bind_ok h
    obtain ⟨v, hsecret, h⟩ := bind_ok h
    obtain rfl := Except.ok.inj h
    exact ⟨hname, hurl, hsecret⟩
  edit {req now r r'} hr h := by
    obtain ⟨hname, hurl, hsecret⟩ := hr
    have happly := checked_ok h
    have hsame := (UpdateRepoRequest.apply_ok happly).2
    obtain ⟨u, hnewurl, happly⟩ := bind_ok happly
    obtain ⟨v, hnewsecret, happly⟩ := bind_ok happly
    have heq := Except.ok.inj happly
    refine ⟨by rw [hsame]; exact hname, ?_, ?_⟩
    · rw [← heq]
      show validateUrl (req.url.getD r.url) = .ok ()
      cases hgiven : req.url with
      | none => exact hurl
      | some url =>
          rw [hgiven] at hnewurl
          exact hnewurl
    · rw [← heq]
      exact ifGiven_or hnewsecret hsecret

theorem registrationToKubeCfg_of_valid {reg : ClusterRegistration} (h : reg.Valid) :
    ∃ cfg, registrationToKubeCfg reg = .ok cfg := by
  have hvalid := h.2
  unfold registrationToKubeCfg
  unfold validateAuthFields at hvalid
  cases hsource : reg.authSource with
  | kubeconfig =>
      cases hpath : reg.kubeconfigPath with
      | none => rw [if_pos ⟨hsource, hpath⟩] at hvalid; cases hvalid
      | some path => exact ⟨_, rfl⟩
  | inCluster => exact ⟨_, rfl⟩
  | default => exact ⟨_, rfl⟩

theorem checkCluster_stage (k8s : Apiserver) (name : String) {reg : ClusterRegistration}
    (h : reg.Valid) : (checkCluster k8s name reg).failedStage ≠ some "build_config" := by
  obtain ⟨cfg, hcfg⟩ := registrationToKubeCfg_of_valid h
  rw [checkCluster, hcfg]
  simp only
  split
  · simp
  · split <;> simp

namespace BothApis

/-- Every registration of a database passes the checks. -/
structure Valid (db : Database) : Prop where
  clusters : ∀ name reg, db.getCluster name = some reg → reg.Valid
  repos : ∀ name reg, db.getRepo name = some reg → reg.Valid

/-- Those that are stored, and those that updates have loaded. -/
structure AllValid (k8s : Apiserver) (s : State) : Prop where
  clusters : Registrations.AllValid (clustersApi k8s) ClusterRegistration.Valid s.clusters
  repos : Registrations.AllValid reposApi RepoRegistration.Valid s.repos

theorem allValid_new (k8s : Apiserver) {db : Database} (h : Valid db) : AllValid k8s (.new db) where
  clusters := ⟨h.clusters, fun _ _ hp => by cases hp⟩
  repos := ⟨h.repos, fun _ _ hp => by cases hp⟩

theorem allValid_step (k8s : Apiserver) (s : State) (e : Event) (h : AllValid k8s s) :
    AllValid k8s (step k8s s e) := by
  cases e with
  | cluster e =>
      refine ⟨Registrations.allValid_serve (clusters_keep k8s) _ e h.clusters, ?_, h.repos.loaded⟩
      intro name reg hreg
      refine h.repos.stored name reg ?_
      have hrepos := repos_of_serve_clusters k8s s.clusters e
      rw [← hreg]
      exact congrArg (Table.find · name) hrepos.symm
  | repo e =>
      refine ⟨⟨?_, h.clusters.loaded⟩, Registrations.allValid_serve repos_keep _ e h.repos⟩
      intro name reg hreg
      refine h.clusters.stored name reg ?_
      have hclusters := clusters_of_serve_repos s.repos e
      rw [← hreg]
      exact congrArg (Table.find · name) hclusters.symm

theorem stage_of_valid {k8s : Apiserver} {s : State} (h : AllValid k8s s) {es : List Event}
    {r : ConnectivityCheckResponse} (hr : .cluster (.checked r) ∈ responses k8s s es) :
    r.failedStage ≠ some "build_config" := by
  induction es generalizing s with
  | nil => exact absurd hr List.not_mem_nil
  | cons e es ih =>
      rw [responses, List.mem_append] at hr
      rcases hr with hr | hr
      · rw [Option.mem_toList] at hr
        cases e with
        | cluster e =>
            obtain ⟨response, hresponse, heq⟩ := Option.map_eq_some_iff.mp hr
            obtain rfl := Answer.cluster.inj heq
            obtain ⟨check, name, reg, hcheck, hvalid, rfl⟩ :=
              Registrations.checked_of_valid h.clusters hresponse
            obtain rfl := Option.some.inj hcheck
            exact checkCluster_stage k8s name hvalid
        | repo e =>
            obtain ⟨response, -, heq⟩ := Option.map_eq_some_iff.mp hr
            cases heq
      · exact ih (allValid_step k8s s e h) hr

end BothApis

/--
**Whatever is registered passes the checks.**

In every order of the sections of any requests to both APIs, whichever statements fail:
a registration that is stored was checked as it is, though an update only checks what
it is given and may put back a row that was deleted or replaced since it was loaded.
So no check of a cluster fails while its configuration is built.
-/
theorem registrations_valid (k8s : Apiserver) {db : Database} (h : BothApis.Valid db)
    (es : List BothApis.Event) :
    BothApis.Valid (exec (BothApis.step k8s) (.new db) es).db ∧
    ∀ r, .cluster (.checked r) ∈ BothApis.responses k8s (.new db) es →
      r.failedStage ≠ some "build_config" := by
  have hrun := exec_inv (BothApis.allValid_step k8s) (BothApis.allValid_new k8s h) es
  exact ⟨⟨hrun.clusters.stored, hrun.repos.stored⟩,
    fun r hr => BothApis.stage_of_valid (BothApis.allValid_new k8s h) hr⟩

/-- No API server answers. -/
def unreachable : Apiserver := ⟨Unit, fun _ => .error "connection refused", fun _ => .ok "v1.30.0"⟩

/-- A cluster and a repository are registered, and the cluster is checked. -/
def shopRegistered : List BothApis.Event :=
  [.cluster (.create ⟨"prod", "kubeconfig", some "/etc/prod.yaml", none, some "s3cr3t", none⟩ "c1" 0
      .no),
    .repo (.create ⟨"shop", "https://example.com/shop.git", none, none, some "pw", none⟩ "r1" 0 .no),
    .cluster (.check "prod" .no)]

theorem prod_checked : BothApis.Valid (exec (BothApis.step unreachable) (.new .empty) shopRegistered).db
    ∧ ∀ r, .cluster (.checked r) ∈ BothApis.responses unreachable (.new .empty) shopRegistered →
      r.failedStage ≠ some "build_config" :=
  registrations_valid unreachable ⟨fun _ _ h => (by cases h), fun _ _ h => (by cases h)⟩ shopRegistered

end SynchrotronCD.Db
