import SynchrotronCD.Server.RegistrationProof

/-!
# What the responses of the registration APIs depend on

A mask over rows and requests covers what is neither looked at nor returned, and a section
does and answers under it what it does without (`serve_mask`). Bearer tokens and passwords
are masked so: no response of either API depends on what one of them is, only on whether
there is one (`secrets_not_observable`).
-/

namespace SynchrotronCD.Db

open Lib

/-! ## What responses depend on -/

/-- A mask over rows and requests: what it covers is neither looked at nor returned. -/
structure Api.Masks {ρ Req Create View : Type} [Row ρ] (api : Api ρ Req Create View)
    (row : ρ → ρ) (update : Req → Req) (new : Create → Create) : Prop where
  lawful : api.endpoint.Lawful
  cascade : ∀ db id, api.endpoint.cascade db id = db
  id : ∀ r, Row.id (row r) = Row.id r
  name : ∀ r, Row.name (row r) = Row.name r
  view : ∀ r, api.view (row r) = api.view r
  check : ∀ check, api.check = some check → ∀ name r, check name (row r) = check name r
  nameOf : ∀ req, api.nameOf (new req) = api.nameOf req
  build : ∀ req id now, api.build (new req) id now = (api.build req id now).map row
  edit : ∀ req now r, (api.endpoint.edit (update req) now (row r)).map Subtype.val
    = (api.endpoint.edit req now r).map fun r' => row r'.1

namespace Registrations

variable {ρ Req Create View : Type} [Row ρ] {api : Api ρ Req Create View} {row : ρ → ρ}
  {update : Req → Req} {new : Create → Create}

section

variable (h : api.Masks row update new)

include h

/-- The database with every row of the API masked. -/
def maskDb (db : Database) : Database :=
  api.endpoint.put db ((api.endpoint.table db).mapRows row h.id h.name)

theorem get_maskDb (db : Database) (name : String) :
    api.endpoint.get (maskDb h db) name = (api.endpoint.get db name).map row := by
  unfold Endpoint.get maskDb
  rw [h.lawful.table_put, Table.find_mapRows]

theorem delete_maskDb (db : Database) (name : String) :
    api.endpoint.delete (maskDb h db) name
      = (maskDb h (api.endpoint.delete db name).1, (api.endpoint.delete db name).2) := by
  have hget := get_maskDb h db name
  cases hr : api.endpoint.get db name with
  | none =>
      rw [hr] at hget
      rw [Endpoint.delete_of_none hget, Endpoint.delete_of_none hr]
  | some r =>
      rw [hr] at hget
      rw [Endpoint.delete_of_some hget, Endpoint.delete_of_some hr, h.cascade, h.cascade]
      unfold maskDb
      rw [h.lawful.table_put, h.lawful.put_put, h.lawful.table_put, h.lawful.put_put,
        Table.delete_mapRows]

theorem insert_maskDb (db : Database) (r : ρ) :
    api.endpoint.insert (maskDb h db) (row r) = (api.endpoint.insert db r).map (maskDb h) := by
  unfold Endpoint.insert
  have htable : api.endpoint.table (maskDb h db)
      = (api.endpoint.table db).mapRows row h.id h.name := h.lawful.table_put _ _
  rw [htable, Table.insert_mapRows]
  cases (api.endpoint.table db).insert r with
  | error v => rfl
  | ok t =>
      simp only [Except.map, Except.ok.injEq]
      unfold maskDb
      rw [h.lawful.put_put, h.lawful.table_put, h.lawful.put_put]

theorem list_maskDb (db : Database) : api.list (maskDb h db) = (api.list db).map row := by
  have htable : api.endpoint.table (maskDb h db)
      = (api.endpoint.table db).mapRows row h.id h.name := h.lawful.table_put _ _
  unfold Api.list
  rw [htable]
  refine (List.map_mergeSort fun a _ b _ => ?_).symm
  rw [h.name, h.name]

theorem load_maskDb (db : Database) (name : String) (failing : Failing) :
    api.load (maskDb h db) name failing = (api.load db name failing).map row := by
  unfold Api.load
  cases failing.atFirst with
  | some text => rfl
  | none =>
      simp only [get_maskDb]
      cases api.endpoint.get db name <;> rfl

theorem insertNew_maskDb (db : Database) (name : String) (r : ρ) (failing : Failing) :
    api.insertNew (maskDb h db) name (row r) failing
      = (maskDb h (api.insertNew db name r failing).1, (api.insertNew db name r failing).2) := by
  unfold Api.insertNew
  cases failing.atFirst with
  | some text => rfl
  | none =>
      simp only [get_maskDb]
      cases api.endpoint.get db name with
      | some r' => rfl
      | none =>
          cases failing.atSecond with
          | some text => rfl
          | none =>
              simp only [Option.map_none, insert_maskDb, h.view]
              cases api.endpoint.insert db r <;> rfl

theorem create_maskDb (db : Database) (req : Create) (id : String) (now : Timestamp)
    (failing : Failing) : api.create (maskDb h db) (new req) id now failing
      = (maskDb h (api.create db req id now failing).1, (api.create db req id now failing).2) := by
  unfold Api.create
  rw [h.nameOf, h.build]
  split
  · rfl
  · cases api.build req id now with
    | error e => rfl
    | ok r => exact insertNew_maskDb h db _ r failing

theorem deleteNamed_maskDb (db : Database) (name : String) (failing : Failing) :
    api.delete (maskDb h db) name failing
      = (maskDb h (api.delete db name failing).1, (api.delete db name failing).2) := by
  unfold Api.delete
  cases failing.atFirst with
  | some text => rfl
  | none =>
      simp only [delete_maskDb]
      obtain ⟨db', removed⟩ := api.endpoint.delete db name
      cases removed <;> rfl

/-- An update between its two sections, masked. -/
def maskPending (row : ρ → ρ) (update : Req → Req) (p : PendingUpdate ρ Req) :
    PendingUpdate ρ Req := ⟨p.name, update p.req, row p.row⟩

theorem replace_maskDb (db : Database) (p : PendingUpdate ρ Req) (now : Timestamp)
    (fault : Database.Fault) :
    Updates.replaceSection api.endpoint (maskDb h db) (maskPending row update p) now fault
      = (maskDb h (Updates.replaceSection api.endpoint db p now fault).1,
        (Updates.replaceSection api.endpoint db p now fault).2.map row) := by
  have hedit := h.edit p.req now p.row
  unfold Updates.replaceSection maskPending
  cases hr : api.endpoint.edit p.req now p.row with
  | error e =>
      rw [hr] at hedit
      cases hm : api.endpoint.edit (update p.req) now (row p.row) with
      | error e' =>
          rw [hm] at hedit
          cases hedit
          rfl
      | ok r' => rw [hm] at hedit; cases hedit
  | ok r =>
      rw [hr] at hedit
      cases hm : api.endpoint.edit (update p.req) now (row p.row) with
      | error e' => rw [hm] at hedit; cases hedit
      | ok r' =>
          rw [hm] at hedit
          have hval : r'.1 = row r.1 := Except.ok.inj hedit
          simp only
          rw [hval]
          cases fault with
          | delete text => rfl
          | insert text => simp only [Database.replace, delete_maskDb]; rfl
          | none =>
              simp only [Database.replace, delete_maskDb, insert_maskDb]
              cases api.endpoint.insert (api.endpoint.delete db p.name).1 r.1 <;> rfl

def maskEvent (update : Req → Req) (new : Create → Create) : Event Req Create → Event Req Create
  | .create req id now failing => .create (new req) id now failing
  | .load task name req failing => .load task name (update req) failing
  | .get name failing => .get name failing
  | .list failing => .list failing
  | .replace task now fault => .replace task now fault
  | .delete name failing => .delete name failing
  | .check name failing => .check name failing

def maskState (s : State ρ Req) : State ρ Req :=
  ⟨maskDb h s.db, fun t => (s.tasks t).map (maskPending row update)⟩

omit h in
theorem map_update {α β : Type} (f : α → β) (tasks : Nat → Option α) (task : Nat)
    (entry : Option α) : (fun t => (Function.update tasks task entry t).map f)
      = Function.update (fun t => (tasks t).map f) task (entry.map f) := by
  funext t
  by_cases ht : t = task
  · rw [ht, Function.update_self, Function.update_self]
  · rw [Function.update_of_ne ht, Function.update_of_ne ht]

/-- **One section** does and answers under the mask what it does without. -/
theorem serve_mask (s : State ρ Req) (e : Event Req Create) :
    serve api (maskState h s) (maskEvent update new e)
      = (maskState h (serve api s e).1, (serve api s e).2) := by
  cases e with
  | create req id now failing =>
      simp only [serve, maskEvent, maskState, create_maskDb]
  | get name failing =>
      simp only [serve, maskEvent, maskState, load_maskDb]
      cases api.load s.db name failing with
      | ok r => simp only [Except.map, h.view]
      | error e => rfl
  | list failing =>
      simp only [serve, maskEvent, maskState, Api.listed, list_maskDb, List.map_map]
      rw [(funext h.view : api.view ∘ row = api.view)]
  | load task name req failing =>
      simp only [serve, maskEvent, maskState, load_maskDb]
      cases api.load s.db name failing with
      | ok r =>
          simp only [Except.map, map_update]
          rfl
      | error e =>
          simp only [Except.map, map_update]
          rfl
  | replace task now fault =>
      simp only [serve, maskEvent, maskState]
      cases s.tasks task with
      | none => rfl
      | some p =>
          simp only [Option.map_some, replace_maskDb, map_update]
          cases (Updates.replaceSection api.endpoint s.db p now fault).2 with
          | ok r => simp only [Except.map, h.view, Option.map_none]
          | error e => rfl
  | delete name failing =>
      simp only [serve, maskEvent, maskState, deleteNamed_maskDb]
  | check name failing =>
      simp only [serve, maskEvent, maskState, load_maskDb]
      cases hcheck : api.check with
      | none => rfl
      | some check =>
          cases api.load s.db name failing with
          | ok r => simp only [Except.map, h.check check hcheck]
          | error e => rfl

end

end Registrations

/-- A secret replaced by the empty one. -/
def blankSecret (secret : Option String) : Option String := secret.map fun _ => ""

def ClusterRegistration.blank (reg : ClusterRegistration) : ClusterRegistration :=
  { reg with bearerToken := blankSecret reg.bearerToken }

def UpdateClusterRequest.blank (req : UpdateClusterRequest) : UpdateClusterRequest :=
  { req with bearerToken := blankSecret req.bearerToken }

def CreateClusterRequest.blank (req : CreateClusterRequest) : CreateClusterRequest :=
  { req with bearerToken := blankSecret req.bearerToken }

def RepoRegistration.blank (reg : RepoRegistration) : RepoRegistration :=
  { reg with password := blankSecret reg.password }

def UpdateRepoRequest.blank (req : UpdateRepoRequest) : UpdateRepoRequest :=
  { req with password := blankSecret req.password }

def CreateRepoRequest.blank (req : CreateRepoRequest) : CreateRepoRequest :=
  { req with password := blankSecret req.password }

theorem blankSecret_or (new old : Option String) :
    blankSecret (new.or old) = (blankSecret new).or (blankSecret old) := by
  cases new <;> rfl

theorem isSome_blankSecret (secret : Option String) :
    (blankSecret secret).isSome = secret.isSome := by
  cases secret <;> rfl

theorem val_checked {ρ : Type} [Row ρ] {r : ρ} (edited : Except ApiError ρ)
    (h : ∀ r', edited = .ok r' → Row.id r' = Row.id r ∧ Row.name r' = Row.name r) :
    (Endpoint.checked edited h).map Subtype.val = edited := by
  unfold Endpoint.checked
  split <;> rfl

theorem UpdateClusterRequest.apply_blank (req : UpdateClusterRequest) (reg : ClusterRegistration)
    (now : Timestamp) : req.blank.apply reg.blank now
      = (req.apply reg now).map ClusterRegistration.blank := by
  have hor := blankSecret_or req.bearerToken reg.bearerToken
  have hsource : req.blank.authSource = req.authSource ∧ reg.blank.authSource = reg.authSource :=
    ⟨rfl, rfl⟩
  unfold UpdateClusterRequest.apply
  rw [hsource.1, hsource.2]
  cases givenAuthSource reg.authSource req.authSource with
  | error e => rfl
  | ok authSource =>
      simp only [bind, Except.bind]
      have hpath : req.blank.kubeconfigPath.or reg.blank.kubeconfigPath
          = req.kubeconfigPath.or reg.kubeconfigPath := rfl
      rw [hpath]
      cases validateAuthFields authSource (req.kubeconfigPath.or reg.kubeconfigPath) with
      | error e => rfl
      | ok u =>
          simp only [Except.map, pure, Except.pure, ClusterRegistration.blank, hor,
            UpdateClusterRequest.blank]

theorem UpdateRepoRequest.apply_blank (req : UpdateRepoRequest) (reg : RepoRegistration)
    (now : Timestamp) : req.blank.apply reg.blank now
      = (req.apply reg now).map RepoRegistration.blank := by
  have hor := blankSecret_or req.password reg.password
  have hurl : req.blank.url = req.url ∧ req.blank.credentialsSecretRef = req.credentialsSecretRef :=
    ⟨rfl, rfl⟩
  unfold UpdateRepoRequest.apply
  rw [hurl.1, hurl.2]
  cases ifGiven validateUrl req.url with
  | error e => rfl
  | ok u =>
      cases ifGiven validateSecretRef req.credentialsSecretRef with
      | error e => rfl
      | ok v =>
          simp only [bind, Except.bind, Except.map, pure, Except.pure, RepoRegistration.blank, hor,
            UpdateRepoRequest.blank]

theorem clusters_mask (k8s : Apiserver) : (clustersApi k8s).Masks ClusterRegistration.blank
    UpdateClusterRequest.blank CreateClusterRequest.blank where
  lawful := Endpoint.clusters_lawful
  cascade _ _ := rfl
  id _ := rfl
  name _ := rfl
  view r := by
    show ClusterView.from r.blank = ClusterView.from r
    unfold ClusterView.from ClusterRegistration.blank
    rw [isSome_blankSecret]
  check check hcheck name r := by
    obtain rfl := Option.some.inj hcheck
    rfl
  nameOf _ := rfl
  build req id now := by
    show CreateClusterRequest.build _ id now = (CreateClusterRequest.build req id now).map _
    unfold CreateClusterRequest.build CreateClusterRequest.blank
    cases parseAuthSource req.authSource with
    | error e => rfl
    | ok authSource =>
        simp only [bind, Except.bind]
        cases validateAuthFields authSource req.kubeconfigPath <;> rfl
  edit req now r := by
    have hval := val_checked (req.apply r now) fun _ h => UpdateClusterRequest.apply_ok h
    have hblank := val_checked (req.blank.apply r.blank now) fun _ h =>
      UpdateClusterRequest.apply_ok h
    refine hblank.trans ((UpdateClusterRequest.apply_blank req r now).trans ?_)
    rw [← hval]
    show _ = (Endpoint.checked (req.apply r now) _).map _
    cases Endpoint.checked (req.apply r now) _ <;> rfl

theorem repos_mask : reposApi.Masks RepoRegistration.blank UpdateRepoRequest.blank
    CreateRepoRequest.blank where
  lawful := Endpoint.repos_lawful
  cascade _ _ := rfl
  id _ := rfl
  name _ := rfl
  view r := by
    show RepoView.from r.blank = RepoView.from r
    unfold RepoView.from RepoRegistration.blank
    rw [isSome_blankSecret]
  check check hcheck := by cases hcheck
  nameOf _ := rfl
  build req id now := by
    show CreateRepoRequest.build _ id now = (CreateRepoRequest.build req id now).map _
    unfold CreateRepoRequest.build CreateRepoRequest.blank
    cases validateUrl req.url with
    | error e => rfl
    | ok u =>
        simp only [bind, Except.bind]
        cases ifGiven validateSecretRef req.credentialsSecretRef <;> rfl
  edit req now r := by
    have hval := val_checked (req.apply r now) fun _ h => UpdateRepoRequest.apply_ok h
    have hblank := val_checked (req.blank.apply r.blank now) fun _ h =>
      UpdateRepoRequest.apply_ok h
    refine hblank.trans ((UpdateRepoRequest.apply_blank req r now).trans ?_)
    rw [← hval]
    show _ = (Endpoint.checked (req.apply r now) _).map _
    cases Endpoint.checked (req.apply r now) _ <;> rfl

namespace BothApis

/-- A database with all tokens and passwords blank. -/
def blankDb (k8s : Apiserver) (db : Database) : Database :=
  Registrations.maskDb repos_mask (Registrations.maskDb (clusters_mask k8s) db)

def blankState (k8s : Apiserver) (s : State) : State where
  db := blankDb k8s s.db
  clusterTasks t := (s.clusterTasks t).map (Registrations.maskPending .blank .blank)
  repoTasks t := (s.repoTasks t).map (Registrations.maskPending .blank .blank)

def Event.blank : Event → Event
  | .cluster e => .cluster (Registrations.maskEvent .blank .blank e)
  | .repo e => .repo (Registrations.maskEvent .blank .blank e)

/-- **One section** does and answers with blank secrets what it does with any. -/
theorem serve_blank (k8s : Apiserver) (s : State) (e : Event) :
    serve k8s (blankState k8s s) e.blank = (blankState k8s (serve k8s s e).1, (serve k8s s e).2) := by
  cases e with
  | cluster e =>
      -- the passwords are elsewhere for this API
      have hmask := Registrations.serve_mask (clusters_mask k8s) s.clusters e
      have hother := Registrations.serve_elsewhere
        (clusters_elsewhere k8s fun t => t.mapRows _ repos_mask.id repos_mask.name)
        (Registrations.maskState (clusters_mask k8s) s.clusters)
        (Registrations.maskEvent .blank .blank e)
      rw [hmask] at hother
      have hserve : Registrations.serve (clustersApi k8s) (blankState k8s s).clusters
          (Registrations.maskEvent .blank .blank e) = _ := hother
      simp only [serve, Event.blank, hserve]
      rfl
  | repo e =>
      have hmask := Registrations.serve_mask repos_mask s.repos e
      have hother := Registrations.serve_elsewhere
        (repos_elsewhere fun t => t.mapRows _ (clusters_mask k8s).id (clusters_mask k8s).name)
        (Registrations.maskState repos_mask s.repos)
        (Registrations.maskEvent .blank .blank e)
      rw [hmask] at hother
      have hserve : Registrations.serve reposApi (blankState k8s s).repos
          (Registrations.maskEvent .blank .blank e) = _ := hother
      simp only [serve, Event.blank, hserve]
      rfl

/-- **Every run** is answered with blank secrets as it is with any. -/
theorem responses_blank (k8s : Apiserver) (s : State) (es : List Event) :
    responses k8s (blankState k8s s) (es.map Event.blank) = responses k8s s es := by
  induction es generalizing s with
  | nil => rfl
  | cons e es ih =>
      rw [List.map_cons, responses, responses, step, serve_blank k8s s e, ih]
      rfl

end BothApis

/--
**No response depends on a bearer token or a password.**

However the sections of any requests to both APIs come, and whichever statements fail:
two runs that differ in the tokens and the passwords that are sent and stored, and not in
which are there, are answered alike.
-/
theorem secrets_not_observable (k8s : Apiserver) {s s' : BothApis.State} {es es' : List BothApis.Event}
    (hs : BothApis.blankState k8s s = BothApis.blankState k8s s')
    (hes : es.map BothApis.Event.blank = es'.map BothApis.Event.blank) :
    BothApis.responses k8s s es = BothApis.responses k8s s' es' := by
  rw [← BothApis.responses_blank k8s s es, hs, hes, BothApis.responses_blank]

/-- One token and password or others: a cluster and a repository are created, and both listed. -/
theorem prod_secrets_not_observable :
    BothApis.responses unreachable (.new .empty)
        [.cluster (.create ⟨"prod", "in_cluster", none, none, some "s3cr3t", none⟩ "c1" 0 .no),
          .repo (.create ⟨"shop", "https://example.com/shop.git", none, none, some "pw", none⟩ "r1" 0
            .no),
          .cluster (.list .no), .repo (.list .no)]
      = BothApis.responses unreachable (.new .empty)
        [.cluster (.create ⟨"prod", "in_cluster", none, none, some "hunter2", none⟩ "c1" 0 .no),
          .repo (.create ⟨"shop", "https://example.com/shop.git", none, none, some "letmein", none⟩
            "r1" 0 .no),
          .cluster (.list .no), .repo (.list .no)] :=
  secrets_not_observable unreachable rfl rfl

end SynchrotronCD.Db
