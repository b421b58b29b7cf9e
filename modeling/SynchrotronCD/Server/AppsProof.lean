import SynchrotronCD.Server.Apps

/-!
# What an update of an application changes

An update replaces the row by a deletion and an insertion. The identifier stays,
so the row is accepted again (`Table.insert_delete_of_id`); but the rows that
refer to it went with the deletion. And the decoder hands on an explicit `null`
for the plugin as if the field were absent.

`updateApp_changesOnlyAsked_iff` says when neither shows.
-/

namespace SynchrotronCD.Db

open Lib

/-! ## The request as it is documented -/

/-- `null` clears the plugin, an absent field leaves it alone. -/
def documentedPlugin : Option Doc → Except DecodeError (Option (Option PluginRef))
  | none => .ok none
  | some .null => .ok (some none)
  | some v => (pluginRef v).map fun p => some (some p)

namespace UpdateAppRequest

def documented (body : Doc) : Except DecodeError UpdateAppRequest := do
  ofFields documentedPlugin (← structFields fieldNames 6 body)

/-- The plugin field is given, and is `null`. -/
def ClearsPlugin (body : Doc) : Prop :=
  ∃ fields, structFields fieldNames 6 body = .ok fields ∧ fields[6]? = some (some .null)

end UpdateAppRequest

/-- The application has the fields of the request where they are given, and is otherwise
what it was. -/
structure Asked (req : UpdateAppRequest) (app app' : Application) : Prop where
  «namespace» : app'.namespace = req.namespace.getD app.namespace
  repoUrl : app'.source.repoUrl = req.repoUrl.getD app.source.repoUrl
  path : app'.source.path = req.path.getD app.source.path
  targetRevision : app'.source.targetRevision = req.targetRevision.getD app.source.targetRevision
  plugin : app'.source.plugin = req.plugin.getD app.source.plugin
  destCluster : app'.destination.cluster = req.destCluster.getD app.destination.cluster
  destNamespace : app'.destination.namespace = req.destNamespace.getD app.destination.namespace
  id : app'.id = app.id
  name : app'.name = app.name
  syncPolicy : app'.syncPolicy = app.syncPolicy
  status : app'.status = app.status
  createdAt : app'.createdAt = app.createdAt

/-- The update changed what the request asks for and nothing else in the database. -/
structure ChangesOnlyAsked (req : UpdateAppRequest) (app : Application) (db db' : Database) :
    Prop where
  row : ∃ app', db'.getApplication app.name = some app' ∧ Asked req app app'
  others : ∀ n, n ≠ app.name → db'.getApplication n = db.getApplication n
  syncHistory : db'.syncHistory = db.syncHistory
  syncRevisions : db'.syncRevisions = db.syncRevisions
  ownedResources : db'.ownedResources = db.ownedResources
  clusters : db'.clusters = db.clusters
  repos : db'.repos = db.repos

/-- No row refers to the application. -/
structure NoDependents (db : Database) (id : String) : Prop where
  syncHistory : ∀ r ∈ db.syncHistory, r.appId ≠ id
  syncRevisions : ∀ r ∈ db.syncRevisions, r.appId ≠ id
  ownedResources : ∀ r ∈ db.ownedResources, r.appId ≠ id

/-! ## Decoding -/

/-- The two readings of the plugin field differ on an explicit `null` only. -/
theorem documentedPlugin_eq {field : Option Doc} (h : field ≠ some .null) :
    documentedPlugin field = deserializeOptionalPlugin field := by
  cases field with
  | none => rfl
  | some v =>
      have hdoc : documentedPlugin (some v) = (pluginRef v).map fun p => some (some p) := by
        cases v with
        | null => exact absurd rfl h
        | _ => rfl
      have hdes : deserializeOptionalPlugin (some v) = ((pluginRef v).map some).map some := by
        cases v with
        | null => exact absurd rfl h
        | _ => rfl
      rw [hdoc, hdes]
      cases pluginRef v with
      | ok p => rfl
      | error e => rfl

namespace UpdateAppRequest

/-- What is read of the plugin field can be exchanged. -/
theorem ofFields_plugin {plugin plugin' : Option Doc → Except DecodeError (Option (Option PluginRef))}
    {fields : List (Option Doc)} {req : UpdateAppRequest} (h : ofFields plugin fields = .ok req) :
    ∃ field, fields[6]? = some field ∧ plugin field = .ok req.plugin
      ∧ ∀ p, plugin' field = .ok p → ofFields plugin' fields = .ok { req with plugin := p } := by
  unfold ofFields at h
  split at h
  · rename_i ns repoUrl path targetRevision destCluster destNamespace field
    obtain ⟨a1, h1, h⟩ := bind_ok h
    obtain ⟨a2, h2, h⟩ := bind_ok h
    obtain ⟨a3, h3, h⟩ := bind_ok h
    obtain ⟨a4, h4, h⟩ := bind_ok h
    obtain ⟨a5, h5, h⟩ := bind_ok h
    obtain ⟨a6, h6, h⟩ := bind_ok h
    obtain ⟨a7, h7, h⟩ := bind_ok h
    obtain rfl := Except.ok.inj h
    refine ⟨field, rfl, h7, ?_⟩
    intro p hp
    simp [ofFields, h1, h2, h3, h4, h5, h6, hp, bind, Except.bind, pure, Except.pure]
  · simp at h

/-- **The decoder loses an explicit `null` for the plugin, and nothing else.** -/
theorem documented_of_deserialize {body : Doc} {req : UpdateAppRequest}
    (h : deserialize body = .ok req) :
    (ClearsPlugin body → req.plugin = none ∧ documented body = .ok { req with plugin := some none })
    ∧ (¬ ClearsPlugin body → documented body = .ok req) := by
  obtain ⟨fields, hfields, hof⟩ := bind_ok h
  obtain ⟨field, h6, hp, hswap⟩ := @ofFields_plugin _ documentedPlugin _ _ hof
  have hdoc : documented body = ofFields documentedPlugin fields := by
    simp [documented, hfields, bind, Except.bind]
  refine ⟨?_, ?_⟩
  · intro hclear
    obtain ⟨fields', hfields', hnull⟩ := hclear
    obtain rfl := Except.ok.inj (hfields.symm.trans hfields')
    obtain rfl := Option.some.inj (h6.symm.trans hnull)
    exact ⟨(Except.ok.inj hp).symm, by rw [hdoc]; exact hswap _ rfl⟩
  · intro hkeep
    have hne : field ≠ some .null := fun hf => hkeep ⟨fields, hfields, by rw [h6, hf]⟩
    rw [hdoc]
    exact hswap _ ((documentedPlugin_eq hne).trans hp)

end UpdateAppRequest

/-! ## The handler -/

namespace Database

theorem getApplication_deleteApplication (db : Database) (name n : AppName) :
    (db.deleteApplication name).1.getApplication n
      = if n = name then none else db.getApplication n := by
  unfold deleteApplication
  cases h : db.getApplication name with
  | some app => exact Table.find_delete db.applications name n
  | none =>
      by_cases hn : n = name
      · subst hn; rw [if_pos rfl]; exact h
      · rw [if_neg hn]

theorem deleteApplication_of_some {db : Database} {name : AppName} {app : Application}
    (h : db.getApplication name = some app) : db.deleteApplication name
      = ({ db.cascade app.id with applications := db.applications.delete name }, true) := by
  unfold deleteApplication
  rw [h]

theorem deleteApplication_of_none {db : Database} {name : AppName}
    (h : db.getApplication name = none) : db.deleteApplication name = (db, false) := by
  unfold deleteApplication
  rw [h]

theorem insertApplication_ok {db db' : Database} {app : Application}
    (h : db.insertApplication app = .ok db') :
    (∀ n, db'.getApplication n = if n = app.name then some app else db.getApplication n)
      ∧ ∃ t, db' = { db with applications := t } := by
  obtain ⟨t, ht, rfl⟩ := map_ok h
  exact ⟨(Table.insert_eq_ok ht).2.2, t, rfl⟩

end Database

/-- **What a request for a new application leaves in the database.** -/
theorem createApp_ok {db db' : Database} {req : CreateAppRequest} {id : String} {now : Timestamp}
    {app : Application} (h : createApp db req id now = .ok (db', app)) :
    app = req.application id now ∧ db.getApplication req.name = none
      ∧ (∀ n, db'.getApplication n = if n = req.name then some app else db.getApplication n)
      ∧ ¬ db.applications.HasId id ∧ ∃ t, db' = { db with applications := t } := by
  unfold createApp at h
  split at h
  · simp at h
  split at h
  · simp at h
  rename_i hnone
  split at h
  · rename_i db₁ hins
    obtain ⟨rfl, rfl⟩ := Prod.mk.inj (Except.ok.inj h)
    obtain ⟨hrows, htable⟩ := Database.insertApplication_ok hins
    obtain ⟨t, ht, -⟩ := map_ok hins
    exact ⟨rfl, hnone, hrows, (Table.insert_eq_ok ht).1, htable⟩
  · simp at h

theorem deleteApp_fst (db : Database) (name : AppName) :
    (deleteApp db name).1 = (db.deleteApplication name).1 := by
  unfold deleteApp
  split
  · rename_i h
    rw [h]
  · rename_i h
    rw [h]

/-- Only an application that is stored is updated. -/
theorem updateApp_loaded {db db' : Database} {name : AppName} {body : Doc} {now : Timestamp}
    {app' : Application} (hok : updateApp db name body now = .ok (db', app')) :
    ∃ app, db.getApplication name = some app := by
  cases h : db.getApplication name with
  | some app => exact ⟨app, rfl⟩
  | none =>
      unfold updateApp loadApp at hok
      rw [h] at hok
      split at hok
      · simp at hok
      · simp at hok

/-- **What an update leaves in the database.** The application with the fields of the request,
and none of the rows that referred to it. -/
theorem updateApp_ok {db db' : Database} {name : AppName} {body : Doc} {now : Timestamp}
    {app app' : Application} (hload : db.getApplication name = some app)
    (hok : updateApp db name body now = .ok (db', app')) :
    ∃ req, UpdateAppRequest.deserialize body = .ok req ∧ app' = req.apply app now
      ∧ (∀ n, db'.getApplication n = if n = name then some app' else db.getApplication n)
      ∧ ∃ t, db' = { db.cascade app.id with applications := t } := by
  have hname : app.name = name := Table.find_name hload
  unfold updateApp at hok
  cases hreq : UpdateAppRequest.deserialize body with
  | error e => rw [hreq] at hok; simp at hok
  | ok req =>
  have hl : loadApp db name = .ok app := by unfold loadApp; rw [hload]
  simp only [hreq, hl] at hok
  -- the second section cannot fail by itself: the identifier was the row's own
  obtain ⟨t, ht⟩ := Table.insert_delete_of_id (s := req.apply app now) hload rfl hname
  have hins : (db.deleteApplication name).1.insertApplication (req.apply app now)
      = .ok { db.cascade app.id with applications := t } := by
    rw [Database.deleteApplication_of_some hload]
    unfold Database.insertApplication
    rw [ht]
    rfl
  have hrep : replaceApp db name (req.apply app now) .none
      = ({ db.cascade app.id with applications := t }, .ok (req.apply app now)) := by
    unfold replaceApp Database.replace
    simp only [hins]
  rw [hrep] at hok
  obtain ⟨rfl, rfl⟩ := Prod.mk.inj (Except.ok.inj hok)
  refine ⟨req, rfl, rfl, ?_, t, rfl⟩
  intro n
  rw [(Database.insertApplication_ok hins).1 n, Database.getApplication_deleteApplication]
  have hn : (req.apply app now).name = name := hname
  rw [hn]
  split
  · rfl
  · rfl

theorem asked_apply (req : UpdateAppRequest) (app : Application) (now : Timestamp) :
    Asked req app (req.apply app now) :=
  ⟨rfl, rfl, rfl, rfl, rfl, rfl, rfl, rfl, rfl, rfl, rfl, rfl⟩

/-- Rows are kept by a cascade exactly if none refers to what is deleted. -/
theorem filter_ne_eq_self {ρ : Type} {appId : ρ → String} {rows : List ρ} {id : String} :
    rows.filter (fun r => appId r ≠ id) = rows ↔ ∀ r ∈ rows, appId r ≠ id := by
  rw [List.filter_eq_self]
  simp

theorem noDependents_iff {db : Database} {id : String} : NoDependents db id
    ↔ (db.cascade id).syncHistory = db.syncHistory
      ∧ (db.cascade id).syncRevisions = db.syncRevisions
      ∧ (db.cascade id).ownedResources = db.ownedResources := by
  unfold Database.cascade
  dsimp only
  rw [filter_ne_eq_self, filter_ne_eq_self, filter_ne_eq_self]
  exact ⟨fun h => ⟨h.syncHistory, h.syncRevisions, h.ownedResources⟩, fun h => ⟨h.1, h.2.1, h.2.2⟩⟩

/--
**When an update changes only what was asked.**

A successful update changes exactly the fields of the request, read as documented, and
leaves everything else as it was, if and only if no sync record, no recorded revision and
no owned resource refers to the application, and the request does not clear a plugin that
the application has.
-/
theorem updateApp_changesOnlyAsked_iff {db db' : Database} {name : AppName} {body : Doc}
    {now : Timestamp} {app app' : Application} (hload : db.getApplication name = some app)
    (hok : updateApp db name body now = .ok (db', app')) :
    (∃ req, UpdateAppRequest.documented body = .ok req ∧ ChangesOnlyAsked req app db db')
      ↔ NoDependents db app.id
        ∧ (UpdateAppRequest.ClearsPlugin body → app.source.plugin = none) := by
  have hname : app.name = name := Table.find_name hload
  obtain ⟨req, hreq, happ, hrows, t, hdb⟩ := updateApp_ok hload hok
  obtain ⟨hclears, hkeeps⟩ := UpdateAppRequest.documented_of_deserialize hreq
  have hrow : db'.getApplication app.name = some app' := by rw [hrows, if_pos hname]
  have hdep : NoDependents db app.id ↔ db'.syncHistory = db.syncHistory
      ∧ db'.syncRevisions = db.syncRevisions ∧ db'.ownedResources = db.ownedResources := by
    rw [noDependents_iff, hdb]
  have hothers : ∀ n, n ≠ app.name → db'.getApplication n = db.getApplication n := by
    intro n hn
    rw [hrows, if_neg (fun h => hn (h.trans hname.symm))]
  refine ⟨?_, ?_⟩
  · intro hex
    obtain ⟨asked, hdoc, hchanges⟩ := hex
    refine ⟨hdep.mpr ⟨hchanges.syncHistory, hchanges.syncRevisions, hchanges.ownedResources⟩, ?_⟩
    intro hclear
    -- the row kept its plugin, the request asked for none
    obtain ⟨hnone, hdoc'⟩ := hclears hclear
    obtain rfl := Except.ok.inj (hdoc.symm.trans hdoc')
    obtain ⟨app'', hrow', hasked⟩ := hchanges.row
    obtain rfl := Option.some.inj (hrow.symm.trans hrow')
    have hplugin := hasked.plugin
    rw [happ] at hplugin
    simpa [UpdateAppRequest.apply, hnone] using hplugin
  · intro hcond
    obtain ⟨hno, hplugin⟩ := hcond
    obtain ⟨hhist, hrev, howned⟩ := hdep.mp hno
    have hasked : Asked req app app' := by rw [happ]; exact asked_apply req app now
    by_cases hclear : UpdateAppRequest.ClearsPlugin body
    · obtain ⟨hnone, hdoc⟩ := hclears hclear
      refine ⟨_, hdoc, ⟨app', hrow, ?_⟩, hothers, hhist, hrev, howned, by rw [hdb]; rfl,
        by rw [hdb]; rfl⟩
      -- clearing a plugin that is not there changes nothing
      refine { hasked with plugin := ?_ }
      rw [hasked.plugin, hnone, hplugin hclear]
      rfl
    · exact ⟨req, hkeeps hclear, ⟨app', hrow, hasked⟩, hothers, hhist, hrev, howned,
        by rw [hdb]; rfl, by rw [hdb]; rfl⟩

/-- An application rendered through `helm`. -/
def shopApp : Application where
  id := "1"
  name := "shop"
  «namespace» := "synchrotron-system"
  source := ⟨"https://example.com/shop.git", "deploy", "main", some ⟨"helm", []⟩⟩
  destination := ⟨"prod", "shop"⟩
  syncPolicy := .default
  status := .default
  createdAt := 1
  updatedAt := 1

/-- The application and nothing that refers to it. -/
def shopDb : Database :=
  { Database.empty with
    applications := ⟨[shopApp], List.nodup_singleton _, List.nodup_singleton _⟩ }

/-- The application has been synced once. -/
def syncedShopDb : Database :=
  { shopDb with
    syncHistory := [⟨"r1", "1", "c1", .succeeded, none, .manual, 1, 2, some 2⟩] }

/-- A request for another path. -/
def repath : Doc := .obj [("path", .str "overlays/prod")]

theorem shopDb_repath :
    (∃ req, UpdateAppRequest.documented repath = .ok req
      ∧ ChangesOnlyAsked req shopApp shopDb
        { shopDb with applications := ⟨[{ shopApp with
            source := { shopApp.source with path := "overlays/prod" }, updatedAt := 7 }],
          List.nodup_singleton _, List.nodup_singleton _⟩ })
      ↔ NoDependents shopDb "1"
        ∧ (UpdateAppRequest.ClearsPlugin repath → shopApp.source.plugin = none) :=
  @updateApp_changesOnlyAsked_iff _ _ "shop" _ 7 _ _ rfl rfl

/-- **An update of the path loses the history.** -/
theorem syncedShopDb_repath : ¬ ∀ (db db' : Database) (name : AppName) (body : Doc)
    (now : Timestamp) (app app' : Application), db.getApplication name = some app →
    updateApp db name body now = .ok (db', app') →
    ∃ req, UpdateAppRequest.documented body = .ok req ∧ ChangesOnlyAsked req app db db' := by
  intro h
  obtain ⟨req, -, hchanges⟩ := h syncedShopDb _ "shop" repath 7 shopApp _ rfl rfl
  exact absurd hchanges.syncHistory (by decide)

end SynchrotronCD.Db
