import SynchrotronCD.Lib.Runs
import SynchrotronCD.Reconcile.ReconcileProof
import SynchrotronCD.Reconcile.Trigger
import SynchrotronCD.Server.AppsProof

/-!
# Rolling back

`rollback_app` loads a recorded revision with its manifests, checks that it belongs
to the application, and asks for a sync. The request names the application and
nothing else: the manifests end in the answer, as a count.

From there the event goes to the trigger, a job to the pool and a handler runs a
pass, which plans from the desired-state store. So what reaches the applier is what
the store has (`handed_iff`), and that is the revision only if the store happens to
hold it (`rollback_applies_iff`).
-/

namespace SynchrotronCD.Db.Rollback

open Lib WorkerPool

/-! ## The handler -/

structure RollbackRequest where
  revisionId : Int
deriving DecidableEq, Repr

structure RollbackResponse where
  app : String
  revisionId : Nat
  commitHash : String
  recordedAt : Timestamp
  manifestCount : Nat
  status : String
deriving DecidableEq, Repr

/-- What is read back from a column of manifests, if it is one. -/
abbrev FromStr := String → Option (List Manifest)

/-- Fetch a specific revision's manifests. -/
def loadSyncRevision (fromStr : FromStr) (db : Database) (revisionId : Int) :
    Except DbError (Option (SyncRevision × List Manifest)) :=
  match db.syncRevisions.find? (fun r => r.id = revisionId) with
  | none => .ok none
  | some rev =>
    if rev.paramsHash.length ≠ 32 then
      .error (.sqlite "params_hash column is not 32 bytes — schema drift?")
    else
      match fromStr rev.manifestsJson with
      | none => .error (.sqlite "deserialize manifests from revision row")
      | some manifests => .ok (some (rev, manifests))

/-- The manifests recorded in a revision; none if there is no such revision. -/
def recordedManifests (fromStr : FromStr) (db : Database) (revisionId : Int) : List Manifest :=
  match loadSyncRevision fromStr db revisionId with
  | .ok (some (_, manifests)) => manifests
  | _ => []

/-- The answer, and the event that is published with it. -/
def rollbackApp (fromStr : FromStr) (db : Database) (name : AppName) (req : RollbackRequest) :
    Except ApiError (RollbackResponse × SystemEvent) :=
  match loadApp db name with
  | .error e => .error e
  | .ok app =>
    match loadSyncRevision fromStr db req.revisionId with
    | .error e => .error (.internal e)
    | .ok none => .error (.notFound ("revision " ++ toString req.revisionId ++ " not found"))
    | .ok (some (rev, manifests)) =>
      if rev.appId ≠ app.id then
        .error (.notFound ("revision " ++ toString req.revisionId ++ " does not belong to app \u0060"
          ++ name ++ "\u0060"))
      else
        .ok (⟨name, rev.id, rev.commitHash, rev.recordedAt, manifests.length, "queued"⟩,
          .manualSyncRequested name)

/-- What an accepted rollback has loaded. -/
theorem rollbackApp_ok {fromStr : FromStr} {db : Database} {name : AppName} {req : RollbackRequest}
    {resp : RollbackResponse} {ev : SystemEvent}
    (h : rollbackApp fromStr db name req = .ok (resp, ev)) :
    ev = .manualSyncRequested name ∧ ∃ app rev manifests, db.getApplication name = some app
      ∧ loadSyncRevision fromStr db req.revisionId = .ok (some (rev, manifests))
      ∧ rev.appId = app.id ∧ resp.manifestCount = manifests.length := by
  unfold rollbackApp loadApp at h
  cases happ : db.getApplication name with
  | none => rw [happ] at h; simp at h
  | some app =>
  cases hrev : loadSyncRevision fromStr db req.revisionId with
  | error e => rw [happ, hrev] at h; simp at h
  | ok loaded =>
  rw [happ, hrev] at h
  cases loaded with
  | none => simp at h
  | some loaded =>
      obtain ⟨rev, manifests⟩ := loaded
      dsimp only at h
      split at h
      · simp at h
      · rename_i hown
        obtain ⟨rfl, rfl⟩ := Prod.mk.inj (Except.ok.inj h)
        exact ⟨rfl, app, rev, manifests, rfl, rfl, not_not.mp hown, rfl⟩

/-! ## From the request to the pass -/

structure State where
  db : Database
  store : DesiredStore
  /-- Events not yet dispatched, oldest first. -/
  bus : List SystemEvent
  pool : Pool

inductive Event where
  | rollback (name : AppName) (req : RollbackRequest)
  /-- The render loop, or whoever else writes the store. -/
  | write (w : DesiredWrite)
  /-- Any other request or task changes the database. -/
  | database (db : Database)
  /-- Some other component publishes an event. -/
  | notify (e : SystemEvent)
  /-- The trigger takes the oldest event and dispatches it. -/
  | deliver (now : Nat)
  /-- The dispatcher starts the next job, if it can. -/
  | start
  /-- A running handler returns. -/
  | complete (job : JobCtx)

def step (fromStr : FromStr) (cfg : PoolConfig) (resolver : AppResolver) (s : State) :
    Event → State
  | .rollback name req =>
    match rollbackApp fromStr s.db name req with
    | .ok (_, ev) => { s with bus := s.bus ++ [ev] }
    | .error _ => s
  | .write w => { s with store := s.store.write w }
  | .database db => { s with db := db }
  | .notify e => { s with bus := s.bus ++ [e] }
  | .deliver now =>
    match s.bus with
    | e :: rest => { s with bus := rest, pool := dispatch cfg resolver now s.pool e }
    | [] => s
  | .start => { s with pool := s.pool.dispatch cfg }
  | .complete job => { s with pool := s.pool.complete job }

/-- The pass of the running handler of a job; its reads fall among the writes of other tasks. -/
def passOf (rec : Reconciler) (s : State) (job : JobCtx) (i : Interleaving) : Option Pass :=
  if job ∈ s.pool.running then
    (s.db.getApplication job.appId).map fun a =>
      rec.reconcileAndApplyApp job.appId a.destination.cluster job.trigger.asStr
        (i.reads s.store job.appId)
  else none

/-! ## What is handed to the applier -/

/-- A manifest was handed to the applier, to be applied. -/
def HandedOver (pass : Pass) (m : Manifest) : Prop :=
  ∃ r res, .apply ⟨r, .apply⟩ (some m) res ∈ pass.calls

/-- A manifest is desired, the last with its reference, and no equal one is live. -/
def Outstanding (desired live : List Manifest) (m : Manifest) : Prop :=
  lastWithRef desired (ResourceRef.of m) = some m
    ∧ ∀ l, lastWithRef live (ResourceRef.of m) = some l → manifestBodiesEqual m l = false

/-- The pass has gone through all its waves. -/
def CarriedOut (pass : Pass) : Prop := ∃ rep, pass.outcome.apply = some (.ok rep)

variable {rec : Reconciler} {app : AppName} {cluster : ClusterName} {trigger : String}
  {reads : PassReads}

/-- Nothing but what is desired and outstanding is handed over. -/
theorem outstanding_of_handedOver (hagain : reads.desiredAgain = reads.desired) {m : Manifest}
    (h : HandedOver (rec.reconcileAndApplyApp app cluster trigger reads) m) :
    ∃ desired live, reads.desired = .ok desired ∧ reads.live = .ok live
      ∧ Outstanding desired live m := by
  obtain ⟨r, res, hcall⟩ := h
  obtain ⟨d, l, d', l', hd, hl, hd', -, -, he, -, hm⟩ := mem_calls hcall
  obtain rfl : d' = d := Except.ok.inj (hd'.symm.trans (hagain.trans hd))
  obtain ⟨x, hx, hlive⟩ := apply_mem_plan.mp he
  -- the body is looked up where the plan was made from
  obtain rfl : m = x := Option.some.inj (hm.trans hx)
  obtain ⟨-, rfl⟩ := lastWithRef_some hx
  exact ⟨d', l, hd, hl, hx, hlive⟩

/-- A pass that was carried out found a plan and an executor. -/
theorem carriedOut_spec (hdone : CarriedOut (rec.reconcileAndApplyApp app cluster trigger reads)) :
    ∃ ex d l d' l' rep, reads.desired = .ok d ∧ reads.live = .ok l ∧ reads.desiredAgain = .ok d'
      ∧ (executeWaves ex (groupIntoWaves (plan d l) d' l') d' l').2 = .ok rep
      ∧ (rec.reconcileAndApplyApp app cluster trigger reads).calls
        = (executeWaves ex (groupIntoWaves (plan d l) d' l') d' l').1 := by
  obtain ⟨rep, hrep⟩ := hdone
  rcases reconcile_cases rec app cluster trigger reads with ⟨e, -, heq⟩ | ⟨p, -, -, heq⟩ |
    ⟨p, ex, e, -, -, -, heq⟩ | ⟨p, ex, d', l', hp, -, hd', -, heq⟩
  · rw [heq] at hrep
    simp [emitFailure] at hrep
  · rw [heq] at hrep
    simp [emitPlanOnly] at hrep
  · rw [heq] at hrep
    simp [publishApplyResult] at hrep
  · obtain ⟨d, l, hd, hl, rfl⟩ := planOnly_ok.mp hp
    rw [heq] at hrep
    exact ⟨ex, d, l, d', l', rep, hd, hl, hd', Option.some.inj hrep, by rw [heq]; rfl⟩

/-- **A pass that was carried out has handed over what was outstanding.** -/
theorem handed_iff (hagain : reads.desiredAgain = reads.desired) {desired live : List Manifest}
    (hd : reads.desired = .ok desired) (hl : reads.live = .ok live)
    (hdone : CarriedOut (rec.reconcileAndApplyApp app cluster trigger reads)) (m : Manifest) :
    HandedOver (rec.reconcileAndApplyApp app cluster trigger reads) m
      ↔ Outstanding desired live m := by
  refine ⟨fun h => ?_, fun h => ?_⟩
  · obtain ⟨d, l, hd', hl', hout⟩ := outstanding_of_handedOver hagain h
    obtain rfl := Except.ok.inj (hd.symm.trans hd')
    obtain rfl := Except.ok.inj (hl.symm.trans hl')
    exact hout
  · obtain ⟨ex, d, l, d', l', rep, hd₁, hl₁, hd', hok, hcalls⟩ := carriedOut_spec hdone
    obtain rfl := Except.ok.inj (hd.symm.trans hd₁)
    obtain rfl := Except.ok.inj (hl.symm.trans hl₁)
    obtain rfl : d' = desired := Except.ok.inj (hd'.symm.trans (hagain.trans hd))
    obtain ⟨hlast, hlive⟩ := h
    have hcall := executeWaves_ok hok (apply_mem_plan.mpr ⟨m, hlast, hlive⟩) (by simp)
    rw [← hcalls, show manifestFor d' l' ⟨ResourceRef.of m, .apply⟩ = some m from hlast] at hcall
    exact ⟨_, _, hcall⟩

/-! ## No render in between -/

/-- The application a write of the store concerns. -/
def written : DesiredWrite → AppName
  | .put app _ _ => app
  | .forget app => app

/-- The event is no render of the application. -/
def NoRender (name : AppName) : Event → Prop
  | .write w => written w ≠ name
  | _ => True

/-- No render of the application falls among the reads of a pass. -/
def Undisturbed (name : AppName) (i : Interleaving) : Prop :=
  ∀ w ∈ i.beforeRevision ++ i.beforeRefetch, written w ≠ name

theorem lookup_write {name : AppName} {w : DesiredWrite} (h : written w ≠ name)
    (store : DesiredStore) : (store.write w).lookup name = store.lookup name := by
  cases w with
  | put app manifests revision => exact AList.lookup_insert_ne (Ne.symm h)
  | forget app => exact AList.lookup_erase_ne (Ne.symm h)

theorem lookup_writes {name : AppName} (ws : List DesiredWrite) (h : ∀ w ∈ ws, written w ≠ name)
    (store : DesiredStore) : (ws.foldl DesiredStore.write store).lookup name = store.lookup name := by
  induction ws generalizing store with
  | nil => rfl
  | cons w ws ih =>
      rw [List.foldl_cons, ih (fun x hx => h x (List.mem_cons_of_mem _ hx)),
        lookup_write (h w List.mem_cons_self)]

variable {fromStr : FromStr} {cfg : PoolConfig} {resolver : AppResolver}

theorem store_step {name : AppName} {s : State} {e : Event} (h : NoRender name e) :
    (step fromStr cfg resolver s e).store.lookup name = s.store.lookup name := by
  cases e with
  | write w => exact lookup_write h s.store
  | rollback n req =>
      unfold step
      dsimp only
      split <;> rfl
  | deliver now =>
      unfold step
      dsimp only
      split <;> rfl
  | _ => rfl

/-- Until the next render the store has what it had. -/
theorem store_run {name : AppName} {s : State} {es : List Event} (h : ∀ e ∈ es, NoRender name e) :
    (exec (step fromStr cfg resolver) s es).store.lookup name = s.store.lookup name :=
  exec_inv_of_mem (P := fun t : State => t.store.lookup name = s.store.lookup name) (A := NoRender name)
    (fun _ _ ht he => (store_step he).trans ht) rfl h

/-- An undisturbed pass reads the same manifests twice. -/
theorem reads_undisturbed {name : AppName} {i : Interleaving} (h : Undisturbed name i)
    (store : DesiredStore) : (i.reads store name).desiredAgain = (i.reads store name).desired := by
  show DesiredStore.get _ name = DesiredStore.get store name
  unfold DesiredStore.get
  rw [← List.foldl_append, lookup_writes _ h]

/-! ## The condition -/

/-- The store's entry of the application has, as the manifests that are not live already, exactly
these. -/
def StoreHolds (store : DesiredStore) (name : AppName) (live : Except SourceError (List Manifest))
    (manifests : List Manifest) : Prop :=
  ∃ entry l, store.lookup name = some entry ∧ live = .ok l
    ∧ ∀ m, m ∈ manifests ↔ Outstanding entry.manifests l m

/--
**When a rollback applies the chosen snapshot.**

For any application and any recorded revision of it, whatever is in the database, the store
and the pool: a rollback to the revision is accepted, and after any requests, events and jobs,
but no render of the application, a handler of the application runs a pass. If the pass is
carried out, what it hands to the applier are exactly the manifests recorded in the revision,
if and only if the store held exactly these, of what is not live already, when the rollback
was accepted.
-/
theorem rollback_applies_iff (rec : Reconciler) (s : State) {name : AppName} {req : RollbackRequest}
    {resp : RollbackResponse} {ev : SystemEvent}
    (haccepted : rollbackApp fromStr s.db name req = .ok (resp, ev))
    {es : List Event} (hquiet : ∀ e ∈ es, NoRender name e) {job : JobCtx} (hjob : job.appId = name)
    {i : Interleaving} (hi : Undisturbed name i) {pass : Pass}
    (hpass : passOf rec (exec (step fromStr cfg resolver) s (.rollback name req :: es)) job i
      = some pass)
    (hdone : CarriedOut pass) :
    ev = .manualSyncRequested name
      ∧ ((∀ m, HandedOver pass m ↔ m ∈ recordedManifests fromStr s.db req.revisionId)
        ↔ StoreHolds s.store name i.live (recordedManifests fromStr s.db req.revisionId)) := by
  refine ⟨(rollbackApp_ok haccepted).1, ?_⟩
  subst hjob
  generalize hs' : exec (step fromStr cfg resolver) s (.rollback job.appId req :: es) = s' at hpass
  have hstore : s'.store.lookup job.appId = s.store.lookup job.appId := by
    rw [← hs']
    exact store_run (List.forall_mem_cons.mpr ⟨trivial, hquiet⟩)
  unfold passOf at hpass
  split at hpass
  swap
  · simp at hpass
  obtain ⟨a, -, rfl⟩ := Option.map_eq_some_iff.mp hpass
  have hagain := reads_undisturbed hi s'.store
  obtain ⟨-, desired, live, -, -, -, hd, hl, -⟩ := carriedOut_spec hdone
  obtain ⟨entry, hentry, rfl⟩ := get_ok.mp (show s'.store.get job.appId = .ok desired from hd)
  rw [hstore] at hentry
  refine ⟨fun h => ⟨entry, live, hentry, hl, fun m => ?_⟩, fun h m => ?_⟩
  · rw [← h m, handed_iff hagain hd hl hdone]
  · obtain ⟨entry', live', hentry', hl', hout⟩ := h
    obtain rfl := Option.some.inj (hentry.symm.trans hentry')
    obtain rfl := Except.ok.inj (hl.symm.trans hl')
    rw [handed_iff hagain hd hl hdone, hout m]

/-! ## A rollback of the shop -/

/-- One recorded config map, as JSON. -/
def settingsJson : String :=
  "[\x7b\"gvk\":\x7b\"group\":\"\",\"version\":\"v1\",\"kind\":\"ConfigMap\"\x7d,\"name\":\"settings\","
    ++ "\"namespace\":\"app\",\"body\":\x7b\"apiVersion\":\"v1\",\"kind\":\"ConfigMap\",\"metadata\":\x7b"
    ++ "\"name\":\"settings\",\"namespace\":\"app\"\x7d,\"data\":\x7b\"marker\":\"v1\"\x7d\x7d\x7d]"

def readSettings : FromStr := fun text =>
  if text = settingsJson then some [configMap "settings" "v1"] else none

def revision : SyncRevision := ⟨1, "1", "c1", List.replicate 32 0, settingsJson, 5⟩

/-- The shop, with one recorded revision. -/
def revisedShopDb : Database :=
  { shopDb with syncRevisions := [revision] }

/-- The shop after a render of `marker`; the pool is idle. -/
def shopRendered (marker : String) : State where
  db := revisedShopDb
  store := (∅ : DesiredStore).putWithRevision "shop" [configMap "settings" marker] (some "c2")
  bus := []
  pool := Pool.new

def connected : Reconciler := Reconciler.new.withExecutor compliantExecutor

/-- Nothing is live, and nothing is rendered while the pass reads. -/
def emptyCluster : Interleaving := ⟨[], [], .ok [], .ok []⟩

def shopCfg : PoolConfig := ⟨4, 1⟩

/-- The pass of the handler that the rollback leads to. -/
def rollbackPass (marker : String) : Pass :=
  connected.reconcileAndApplyApp "shop" "prod" "manual"
    (emptyCluster.reads (shopRendered marker).store "shop")

theorem settings_loaded : loadSyncRevision readSettings revisedShopDb 1
    = .ok (some (revision, [configMap "settings" "v1"])) := by
  unfold loadSyncRevision
  rw [show revisedShopDb.syncRevisions.find? (fun r => ((r.id : Int) = 1 : Bool)) = some revision
    from rfl]
  dsimp only
  rw [if_neg (by decide), show readSettings revision.manifestsJson = some [configMap "settings" "v1"]
    from if_pos rfl]

theorem shop_recorded :
    recordedManifests readSettings revisedShopDb 1 = [configMap "settings" "v1"] := by
  unfold recordedManifests
  rw [settings_loaded]

theorem rollback_accepted : rollbackApp readSettings revisedShopDb "shop" ⟨1⟩
    = .ok (⟨"shop", 1, "c1", 5, 1, "queued"⟩, .manualSyncRequested "shop") := by
  unfold rollbackApp
  rw [show loadApp revisedShopDb "shop" = .ok shopApp from rfl]
  dsimp only
  rw [settings_loaded]
  rfl

/-- The rollback is accepted, dispatched, and a handler runs. -/
theorem rollbackPass_runs (marker : String) :
    passOf connected (exec (step readSettings shopCfg fun _ => []) (shopRendered marker)
      [.rollback "shop" ⟨1⟩, .deliver 0, .start]) ⟨"shop", .manual, 0⟩ emptyCluster
    = some (rollbackPass marker) := by
  have hstep : step readSettings shopCfg (fun _ => []) (shopRendered marker) (.rollback "shop" ⟨1⟩)
      = { shopRendered marker with bus := [.manualSyncRequested "shop"] } := by
    have haccepted : rollbackApp readSettings (shopRendered marker).db "shop" ⟨1⟩ = _ :=
      rollback_accepted
    unfold step
    dsimp only
    rw [haccepted]
    rfl
  rw [exec_cons, hstep]
  rfl

theorem rollbackPass_carriedOut (marker : String) : CarriedOut (rollbackPass marker) := by
  obtain ⟨rep, hrep⟩ := compliant_compliantExecutor.executeWaves
    (groupIntoWaves (plan [configMap "settings" marker] []) [configMap "settings" marker] [])
    [configMap "settings" marker] []
  exact ⟨rep, congrArg some hrep⟩

theorem outstanding_singleton {d m : Manifest} : Outstanding [d] [] m ↔ m = d := by
  unfold Outstanding
  refine ⟨fun h => ?_, fun h => ?_⟩
  · exact List.mem_singleton.mp (lastWithRef_some h.1).1
  · subst h
    exact ⟨lastWithRef_singleton m, fun l hl => by simp at hl⟩

/-- The one manifest that is handed over is the rendered one. -/
theorem rollbackPass_handed (marker : String) (m : Manifest) :
    HandedOver (rollbackPass marker) m ↔ m = configMap "settings" marker :=
  (handed_iff rfl rfl rfl (rollbackPass_carriedOut marker) m).trans outstanding_singleton

/-- What is recorded is what has been rendered. -/
theorem unchanged_rollback_applies :
    SystemEvent.manualSyncRequested "shop" = .manualSyncRequested "shop"
      ∧ ((∀ m, HandedOver (rollbackPass "v1") m ↔ m ∈ recordedManifests readSettings revisedShopDb 1)
        ↔ StoreHolds (shopRendered "v1").store "shop" (.ok [])
          (recordedManifests readSettings revisedShopDb 1)) := by
  have hquiet : ∀ e ∈ [Event.deliver 0, .start], NoRender "shop" e := by simp [NoRender]
  exact rollback_applies_iff connected (shopRendered "v1") rollback_accepted hquiet rfl
    (i := emptyCluster) (by simp [Undisturbed, emptyCluster])
    (rollbackPass_runs "v1") (rollbackPass_carriedOut "v1")

/-- **The latest render is applied, not the snapshot.** -/
theorem rollback_applies_latest_render : ¬ ∀ (fromStr : FromStr) (cfg : PoolConfig)
    (resolver : AppResolver) (rec : Reconciler) (s : State) (name : AppName) (req : RollbackRequest)
    (resp : RollbackResponse) (ev : SystemEvent) (es : List Event) (job : JobCtx) (i : Interleaving)
    (pass : Pass), rollbackApp fromStr s.db name req = .ok (resp, ev) →
    (∀ e ∈ es, NoRender name e) → job.appId = name → Undisturbed name i →
    passOf rec (exec (step fromStr cfg resolver) s (.rollback name req :: es)) job i = some pass →
    CarriedOut pass →
    ∀ m, HandedOver pass m ↔ m ∈ recordedManifests fromStr s.db req.revisionId := by
  intro h
  have hhanded := h readSettings shopCfg (fun _ => []) connected (shopRendered "v2") "shop" ⟨1⟩ _ _
    [.deliver 0, .start] ⟨"shop", .manual, 0⟩ emptyCluster _ rollback_accepted (by simp [NoRender])
    rfl (by simp [Undisturbed, emptyCluster]) (rollbackPass_runs "v2") (rollbackPass_carriedOut "v2")
    (configMap "settings" "v2")
  have hmem : configMap "settings" "v2" ∈ recordedManifests readSettings revisedShopDb 1 :=
    hhanded.mp ((rollbackPass_handed "v2" _).mpr rfl)
  rw [shop_recorded, List.mem_singleton] at hmem
  have hvalue := congrArg (fun m => m.body.value) hmem
  simp [configMap] at hvalue

end SynchrotronCD.Db.Rollback
