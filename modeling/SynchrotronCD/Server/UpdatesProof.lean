import SynchrotronCD.Server.Updates

/-!
# When updates through the API are atomic

Only the second section of an update can tell the database from the one of
atomic updates. It does not exactly if it finds a row, with nothing referring to
it, that it would edit to what it inserts, and if it does not fail after its
first statement (`same_replace`); `updates_atomic_iff` is the statement about
whole runs, for each of the three handlers.

An insert over nothing goes through because the identifier of a loaded row is
never that of a row with another name (`Consistent`).
-/

namespace SynchrotronCD.Db

open Lib

namespace Database.Same

theorem refl (db : Database) : db.Same db := ⟨fun _ => rfl, rfl, rfl, rfl, fun _ => rfl, fun _ => rfl⟩

theorem getApplication {a b : Database} (h : a.Same b) (n : AppName) :
    a.getApplication n = b.getApplication n := h.applications n

/-- The status writer's section on an outcome depends on what is read only. -/
theorem onSyncOutcome {a b : Database} (h : a.Same b) (ev : SyncOutcome) (recordId : String)
    (publishedAt now : Timestamp) :
    (a.onSyncOutcome ev recordId publishedAt now).Same (b.onSyncOutcome ev recordId publishedAt now) := by
  rw [onSyncOutcome_eq, onSyncOutcome_eq]
  refine ⟨h.applications.modify ev.app
    (Database.syncWritten (if ev.success then .synced else .syncFailed) ev.revision now)
    (fun _ => rfl) (fun _ => rfl), ?_, h.syncRevisions, h.ownedResources, h.clusters, h.repos⟩
  show (a.getApplication ev.app).elim _ _ = (b.getApplication ev.app).elim _ _
  rw [h.getApplication, h.syncHistory]

theorem onHealthAssessed {a b : Database} (h : a.Same b) (app : AppName) (status : HealthStatusCode)
    (message : Option String) (now : Timestamp) :
    (a.onHealthAssessed app status message now).Same (b.onHealthAssessed app status message now) :=
  ⟨h.applications.modify app (Database.healthWritten status message now) (fun _ => rfl)
      (fun _ => rfl),
    h.syncHistory, h.syncRevisions, h.ownedResources, h.clusters, h.repos⟩

end Database.Same

/-! ## What the endpoints have in common -/

namespace Endpoint

variable {ρ Req : Type} [Row ρ] {ep : Endpoint ρ Req}

/-- The same rows are read of every table but the endpoint's own. -/
def SameBut (ep : Endpoint ρ Req) (a b : Database) : Prop :=
  (ep.put a .empty).Same (ep.put b .empty)

/-- The endpoint's table is one table of the database. -/
structure Lawful (ep : Endpoint ρ Req) : Prop where
  put_table : ∀ db, ep.put db (ep.table db) = db
  table_put : ∀ db t, ep.table (ep.put db t) = t
  put_put : ∀ db t u, ep.put (ep.put db t) u = ep.put db u
  same_put : ∀ a b t u, (ep.put a t).Same (ep.put b u) ↔ t.Same u ∧ ep.SameBut a b
  /-- A cascade goes unnoticed exactly if nothing refers to the row. -/
  cascade_iff : ∀ a b id, ep.SameBut a b → (ep.SameBut (ep.cascade a id) b ↔ ep.unreferenced a id)
  cascade_congr : ∀ a b id, ep.SameBut a b → ep.SameBut (ep.cascade a id) (ep.cascade b id)
  /-- The status writer leaves the identifiers alone. -/
  onSyncOutcome : ∀ db ev recordId publishedAt now n r,
    ep.get (db.onSyncOutcome ev recordId publishedAt now) n = some r →
    ∃ r₀, ep.get db n = some r₀ ∧ Row.id r = Row.id r₀
  onHealthAssessed : ∀ db app status message now n r,
    ep.get (db.onHealthAssessed app status message now) n = some r →
    ∃ r₀, ep.get db n = some r₀ ∧ Row.id r = Row.id r₀

theorem apps_lawful : apps.Lawful where
  put_table _ := rfl
  table_put _ _ := rfl
  put_put _ _ _ := rfl
  same_put _ _ _ _ :=
    ⟨fun h => ⟨h.1, fun _ => rfl, h.2, h.3, h.4, h.5, h.6⟩,
      fun h => ⟨h.1, h.2.2, h.2.3, h.2.4, h.2.5, h.2.6⟩⟩
  cascade_iff a b id h := by
    have hdep : NoDependents a id ↔ _ := noDependents_iff
    refine ⟨?_, ?_⟩
    · intro hc
      exact hdep.mpr ⟨hc.syncHistory.trans h.syncHistory.symm,
        hc.syncRevisions.trans h.syncRevisions.symm, hc.ownedResources.trans h.ownedResources.symm⟩
    · intro hu
      obtain ⟨hhist, hrev, howned⟩ := hdep.mp hu
      exact ⟨h.1, hhist.trans h.2, hrev.trans h.3, howned.trans h.4, h.5, h.6⟩
  cascade_congr _ _ _ h :=
    ⟨h.1, congrArg (List.filter _) h.2, congrArg (List.filter _) h.3, congrArg (List.filter _) h.4,
      h.5, h.6⟩
  onSyncOutcome db ev recordId publishedAt now n r h := by
    have hget := Database.getApplication_updateApplicationSync db ev.app n
      (if ev.success then .synced else .syncFailed) ev.revision now
    rw [Database.onSyncOutcome_eq] at h
    have hr := hget.symm.trans h
    split at hr
    · obtain ⟨r₀, hr₀, rfl⟩ := Option.map_eq_some_iff.mp hr
      exact ⟨r₀, hr₀, rfl⟩
    · exact ⟨r, hr, rfl⟩
  onHealthAssessed db app status message now n r h := by
    have hr := (Database.getApplication_onHealthAssessed db app n status message now).symm.trans h
    split at hr
    · obtain ⟨r₀, hr₀, rfl⟩ := Option.map_eq_some_iff.mp hr
      exact ⟨r₀, hr₀, rfl⟩
    · exact ⟨r, hr, rfl⟩

theorem clusters_lawful : clusters.Lawful where
  put_table _ := rfl
  table_put _ _ := rfl
  put_put _ _ _ := rfl
  same_put _ _ _ _ :=
    ⟨fun h => ⟨h.5, h.1, h.2, h.3, h.4, fun _ => rfl, h.6⟩,
      fun h => ⟨h.2.1, h.2.2, h.2.3, h.2.4, h.1, h.2.6⟩⟩
  cascade_iff _ _ _ h := ⟨fun _ => trivial, fun _ => h⟩
  cascade_congr _ _ _ h := h
  onSyncOutcome db ev recordId publishedAt now n r h := by
    rw [Database.onSyncOutcome_eq] at h
    exact ⟨r, h, rfl⟩
  onHealthAssessed _ _ _ _ _ _ r h := ⟨r, h, rfl⟩

theorem repos_lawful : repos.Lawful where
  put_table _ := rfl
  table_put _ _ := rfl
  put_put _ _ _ := rfl
  same_put _ _ _ _ :=
    ⟨fun h => ⟨h.6, h.1, h.2, h.3, h.4, h.5, fun _ => rfl⟩,
      fun h => ⟨h.2.1, h.2.2, h.2.3, h.2.4, h.2.5, h.1⟩⟩
  cascade_iff _ _ _ h := ⟨fun _ => trivial, fun _ => h⟩
  cascade_congr _ _ _ h := h
  onSyncOutcome db ev recordId publishedAt now n r h := by
    rw [Database.onSyncOutcome_eq] at h
    exact ⟨r, h, rfl⟩
  onHealthAssessed _ _ _ _ _ _ r h := ⟨r, h, rfl⟩

namespace Lawful

variable (hep : ep.Lawful)

include hep

theorem same_iff {a b : Database} :
    a.Same b ↔ (ep.table a).Same (ep.table b) ∧ ep.SameBut a b := by
  have h := hep.same_put a b (ep.table a) (ep.table b)
  rwa [hep.put_table, hep.put_table] at h

theorem get_same {a b : Database} (h : a.Same b) (n : String) : ep.get a n = ep.get b n :=
  (hep.same_iff.mp h).1 n

theorem get_delete (db : Database) (name n : String) :
    ep.get (ep.delete db name).1 n = if n = name then none else ep.get db n := by
  cases h : ep.get db name with
  | some r =>
      rw [delete_of_some h]
      show (ep.table (ep.put _ _)).find n = _
      rw [hep.table_put, Table.find_delete]
      rfl
  | none =>
      rw [delete_of_none h]
      by_cases hn : n = name
      · rw [if_pos hn, hn, h]
      · rw [if_neg hn]

theorem delete_same {a b : Database} (h : a.Same b) (name : String) :
    (ep.delete a name).1.Same (ep.delete b name).1 := by
  obtain ⟨htable, hbut⟩ := hep.same_iff.mp h
  cases hr : ep.get a name with
  | some r =>
      rw [delete_of_some hr, delete_of_some ((hep.get_same h name).symm.trans hr), hep.same_put]
      exact ⟨htable.delete name, hep.cascade_congr _ _ _ hbut⟩
  | none =>
      rw [delete_of_none hr, delete_of_none ((hep.get_same h name).symm.trans hr)]
      exact h

theorem get_updateInPlace (db : Database) (name n : String) (req : Req) (now : Timestamp) :
    ep.get (ep.updateInPlace db name req now) n
      = if n = name then (ep.get db n).map fun r => (ep.serial req now r).1 else ep.get db n := by
  unfold updateInPlace get
  rw [hep.table_put, Table.find_modify]

theorem get_insert {db db' : Database} {r : ρ} (h : ep.insert db r = .ok db') (n : String) :
    ep.get db' n = if n = Row.name r then some r else ep.get db n := by
  obtain ⟨t, ht, rfl⟩ := map_ok h
  unfold get
  rw [hep.table_put]
  exact (Table.insert_eq_ok ht).2.2 n

end Lawful

end Endpoint

namespace Updates

/-- What is under way after a task has been set. -/
theorem tasks_update {α : Type} {tasks : Nat → Option α} {task t : Nat} {entry : Option α} {p : α}
    (h : Function.update tasks task entry t = some p) : entry = some p ∨ tasks t = some p := by
  by_cases ht : t = task
  · rw [ht, Function.update_self] at h
    exact Or.inl h
  · rw [Function.update_of_ne ht] at h
    exact Or.inr h

variable {ρ Req : Type} [Row ρ] {ep : Endpoint ρ Req}

/-! ## What a step does -/

theorem step_load_some {s : State ρ Req} {name : String} {row : ρ}
    (h : ep.get s.db name = some row) (task : Nat) (req : Req) :
    step ep s (.load task name req)
      = { s with tasks := Function.update s.tasks task (some ⟨name, req, row⟩) } := by
  simp only [step, h]

theorem step_load_none {s : State ρ Req} {name : String} (h : ep.get s.db name = none) (task : Nat)
    (req : Req) : step ep s (.load task name req)
      = { s with tasks := Function.update s.tasks task none } := by
  simp only [step, h]

theorem step_replace_some {s : State ρ Req} {task : Nat} {p : PendingUpdate ρ Req}
    (h : s.tasks task = some p) (now : Timestamp) (fault : Database.Fault) :
    step ep s (.replace task now fault)
      = { db := (replaceSection ep s.db p now fault).1
          atomic := atomicSection ep s.atomic p now (replaceSection ep s.db p now fault).2
          tasks := Function.update s.tasks task none } := by
  simp only [step, h]

theorem step_replace_none {s : State ρ Req} {task : Nat} (h : s.tasks task = none)
    (now : Timestamp) (fault : Database.Fault) : step ep s (.replace task now fault) = s := by
  simp only [step, h]

/-! ## Identifiers -/

/-- A row that is stored, or that an update has loaded. -/
def Known (ep : Endpoint ρ Req) (s : State ρ Req) (r : ρ) : Prop :=
  (∃ name, ep.get s.db name = some r) ∨ ∃ task p, s.tasks task = some p ∧ p.row = r

/-- Known rows of one identifier have one name, and a loaded row has the name it was asked for. -/
structure Consistent (ep : Endpoint ρ Req) (s : State ρ Req) : Prop where
  ids : ∀ r r', Known ep s r → Known ep s r' → Row.id r = Row.id r' → Row.name r = Row.name r'
  loaded : ∀ task p, s.tasks task = some p → Row.name p.row = p.name

theorem consistent_new (ep : Endpoint ρ Req) (db : Database) : Consistent ep (State.new db) := by
  refine ⟨?_, fun _ _ h => absurd h (by simp [State.new])⟩
  intro r r' hr hr' hid
  rcases hr with ⟨name, hr⟩ | ⟨_, _, h, _⟩
  · rcases hr' with ⟨name', hr'⟩ | ⟨_, _, h, _⟩
    · rw [Table.find_id_inj hr hr' hid]
    · exact absurd h (by simp [State.new])
  · exact absurd h (by simp [State.new])

/-- A step that makes up no identifier keeps the rows consistent: what it stores has the identifier
and the name of a known row, and what it loads is stored. -/
theorem Consistent.of_rows {s s' : State ρ Req} (h : Consistent ep s)
    (hrows : ∀ n r, ep.get s'.db n = some r → ∃ r₀, Known ep s r₀ ∧ Row.id r = Row.id r₀
      ∧ Row.name r = Row.name r₀)
    (htasks : ∀ task p, s'.tasks task = some p → s.tasks task = some p
      ∨ ep.get s.db p.name = some p.row) : Consistent ep s' := by
  have hknown : ∀ r, Known ep s' r → ∃ r₀, Known ep s r₀ ∧ Row.id r = Row.id r₀
      ∧ Row.name r = Row.name r₀ := by
    intro r hr
    rcases hr with ⟨n, hr⟩ | ⟨task, p, hp, rfl⟩
    · exact hrows n r hr
    · refine ⟨p.row, ?_, rfl, rfl⟩
      rcases htasks task p hp with hp | hrow
      · exact Or.inr ⟨task, p, hp, rfl⟩
      · exact Or.inl ⟨p.name, hrow⟩
  refine ⟨fun r r' hr hr' hid => ?_, fun task p hp => ?_⟩
  · obtain ⟨r₀, hk, hid₀, hname₀⟩ := hknown r hr
    obtain ⟨r₁, hk', hid₁, hname₁⟩ := hknown r' hr'
    rw [hname₀, hname₁]
    exact h.ids r₀ r₁ hk hk' (by rw [← hid₀, ← hid₁, hid])
  · rcases htasks task p hp with hp | hrow
    · exact h.loaded task p hp
    · exact Table.find_name hrow

/-- What a second section can leave in the table: what was there, and the edited row. -/
theorem get_replaceSection (hep : ep.Lawful) {db : Database} {p : PendingUpdate ρ Req}
    {now : Timestamp} {fault : Database.Fault} {n : String} {r : ρ}
    (h : ep.get (replaceSection ep db p now fault).1 n = some r) :
    ep.get db n = some r ∨ (Row.id r = Row.id p.row ∧ Row.name r = Row.name p.row) := by
  unfold replaceSection at h
  cases hedit : ep.edit p.req now p.row with
  | error e => rw [hedit] at h; exact Or.inl h
  | ok r' =>
  have hdel : ∀ r, ep.get (ep.delete db p.name).1 n = some r → ep.get db n = some r := by
    intro r hr
    rw [hep.get_delete] at hr
    split at hr
    · simp at hr
    · exact hr
  rw [hedit] at h
  cases fault with
  | delete text => exact Or.inl h
  | insert text => exact Or.inl (hdel r h)
  | none =>
      simp only [Database.replace] at h
      cases hins : ep.insert (ep.delete db p.name).1 r'.1 with
      | error v => rw [hins] at h; exact Or.inl (hdel r h)
      | ok db' =>
          rw [hins] at h
          have hget := (hep.get_insert hins n).symm.trans h
          split at hget
          · obtain rfl := Option.some.inj hget
            exact Or.inr r'.2
          · exact Or.inl (hdel r hget)

theorem consistent_step (hep : ep.Lawful) {s : State ρ Req} (h : Consistent ep s) (e : Event Req) :
    Consistent ep (step ep s e) := by
  have hstored : ∀ n r, ep.get s.db n = some r → ∃ r₀, Known ep s r₀ ∧ Row.id r = Row.id r₀
      ∧ Row.name r = Row.name r₀ := fun n r hr => ⟨r, Or.inl ⟨n, hr⟩, rfl, rfl⟩
  -- the writer's sections keep the identifier of the row of a name
  have hwritten : ∀ (n : String) (r r₀ : ρ), Row.name r = n → ep.get s.db n = some r₀ →
      Row.id r = Row.id r₀ →
      ∃ r₀, Known ep s r₀ ∧ Row.id r = Row.id r₀ ∧ Row.name r = Row.name r₀ :=
    fun n r r₀ hname hr₀ hid => ⟨r₀, Or.inl ⟨n, hr₀⟩, hid, hname.trans (Table.find_name hr₀).symm⟩
  cases e with
  | load task name req =>
      cases hrow : ep.get s.db name with
      | none =>
          rw [step_load_none hrow]
          exact h.of_rows hstored fun t p hp => Or.inl ((tasks_update hp).resolve_left (by simp))
      | some row =>
          rw [step_load_some hrow]
          refine h.of_rows hstored fun t p hp => ?_
          rcases tasks_update hp with hp | hp
          · obtain rfl := Option.some.inj hp
            exact Or.inr hrow
          · exact Or.inl hp
  | replace task now fault =>
      cases hp : s.tasks task with
      | none =>
          rw [step_replace_none hp]
          exact h
      | some p =>
      rw [step_replace_some hp]
      refine h.of_rows (fun n r hr => ?_)
        fun t q hq => Or.inl ((tasks_update hq).resolve_left (by simp))
      rcases get_replaceSection hep hr with hr | ⟨hid, hname⟩
      · exact hstored n r hr
      · exact ⟨p.row, Or.inr ⟨task, p, hp, rfl⟩, hid, hname⟩
  | delete name =>
      refine h.of_rows (fun n r hr => ?_) fun _ _ hp => Or.inl hp
      have hget := (hep.get_delete s.db name n).symm.trans hr
      split at hget
      · simp at hget
      · exact hstored n r hget
  | syncOutcome ev recordId publishedAt now =>
      refine h.of_rows (fun n r hr => ?_) fun _ _ hp => Or.inl hp
      obtain ⟨r₀, hr₀, hid⟩ := hep.onSyncOutcome _ _ _ _ _ n r hr
      exact hwritten n r r₀ (Table.find_name hr) hr₀ hid
  | healthAssessed app status message now =>
      refine h.of_rows (fun n r hr => ?_) fun _ _ hp => Or.inl hp
      obtain ⟨r₀, hr₀, hid⟩ := hep.onHealthAssessed _ _ _ _ _ n r hr
      exact hwritten n r r₀ (Table.find_name hr) hr₀ hid

/-! ## The second section -/

/-- A database in which a row is gone is not the one it was in. -/
theorem not_same_delete (hep : ep.Lawful) {a b : Database} {name : String} {cur : ρ}
    (hb : ep.get b name = some cur) : ¬ (ep.delete a name).1.Same b := by
  intro h
  have hget := hep.get_same h name
  rw [hep.get_delete, if_pos rfl, hb] at hget
  simp at hget

/-- Deleting and inserting is changing in place exactly if the row inserted is the changed one
and nothing was lost with the deletion. -/
theorem same_insert_iff (hep : ep.Lawful) {a b a' : Database} (h : a.Same b)
    {p : PendingUpdate ρ Req} {now : Timestamp} {cur r : ρ} (hcur : ep.get a p.name = some cur)
    (hr : Row.name r = p.name) (hins : ep.insert (ep.delete a p.name).1 r = .ok a') :
    a'.Same (ep.updateInPlace b p.name p.req now)
      ↔ r = (ep.serial p.req now cur).1 ∧ ep.unreferenced a (Row.id cur) := by
  obtain ⟨htable, hbut⟩ := hep.same_iff.mp h
  rw [Endpoint.delete_of_some hcur] at hins
  obtain ⟨t, ht, rfl⟩ := map_ok hins
  rw [hep.table_put] at ht
  rw [hep.put_put]
  unfold Endpoint.updateInPlace
  rw [hep.same_put, Table.same_modify_iff htable hcur hr ht,
    hep.cascade_iff _ _ _ hbut]

/-- An insert over nothing goes through: the identifier is that of no other row. -/
theorem insert_of_absent {s : State ρ Req} (hc : Consistent ep s) {task : Nat}
    {p : PendingUpdate ρ Req} (hp : s.tasks task = some p) (hnone : ep.get s.db p.name = none)
    (r : Edited p.row) : ∃ db', ep.insert s.db r.1 = .ok db' := by
  have hname : Row.name r.1 = p.name := r.2.2.trans (hc.loaded task p hp)
  obtain ⟨t, ht⟩ := Table.insert_of_fresh (t := ep.table s.db) (r := r.1)
    (fun hid => by
      obtain ⟨n, x, hx, hxid⟩ := Table.hasId_iff.mp hid
      have hxname := hc.ids x p.row (Or.inl ⟨n, hx⟩) (Or.inr ⟨task, p, hp, rfl⟩) (hxid.trans r.2.1)
      -- that row would have the name that is absent
      rw [hc.loaded task p hp, Table.find_name hx] at hxname
      rw [← hxname] at hnone
      exact absurd (hnone.symm.trans hx) (by simp))
    (by rw [hname]; exact hnone)
  exact ⟨ep.put s.db t, by unfold Endpoint.insert; rw [ht]; rfl⟩

/-- What both statements together do to the two databases. -/
theorem same_replace_none (hep : ep.Lawful) {s : State ρ Req} (hc : Consistent ep s)
    (h : Atomic s) {task : Nat} {p : PendingUpdate ρ Req} (hp : s.tasks task = some p)
    {now : Timestamp} {r : Edited p.row} (hedit : ep.edit p.req now p.row = .ok r) :
    (replaceSection ep s.db p now .none).1.Same
        (atomicSection ep s.atomic p now (replaceSection ep s.db p now .none).2)
      ↔ ∃ cur, ep.get s.db p.name = some cur ∧ r.1 = (ep.serial p.req now cur).1
        ∧ ep.unreferenced s.db (Row.id cur) := by
  have hname : Row.name r.1 = p.name := r.2.2.trans (hc.loaded task p hp)
  unfold replaceSection Database.replace
  simp only [hedit]
  cases hget : ep.get s.db p.name with
  | none =>
      -- the deleted row comes back
      obtain ⟨db', hins⟩ := insert_of_absent hc hp hget r
      rw [Endpoint.delete_of_none hget, hins]
      refine ⟨fun hsame => ?_, fun hex => ?_⟩
      · have hback := hep.get_same hsame p.name
        rw [hep.get_insert hins, if_pos hname.symm] at hback
        show ∃ cur, none = some cur ∧ _
        have hin := hep.get_updateInPlace s.atomic p.name p.name p.req now
        rw [if_pos rfl, ← hep.get_same h, hget] at hin
        exact absurd (hback.trans hin) (by simp)
      · obtain ⟨cur, hcur, -⟩ := hex
        exact absurd hcur (by simp)
  | some cur =>
      cases hins : ep.insert (ep.delete s.db p.name).1 r.1 with
      | ok db' =>
          refine (same_insert_iff hep h hget hname hins).trans ⟨fun hx => ⟨cur, rfl, hx⟩, ?_⟩
          intro hex
          obtain ⟨c, hcur, hx⟩ := hex
          obtain rfl := Option.some.inj hcur
          exact hx
      | error v =>
          refine ⟨fun hsame => ?_, fun hex => ?_⟩
          · exact absurd hsame (not_same_delete hep ((hep.get_same h p.name).symm.trans hget))
          · -- a row edited in place keeps its identifier, so its insert goes through
            obtain ⟨c, hcur, hser, -⟩ := hex
            obtain rfl := Option.some.inj hcur
            obtain ⟨t, ht⟩ := Table.insert_delete_of_id (s := r.1) hget
              (by rw [hser]; exact (ep.serial p.req now cur).2.1) hname
            rw [Endpoint.delete_of_some hget] at hins
            unfold Endpoint.insert at hins
            rw [hep.table_put, ht] at hins
            exact absurd hins (by simp [Except.map])

/-- **The second section is atomic exactly if it is undisturbed.** -/
theorem same_replace (hep : ep.Lawful) {s : State ρ Req} (hc : Consistent ep s) (h : Atomic s)
    (task : Nat) (now : Timestamp) (fault : Database.Fault) :
    Atomic (step ep s (.replace task now fault)) ↔ Undisturbed ep s (.replace task now fault) := by
  cases hp : s.tasks task with
  | none =>
      rw [step_replace_none hp]
      exact ⟨fun _ p r hq => absurd (hp.symm.trans hq) (by simp), fun _ => h⟩
  | some p =>
  rw [step_replace_some hp]
  show (replaceSection ep s.db p now fault).1.Same
    (atomicSection ep s.atomic p now (replaceSection ep s.db p now fault).2) ↔ _
  cases hedit : ep.edit p.req now p.row with
  | error e =>
      -- turned down before the database is touched
      have hsec : replaceSection ep s.db p now fault = (s.db, .error e) := by
        simp only [replaceSection, hedit]
      rw [hsec]
      refine ⟨fun _ q r hq hr => ?_, fun _ => h⟩
      obtain rfl := Option.some.inj (hp.symm.trans hq)
      exact absurd (hedit.symm.trans hr) (by simp)
  | ok r =>
  have huniq : ∀ q r', s.tasks task = some q → ep.edit q.req now q.row = .ok r' → q = p := by
    intro q r' hq _
    exact Option.some.inj (hq.symm.trans hp)
  cases fault with
  | delete text =>
      have hsec : replaceSection ep s.db p now (.delete text)
          = (s.db, .error (.internal (.sqlite text))) := by
        simp only [replaceSection, hedit, Database.replace]
      rw [hsec]
      exact ⟨fun _ _ _ _ _ => trivial, fun _ => h⟩
  | insert text =>
      have hsec : replaceSection ep s.db p now (.insert text)
          = ((ep.delete s.db p.name).1, .error (.internal (.sqlite text))) := by
        simp only [replaceSection, hedit, Database.replace]
      rw [hsec]
      refine ⟨?_, ?_⟩
      · intro hsame q r' hq hr'
        show ep.get s.db q.name = none
        rw [huniq q r' hq hr']
        cases hget : ep.get s.db p.name with
        | none => rfl
        | some cur =>
            exact absurd hsame (not_same_delete hep ((hep.get_same h p.name).symm.trans hget))
      · intro hund
        show (ep.delete s.db p.name).1.Same s.atomic
        rw [Endpoint.delete_of_none (hund p r hp hedit)]
        exact h
  | none =>
      rw [same_replace_none hep hc h hp hedit]
      refine ⟨?_, fun hund => hund p r hp hedit⟩
      intro hex q r' hq hr'
      obtain rfl := huniq q r' hq hr'
      obtain rfl := Except.ok.inj (hedit.symm.trans hr')
      exact hex

theorem atomic_step (hep : ep.Lawful) {s : State ρ Req} (e : Event Req) (hc : Consistent ep s)
    (h : Atomic s) : Atomic (step ep s e) ↔ Undisturbed ep s e := by
  cases e with
  | replace task now fault => exact same_replace hep hc h task now fault
  | delete name => exact ⟨fun _ => trivial, fun _ => hep.delete_same h name⟩
  | syncOutcome ev recordId publishedAt now =>
      exact ⟨fun _ => trivial, fun _ => Database.Same.onSyncOutcome h ev recordId publishedAt now⟩
  | healthAssessed app status message now =>
      exact ⟨fun _ => trivial, fun _ => Database.Same.onHealthAssessed h app status message now⟩
  | load task name req =>
      refine ⟨fun _ => trivial, fun _ => ?_⟩
      cases hrow : ep.get s.db name with
      | none =>
          rw [step_load_none hrow]
          exact h
      | some row =>
          rw [step_load_some hrow]
          exact h

/-- **The runs in which an endpoint's updates are atomic.** -/
theorem atomic_iff (hep : ep.Lawful) (db : Database) (es : List (Event Req)) :
    Always (step ep) Atomic (State.new db) es ↔ Each (step ep) (Undisturbed ep) (State.new db) es :=
  always_iff_each (I := Consistent ep) (A := fun _ => True)
    (fun _ e hc _ => consistent_step hep hc e) (fun _ e hc h _ => atomic_step hep e hc h)
    (consistent_new ep db) (Database.Same.refl db) (fun _ _ => trivial)

/--
**Updates are atomic exactly in the undisturbed runs.**

For each of the three handlers, from any database and for any order of the sections of any
updates, deletions and writes of the status writer, with failures anywhere: the database is
all along the one of atomic updates if and only if every second section that edits its row
finds one, would edit it to the row that it inserts, finds nothing that refers to it, and
does not fail between its two statements.
-/
theorem updates_atomic_iff (db : Database) (apps : List (Event UpdateAppRequest))
    (clusters : List (Event UpdateClusterRequest)) (repos : List (Event UpdateRepoRequest)) :
    (Always (step Endpoint.apps) Atomic (State.new db) apps
      ↔ Each (step Endpoint.apps) (Undisturbed Endpoint.apps) (State.new db) apps)
    ∧ (Always (step Endpoint.clusters) Atomic (State.new db) clusters
      ↔ Each (step Endpoint.clusters) (Undisturbed Endpoint.clusters) (State.new db) clusters)
    ∧ (Always (step Endpoint.repos) Atomic (State.new db) repos
      ↔ Each (step Endpoint.repos) (Undisturbed Endpoint.repos) (State.new db) repos) :=
  ⟨atomic_iff Endpoint.apps_lawful db apps, atomic_iff Endpoint.clusters_lawful db clusters,
    atomic_iff Endpoint.repos_lawful db repos⟩

/-- An update that asks for nothing. -/
def untouched : UpdateAppRequest := ⟨none, none, none, none, none, none, none⟩

/-- **A deleted application comes back**, if its deletion commits between the two sections. -/
theorem deleted_shop_restored : ¬ ∀ (db : Database) (es : List (Event UpdateAppRequest)),
    Always (step Endpoint.apps) Atomic (State.new db) es := by
  intro h
  have hend := (h shopDb [.load 0 "shop" untouched, .delete "shop", .replace 0 7 .none]).final
  exact absurd (hend.applications "shop") (by decide)

end Updates

end SynchrotronCD.Db
