import Mathlib.Data.Finset.Max
import Mathlib.Data.Int.Order.Lemmas
import SynchrotronCD.Lib.Assoc
import SynchrotronCD.Lib.Transactions

/-!
# Schema migrations

`run_migrations` reads the highest recorded version and applies the scripts above it, each
in a transaction of its own that records the script's version at its end. All tables and
indexes are created `IF NOT EXISTS`, so that a script can be applied again.

A database at some version of the ladder is taken to the latest, or up to the script that
fails; what is not taken care of is a version above the latest, and a transaction that is
left open (`sound_iff`).
-/

namespace SynchrotronCD.Db.Migrations

open Lib

/-! ## The schema -/

inductive SchemaObject where
  | table (columns : List String)
  | index (table : String) (columns : List String)
deriving DecidableEq, Repr

/-- Schema version tracking. -/
def ledger : String := "schema_migrations"

/-- The schema, and the rows of `schema_migrations`. -/
structure Store where
  objects : HashMap String SchemaObject
  versions : Finset Int

namespace Store

def empty : Store := ⟨∅, ∅⟩

/-- `SELECT COALESCE(MAX(version), 0) FROM schema_migrations`, or 0 where that fails. -/
def recorded (s : Store) : Int :=
  match s.objects.lookup ledger with
  | some (.table columns) => if "version" ∈ columns then s.versions.max.unbotD 0 else 0
  | some (.index _ _) | none => 0

end Store

inductive Statement where
  /-- `PRAGMA foreign_keys = ON`, which does nothing in a transaction. -/
  | pragmaForeignKeys
  /-- `CREATE TABLE IF NOT EXISTS`. -/
  | createTable (name : String) (columns : List String)
  /-- `CREATE INDEX IF NOT EXISTS`. -/
  | createIndex (name table : String) (columns : List String)
  /-- `INSERT OR IGNORE INTO schema_migrations (version)`. -/
  | insertVersion (version : Int)
deriving DecidableEq, Repr

def Statement.exec : Statement → Store → Option Store
  | .pragmaForeignKeys, s => some s
  | .createTable name columns, s =>
    match s.objects.lookup name with
    | none => some ⟨s.objects.insert name (.table columns), if name = ledger then ∅ else s.versions⟩
    | some (.table _) => some s
    | some (.index _ _) => none
  | .createIndex name table columns, s =>
    match s.objects.lookup table with
    | some (.table tableColumns) =>
      match s.objects.lookup name with
      | none =>
        if columns ⊆ tableColumns then
          some { s with objects := s.objects.insert name (.index table columns) }
        else none
      | some (.index _ _) => some s
      | some (.table _) => none
    | some (.index _ _) | none => none
  | .insertVersion version, s =>
    match s.objects.lookup ledger with
    | some (.table columns) =>
      if "version" ∈ columns then some { s with versions := insert version s.versions } else none
    | some (.index _ _) | none => none

/-! ## The scripts -/

abbrev Script := List Statement

def schemaV1 : Script :=
  [.pragmaForeignKeys,
    .createTable "schema_migrations" ["version", "applied_at"],
    .createTable "applications" ["id", "name", "namespace", "repo_url", "path", "target_revision",
      "plugin_config", "dest_cluster", "dest_namespace", "sync_policy", "sync_status",
      "health_status", "health_message", "last_synced_at", "last_synced_revision", "created_at",
      "updated_at"],
    .createIndex "idx_applications_name" "applications" ["name"],
    .createIndex "idx_applications_cluster" "applications" ["dest_cluster"],
    .createIndex "idx_applications_sync_status" "applications" ["sync_status"],
    .createTable "sync_history" ["id", "app_id", "revision", "status", "message", "started_at",
      "finished_at", "resources_synced", "trigger"],
    .createIndex "idx_sync_history_app_id" "sync_history" ["app_id"],
    .createIndex "idx_sync_history_started_at" "sync_history" ["started_at"],
    .insertVersion 1]

/-- App manifest cache persistence. -/
def schemaV2 : Script :=
  [.createTable "app_cache_entries" ["app_id", "commit_hash", "params_hash", "manifests_json",
      "bytes", "updated_at"],
    .createIndex "idx_app_cache_updated_at" "app_cache_entries" ["updated_at"],
    .insertVersion 2]

/-- Per-app owned-resource set. -/
def schemaV3 : Script :=
  [.createTable "app_owned_resources" ["app_id", "gvk_group", "gvk_version", "gvk_kind",
      "namespace", "name", "wave", "prune_disabled", "recorded_at"],
    .createIndex "idx_owned_resources_app" "app_owned_resources" ["app_id"],
    .insertVersion 3]

/-- Per-app revision snapshots. -/
def schemaV4 : Script :=
  [.createTable "app_sync_revisions" ["id", "app_id", "commit_hash", "params_hash",
      "manifests_json", "recorded_at"],
    .createIndex "idx_sync_revisions_app_recorded" "app_sync_revisions" ["app_id", "id"],
    .insertVersion 4]

/-- Clusters registered through the REST API. -/
def schemaV5 : Script :=
  [.createTable "clusters" ["id", "name", "auth_source", "kubeconfig_path", "context",
      "bearer_token", "labels_json", "created_at", "updated_at"],
    .insertVersion 5]

/-- Git repos registered through the REST API. -/
def schemaV6 : Script :=
  [.createTable "repos" ["id", "name", "url", "branch", "credentials_secret_ref", "password",
      "labels_json", "created_at", "updated_at"],
    .insertVersion 6]

/-- Highest schema version this binary knows about. -/
def LATEST_VERSION : Nat := 6

def ladder : List (Nat × Script) :=
  [(1, schemaV1), (2, schemaV2), (3, schemaV3), (4, schemaV4), (5, schemaV5), (6, schemaV6)]

/-! ## The runner -/

/-- What becomes of the statements of one migration. -/
structure MigrationOutcomes where
  begin : Outcome
  statement : Nat → Outcome
  commit : Outcome
  rollback : Outcome

/-- What becomes of all the statements. -/
structure RunOutcomes where
  query : Outcome
  migration : Nat → MigrationOutcomes

/-- Nothing fails that need not. -/
def RunOutcomes.allDone : RunOutcomes := ⟨.done, fun _ => ⟨.done, fun _ => .done, .done, .done⟩⟩

/-- Run one migration's SQL inside a transaction. -/
def applyMigration (o : MigrationOutcomes) (sql : Script) (conn : Conn Store) : Conn Store × Bool :=
  match conn.attempt o.begin Conn.begin with
  | (conn, false) => (conn, false)
  | (conn, true) =>
    match Conn.executeBatch o.statement (sql.map Statement.exec) conn with
    | (conn, true) => conn.attempt o.commit Conn.commit
    -- best-effort rollback
    | (conn, false) => ((conn.attempt o.rollback Conn.rollback).1, false)

def getCurrentVersion (o : Outcome) (conn : Conn Store) : Conn Store × Int :=
  match conn.attempt o some with
  | (conn, true) => (conn, conn.content.recorded)
  | (conn, false) => (conn, 0)

/-- Apply the migrations above the current version. -/
def applyPending (o : Nat → MigrationOutcomes) (current : Int) :
    List (Nat × Script) → Conn Store → Conn Store × Bool
  | [], conn => (conn, true)
  | (version, sql) :: rest, conn =>
    if current < version then
      match applyMigration (o version) sql conn with
      | (conn, true) => applyPending o current rest conn
      | (conn, false) => (conn, false)
    else applyPending o current rest conn

/-- Run all pending migrations. -/
def runMigrations (o : RunOutcomes) (conn : Conn Store) : Conn Store × Bool :=
  let (conn, current) := getCurrentVersion o.query conn
  applyPending o.migration current ladder conn

/-! ## What a script does -/

/-- The names of the tables and indexes of the ladder. -/
def Statement.name : Statement → Option String
  | .createTable name _ | .createIndex name _ _ => some name
  | .pragmaForeignKeys | .insertVersion _ => none

def names : List String := ladder.flatMap fun p => p.2.filterMap Statement.name

/-- The two schemas are one, as far as the ladder goes. -/
def Agrees (s t : Store) : Prop := ∀ name ∈ names, s.objects.lookup name = t.objects.lookup name

instance (s t : Store) : Decidable (Agrees s t) := inferInstanceAs (Decidable (∀ _ ∈ _, _))

/-- What is found of the ladder decides what a statement does. -/
def Statement.reads : Statement → List String
  | .pragmaForeignKeys => []
  | .createTable name _ => [name]
  | .createIndex name table _ => [name, table]
  | .insertVersion _ => [ledger]

theorem lookup_insert (m : HashMap String SchemaObject) (name : String) (object : SchemaObject)
    (k : String) : (m.insert name object).lookup k = if k = name then some object else m.lookup k := by
  by_cases hk : k = name
  · rw [if_pos hk, hk, AList.lookup_insert]
  · rw [if_neg hk, AList.lookup_insert_ne hk]

/-- **A statement does the same to schemas that agree.** -/
theorem Statement.exec_agrees {st : Statement} (hreads : ∀ name ∈ st.reads, name ∈ names)
    {s t t' : Store} (h : Agrees s t) (ht : st.exec t = some t') :
    ∃ s', st.exec s = some s' ∧ Agrees s' t' := by
  -- what is created is created in both
  have hinsert : ∀ name object, Agrees ⟨s.objects.insert name object, s.versions⟩
      ⟨t.objects.insert name object, t.versions⟩ := by
    intro name object k hk
    show (s.objects.insert name object).lookup k = (t.objects.insert name object).lookup k
    rw [lookup_insert, lookup_insert, h k hk]
  cases st with
  | pragmaForeignKeys =>
      obtain rfl := Option.some.inj ht
      exact ⟨s, rfl, h⟩
  | createTable name columns =>
      simp only [exec] at ht ⊢
      rw [h name (hreads name List.mem_cons_self)]
      split at ht
      · obtain rfl := Option.some.inj ht
        exact ⟨_, rfl, hinsert name _⟩
      · obtain rfl := Option.some.inj ht
        exact ⟨s, rfl, h⟩
      · cases ht
  | createIndex name table columns =>
      simp only [exec] at ht ⊢
      rw [h name (hreads name List.mem_cons_self),
        h table (hreads table (List.mem_cons_of_mem _ List.mem_cons_self))]
      split at ht
      · split at ht
        · split at ht
          · rename_i hcolumns
            obtain rfl := Option.some.inj ht
            exact ⟨_, if_pos hcolumns, hinsert name _⟩
          · cases ht
        · obtain rfl := Option.some.inj ht
          exact ⟨s, rfl, h⟩
        · cases ht
      all_goals cases ht
  | insertVersion version =>
      simp only [exec] at ht ⊢
      rw [h ledger (hreads ledger List.mem_cons_self)]
      split at ht
      · split at ht
        · rename_i hcolumn
          obtain rfl := Option.some.inj ht
          exact ⟨_, if_pos hcolumn, h⟩
        · cases ht
      all_goals cases ht

theorem changed_agrees {sql : Script} (hreads : ∀ st ∈ sql, ∀ name ∈ st.reads, name ∈ names)
    {s t t' : Store} (h : Agrees s t) (ht : Conn.changed (sql.map Statement.exec) t = some t') :
    ∃ s', Conn.changed (sql.map Statement.exec) s = some s' ∧ Agrees s' t' := by
  induction sql generalizing s t with
  | nil =>
      obtain rfl := Option.some.inj ht
      exact ⟨s, rfl, h⟩
  | cons st sql ih =>
      obtain ⟨t₁, ht₁, hrest⟩ := Option.bind_eq_some_iff.mp ht
      obtain ⟨s₁, hs₁, h₁⟩ := st.exec_agrees (hreads st List.mem_cons_self) h ht₁
      obtain ⟨s', hs', h'⟩ := ih (fun st hst => hreads st (List.mem_cons_of_mem _ hst)) h₁ hrest
      refine ⟨s', ?_, h'⟩
      rw [List.map_cons, Conn.changed, hs₁]
      exact hs'

/-- The version a statement records, if it records one. -/
def Statement.version : Statement → Nat
  | .insertVersion version => version.toNat
  | .pragmaForeignKeys | .createTable _ _ | .createIndex _ _ _ => 0

/-- The highest version that a script records. -/
def highest : Script → Nat
  | [] => 0
  | st :: sql => max st.version (highest sql)

theorem max_insert (version : Int) (versions : Finset Int) :
    ((insert version versions).max.unbotD 0).toNat
      = max (versions.max.unbotD 0).toNat version.toNat := by
  rw [Finset.max_insert]
  cases versions.max with
  | bot =>
      rw [max_bot_right, WithBot.unbotD_coe, WithBot.unbotD_bot]
      omega
  | coe m =>
      rw [← WithBot.coe_max, WithBot.unbotD_coe, WithBot.unbotD_coe]
      omega

/-- What is created is not the ledger, or is an empty one, or is none. -/
theorem recorded_created {s : Store} {name : String} {object : SchemaObject} {versions : Finset Int}
    (hnone : s.objects.lookup name = none) (hother : name ≠ ledger → versions = s.versions)
    (hledger : name = ledger → ∀ columns, object = .table columns → versions = ∅) :
    (⟨s.objects.insert name object, versions⟩ : Store).recorded = s.recorded := by
  unfold Store.recorded
  dsimp only
  rw [lookup_insert]
  by_cases hname : name = ledger
  · subst hname
    rw [if_pos rfl, hnone]
    cases object with
    | table columns =>
        rw [hledger rfl columns rfl]
        by_cases hc : "version" ∈ columns <;> simp [hc]
    | index table columns => rfl
  · rw [if_neg (Ne.symm hname), hother hname]

/-- **The recorded version** rises to those that are recorded. -/
theorem Statement.recorded_exec {st : Statement} {s s' : Store} (h : st.exec s = some s') :
    s'.recorded.toNat = max s.recorded.toNat st.version := by
  cases st with
  | pragmaForeignKeys =>
      obtain rfl := Option.some.inj h
      exact (Nat.max_zero _).symm
  | createTable name columns =>
      simp only [exec] at h
      split at h
      · rename_i hnone
        obtain rfl := Option.some.inj h
        rw [recorded_created hnone (fun hl => if_neg hl) fun hl _ _ => if_pos hl]
        exact (Nat.max_zero _).symm
      · obtain rfl := Option.some.inj h
        exact (Nat.max_zero _).symm
      · cases h
  | createIndex name table columns =>
      simp only [exec] at h
      split at h
      · split at h
        · rename_i hnone
          split at h
          · obtain rfl := Option.some.inj h
            rw [recorded_created hnone (fun _ => rfl) fun _ _ htable => by cases htable]
            exact (Nat.max_zero _).symm
          · cases h
        · obtain rfl := Option.some.inj h
          exact (Nat.max_zero _).symm
        · cases h
      all_goals cases h
  | insertVersion version =>
      simp only [exec] at h
      split at h
      · rename_i hledger
        split at h
        · rename_i hcolumn
          obtain rfl := Option.some.inj h
          -- the row is there, so the highest is that of one more
          unfold Store.recorded
          dsimp only
          rw [hledger]
          dsimp only
          rw [if_pos hcolumn, if_pos hcolumn]
          exact max_insert version s.versions
        · cases h
      all_goals cases h

theorem recorded_changed {sql : Script} {s s' : Store}
    (h : Conn.changed (sql.map Statement.exec) s = some s') :
    s'.recorded.toNat = max s.recorded.toNat (highest sql) := by
  induction sql generalizing s with
  | nil =>
      obtain rfl := Option.some.inj h
      exact (Nat.max_zero _).symm
  | cons st sql ih =>
      obtain ⟨s₁, h₁, hrest⟩ := Option.bind_eq_some_iff.mp h
      rw [ih hrest, st.recorded_exec h₁, highest, Nat.max_assoc]

/-! ## The versions of the ladder -/

/-- What the first so many scripts make of an empty database. -/
def stage (k : Nat) : Store :=
  (Conn.changed ((ladder.take k).flatMap fun p => p.2.map Statement.exec) .empty).getD .empty

/-- Before the first script, there may be a ledger. -/
def stages (k : Nat) : List Store :=
  if k = 0 then [.empty, ⟨AList.singleton ledger (.table ["version", "applied_at"]), ∅⟩] else [stage k]

/-- The schema is that of the first so many scripts. -/
def HasSchema (s : Store) (k : Nat) : Prop := ∃ t ∈ stages k, Agrees s t

/-- The database is at the schema of a prefix of the ladder, and records its version. -/
structure AtVersion (s : Store) (k : Nat) : Prop where
  schema : HasSchema s k
  recorded : s.recorded.toNat = k

/-- The script makes some stage of that version of each stage below. -/
def Climbs (version : Nat) (sql : Script) : Prop :=
  (∀ st ∈ sql, ∀ name ∈ st.reads, name ∈ names) ∧ highest sql = version ∧
    ∀ m ≤ LATEST_VERSION, version ≤ m + 1 → ∀ t ∈ stages m,
      ∃ t' ∈ Conn.changed (sql.map Statement.exec) t, ∃ u ∈ stages (max m version), Agrees t' u

theorem ladder_climbs : ∀ p ∈ ladder, Climbs p.1 p.2 := by
  unfold Climbs
  decide +kernel

/-! ## One migration -/

/-- Every statement of a migration of so many is carried out. -/
def MigrationOutcomes.Succeeds (o : MigrationOutcomes) (n : Nat) : Prop :=
  o.begin = .done ∧ Conn.AllDone o.statement n ∧ o.commit = .done

/-- The transaction stays open: the commit fails, or a statement and the rollback do, and the
database keeps the transaction. -/
def MigrationOutcomes.LeavesOpen (o : MigrationOutcomes) (n : Nat) : Prop :=
  o.begin = .done ∧
    (Conn.AllDone o.statement n ∧ o.commit = .failed false
      ∨ (∃ i, Conn.FirstFails o.statement n i false) ∧ o.rollback = .failed false)

theorem MigrationOutcomes.Succeeds.not_leavesOpen {o : MigrationOutcomes} {n : Nat}
    (h : o.Succeeds n) : ¬ o.LeavesOpen n := by
  rintro ⟨-, ⟨-, hcommit⟩ | ⟨⟨i, hfirst⟩, -⟩⟩
  · exact Outcome.noConfusion (h.2.2.symm.trans hcommit)
  · exact hfirst.not_allDone h.2.1

/-- What a migration leaves behind that does not succeed. -/
structure LeftBy (o : MigrationOutcomes) (sql : Script) (s : Store) (conn : Conn Store) : Prop where
  committed : conn.committed = s
  isOpen : conn.marks ≠ [] ↔ o.LeavesOpen sql.length
  /-- What the connection reads is what a part of the script makes. -/
  partly : ∃ i, Conn.changed ((sql.map Statement.exec).take i) s = some conn.content

theorem leftBy_idle {o : MigrationOutcomes} {sql : Script} {s : Store}
    (h : ¬ o.LeavesOpen sql.length) : LeftBy o sql s (.idle s) :=
  ⟨rfl, ⟨fun hopen => absurd rfl hopen, fun hopen => absurd hopen h⟩, 0, rfl⟩

section

variable {o : MigrationOutcomes} {sql : Script} {s s' : Store}

/-- The end of a migration whose statements have been carried out. -/
theorem leftBy_commit (h : Conn.changed (sql.map Statement.exec) s = some s')
    (hbegin : o.begin = .done) (hall : Conn.AllDone o.statement sql.length) {rolledBack : Bool}
    (hcommit : o.commit = .failed rolledBack) :
    LeftBy o sql s
      (if rolledBack then .idle s else (Conn.idle s).opened ⟨none, s⟩ [] s') := by
  cases rolledBack with
  | true =>
      refine leftBy_idle ?_
      rintro ⟨-, ⟨-, hc⟩ | ⟨⟨i, hfirst⟩, -⟩⟩
      · rw [hcommit] at hc
        cases hc
      · exact hfirst.not_allDone hall
  | false =>
      refine ⟨rfl, ⟨fun _ => ⟨hbegin, Or.inl ⟨hall, hcommit⟩⟩, fun _ => List.cons_ne_nil _ _⟩,
        sql.length, ?_⟩
      rw [List.take_of_length_le (by rw [List.length_map])]
      exact h

/-- The end of a migration in which a statement has failed. -/
theorem leftBy_rollback (hbegin : o.begin = .done) {i : Nat} {rolledBack : Bool} {t : Store}
    (hfirst : Conn.FirstFails o.statement sql.length i rolledBack)
    (ht : Conn.changed ((sql.map Statement.exec).take i) s = some t) :
    LeftBy o sql s
      ((if rolledBack then .idle s else (Conn.idle s).opened ⟨none, s⟩ [] t).attempt
        o.rollback Conn.rollback).1 := by
  cases rolledBack with
  | true =>
      rw [if_pos rfl, Conn.attempt_rollback_idle]
      refine leftBy_idle ?_
      rintro ⟨-, ⟨hall, -⟩ | ⟨⟨j, hj⟩, -⟩⟩
      · exact hfirst.not_allDone hall
      · exact absurd (hfirst.unique hj).2 Bool.noConfusion
  | false =>
      rw [if_neg Bool.false_ne_true]
      have hclosed : o.rollback ≠ .failed false → ¬ o.LeavesOpen sql.length := by
        rintro hne ⟨-, ⟨hall, -⟩ | ⟨-, hrollback⟩⟩
        · exact hfirst.not_allDone hall
        · exact hne hrollback
      cases hrollback : o.rollback with
      | done =>
          rw [Conn.attempt_done (Conn.rollback_opened _ _ _ _)]
          exact leftBy_idle (hclosed (by rw [hrollback]; exact nofun))
      | failed rolledBack =>
          rw [Conn.attempt_failed]
          cases rolledBack with
          | true => exact leftBy_idle (hclosed (by rw [hrollback]; exact nofun))
          | false =>
              exact ⟨rfl, ⟨fun _ => ⟨hbegin, Or.inr ⟨⟨i, hfirst⟩, hrollback⟩⟩,
                fun _ => List.cons_ne_nil _ _⟩, i, ht⟩

/-- **A migration** is applied, or what is committed stays as it was. -/
theorem applyMigration_cases (h : Conn.changed (sql.map Statement.exec) s = some s') :
    (o.Succeeds sql.length ∧ applyMigration o sql (.idle s) = (.idle s', true))
      ∨ ¬ o.Succeeds sql.length ∧ ∃ conn, applyMigration o sql (.idle s) = (conn, false)
        ∧ LeftBy o sql s conn := by
  unfold applyMigration
  cases hbegin : o.begin with
  | failed rolledBack =>
      rw [Conn.attempt_idle_failed]
      refine Or.inr ⟨fun hs => ?_, _, rfl, leftBy_idle fun hopen => ?_⟩
      · exact Outcome.noConfusion (hbegin.symm.trans hs.1)
      · exact Outcome.noConfusion (hbegin.symm.trans hopen.1)
  | done =>
      rw [Conn.attempt_done (Conn.begin_idle s)]
      dsimp only
      have hlength : (sql.map Statement.exec).length = sql.length := List.length_map _
      rcases Conn.executeBatch_cases o.statement (.idle s) ⟨none, s⟩ [] h with
        ⟨hall, heq⟩ | ⟨i, rolledBack, hfirst, t, ht, heq⟩
      · rw [hlength] at hall
        rw [heq]
        dsimp only
        cases hcommit : o.commit with
        | done =>
            exact Or.inl ⟨⟨hbegin, hall, hcommit⟩, Conn.attempt_done (Conn.commit_opened _ _ _ _)⟩
        | failed rolledBack =>
            refine Or.inr ⟨fun hs => ?_, _, rfl, leftBy_commit h hbegin hall hcommit⟩
            exact Outcome.noConfusion (hcommit.symm.trans hs.2.2)
      · rw [hlength] at hfirst
        rw [heq]
        exact Or.inr ⟨fun hs => hfirst.not_allDone hs.2.1, _, rfl, leftBy_rollback hbegin hfirst ht⟩

end

/-! ## The whole run -/

/-- A database with the schema of the version it records; a later one has all of the ladder. -/
structure Versioned where
  store : Store
  inStep : HasSchema store (min store.recorded.toNat LATEST_VERSION)

/-- The transaction that one of these migrations leaves open. -/
def LeavesOpen (o : Nat → MigrationOutcomes) (current : Int) : List (Nat × Script) → Prop
  | [] => False
  | (version, sql) :: rest =>
    if current < version then
      (o version).LeavesOpen sql.length ∨ (o version).Succeeds sql.length ∧ LeavesOpen o current rest
    else LeavesOpen o current rest

/-- The database after the first so many migrations have been passed. -/
structure Reached (start : Versioned) (m : Nat) (s : Store) : Prop where
  schema : HasSchema s (max (min start.store.recorded.toNat LATEST_VERSION) m)
  recorded : s.recorded.toNat = max start.store.recorded.toNat m

theorem reached_zero (start : Versioned) : Reached start 0 start.store :=
  ⟨by rw [Nat.max_zero]; exact start.inStep, (Nat.max_zero _).symm⟩

/-- The version that is read. -/
def currentVersion (start : Versioned) (o : RunOutcomes) : Int :=
  if o.query = .done then start.store.recorded else 0

theorem currentVersion_le (start : Versioned) (o : RunOutcomes) :
    (currentVersion start o).toNat ≤ start.store.recorded.toNat := by
  unfold currentVersion
  split
  · exact Nat.le_refl _
  · exact Nat.zero_le _

theorem runMigrations_eq (start : Versioned) (o : RunOutcomes) : runMigrations o (.idle start.store)
    = applyPending o.migration (currentVersion start o) ladder (.idle start.store) := by
  unfold runMigrations getCurrentVersion currentVersion
  cases o.query with
  | done => rfl
  | failed rolledBack =>
      rw [Conn.attempt_idle_failed]
      rfl

/-- The next migration of the ladder. -/
theorem ladder_next {m version : Nat} {sql : Script} {rest : List (Nat × Script)}
    (h : (version, sql) :: rest = ladder.drop m) :
    m < LATEST_VERSION ∧ version = m + 1 ∧ rest = ladder.drop (m + 1) ∧ (version, sql) ∈ ladder := by
  have hget : ladder[m]? = some (version, sql) := by
    rw [← List.head?_drop, ← h]
    rfl
  have hlt : m < LATEST_VERSION := (List.getElem?_eq_some_iff.mp hget).1
  have hversions : ∀ m < LATEST_VERSION, (ladder[m]?).map Prod.fst = some (m + 1) := by decide
  refine ⟨hlt, ?_, ?_, List.mem_of_getElem? hget⟩
  · have := hversions m hlt
    rw [hget] at this
    exact Option.some.inj this
  · rw [← List.drop_drop, ← h]
    rfl

theorem Reached.skip {start : Versioned} {m : Nat} {s : Store} (h : Reached start m s)
    (hm : m < LATEST_VERSION) (hle : m + 1 ≤ start.store.recorded.toNat) :
    Reached start (m + 1) s := by
  have hboth : m + 1 ≤ min start.store.recorded.toNat LATEST_VERSION := Nat.le_min.mpr ⟨hle, hm⟩
  refine ⟨?_, ?_⟩
  · have := h.schema
    rw [Nat.max_eq_left (Nat.le_of_succ_le hboth)] at this
    rwa [Nat.max_eq_left hboth]
  · rw [h.recorded, Nat.max_eq_left hle, Nat.max_eq_left (Nat.le_of_succ_le hle)]

/-- The next script leads on. -/
theorem Reached.climb {start : Versioned} {m : Nat} {s : Store} (h : Reached start m s)
    (hm : m < LATEST_VERSION) {sql : Script} (hclimbs : Climbs (m + 1) sql) :
    ∃ s', Conn.changed (sql.map Statement.exec) s = some s' ∧ Reached start (m + 1) s' := by
  obtain ⟨t, ht, hagrees⟩ := h.schema
  obtain ⟨hreads, hhighest, hstages⟩ := hclimbs
  obtain ⟨t', ht', u, hu, hagrees'⟩ := hstages (max (min start.store.recorded.toNat LATEST_VERSION) m)
    (Nat.max_le.mpr ⟨Nat.min_le_right _ _, Nat.le_of_lt hm⟩)
    (Nat.succ_le_succ (Nat.le_max_right _ _)) t ht
  obtain ⟨s', hs', hsame⟩ := changed_agrees hreads hagrees ht'
  refine ⟨s', hs', ⟨u, ?_, fun name hname => (hsame name hname).trans (hagrees' name hname)⟩, ?_⟩
  · rwa [Nat.max_assoc, Nat.max_eq_right (Nat.le_succ m)] at hu
  · rw [recorded_changed hs', h.recorded, hhighest, Nat.max_assoc, Nat.max_eq_right (Nat.le_succ m)]

/-- What a run that has failed leaves behind. -/
structure Failed (start : Versioned) (o : Nat → MigrationOutcomes) (current : Int)
    (rest : List (Nat × Script)) (conn : Conn Store) : Prop where
  reached : ∃ k < LATEST_VERSION, Reached start k conn.committed
  isOpen : conn.marks ≠ [] ↔ LeavesOpen o current rest
  fails : ∃ p ∈ ladder, ¬ (o p.1).Succeeds p.2.length
  content : start.store.recorded.toNat ≤ conn.content.recorded.toNat

section

variable {o : Nat → MigrationOutcomes} {current : Int} {version : Nat} {sql : Script}
  {rest : List (Nat × Script)}

theorem leavesOpen_succeeded (hpending : current < version)
    (hsucceeds : (o version).Succeeds sql.length) :
    LeavesOpen o current ((version, sql) :: rest) ↔ LeavesOpen o current rest := by
  rw [LeavesOpen, if_pos hpending]
  constructor
  · rintro (hopen | ⟨-, hopen⟩)
    · exact absurd hopen hsucceeds.not_leavesOpen
    · exact hopen
  · intro hopen
    exact Or.inr ⟨hsucceeds, hopen⟩

theorem leavesOpen_failed (hpending : current < version)
    (hfails : ¬ (o version).Succeeds sql.length) :
    LeavesOpen o current ((version, sql) :: rest) ↔ (o version).LeavesOpen sql.length := by
  rw [LeavesOpen, if_pos hpending]
  constructor
  · rintro (hopen | ⟨hsucceeds, -⟩)
    · exact hopen
    · exact absurd hsucceeds hfails
  · exact Or.inl

end

theorem Failed.congr {start : Versioned} {o : Nat → MigrationOutcomes} {current : Int}
    {rest rest' : List (Nat × Script)} {conn : Conn Store} (h : Failed start o current rest conn)
    (hopen : LeavesOpen o current rest' ↔ LeavesOpen o current rest) :
    Failed start o current rest' conn :=
  ⟨h.reached, h.isOpen.trans hopen.symm, h.fails, h.content⟩

/-- **A run** passes all migrations, or fails at one of them. -/
theorem applyPending_cases {start : Versioned} {o : Nat → MigrationOutcomes} {current : Int}
    (hcurrent : current.toNat ≤ start.store.recorded.toNat) {rest : List (Nat × Script)} :
    ∀ {m : Nat} {s : Store}, m ≤ LATEST_VERSION → rest = ladder.drop m → Reached start m s →
      (∃ s', applyPending o current rest (.idle s) = (.idle s', true)
          ∧ Reached start LATEST_VERSION s' ∧ ¬ LeavesOpen o current rest)
        ∨ ∃ conn, applyPending o current rest (.idle s) = (conn, false)
          ∧ Failed start o current rest conn := by
  induction rest with
  | nil =>
      intro m s hle hrest h
      obtain rfl : m = LATEST_VERSION := by
        have := List.drop_eq_nil_iff.mp hrest.symm
        exact Nat.le_antisymm hle this
      exact Or.inl ⟨s, rfl, h, id⟩
  | cons p rest ih =>
      intro m s hle hrest h
      obtain ⟨version, sql⟩ := p
      obtain ⟨hm, rfl, hdrop, hmem⟩ := ladder_next hrest
      rw [applyPending]
      by_cases hpending : current < (m + 1 : Nat)
      · obtain ⟨s', hs', hreached⟩ := h.climb hm (ladder_climbs _ hmem)
        rw [if_pos hpending]
        -- it commits and the rest follows, or it is the one that fails
        rcases applyMigration_cases (o := o (m + 1)) hs' with ⟨hsucceeds, heq⟩ | ⟨hfails, conn, heq, hleft⟩
        · have hopen := @leavesOpen_succeeded _ _ _ _ rest hpending hsucceeds
          rw [heq, hopen]
          rcases ih hm hdrop hreached with hall | ⟨conn, hrun, hfailed⟩
          · exact Or.inl hall
          · exact Or.inr ⟨conn, hrun, hfailed.congr hopen⟩
        · rw [heq]
          refine Or.inr ⟨conn, rfl, ⟨m, hm, hleft.committed.symm ▸ h⟩,
            hleft.isOpen.trans (leavesOpen_failed hpending hfails).symm, ⟨_, hmem, hfails⟩, ?_⟩
          obtain ⟨i, hi⟩ := hleft.partly
          rw [← List.map_take] at hi
          rw [recorded_changed hi, h.recorded]
          omega
      · have hskip : m + 1 ≤ start.store.recorded.toNat := by omega
        have hopen : LeavesOpen o current ((m + 1, sql) :: rest) ↔ LeavesOpen o current rest := by
          rw [LeavesOpen, if_neg hpending]
        rw [if_neg hpending, hopen]
        rcases ih hm hdrop (h.skip hm hskip) with hall | ⟨conn, hrun, hfailed⟩
        · exact Or.inl hall
        · exact Or.inr ⟨conn, hrun, hfailed.congr hopen⟩

/-- Nothing is begun while a transaction is open. -/
theorem applyPending_open {conn : Conn Store} (h : conn.marks ≠ []) (current : Int)
    (rest : List (Nat × Script)) :
    ∃ ok, applyPending RunOutcomes.allDone.migration current rest conn = (conn, ok) := by
  induction rest with
  | nil => exact ⟨true, rfl⟩
  | cons p rest ih =>
      obtain ⟨version, sql⟩ := p
      rw [applyPending]
      by_cases hpending : current < version
      · have hbegin : Conn.begin conn = none := by
          unfold Conn.begin
          cases hmarks : conn.marks with
          | nil => exact absurd hmarks h
          | cons mark marks => rfl
        have hfails : applyMigration (RunOutcomes.allDone.migration version) sql conn
            = (conn, false) := by
          unfold applyMigration
          rw [show (RunOutcomes.allDone.migration version).begin = .done from rfl, Conn.attempt,
            hbegin]
        rw [if_pos hpending, hfails]
        exact ⟨false, rfl⟩
      · rw [if_neg hpending]
        exact ih

/-- There is nothing to apply to a database that is at the latest version, or above it. -/
theorem applyPending_latest (o : Nat → MigrationOutcomes) {current : Int}
    (h : (LATEST_VERSION : Int) ≤ current) (conn : Conn Store) :
    applyPending o current ladder conn = (conn, true) := by
  have hversions : ∀ p ∈ ladder, p.1 ≤ LATEST_VERSION := by decide
  generalize ladder = rest at hversions
  induction rest with
  | nil => rfl
  | cons p rest ih =>
      obtain ⟨version, sql⟩ := p
      have hle := hversions _ List.mem_cons_self
      rw [applyPending, if_neg (by dsimp only at hle; omega)]
      exact ih fun p hp => hversions p (List.mem_cons_of_mem _ hp)

/-- **The runner ends at the latest version or at a clean prefix**: it returns `Ok` at the latest
version only, and else at a version of the ladder from which it can be run again. -/
structure Sound (start : Versioned) (o : RunOutcomes) : Prop where
  ok : (runMigrations o (.idle start.store)).2 = true →
    AtVersion (runMigrations o (.idle start.store)).1.committed LATEST_VERSION
  clean : (runMigrations o (.idle start.store)).2 = false →
    ∃ k ≤ LATEST_VERSION, AtVersion (runMigrations o (.idle start.store)).1.committed k
  rerun : (runMigrations o (.idle start.store)).2 = false →
    (runMigrations .allDone (runMigrations o (.idle start.store)).1).2 = true
      ∧ AtVersion (runMigrations .allDone (runMigrations o (.idle start.store)).1).1.committed
        LATEST_VERSION

/-- A run that nothing keeps from it ends at the latest version. -/
theorem runMigrations_allDone {start : Versioned} (h : start.store.recorded ≤ LATEST_VERSION) :
    ∃ s, runMigrations .allDone (.idle start.store) = (.idle s, true) ∧ AtVersion s LATEST_VERSION := by
  have hmin : min start.store.recorded.toNat LATEST_VERSION ≤ LATEST_VERSION := Nat.min_le_right _ _
  rw [runMigrations_eq]
  rcases applyPending_cases (o := RunOutcomes.allDone.migration)
    (currentVersion_le start .allDone) (Nat.zero_le _) List.drop_zero.symm (reached_zero start) with
    ⟨s, heq, hreached, -⟩ | ⟨conn, heq, hfailed⟩
  · refine ⟨s, heq, ?_, ?_⟩
    · have := hreached.schema
      rwa [Nat.max_eq_right hmin] at this
    · rw [hreached.recorded]
      omega
  · obtain ⟨p, -, hnot⟩ := hfailed.fails
    exact absurd ⟨rfl, fun _ _ => rfl, rfl⟩ hnot

/-- What has been reached from a version of the ladder is one. -/
theorem Reached.atVersion {start : Versioned} {k : Nat} {s : Store} (h : Reached start k s)
    (hstart : start.store.recorded ≤ LATEST_VERSION) :
    AtVersion s (max start.store.recorded.toNat k) := by
  have hmin : min start.store.recorded.toNat LATEST_VERSION = start.store.recorded.toNat :=
    Nat.min_eq_left (Int.toNat_le.mpr hstart)
  have := h.schema
  rw [hmin] at this
  exact ⟨this, h.recorded⟩

theorem Failed.rerun_open {start : Versioned} {o : Nat → MigrationOutcomes} {current : Int}
    {conn : Conn Store} (h : Failed start o current ladder conn)
    (hopen : LeavesOpen o current ladder) :
    (runMigrations .allDone conn).1 = conn
      ∧ ((LATEST_VERSION : Int) ≤ start.store.recorded → (runMigrations .allDone conn).2 = true) := by
  have hrun : runMigrations .allDone conn = applyPending RunOutcomes.allDone.migration
      conn.content.recorded ladder conn := rfl
  obtain ⟨ok, heq⟩ := applyPending_open (h.isOpen.mpr hopen) conn.content.recorded ladder
  rw [hrun]
  refine ⟨by rw [heq], fun hlatest => ?_⟩
  have hcontent := h.content
  have hpositive : 0 < LATEST_VERSION := by decide
  rw [applyPending_latest _ (by omega)]

/-- A database at a version of the ladder can be taken to the latest. -/
theorem AtVersion.rerun {s : Store} {k : Nat} (h : AtVersion s k) (hk : k ≤ LATEST_VERSION) :
    (runMigrations .allDone (.idle s)).2 = true
      ∧ AtVersion (runMigrations .allDone (.idle s)).1.committed LATEST_VERSION := by
  have hinStep : HasSchema s (min s.recorded.toNat LATEST_VERSION) := by
    rw [h.recorded, Nat.min_eq_left hk]
    exact h.schema
  have hrecorded : s.recorded ≤ LATEST_VERSION := by
    have := h.recorded
    omega
  obtain ⟨s', hs', hat⟩ := @runMigrations_allDone ⟨s, hinStep⟩ hrecorded
  dsimp only at hs'
  rw [hs']
  exact ⟨rfl, hat⟩

/-- A run that has passed is sound, unless it began above the latest version. -/
theorem sound_iff_of_passed {start : Versioned} {o : RunOutcomes} {s : Store}
    (heq : runMigrations o (.idle start.store) = (.idle s, true))
    (hreached : Reached start LATEST_VERSION s) :
    Sound start o ↔ start.store.recorded ≤ LATEST_VERSION := by
  constructor
  · intro h
    have hok := (h.ok (by rw [heq])).recorded
    rw [heq, Conn.idle_committed, hreached.recorded] at hok
    omega
  · intro hstart
    have hversion := hreached.atVersion hstart
    rw [Nat.max_eq_right (Int.toNat_le.mpr hstart)] at hversion
    refine ⟨fun _ => by rw [heq]; exact hversion, fun h => ?_, fun h => ?_⟩
    all_goals exact Bool.noConfusion ((congrArg Prod.snd heq).symm.trans h)

/-- A run that has failed is sound, unless it began above the latest version or, below it, has
left its transaction open. -/
theorem sound_iff_of_failed {start : Versioned} {o : RunOutcomes} {conn : Conn Store}
    (heq : runMigrations o (.idle start.store) = (conn, false))
    (hfailed : Failed start o.migration (currentVersion start o) ladder conn) :
    Sound start o ↔ start.store.recorded ≤ LATEST_VERSION ∧ (start.store.recorded = LATEST_VERSION
      ∨ ¬ LeavesOpen o.migration (currentVersion start o) ladder) := by
  obtain ⟨k, hk, hreached⟩ := hfailed.reached
  constructor
  · intro h
    obtain ⟨k', hk', hat⟩ := h.clean (by rw [heq])
    have hrecorded := hat.recorded
    rw [heq, hreached.recorded] at hrecorded
    have hstart : start.store.recorded ≤ LATEST_VERSION := by omega
    refine ⟨hstart, ?_⟩
    by_cases hlatest : start.store.recorded = LATEST_VERSION
    · exact Or.inl hlatest
    · -- on the open transaction, the rerun does nothing
      refine Or.inr fun hopen => hlatest ?_
      have hrerun := (h.rerun (by rw [heq])).2.recorded
      rw [heq, (hfailed.rerun_open hopen).1, hreached.recorded] at hrerun
      omega
  · rintro ⟨hstart, hclosed⟩
    have hversion := hreached.atVersion hstart
    have hle : max start.store.recorded.toNat k ≤ LATEST_VERSION := by omega
    refine ⟨fun h => ?_, fun _ => ⟨_, hle, by rw [heq]; exact hversion⟩, fun _ => ?_⟩
    · exact Bool.noConfusion ((congrArg Prod.snd heq).symm.trans h)
    rw [heq]
    by_cases hopen : LeavesOpen o.migration (currentVersion start o) ladder
    · have hlatest := hclosed.resolve_right (not_not_intro hopen)
      obtain ⟨hsame, hok⟩ := hfailed.rerun_open hopen
      rw [hsame]
      rw [show max start.store.recorded.toNat k = LATEST_VERSION by omega] at hversion
      exact ⟨hok (by omega), hversion⟩
    · have hidle : conn = .idle conn.committed := by
        refine Conn.eq_idle ?_
        by_contra hmarks
        exact hopen (hfailed.isOpen.mp hmarks)
      rw [hidle]
      exact hversion.rerun hle

/-- **Migrations end at the latest version or at a clean prefix** exactly if the database does not
record a later version, and none of its migrations leaves a transaction open. -/
theorem sound_iff (start : Versioned) (o : RunOutcomes) : Sound start o ↔
    start.store.recorded ≤ LATEST_VERSION ∧ (start.store.recorded = LATEST_VERSION
      ∨ ¬ LeavesOpen o.migration (currentVersion start o) ladder) := by
  have hcases := applyPending_cases (o := o.migration) (currentVersion_le start o) (Nat.zero_le _)
    List.drop_zero.symm (reached_zero start)
  rw [← runMigrations_eq] at hcases
  rcases hcases with ⟨s, heq, hreached, hclosed⟩ | ⟨conn, heq, hfailed⟩
  · rw [sound_iff_of_passed heq hreached]
    constructor
    · intro hstart
      exact ⟨hstart, Or.inr hclosed⟩
    · intro h
      exact h.1
  · exact sound_iff_of_failed heq hfailed

/-- A database that a later release has taken to its own version. -/
def laterRelease : Versioned :=
  ⟨⟨(stage 6).objects.insert "app_audit_log" (.table ["id", "entry"]), {1, 2, 3, 4, 5, 6, 7}⟩, by
    unfold HasSchema
    decide +kernel⟩

theorem recorded_laterRelease : laterRelease.store.recorded = 7 := by decide +kernel

/-- **A later version is taken for the latest.** -/
theorem laterRelease_accepted : (runMigrations .allDone (.idle laterRelease.store)).2 = true
    ∧ ¬ Sound laterRelease .allDone := by
  have hrun : runMigrations .allDone (.idle laterRelease.store) = (.idle laterRelease.store, true) := by
    rw [runMigrations_eq]
    refine applyPending_latest _ ?_ _
    rw [show currentVersion laterRelease .allDone = laterRelease.store.recorded from rfl,
      recorded_laterRelease]
    decide
  refine ⟨by rw [hrun], fun h => ?_⟩
  have hat := (h.ok (by rw [hrun])).recorded
  rw [hrun, Conn.idle_committed, recorded_laterRelease] at hat
  exact absurd hat (by decide)

end SynchrotronCD.Db.Migrations
