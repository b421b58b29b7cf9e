import Mathlib.Data.List.DropRight
import SynchrotronCD.Db.SyncRevisions
import SynchrotronCD.Lib.Sorting
import SynchrotronCD.Lib.Transactions

/-!
# The revision log

`record_sync_revision` appends a revision and trims those of its application, between a
savepoint and its release; a call that fails goes back to the savepoint.
`list_sync_revisions` lists the revisions of an application, newest first.

After a call its application keeps its newest revisions, as many as the limit says, or ten if
the limit is 0; the others keep theirs (`retained`).
-/

namespace SynchrotronCD.Db

open Lib
open List (Forall₂)

/-- The database, with the highest `id` ever given to a revision (`AUTOINCREMENT`). -/
structure RevisionStore where
  db : Database
  seq : Nat
  ordered : db.syncRevisions.Pairwise fun q r => q.id < r.id
  given : ∀ r ∈ db.syncRevisions, 1 ≤ r.id ∧ r.id ≤ seq
  hashed : ∀ r ∈ db.syncRevisions, r.paramsHash.length = 32
  bounded : seq < 2 ^ 63

namespace RevisionStore

/-- The revisions of an application, by ascending `id`. -/
def revisions (s : RevisionStore) (appId : String) : List SyncRevision :=
  s.db.syncRevisions.filter fun r => r.appId = appId

end RevisionStore

/-! ## Statements -/

theorem insertSyncRevision_ok {db db' : Database} {rev : SyncRevision}
    (h : db.insertSyncRevision rev = .ok db') :
    db' = { db with syncRevisions := db.syncRevisions ++ [rev] } := by
  unfold Database.insertSyncRevision at h
  split at h
  · cases h
  · exact (Except.ok.inj h).symm

/-- `INSERT`, under the next `id`, which fails if there is none left. -/
def RevisionStore.insertRevision (appId commitHash : String) (paramsHash : Vector UInt8 32)
    (manifestsJson : String) (now : Timestamp) (s : RevisionStore) : Option RevisionStore :=
  if hfull : s.seq + 1 < 2 ^ 63 then
    match hdb : s.db.insertSyncRevision
        ⟨s.seq + 1, appId, commitHash, paramsHash.toList, manifestsJson, now⟩ with
    | .error _ => none
    | .ok db => some
      { db
        seq := s.seq + 1
        ordered := by
          rw [insertSyncRevision_ok hdb, List.pairwise_append]
          refine ⟨s.ordered, List.pairwise_singleton _ _, fun q hq r hr => ?_⟩
          rw [List.mem_singleton.mp hr]
          exact Nat.lt_succ_of_le (s.given q hq).2
        given := by
          rw [insertSyncRevision_ok hdb]
          intro r hr
          rcases List.mem_append.mp hr with hr | hr
          · exact ⟨(s.given r hr).1, Nat.le_succ_of_le (s.given r hr).2⟩
          · rw [List.mem_singleton.mp hr]
            exact ⟨Nat.le_add_left 1 s.seq, Nat.le_refl _⟩
        hashed := by
          rw [insertSyncRevision_ok hdb]
          intro r hr
          rcases List.mem_append.mp hr with hr | hr
          · exact s.hashed r hr
          · rw [List.mem_singleton.mp hr]
            exact Vector.length_toList
        bounded := hfull }
  else none

/-- `LIMIT ?` with the limit as a signed number: a negative one is none. -/
def sqlLimit (limit : UInt64) : Option Nat :=
  if limit.toNat < 2 ^ 63 then some limit.toNat else none

/-- `DELETE` all but the newest of an application. -/
def RevisionStore.trimRevisions (appId : String) (limit : Option Nat) (s : RevisionStore) :
    RevisionStore :=
  match limit with
  | none => s
  | some n =>
    { db := s.db.trimSyncRevisions appId n
      seq := s.seq
      ordered := s.ordered.sublist List.filter_sublist
      given := fun r hr => s.given r (List.mem_of_mem_filter hr)
      hashed := fun r hr => s.hashed r (List.mem_of_mem_filter hr)
      bounded := s.bounded }

/-! ## Recording and listing -/

/-- What becomes of the statements; those that are not reached have no part in it. -/
structure RecordOutcomes where
  savepoint : Outcome
  insert : Outcome
  delete : Outcome
  release : Outcome
  rollbackTo : Outcome
  /-- The release after the rollback. -/
  releaseAfter : Outcome

/-- Neither a release nor the rollback fails without the transaction being rolled back. -/
structure RecordOutcomes.Closes (o : RecordOutcomes) : Prop where
  release : o.release ≠ .failed false
  rollbackTo : o.rollbackTo ≠ .failed false
  releaseAfter : o.releaseAfter ≠ .failed false

structure RecordCall where
  appId : String
  commitHash : String
  paramsHash : Vector UInt8 32
  manifests : List Manifest
  retention : UInt64
  now : Timestamp
  outcomes : RecordOutcomes

/-- What has failed. -/
inductive RecordError where
  | serialize
  | savepoint
  | insert
  | delete
  | release
deriving DecidableEq, Repr

def savepointName : String := "record_sync_revision"

/-- The limit that a call stands for. -/
def RecordCall.limit (call : RecordCall) : UInt64 :=
  if call.retention = 0 then .ofNat defaultRetention else call.retention

/-- What is done under the savepoint. -/
def insertAndTrim (call : RecordCall) (manifestsJson : String) (conn : Conn RevisionStore) :
    Conn RevisionStore × Except RecordError Nat :=
  match conn.attempt call.outcomes.insert (Conn.execute
      (RevisionStore.insertRevision call.appId call.commitHash call.paramsHash manifestsJson
        call.now)) with
  | (conn, false) => (conn, .error .insert)
  | (conn, true) =>
    -- `last_insert_rowid`
    let newId := conn.content.seq
    match conn.attempt call.outcomes.delete (Conn.execute fun s =>
        some (s.trimRevisions call.appId (sqlLimit call.limit))) with
    | (conn, false) => (conn, .error .delete)
    | (conn, true) => (conn, .ok newId)

/-- Append a successful sync to the revision log and trim it. -/
def recordSyncRevision [FloatText] (call : RecordCall) (conn : Conn RevisionStore) :
    Conn RevisionStore × Except RecordError Nat :=
  match manifestsToString call.manifests with
  | none => (conn, .error .serialize)
  | some json =>
    match conn.attempt call.outcomes.savepoint (Conn.savepoint savepointName) with
    | (conn, false) => (conn, .error .savepoint)
    | (conn, true) =>
      match insertAndTrim call json conn with
      | (conn, .ok id) =>
        match conn.attempt call.outcomes.release (Conn.release savepointName) with
        | (conn, true) => (conn, .ok id)
        -- without a rollback
        | (conn, false) => (conn, .error .release)
      | (conn, .error e) =>
        -- what becomes of these two is ignored
        let conn := (conn.attempt call.outcomes.rollbackTo (Conn.rollbackTo savepointName)).1
        let conn := (conn.attempt call.outcomes.releaseAfter (Conn.release savepointName)).1
        (conn, .error e)

/-- A revision as it is listed, without its manifests. -/
structure ListedRevision where
  id : Nat
  appId : String
  commitHash : String
  paramsHash : Vector UInt8 32
  recordedAt : Timestamp

/-- Nothing is listed of a row whose hash is not one. -/
def ListedRevision.ofRow (r : SyncRevision) : Option ListedRevision :=
  if h : r.paramsHash.length = 32 then
    some ⟨r.id, r.appId, r.commitHash, ⟨⟨r.paramsHash⟩, h⟩, r.recordedAt⟩
  else none

/-- Compare by descending `id`. -/
def compareNewest (q r : SyncRevision) : Ordering := compare r.id q.id

/-- `LIMIT`. -/
def limited {α : Type} (limit : Option Nat) (rows : List α) : List α :=
  match limit with
  | none => rows
  | some n => rows.take n

/-- List the revisions of an application, most recent first; `0` means no limit. -/
def listSyncRevisions (db : Database) (appId : String) (limit : UInt64) :
    Except DbError (List ListedRevision) :=
  let bound := if limit = 0 then some (2 ^ 63 - 1) else sqlLimit limit
  let rows := limited bound
    ((db.syncRevisions.filter fun r => r.appId = appId).insertionSort (LeBy compareNewest))
  match rows.mapM ListedRevision.ofRow with
  | some out => .ok out
  | none => .error (.sqlite "params_hash column is not 32 bytes — schema drift?")

/-! ## What the statements do to the log -/

namespace RevisionStore

theorem revisions_ordered (s : RevisionStore) (appId : String) :
    (s.revisions appId).Pairwise fun q r => q.id < r.id := s.ordered.sublist List.filter_sublist

/-- The rows have different ids, of which there are not more than have been given. -/
theorem length_revisions (s : RevisionStore) (appId : String) :
    (s.revisions appId).length ≤ s.seq := by
  have hdistinct : ((s.revisions appId).map SyncRevision.id).Nodup :=
    List.pairwise_map.mpr ((s.revisions_ordered appId).imp Nat.ne_of_lt)
  have hgiven : (s.revisions appId).map SyncRevision.id ⊆ List.range' 1 s.seq := by
    intro id hid
    obtain ⟨r, hr, rfl⟩ := List.mem_map.mp hid
    have := s.given r (List.mem_of_mem_filter hr)
    exact List.mem_range'_1.mpr ⟨this.1, by omega⟩
  have hle := (List.subperm_of_subset hdistinct hgiven).length_le
  rwa [List.length_map, List.length_range'] at hle

theorem insertRevision_eq_some {appId commitHash : String} {paramsHash : Vector UInt8 32}
    {manifestsJson : String} {now : Timestamp} {s s' : RevisionStore}
    (h : s.insertRevision appId commitHash paramsHash manifestsJson now = some s') :
    s'.seq = s.seq + 1 ∧ s'.db.syncRevisions = s.db.syncRevisions
      ++ [⟨s.seq + 1, appId, commitHash, paramsHash.toList, manifestsJson, now⟩] := by
  unfold insertRevision at h
  split at h
  · split at h
    · cases h
    · rename_i db hdb
      obtain rfl := Option.some.inj h
      exact ⟨rfl, congrArg Database.syncRevisions (insertSyncRevision_ok hdb)⟩
  · cases h

theorem insertRevision_db (appId commitHash : String) (paramsHash : Vector UInt8 32)
    (manifestsJson : String) (now : Timestamp) {s : RevisionStore} (hids : s.seq + 1 < 2 ^ 63) :
    (s.insertRevision appId commitHash paramsHash manifestsJson now).map RevisionStore.db
      = (s.db.insertSyncRevision
        ⟨s.seq + 1, appId, commitHash, paramsHash.toList, manifestsJson, now⟩).toOption := by
  unfold insertRevision
  rw [dif_pos hids]
  split
  · rename_i v hdb
    exact (congrArg Except.toOption hdb).symm
  · rename_i db hdb
    exact (congrArg Except.toOption hdb).symm

theorem revisions_trim_ne (s : RevisionStore) {appId b : String} (limit : Option Nat)
    (hb : b ≠ appId) : (s.trimRevisions appId limit).revisions b = s.revisions b := by
  cases limit with
  | none => rfl
  | some n =>
      unfold trimRevisions revisions Database.trimSyncRevisions
      dsimp only
      rw [List.filter_filter]
      refine List.filter_congr fun r _ => ?_
      by_cases hr : r.appId = b
      · simp [hr, hb]
      · simp [hr]

theorem trimRevisions_db (s : RevisionStore) (appId : String) {limit : UInt64}
    (h : limit.toNat < 2 ^ 63) :
    (s.trimRevisions appId (sqlLimit limit)).db = s.db.trimSyncRevisions appId limit.toNat := by
  rw [sqlLimit, if_pos h]
  rfl

/-- **The newest are kept.** A limit too great for a signed number is greater than any log. -/
theorem revisions_trim (s : RevisionStore) (appId : String) (limit : UInt64) :
    (s.trimRevisions appId (sqlLimit limit)).revisions appId
      = (s.revisions appId).rtake limit.toNat := by
  unfold sqlLimit List.rtake
  split
  · have : Std.Asymm fun q r : SyncRevision => q.id < r.id := ⟨fun _ _ => Nat.lt_asymm⟩
    rw [← filter_above (s.revisions_ordered appId)]
    unfold trimRevisions revisions Database.trimSyncRevisions
    dsimp only
    rw [List.filter_filter, List.filter_filter]
    refine List.filter_congr fun r _ => ?_
    rw [List.filter_filter]
    by_cases hr : r.appId = appId
    · simp [hr, Bool.and_comm]
    · simp [hr]
  · have hlength := s.length_revisions appId
    have hbounded := s.bounded
    rw [Nat.sub_eq_zero_of_le (by omega), List.drop_zero]
    rfl

end RevisionStore

/-! ## Listing -/

instance : Std.TransCmp compareNewest :=
  @transCmp_flip _ (fun q r : SyncRevision => compare q.id r.id) (transCmp_on SyncRevision.id)

/-- The listed revision of a row. -/
structure ListedRevision.IsOf (l : ListedRevision) (r : SyncRevision) : Prop where
  id : l.id = r.id
  appId : l.appId = r.appId
  commitHash : l.commitHash = r.commitHash
  paramsHash : l.paramsHash.toList = r.paramsHash
  recordedAt : l.recordedAt = r.recordedAt

theorem ListedRevision.ofRow_of_length {r : SyncRevision} (h : r.paramsHash.length = 32) :
    ∃ l, ofRow r = some l ∧ l.IsOf r :=
  ⟨_, dif_pos h, rfl, rfl, rfl, rfl, rfl⟩

/-- The rows that a limit of a listing leaves. -/
def upTo {α : Type} (limit : UInt64) (rows : List α) : List α :=
  if limit = 0 then rows else rows.take limit.toNat

/-- The listing of an application is that of its revisions, newest first. -/
def Lists (s : RevisionStore) (appId : String) (limit : UInt64) : Prop :=
  ∃ out, listSyncRevisions s.db appId limit = .ok out
    ∧ Forall₂ ListedRevision.IsOf out (upTo limit (s.revisions appId).reverse)

theorem sort_revisions (s : RevisionStore) (appId : String) :
    (s.revisions appId).insertionSort (LeBy compareNewest) = (s.revisions appId).reverse := by
  have hdistinct : (s.revisions appId).Pairwise fun q r => compareNewest q r ≠ .eq :=
    (s.revisions_ordered appId).imp fun hlt heq =>
      absurd (Nat.compare_eq_eq.mp heq) (Nat.ne_of_gt hlt)
  have hreverse : (s.revisions appId).reverse.Pairwise (LtBy compareNewest) :=
    List.pairwise_reverse.mpr ((s.revisions_ordered appId).imp Nat.compare_eq_lt.mpr)
  refine eq_of_mem_iff (pairwise_lt_sort hdistinct) hreverse fun r => ?_
  rw [List.mem_insertionSort, List.mem_reverse]

/-- **A listing is newest first.** -/
theorem lists (s : RevisionStore) (appId : String) (limit : UInt64) : Lists s appId limit := by
  have hlength := s.length_revisions appId
  have hbounded := s.bounded
  have hall : ∀ n, 2 ^ 63 - 1 ≤ n → (s.revisions appId).reverse.take n
      = (s.revisions appId).reverse := by
    intro n hn
    exact List.take_of_length_le (by rw [List.length_reverse]; omega)
  have hlimited : limited (if limit = 0 then some (2 ^ 63 - 1) else sqlLimit limit)
      (s.revisions appId).reverse = upTo limit (s.revisions appId).reverse := by
    unfold upTo
    split
    · exact hall _ (Nat.le_refl _)
    · unfold sqlLimit
      split
      · rfl
      · exact (hall limit.toNat (by omega)).symm
  have hrows : ∀ r ∈ upTo limit (s.revisions appId).reverse,
      ∃ l, ListedRevision.ofRow r = some l ∧ l.IsOf r := by
    intro r hr
    have hmem : r ∈ (s.revisions appId).reverse := by
      unfold upTo at hr
      split at hr
      · exact hr
      · exact List.mem_of_mem_take hr
    exact ListedRevision.ofRow_of_length
      (s.hashed r (List.mem_of_mem_filter (List.mem_reverse.mp hmem)))
  obtain ⟨out, hout⟩ := mapM_eq_some_of_forall fun r hr => (hrows r hr).imp fun _ h => h.1
  refine ⟨out, ?_, ?_⟩
  · unfold listSyncRevisions
    dsimp only
    rw [show (s.db.syncRevisions.filter fun r => r.appId = appId) = s.revisions appId from rfl,
      sort_revisions, hlimited, hout]
  · refine (forall₂_imp_mem (mapM_eq_some_iff.mp hout) fun r hr l hl => ?_).flip
    obtain ⟨l', hl', hof⟩ := hrows r hr
    rwa [Option.some.inj (hl.symm.trans hl')]

/-! ## One call -/

/-- The store that a call makes of another. -/
def RecordCall.store (call : RecordCall) (manifestsJson : String) (s : RevisionStore) :
    Option RevisionStore :=
  (s.insertRevision call.appId call.commitHash call.paramsHash manifestsJson call.now).map
    fun s => s.trimRevisions call.appId (sqlLimit call.limit)

/-- Under a savepoint, both are done, or something has failed. -/
theorem insertAndTrim_cases (call : RecordCall) (manifestsJson : String) (c : Conn RevisionStore)
    (mark : Mark RevisionStore) (s : RevisionStore) :
    (∃ t, call.store manifestsJson s = some t
        ∧ insertAndTrim call manifestsJson (c.opened mark [] s) = (c.opened mark [] t, .ok (s.seq + 1)))
      ∨ ∃ e, (∃ t, insertAndTrim call manifestsJson (c.opened mark [] s)
          = (c.opened mark [] t, .error e))
        ∨ insertAndTrim call manifestsJson (c.opened mark [] s) = (c.abort, .error e) := by
  unfold insertAndTrim
  rcases Conn.attempt_execute_opened c mark [] s
    call.outcomes.insert (RevisionStore.insertRevision call.appId call.commitHash call.paramsHash
      manifestsJson call.now) with ⟨t, hinsert, heq⟩ | heq | heq
  · rw [heq]
    dsimp only
    rcases Conn.attempt_execute_opened c mark [] t
      call.outcomes.delete fun s => some (s.trimRevisions call.appId (sqlLimit call.limit)) with
      ⟨u, hdelete, heq⟩ | heq | heq
    · obtain rfl := Option.some.inj hdelete
      refine Or.inl ⟨t.trimRevisions call.appId (sqlLimit call.limit), ?_, ?_⟩
      · rw [RecordCall.store, hinsert]
        rfl
      · rw [heq, Conn.opened_content, (RevisionStore.insertRevision_eq_some hinsert).1]
    · exact Or.inr ⟨.delete, Or.inl ⟨t, by rw [heq]⟩⟩
    · exact Or.inr ⟨.delete, Or.inr (by rw [heq])⟩
  · exact Or.inr ⟨.insert, Or.inl ⟨s, by rw [heq]⟩⟩
  · exact Or.inr ⟨.insert, Or.inr (by rw [heq])⟩

/-- How many revisions a limit stands for. -/
def keptRevisions (retention : UInt64) : Nat :=
  if retention = 0 then defaultRetention else retention.toNat

theorem keptRevisions_eq (retention : UInt64) : keptRevisions retention
    = if retention.toNat = 0 then defaultRetention else retention.toNat := by
  unfold keptRevisions
  simp [← UInt64.toNat_inj]

theorem RecordCall.limit_toNat (call : RecordCall) :
    call.limit.toNat = keptRevisions call.retention := by
  unfold limit keptRevisions
  split <;> rfl

theorem rtake_min {α : Type} (xs : List α) (n : Nat) : xs.rtake (min n xs.length) = xs.rtake n := by
  unfold List.rtake
  congr 1
  omega

section

variable [FloatText]

/-- **A call is carried out, or does nothing**, if it ends its transaction. -/
theorem recordSyncRevision_cases (call : RecordCall) (h : call.outcomes.Closes) (s : RevisionStore) :
    (∃ json t, manifestsToString call.manifests = some json ∧ call.store json s = some t
        ∧ recordSyncRevision call (.idle s) = (.idle t, .ok (s.seq + 1)))
      ∨ ∃ e, recordSyncRevision call (.idle s) = (.idle s, .error e) := by
  unfold recordSyncRevision
  cases hjson : manifestsToString call.manifests with
  | none => exact Or.inr ⟨.serialize, rfl⟩
  | some json =>
      dsimp only
      cases hsavepoint : call.outcomes.savepoint with
      | failed rolledBack =>
          rw [Conn.attempt_idle_failed]
          exact Or.inr ⟨.savepoint, rfl⟩
      | done =>
          rw [Conn.attempt_done (Conn.savepoint_idle savepointName s)]
          dsimp only
          rcases insertAndTrim_cases call json (.idle s) ⟨some savepointName, s⟩ s with
            ⟨t, hstore, heq⟩ | ⟨e, ⟨t, heq⟩ | heq⟩
          · rw [heq]
            dsimp only
            rcases Conn.attempt_release_opened savepointName s t h.release with
              hrelease | hrelease
            · exact Or.inl ⟨json, t, rfl, hstore, by rw [hrelease]⟩
            · exact Or.inr ⟨.release, by rw [hrelease]⟩
          · rw [heq]
            exact Or.inr ⟨e, congrArg (·, _) (Conn.undo_savepoint h.rollbackTo h.releaseAfter)⟩
          · rw [heq]
            refine Or.inr ⟨e, ?_⟩
            dsimp only
            rw [show (Conn.idle s).abort = .idle s from rfl,
              (Conn.attempt_savepoint_idle savepointName s _).1,
              (Conn.attempt_savepoint_idle savepointName s _).2]

/-- If nothing fails that need not, a call does what it does to the database alone. -/
theorem recordSyncRevision_done {call : RecordCall}
    (houtcomes : call.outcomes = ⟨.done, .done, .done, .done, .done, .done⟩) {s : RevisionStore}
    (hids : s.seq + 1 < 2 ^ 63) (hlimit : call.retention.toNat < 2 ^ 63) :
    (recordSyncRevision call (.idle s)).1.content.db
      = (s.db.recordSyncRevision call.appId call.commitHash call.paramsHash call.manifests
        call.retention.toNat (s.seq + 1) call.now).1 := by
  unfold recordSyncRevision Database.recordSyncRevision
  cases hjson : manifestsToString call.manifests with
  | none => rfl
  | some json =>
      have hdb := RevisionStore.insertRevision_db call.appId call.commitHash call.paramsHash json
        call.now hids
      have hdone : Outcome.done ≠ .failed false := nofun
      have hlimit' : call.limit.toNat < 2 ^ 63 := by
        unfold RecordCall.limit
        split
        · decide
        · exact hlimit
      let c := (Conn.idle s).opened ⟨some savepointName, s⟩ [] s
      have hexecute : Conn.execute (RevisionStore.insertRevision call.appId call.commitHash
          call.paramsHash json call.now) c = (s.insertRevision call.appId call.commitHash
            call.paramsHash json call.now).map ((Conn.idle s).opened ⟨some savepointName, s⟩ []) :=
        Conn.execute_opened _
      unfold insertAndTrim
      rw [houtcomes]
      dsimp only
      rw [Conn.attempt_done (Conn.savepoint_idle savepointName s)]
      dsimp only
      cases hins : s.db.insertSyncRevision ⟨s.seq + 1, call.appId, call.commitHash,
          call.paramsHash.toList, json, call.now⟩ with
      | error v =>
          rw [hins] at hdb
          rw [Option.map_eq_none_iff.mp hdb] at hexecute
          rw [Conn.attempt, hexecute]
          exact congrArg (fun c : Conn RevisionStore => c.content.db)
            (Conn.undo_savepoint hdone hdone)
      | ok db =>
          rw [hins] at hdb
          obtain ⟨t, ht, rfl⟩ := Option.map_eq_some_iff.mp hdb
          rw [ht] at hexecute
          rw [Conn.attempt_done hexecute]
          dsimp only
          rw [Conn.attempt_done (Conn.execute_opened _)]
          dsimp only
          rw [Conn.attempt_done (Conn.release_opened savepointName _ s _)]
          dsimp only
          rw [Conn.idle_content, RevisionStore.trimRevisions_db t call.appId hlimit',
            call.limit_toNat, keptRevisions_eq]

/-- The row that a call records. -/
def RecordCall.Records (call : RecordCall) (id : Nat) (rev : SyncRevision) : Prop :=
  ∃ json, manifestsToString call.manifests = some json
    ∧ rev = ⟨id, call.appId, call.commitHash, call.paramsHash.toList, json, call.now⟩

/-- **What a call leaves of the log**: that of another application as it was; that of its own,
if it returns an `id`, with the new revision of the highest `id`, cut to the newest; everything
as it was, if it fails. All of it is listed newest first. -/
structure Keeps (limitOf : UInt64 → Nat) (conn : Conn RevisionStore) (call : RecordCall) : Prop where
  closed : (recordSyncRevision call conn).1.marks = []
  others : ∀ appId ≠ call.appId,
    (recordSyncRevision call conn).1.content.revisions appId = conn.content.revisions appId
  newest : ∀ id, (recordSyncRevision call conn).2 = .ok id → ∃ rev, call.Records id rev
    ∧ (∀ r ∈ conn.content.db.syncRevisions, r.id < id)
    ∧ (recordSyncRevision call conn).1.content.revisions call.appId
      = (conn.content.revisions call.appId ++ [rev]).rtake
        (min (limitOf call.retention) ((conn.content.revisions call.appId).length + 1))
  listed : ∀ appId limit, Lists (recordSyncRevision call conn).1.content appId limit
  failed : ∀ e, (recordSyncRevision call conn).2 = .error e → (recordSyncRevision call conn).1 = conn

theorem keeps (call : RecordCall) (h : call.outcomes.Closes) (s : RevisionStore) :
    Keeps keptRevisions (.idle s) call := by
  rcases recordSyncRevision_cases call h s with ⟨json, t, hjson, hstore, heq⟩ | ⟨e, heq⟩
  · obtain ⟨u, hinsert, rfl⟩ := Option.map_eq_some_iff.mp hstore
    obtain ⟨-, hrows⟩ := RevisionStore.insertRevision_eq_some hinsert
    refine ⟨by rw [heq]; rfl, ?_, ?_, fun _ _ => lists _ _ _, ?_⟩
    · intro appId hother
      rw [heq, Conn.idle_content, RevisionStore.revisions_trim_ne _ _ hother]
      unfold RevisionStore.revisions
      rw [hrows, List.filter_append, List.filter_singleton]
      simp [Ne.symm hother]
    · intro id hid
      obtain rfl : s.seq + 1 = id := Except.ok.inj ((congrArg Prod.snd heq).symm.trans hid)
      refine ⟨_, ⟨json, hjson, rfl⟩, fun r hr => Nat.lt_succ_of_le (s.given r hr).2, ?_⟩
      have hown : u.revisions call.appId = s.revisions call.appId ++ [⟨s.seq + 1, call.appId,
          call.commitHash, call.paramsHash.toList, json, call.now⟩] := by
        unfold RevisionStore.revisions
        rw [hrows, List.filter_append, List.filter_singleton]
        simp
      rw [heq, Conn.idle_content, RevisionStore.revisions_trim, call.limit_toNat, hown,
        Conn.idle_content, ← rtake_min, List.length_append, List.length_singleton]
    · intro e he
      have := (congrArg Prod.snd heq).symm.trans he
      cases this
  · refine ⟨by rw [heq]; rfl, fun _ _ => by rw [heq], ?_, fun _ _ => lists _ _ _,
      fun _ _ => by rw [heq]⟩
    intro id hid
    have := (congrArg Prod.snd heq).symm.trans hid
    cases this

/-- **The revision log under any calls**, for any applications and with any limits, each of
which ends its transaction. -/
theorem retained (start : RevisionStore) (calls : List RecordCall)
    (h : ∀ call ∈ calls, call.outcomes.Closes) :
    Each (fun conn call => (recordSyncRevision call conn).1) (Keeps keptRevisions) (.idle start)
      calls := by
  intro pre call hpre
  have hidle : ∃ s, exec (fun conn call => (recordSyncRevision call conn).1) (.idle start) pre
      = .idle s := by
    have hcalls : ∀ call ∈ pre, call.outcomes.Closes :=
      fun call hcall => h call (hpre.subset (List.mem_append_left _ hcall))
    refine exec_inv_of_mem (P := fun conn => ∃ s, conn = Conn.idle s) ?_ ⟨start, rfl⟩ hcalls
    rintro _ call ⟨s, rfl⟩ hcloses
    exact ⟨_, Conn.eq_idle (keeps call hcloses s).closed⟩
  obtain ⟨s, hs⟩ := hidle
  rw [hs]
  exact keeps call (h call (hpre.subset (List.mem_append_right _ List.mem_cons_self))) s

end

/-- The shop, of which nothing has been recorded. -/
def shopStore : RevisionStore := ⟨shopDb, 0, List.Pairwise.nil, nofun, nofun, by decide⟩

/-- A call under the default limit. -/
def recordShop (commitHash : String) (retention : UInt64) : RecordCall :=
  ⟨"1", commitHash, Vector.replicate 32 0, [], retention, 5,
    ⟨.done, .done, .done, .done, .done, .done⟩⟩

/-- The second call drops the first revision, the limit of the third is the default. -/
theorem shop_retained :
    (∀ call ∈ [recordShop "c1" 1, recordShop "c2" 1, recordShop "c3" 0], call.outcomes.Closes)
    ∧ @Each _ _ (fun conn call => (@recordSyncRevision .ofBits call conn).1)
      (@Keeps .ofBits keptRevisions) (.idle shopStore)
      [recordShop "c1" 1, recordShop "c2" 1, recordShop "c3" 0] := by
  have hcloses : ∀ call ∈ [recordShop "c1" 1, recordShop "c2" 1, recordShop "c3" 0],
      call.outcomes.Closes := by
    intro call hcall
    simp only [List.mem_cons, List.not_mem_nil, or_false] at hcall
    rcases hcall with rfl | rfl | rfl
    · exact ⟨nofun, nofun, nofun⟩
    · exact ⟨nofun, nofun, nofun⟩
    · exact ⟨nofun, nofun, nofun⟩
  exact ⟨hcloses, @retained .ofBits shopStore _ hcloses⟩

/-- **A limit of 0 does not keep nothing**: it stands for another. -/
theorem zero_keeps_default : ¬ ∀ (floats : FloatText) (start : RevisionStore)
    (calls : List RecordCall), (∀ call ∈ calls, call.outcomes.Closes) →
    @Each _ _ (fun conn call => (@recordSyncRevision floats call conn).1)
      (@Keeps floats UInt64.toNat) (.idle start) calls := by
  intro h
  have hkeeps := h .ofBits shopStore [recordShop "c1" 0]
    (fun call hcall => by rw [List.mem_singleton.mp hcall]; exact ⟨nofun, nofun, nofun⟩)
    [] (recordShop "c1" 0) (List.prefix_refl _)
  obtain ⟨rev, -, -, hnewest⟩ := @Keeps.newest .ofBits _ _ _ hkeeps 1 rfl
  rw [show min (recordShop "c1" 0).retention.toNat _ = 0 from Nat.zero_min _] at hnewest
  have hlength := congrArg List.length hnewest
  rw [List.rtake_zero] at hlength
  exact absurd hlength (by decide)

end SynchrotronCD.Db
