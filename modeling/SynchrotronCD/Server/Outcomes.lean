import SynchrotronCD.Reconcile.Trigger
import SynchrotronCD.Server.PipelineProof
import SynchrotronCD.Server.UpdatesProof

/-!
# Whose outcome it is

A pass, a render and a health assessment run for an application, and say so by
its name. The status writer gets to what they publish later, and writes it to the
row that has the name by then.

Beside the database runs the *attributed* one: there the writer goes by the
identifier of the application for which the event was published. Every other
section does there what it does here.
-/

namespace SynchrotronCD.Db.Outcomes

open Lib

/-- The row with an identifier. -/
def applicationById (db : Database) (id : String) : Option Application :=
  db.applications.rows.find? fun a => a.id = id

/-- An event on the bus. -/
structure Published where
  event : SystemEvent
  publishedAt : Timestamp
  /-- Proof-only: the identifier of the application for which it was published. -/
  producer : String

/-- The application an event is written to, by name. -/
def subject : SystemEvent → Option AppName
  | .syncOutcome ev => some ev.app
  | .appHealthAssessed app _ _ _ => some app
  | _ => none

/-- The status writer's section for an event. -/
def onEvent (db : Database) (m : Published) (recordId : String) (now : Timestamp) : Database :=
  match m.event with
  | .syncOutcome ev => db.onSyncOutcome ev recordId m.publishedAt now
  | .appHealthAssessed app _ status message => db.onHealthAssessed app status message now
  | _ => db

/-- What it would be if the writer went by the identifier of the producer. -/
def onEventById (db : Database) (m : Published) (recordId : String) (now : Timestamp) : Database :=
  match applicationById db m.producer with
  | none => db
  | some a =>
    match m.event with
    | .syncOutcome ev => db.onSyncOutcome { ev with app := a.name } recordId m.publishedAt now
    | .appHealthAssessed _ _ status message => db.onHealthAssessed a.name status message now
    | _ => db

/-! ## The machine -/

/-- A pass under way, with the row that its handler read. -/
structure Dispatched where
  app : Application
  trigger : String

structure State where
  db : Database
  /-- Proof-only: the database had the writer gone by identifiers. -/
  attributed : Database
  /-- The updates that have loaded their row and are still to replace it. -/
  updates : Nat → Option (PendingUpdate Application UpdateAppRequest)
  passes : Nat → Option Dispatched
  /-- The applications the render loop has listed and is still to render. -/
  renders : List Application
  /-- What has been published and the status writer has not received. -/
  bus : List Published

def State.new (db : Database) : State := ⟨db, db, fun _ => none, fun _ => none, [], []⟩

inductive Event where
  | createApp (req : CreateAppRequest) (id : String) (now : Timestamp)
  /-- The two sections of `update_app`. -/
  | load (task : Nat) (name : AppName) (req : UpdateAppRequest)
  | replace (task : Nat) (now : Timestamp) (fault : Database.Fault)
  | deleteApp (name : AppName)
  /-- The handler of a job looks the application up. -/
  | dispatch (task : Nat) (app : AppName) (trigger : String)
  /-- A pass publishes its outcome. -/
  | finish (task : Nat) (reads : PassReads) (now : Timestamp)
  /-- The health of the application of a pass is assessed. -/
  | assess (task : Nat) (status : HealthStatusCode) (message : Option String) (now : Timestamp)
  | list (url : String)
  /-- The commit cannot be materialized. -/
  | abandon
  | render (result : Except String Unit) (head : String) (now : Timestamp)
  | write (recordId : String) (now : Timestamp)

namespace State

variable (s : State)

def publish (e : SystemEvent) (now : Timestamp) (producer : String) : State :=
  { s with bus := s.bus ++ [⟨e, now, producer⟩] }

/-- Do the same to both databases. -/
def both (f : Database → Database) : State := { s with db := f s.db, attributed := f s.attributed }

end State

/-- The section of `create_app`, refused or not. -/
def created (req : CreateAppRequest) (id : String) (now : Timestamp) (db : Database) : Database :=
  match createApp db req id now with
  | .ok (db', _) => db'
  | .error _ => db

def step (rec : Reconciler) (s : State) : Event → State
  | .createApp req id now =>
    match createApp s.db req id now with
    | .ok (_, app) =>
      (s.both (created req id now)).publish (.appChanged app.name app.source.repoUrl) now id
    | .error _ => s.both (created req id now)
  | .load task name req =>
    match s.db.getApplication name with
    | some row => { s with updates := Function.update s.updates task (some ⟨name, req, row⟩) }
    | none => { s with updates := Function.update s.updates task none }
  | .replace task now fault =>
    match s.updates task with
    | some p =>
      { s.both (fun db => (Updates.replaceSection Endpoint.apps db p now fault).1) with
        updates := Function.update s.updates task none }
    | none => s
  | .deleteApp name => s.both fun db => (deleteApp db name).1
  | .dispatch task app trigger =>
    match s.db.getApplication app with
    | some a => { s with passes := Function.update s.passes task (some ⟨a, trigger⟩) }
    | none => s
  | .finish task reads now =>
    match s.passes task with
    | some w =>
      { s with passes := Function.update s.passes task none }.publish
        (.syncOutcome (rec.reconcileAndApplyApp w.app.name w.app.destination.cluster w.trigger
          reads).published) now w.app.id
    | none => s
  | .assess task status message now =>
    match s.passes task with
    | some w =>
      s.publish (.appHealthAssessed w.app.name w.app.destination.cluster status message) now w.app.id
    | none => s
  | .list url =>
    match s.renders with
    | [] =>
      { s with
        renders := (Pipeline.State.listApplications s.db).filter fun a => a.source.repoUrl = url }
    | _ :: _ => s
  | .abandon => { s with renders := [] }
  | .render result head now =>
    match s.renders, result with
    | a :: rest, .ok _ => { s with renders := rest }.publish (.manualSyncRequested a.name) now a.id
    | a :: rest, .error e =>
      { s with renders := rest }.publish (.syncOutcome ⟨a.name, a.destination.cluster, false,
        some (.render e), "poll", some head, 0⟩) now a.id
    | [], _ => s
  | .write recordId now =>
    match s.bus with
    | m :: rest =>
      { s with
        db := onEvent s.db m recordId now
        attributed := onEventById s.attributed m recordId now
        bus := rest }
    | [] => s

/--
**Outcomes are attributed to the application that produced them.** Every column and every
history record is as if the writer went by the identifier of the application for which the
pass or render ran.
-/
def Attributed (s : State) : Prop := s.db = s.attributed

/-! ## The condition -/

/-- Something about an application is under way: an update, a pass, a render, or an event that is
still to be written. -/
inductive InFlight (s : State) : AppName → String → Prop where
  | update {task : Nat} {p : PendingUpdate Application UpdateAppRequest} :
    s.updates task = some p → InFlight s p.row.name p.row.id
  | pass {task : Nat} {w : Dispatched} : s.passes task = some w → InFlight s w.app.name w.app.id
  | render {a : Application} : a ∈ s.renders → InFlight s a.name a.id
  | event {m : Published} {name : AppName} : m ∈ s.bus → subject m.event = some name →
    InFlight s name m.producer

/-- An application is created only under a name, and with an identifier, of which nothing is under
way. -/
def CreatesAfresh (s : State) : Event → Prop
  | .createApp req id _ => s.db.getApplication req.name = none →
      ∀ name i, InFlight s name i → name ≠ req.name ∧ i ≠ id
  | _ => True

/-! ## The attributed database -/

theorem applicationById_eq_some {db : Database} {id : String} {a : Application} :
    applicationById db id = some a ↔ db.getApplication a.name = some a ∧ a.id = id := by
  unfold applicationById Database.getApplication
  rw [Table.find_eq_some]
  refine ⟨fun h => ⟨⟨List.mem_of_find?_eq_some h, rfl⟩, by simpa using List.find?_some h⟩, fun h => ?_⟩
  obtain ⟨⟨hmem, -⟩, hid⟩ := h
  cases hf : db.applications.rows.find? fun a => a.id = id with
  | none => exact absurd hid (by simpa using List.find?_eq_none.mp hf a hmem)
  | some b =>
      -- identifiers are unique
      have hb : b.id = id := by simpa using List.find?_some hf
      rw [List.inj_on_of_nodup_map db.applications.ids (List.mem_of_find?_eq_some hf) hmem
        (hb.trans hid.symm)]

/-- **What the attributed writer writes**: the row of the producer and history records of its
identifier; and nothing once the producer is gone. -/
theorem onEventById_spec (db : Database) (m : Published) (recordId : String) (now : Timestamp) :
    (∀ name a, (onEventById db m recordId now).getApplication name = some a →
        db.getApplication name ≠ some a → a.id = m.producer)
      ∧ (∀ r ∈ (onEventById db m recordId now).syncHistory, r ∉ db.syncHistory →
        r.appId = m.producer)
      ∧ (applicationById db m.producer = none → onEventById db m recordId now = db) := by
  unfold onEventById
  cases hrow : applicationById db m.producer with
  | none => exact ⟨fun _ _ h hne => absurd h hne, fun _ h hne => absurd h hne, fun _ => rfl⟩
  | some app =>
  obtain ⟨hget, hid⟩ := applicationById_eq_some.mp hrow
  refine ⟨fun name a h hne => ?_, fun r h hne => ?_, fun h => absurd h (by simp)⟩
  · -- the row written is the producer's, and keeps its identifier
    have hwritten : ∀ f : Application → Application, (∀ b, (f b).id = b.id) →
        (if name = app.name then (db.getApplication name).map f else db.getApplication name) = some a →
        a.id = m.producer := by
      intro f hf hw
      split at hw
      · rename_i hname
        rw [hname, hget] at hw
        rw [← Option.some.inj hw, hf, hid]
      · exact absurd hw hne
    dsimp only at h
    split at h
    · rw [Database.getApplication_onSyncOutcome] at h
      refine hwritten _ (fun b => ?_) h
      rfl
    · rw [Database.getApplication_onHealthAssessed] at h
      refine hwritten _ (fun b => ?_) h
      rfl
    · exact absurd h hne
  · -- a new history record carries the identifier of the row
    dsimp only at h
    split at h
    · rw [Database.onSyncOutcome_eq, hget] at h
      dsimp only [Option.elim_some] at h
      split at h
      · exact absurd h hne
      · rcases List.mem_append.mp h with h | h
        · exact absurd h hne
        · rw [List.mem_singleton.mp h]
          exact hid
    · exact absurd h hne
    · exact absurd h hne

end SynchrotronCD.Db.Outcomes
