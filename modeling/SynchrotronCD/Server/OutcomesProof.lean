import SynchrotronCD.Server.Outcomes

/-!
# When outcomes are attributed to who produced them

An event is written to the wrong row only if its application was deleted and
another was created under the name while the event, or what was going to publish
it, was under way. As long as none is, a name has one identifier (`OneOwner`), and
the writer finds by name what it would find by identifier (`onEvent_eq`).
-/

namespace SynchrotronCD.Db.Outcomes

open Lib

/-! ## Who a name belongs to -/

/-- An identifier that is under way under a name, or stored under it. -/
def Known (s : State) (name : AppName) (id : String) : Prop :=
  InFlight s name id ∨ ∃ a, s.db.getApplication name = some a ∧ a.id = id

structure OneOwner (s : State) : Prop where
  attributed : Attributed s
  /-- What is known of a name has one identifier, and of an identifier one name. -/
  owner : ∀ n i m j, Known s n i → Known s m j → (n = m ↔ i = j)

theorem oneOwner_new (db : Database) : OneOwner (State.new db) := by
  have hknown : ∀ n i, Known (State.new db) n i → ∃ a, db.getApplication n = some a ∧ a.id = i := by
    intro n i h
    rcases h with h | h
    · cases h with
      | update h => simp [State.new] at h
      | pass h => simp [State.new] at h
      | render h => simp [State.new] at h
      | event h _ => simp [State.new] at h
    · exact h
  refine ⟨rfl, fun n i m j hn hm => ?_⟩
  obtain ⟨a, ha, rfl⟩ := hknown n i hn
  obtain ⟨b, hb, rfl⟩ := hknown m j hm
  refine ⟨fun h => ?_, fun h => ?_⟩
  · subst h
    rw [Option.some.inj (ha.symm.trans hb)]
  · have hab : a = b := Table.find_id_inj ha hb h
    rw [← show a.name = n from Table.find_name ha, ← show b.name = m from Table.find_name hb, hab]

theorem known_row {s : State} {n : AppName} {a : Application} (h : s.db.getApplication n = some a) :
    Known s n a.id := Or.inr ⟨a, h, rfl⟩

theorem known_event {s : State} {m : Published} (h : m ∈ s.bus) {n : AppName}
    (hn : subject m.event = some n) : Known s n m.producer := Or.inl (.event h hn)

/-- A step that makes up no identifier. -/
theorem OneOwner.of_known {s s' : State} (h : OneOwner s) (hattr : Attributed s')
    (hrows : ∀ n a, s'.db.getApplication n = some a → Known s n a.id)
    (hupdates : ∀ task p, s'.updates task = some p → Known s p.row.name p.row.id)
    (hpasses : ∀ task w, s'.passes task = some w → Known s w.app.name w.app.id)
    (hrenders : ∀ a ∈ s'.renders, Known s a.name a.id)
    (hbus : ∀ m ∈ s'.bus, ∀ n, subject m.event = some n → Known s n m.producer) : OneOwner s' := by
  have hknown : ∀ n i, Known s' n i → Known s n i := by
    intro n i hk
    rcases hk with hk | ⟨a, ha, rfl⟩
    · cases hk with
      | update hp => exact hupdates _ _ hp
      | pass hw => exact hpasses _ _ hw
      | render ha => exact hrenders _ ha
      | event hm hn => exact hbus _ hm _ hn
    · exact hrows n a ha
  exact ⟨hattr, fun n i m j hn hm => h.owner n i m j (hknown n i hn) (hknown m j hm)⟩

/-- A step that leaves the work under way alone, and adds no row. -/
theorem OneOwner.of_rows {s s' : State} (h : OneOwner s) (hattr : Attributed s')
    (hrows : ∀ n a, s'.db.getApplication n = some a → Known s n a.id)
    (hupdates : ∀ task p, s'.updates task = some p → s.updates task = some p)
    (hpasses : s'.passes = s.passes) (hrenders : s'.renders = s.renders) (hbus : s'.bus ⊆ s.bus) :
    OneOwner s' := by
  refine h.of_known hattr hrows (fun task p hp => Or.inl (.update (hupdates task p hp)))
    (fun task w hw => ?_) (fun a ha => ?_) fun m hm n hn => known_event (hbus hm) hn
  · rw [hpasses] at hw
    exact Or.inl (.pass hw)
  · rw [hrenders] at ha
    exact Or.inl (.render ha)

/-- Publishing for an application that is known by the name in the event, with which the work on it
may end. -/
theorem OneOwner.publish {s : State} (h : OneOwner s) (s' : State) (hdb : s'.db = s.db)
    (hattr : s'.attributed = s.attributed) (hupdates : s'.updates = s.updates)
    (hpasses : ∀ task w, s'.passes task = some w → s.passes task = some w)
    (hrenders : s'.renders ⊆ s.renders) (hbus : s'.bus = s.bus) {e : SystemEvent}
    {producer : String} (he : ∀ n, subject e = some n → Known s n producer) (now : Timestamp) :
    OneOwner (s'.publish e now producer) := by
  refine h.of_known ?_ (fun n a ha => ?_) (fun task p hp => ?_)
    (fun task w hw => Or.inl (.pass (hpasses task w hw)))
    (fun a ha => Or.inl (.render (hrenders ha))) fun m hm n hn => ?_
  · show s'.db = s'.attributed
    rw [hdb, hattr]
    exact h.attributed
  · have ha : s'.db.getApplication n = some a := ha
    rw [hdb] at ha
    exact known_row ha
  · have hp : s'.updates task = some p := hp
    rw [hupdates] at hp
    exact Or.inl (.update hp)
  · have hm : m ∈ s'.bus ++ [_] := hm
    rw [hbus] at hm
    rcases List.mem_append.mp hm with hm | hm
    · exact known_event hm hn
    · obtain rfl := List.mem_singleton.mp hm
      exact he n hn

/-- **By name or by identifier.** The writer finds the producer's row. -/
theorem onEvent_eq {db : Database} {m : Published}
    (hrow : ∀ n, subject m.event = some n → ∀ a, db.getApplication n = some a → a.id = m.producer)
    (hid : ∀ n, subject m.event = some n → ∀ a, db.getApplication a.name = some a →
      a.id = m.producer → a.name = n) (recordId : String) (now : Timestamp) :
    onEvent db m recordId now = onEventById db m recordId now := by
  obtain ⟨event, publishedAt, producer⟩ := m
  have hfind : ∀ n, subject event = some n → ∀ a, db.getApplication n = some a →
      applicationById db producer = some a := by
    intro n hn a ha
    have hname : a.name = n := Table.find_name ha
    exact applicationById_eq_some.mpr ⟨by rw [hname]; exact ha, hrow n hn a ha⟩
  -- a row with the producer's id would have the name
  have hnone : ∀ n, subject event = some n → db.getApplication n = none →
      applicationById db producer = none := by
    intro n hn ha
    cases hb : applicationById db producer with
    | none => rfl
    | some b =>
        obtain ⟨hget, hbid⟩ := applicationById_eq_some.mp hb
        rw [hid n hn b hget hbid, ha] at hget
        simp at hget
  unfold onEvent onEventById
  cases event with
  | syncOutcome ev =>
      cases ha : db.getApplication ev.app with
      | none =>
          rw [hnone ev.app rfl ha]
          exact Database.onSyncOutcome_of_none ha recordId publishedAt now
      | some a =>
          rw [hfind ev.app rfl a ha]
          dsimp only
          rw [show a.name = ev.app from Table.find_name ha]
  | appHealthAssessed app cluster status message =>
      cases ha : db.getApplication app with
      | none =>
          rw [hnone app rfl ha]
          exact Database.onHealthAssessed_of_none ha status message now
      | some a =>
          rw [hfind app rfl a ha]
          dsimp only
          rw [show a.name = app from Table.find_name ha]
  | _ =>
      dsimp only
      split
      · rfl
      · rfl

/-! ## What each step does -/

theorem attributed_both {s : State} (h : Attributed s) (f : Database → Database) :
    Attributed (s.both f) := congrArg f h

/-- The writer leaves names and identifiers alone. -/
theorem id_onEvent {db : Database} {m : Published} {recordId : String} {now : Timestamp}
    {n : AppName} {a : Application} (h : (onEvent db m recordId now).getApplication n = some a) :
    ∃ b, db.getApplication n = some b ∧ a.id = b.id := by
  unfold onEvent at h
  split at h
  · exact Endpoint.apps_lawful.onSyncOutcome _ _ _ _ _ _ _ h
  · exact Endpoint.apps_lawful.onHealthAssessed _ _ _ _ _ _ _ h
  · exact ⟨a, h, rfl⟩

theorem oneOwner_write {s : State} (h : OneOwner s) {m : Published} {rest : List Published}
    (hbus : s.bus = m :: rest) (recordId : String) (now : Timestamp) :
    OneOwner { s with
      db := onEvent s.db m recordId now
      attributed := onEventById s.attributed m recordId now
      bus := rest } := by
  have hm : m ∈ s.bus := by rw [hbus]; exact List.mem_cons_self
  refine h.of_rows ?_ (fun n a ha => ?_) (fun _ _ hp => hp) rfl rfl (fun x hx => ?_)
  · show onEvent s.db m recordId now = onEventById s.attributed m recordId now
    rw [← show s.db = s.attributed from h.attributed]
    refine onEvent_eq (fun n hn a ha => ?_) (fun n hn a ha hid => ?_) recordId now
    · exact (h.owner n a.id n m.producer (known_row ha) (known_event hm hn)).mp rfl
    · exact (h.owner a.name a.id n m.producer (known_row ha) (known_event hm hn)).mpr hid
  · obtain ⟨b, hb, hid⟩ := id_onEvent ha
    rw [hid]
    exact known_row hb
  · rw [hbus]
    exact List.mem_cons_of_mem m hx

theorem oneOwner_replace {s : State} (h : OneOwner s) {task : Nat}
    {p : PendingUpdate Application UpdateAppRequest} (hp : s.updates task = some p)
    (now : Timestamp) (fault : Database.Fault) :
    OneOwner { s.both (fun db => (Updates.replaceSection Endpoint.apps db p now fault).1) with
      updates := Function.update s.updates task none } := by
  have hattr := attributed_both h.attributed
    fun db => (Updates.replaceSection Endpoint.apps db p now fault).1
  refine h.of_rows (by exact hattr) (fun n a ha => ?_) (fun t q hq => ?_) rfl rfl (fun _ hx => hx)
  · rcases Updates.get_replaceSection Endpoint.apps_lawful ha with hold | ⟨hid, hname⟩
    · exact known_row hold
    · -- the row that was loaded, edited
      have hn : a.name = n := Table.find_name ha
      have hid : a.id = p.row.id := hid
      have hname : a.name = p.row.name := hname
      rw [← hn, hname, hid]
      exact Or.inl (.update hp)
  · rcases Updates.tasks_update hq with hnone | hq
    · simp at hnone
    · exact hq

/-- A new row makes one name and one identifier known, which were not. -/
theorem oneOwner_created {s : State} (h : OneOwner s) {req : CreateAppRequest} {id : String}
    {now : Timestamp} (hfresh : CreatesAfresh s (.createApp req id now)) {db : Database}
    {app : Application} (hok : createApp s.db req id now = .ok (db, app)) :
    OneOwner (s.both (created req id now)) := by
  obtain ⟨rfl, hnone, hrows, hid, -⟩ := createApp_ok hok
  have hdb : created req id now s.db = db := by unfold created; rw [hok]
  have hnew : ∀ n i, Known s n i → n ≠ req.name ∧ i ≠ id := by
    intro n i hk
    rcases hk with hk | ⟨a, ha, rfl⟩
    · exact hfresh hnone n i hk
    · refine ⟨fun hn => ?_, fun hi => hid (Table.hasId_iff.mpr ⟨n, a, ha, hi⟩)⟩
      rw [hn, hnone] at ha
      simp at ha
  have hknown : ∀ n i, Known (s.both (created req id now)) n i →
      (n = req.name ∧ i = id) ∨ Known s n i := by
    intro n i hk
    rcases hk with hk | ⟨a, ha, rfl⟩
    · refine Or.inr (Or.inl ?_)
      cases hk with
      | update hp => exact .update hp
      | pass hw => exact .pass hw
      | render ha => exact .render ha
      | event hm hn => exact .event hm hn
    · have ha : (created req id now s.db).getApplication n = some a := ha
      rw [hdb, hrows] at ha
      split at ha
      · rename_i hn
        obtain rfl := Option.some.inj ha
        exact Or.inl ⟨hn, rfl⟩
      · exact Or.inr (known_row ha)
  refine ⟨attributed_both h.attributed _, fun n i m j hn hm => ?_⟩
  rcases hknown n i hn with ⟨rfl, rfl⟩ | hn'
  · rcases hknown m j hm with ⟨rfl, rfl⟩ | hm'
    · exact ⟨fun _ => rfl, fun _ => rfl⟩
    · obtain ⟨hne, hne'⟩ := hnew m j hm'
      exact ⟨fun he => absurd he.symm hne, fun he => absurd he.symm hne'⟩
  · rcases hknown m j hm with ⟨rfl, rfl⟩ | hm'
    · obtain ⟨hne, hne'⟩ := hnew n i hn'
      exact ⟨fun he => absurd he hne, fun he => absurd he hne'⟩
    · exact h.owner n i m j hn' hm'

theorem oneOwner_createApp (rec : Reconciler) {s : State} (h : OneOwner s) {req : CreateAppRequest}
    {id : String} {now : Timestamp} (hfresh : CreatesAfresh s (.createApp req id now)) :
    OneOwner (step rec s (.createApp req id now)) := by
  unfold step
  dsimp only
  split
  · rename_i db app hok
    exact (oneOwner_created h hfresh hok).publish _ rfl rfl rfl (fun _ _ hw => hw) (fun _ ha => ha)
      rfl (fun n hn => by simp [subject] at hn) now
  · rename_i err hok
    refine h.of_rows (attributed_both h.attributed _) (fun n a ha => ?_) (fun _ _ hp => hp) rfl rfl
      (fun _ hx => hx)
    have ha : (created req id now s.db).getApplication n = some a := ha
    unfold created at ha
    rw [hok] at ha
    exact known_row ha

/-- A pass that is dispatched, or an update that loads, is of the row it reads. -/
theorem oneOwner_load (rec : Reconciler) {s : State} (h : OneOwner s) (task : Nat) (name : AppName)
    (req : UpdateAppRequest) : OneOwner (step rec s (.load task name req)) := by
  have hupdates : ∀ entry : Option (PendingUpdate Application UpdateAppRequest),
      (∀ p, entry = some p → Known s p.row.name p.row.id) →
      OneOwner { s with updates := Function.update s.updates task entry } := by
    intro entry hentry
    refine h.of_known h.attributed (fun n a ha => known_row ha) (fun t p hp => ?_)
      (fun _ _ hw => Or.inl (.pass hw)) (fun _ ha => Or.inl (.render ha))
      fun _ hm _ hn => known_event (s := s) hm hn
    rcases Updates.tasks_update hp with hp | hp
    · exact hentry p hp
    · exact Or.inl (.update hp)
  unfold step
  dsimp only
  split
  · rename_i row hrow
    refine hupdates _ fun p hp => ?_
    obtain rfl := Option.some.inj hp
    have hname : row.name = name := Table.find_name hrow
    exact known_row (by rw [hname]; exact hrow)
  · exact hupdates none fun p hp => by simp at hp

theorem oneOwner_passes {s : State} (h : OneOwner s) (task : Nat) (entry : Option Dispatched)
    (hentry : ∀ w, entry = some w → Known s w.app.name w.app.id) :
    OneOwner { s with passes := Function.update s.passes task entry } := by
  refine h.of_known h.attributed (fun n a ha => known_row ha) (fun _ _ hp => Or.inl (.update hp))
    (fun t w hw => ?_) (fun _ ha => Or.inl (.render ha)) fun _ hm _ hn => known_event (s := s) hm hn
  rcases Updates.tasks_update hw with hw | hw
  · exact hentry w hw
  · exact Or.inl (.pass hw)

theorem oneOwner_renders {s : State} (h : OneOwner s) {renders : List Application}
    (hrenders : ∀ a ∈ renders, Known s a.name a.id) : OneOwner { s with renders := renders } :=
  h.of_known h.attributed (fun _ _ ha => known_row ha) (fun _ _ hp => Or.inl (.update hp))
    (fun _ _ hw => Or.inl (.pass hw)) hrenders fun _ hm _ hn => known_event (s := s) hm hn

theorem oneOwner_deleteApp {s : State} (h : OneOwner s) (name : AppName) :
    OneOwner (s.both fun db => (deleteApp db name).1) := by
  refine h.of_rows (attributed_both h.attributed _) (fun n a ha => ?_) (fun _ _ hp => hp) rfl rfl
    (fun _ hx => hx)
  have ha : (deleteApp s.db name).1.getApplication n = some a := ha
  rw [deleteApp_fst, Database.getApplication_deleteApplication] at ha
  split at ha
  · simp at ha
  · exact known_row ha

theorem oneOwner_finish (rec : Reconciler) {s : State} (h : OneOwner s) (task : Nat)
    (reads : PassReads) (now : Timestamp) : OneOwner (step rec s (.finish task reads now)) := by
  unfold step
  dsimp only
  split
  · rename_i w hw
    refine h.publish { s with passes := Function.update s.passes task none } rfl rfl rfl
      (fun t v hv => ?_) (fun _ ha => ha) rfl (fun n hn => ?_) now
    · exact (Updates.tasks_update hv).resolve_left (by simp)
    · -- the pass says for which application it ran
      obtain rfl := Option.some.inj hn
      rw [published_app]
      exact Or.inl (.pass hw)
  · exact h

theorem oneOwner_render (rec : Reconciler) {s : State} (h : OneOwner s) (result : Except String Unit)
    (head : String) (now : Timestamp) : OneOwner (step rec s (.render result head now)) := by
  have hrest : ∀ a rest, s.renders = a :: rest → ∀ e,
      (∀ n, subject e = some n → n = a.name) →
      OneOwner ({ s with renders := rest }.publish e now a.id) := by
    intro a rest hr e he
    refine h.publish { s with renders := rest } rfl rfl rfl (fun _ _ hw => hw) (fun x hx => ?_) rfl
      (fun n hn => ?_) now
    · rw [hr]
      exact List.mem_cons_of_mem a hx
    · rw [he n hn]
      exact Or.inl (.render (by rw [hr]; exact List.mem_cons_self))
  unfold step
  dsimp only
  split
  · rename_i a rest _ hr
    exact hrest a rest hr _ fun n hn => by simp [subject] at hn
  · rename_i a rest e hr
    exact hrest a rest hr _ fun n hn => (Option.some.inj hn).symm
  · exact h

theorem oneOwner_step (rec : Reconciler) {s : State} {e : Event} (h : OneOwner s)
    (hfresh : CreatesAfresh s e) : OneOwner (step rec s e) := by
  cases e with
  | createApp req id now => exact oneOwner_createApp rec h hfresh
  | load task name req => exact oneOwner_load rec h task name req
  | replace task now fault =>
      unfold step
      dsimp only
      split
      · rename_i p hp
        exact oneOwner_replace h hp now fault
      · exact h
  | deleteApp name => exact oneOwner_deleteApp h name
  | dispatch task app trigger =>
      unfold step
      dsimp only
      split
      · rename_i a ha
        refine oneOwner_passes h task _ fun w hw => ?_
        obtain rfl := Option.some.inj hw
        have hname : a.name = app := Table.find_name ha
        exact known_row (by rw [hname]; exact ha)
      · exact h
  | finish task reads now => exact oneOwner_finish rec h task reads now
  | assess task status message now =>
      unfold step
      dsimp only
      split
      · rename_i w hw
        refine h.publish s rfl rfl rfl (fun _ _ hv => hv) (fun _ ha => ha) rfl (fun n hn => ?_) now
        obtain rfl := Option.some.inj (show some w.app.name = some n from hn)
        exact Or.inl (.pass hw)
      · exact h
  | list url =>
      unfold step
      dsimp only
      split
      · refine oneOwner_renders h fun a ha => ?_
        exact known_row (Pipeline.mem_listApplications.mp (List.mem_filter.mp ha).1)
      · exact h
  | abandon => exact oneOwner_renders h fun a ha => by simp at ha
  | render result head now => exact oneOwner_render rec h result head now
  | write recordId now =>
      unfold step
      dsimp only
      split
      · rename_i m rest hbus
        exact oneOwner_write h hbus recordId now
      · exact h

/-! ## Runs -/

/--
**Outcomes are attributed to the application that produced them.**

For any stored applications, whatever the reads of the passes return and however requests,
passes, renders and the status writer interleave: if an application is created only under a
name, and with an identifier, of which nothing is under way, then the database is the one of
a writer that goes by the identifier of the application for which an event was published.
-/
theorem outcomes_attributed (rec : Reconciler) (db : Database) (es : List Event)
    (hfresh : Each (step rec) CreatesAfresh (State.new db) es) :
    Always (step rec) Attributed (State.new db) es := by
  intro pre hpre
  have hinv : OneOwner (exec (step rec) (State.new db) pre) :=
    exec_inv_of_each (fun s e h hc => oneOwner_step rec h hc) (oneOwner_new db) (hfresh.of_prefix hpre)
  exact hinv.attributed

/-- A request for an application with the name of the shop. -/
def shopAgain : CreateAppRequest where
  name := "shop"
  «namespace» := "synchrotron-system"
  repoUrl := "https://example.com/shop.git"
  path := "deploy"
  targetRevision := "main"
  destCluster := "prod"
  destNamespace := "shop"
  plugin := none

/-- What a pass reads of an application that has not been rendered. -/
def unrendered : PassReads where
  desired := .error .notFound
  live := .ok []
  revision := none
  desiredAgain := .error .notFound
  liveAgain := .ok []

/-- The shop is reconciled, and recreated once that is written. -/
def orderlyRun : List Event :=
  [.dispatch 0 "shop" "manual", .finish 0 unrendered 5, .write "r1" 6, .deleteApp "shop",
    .createApp shopAgain "2" 7]

theorem recreated_shop_attributed :
    Always (step Reconciler.new) Attributed (State.new shopDb) orderlyRun :=
  outcomes_attributed Reconciler.new shopDb orderlyRun (by
    unfold orderlyRun
    rw [each_cons, each_cons, each_cons, each_cons, each_cons]
    refine ⟨trivial, trivial, trivial, trivial, fun _ name i h => ?_, each_nil⟩
    -- nothing is under way
    cases h with
    | @update _ p hp => exact absurd (show none = some p from hp) (by simp)
    | @pass task w hw =>
        have hw : Function.update (Function.update (fun _ => none) 0 _) 0 none task = some w := hw
        rw [Function.update_idem] at hw
        rcases Updates.tasks_update hw with hw | hw
        · simp at hw
        · simp at hw
    | @render a ha => exact absurd (show a ∈ [] from ha) (by simp)
    | @event m _ hm _ => exact absurd (show m ∈ [] from hm) (by simp))

/-- **The outcome of a deleted application is written to its successor.** -/
theorem successor_blamed : ¬ Always (step Reconciler.new) Attributed (State.new shopDb)
    [.dispatch 0 "shop" "manual", .deleteApp "shop", .createApp shopAgain "2" 7,
      .finish 0 unrendered 8, .write "r1" 9, .write "r1" 9] := by
  intro h
  have hlength := congrArg (fun db => db.syncHistory.length) h.final
  exact absurd hlength (by decide)

end SynchrotronCD.Db.Outcomes
