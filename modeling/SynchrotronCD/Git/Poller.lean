import SynchrotronCD.Lib.Runs

/-!
# The polling scheduler

A loop sleeps for the interval, or until it is triggered, and fetches; while it is
paused, only a trigger makes it fetch.

A trigger is a notification of a `Notify`: it goes to the waiter that has been polled,
if there is one, and is stored as a permit otherwise. The select takes whichever of
its branches is found ready first. A waiter that was notified and is dropped without
having been found ready gives its notification back.

So a trigger is not lost at any point of the loop, and what a pause stops is the
fetches that no trigger asked for (`kept_and_honoured`).
-/

namespace SynchrotronCD.Git.Poller

open Lib

/-! ## The loop -/

/-- The future of `notified()`. -/
inductive Notified where
  /-- Not polled yet. -/
  | init
  /-- In the queue of the `Notify`. -/
  | waiting
  | notified
deriving DecidableEq, Repr

/-- Where the loop is. -/
inductive Point where
  /-- At the top, about to choose how long to sleep. -/
  | scheduling
  /-- In the select. -/
  | selecting (n : Notified)
  /-- The sleep was over; about to drop the other future. -/
  | slept (n : Notified)
  /-- About to read the pause flag. -/
  | checking (wokenByTrigger : Bool)
  /-- About to call the hook. -/
  | calling (wokenByTrigger : Bool)
  | fetching
  /-- Aborted, or panicked. -/
  | stopped
deriving DecidableEq, Repr

inductive PollEvent (R : Type) where
  | fetched (result : R)
  | fetchFailed (err : String)
deriving DecidableEq, Repr

/-- What has happened, as far as calls and fetches go. -/
inductive Mark where
  | triggered
  | paused
  | resumed
  | woke (byTrigger : Bool)
  /-- The pause flag was read. -/
  | checked
  | fetchBegan
deriving DecidableEq, Repr

structure State (R : Type) where
  point : Point
  /-- The permit that the `Notify` stores. -/
  permit : Bool
  paused : Bool
  published : List (PollEvent R)
  /-- The newest mark comes first. -/
  history : List Mark
deriving DecidableEq, Repr

def State.init (R : Type) : State R := ⟨.scheduling, false, false, [], []⟩

/-- A call of the poller, or a step of its task. -/
inductive Event (R : Type) where
  | trigger
  | pause
  | resume
  /-- The duration is chosen and the two futures are made. -/
  | schedule
  /-- The select polls the sleep, which is over. -/
  | pollSleep
  /-- The select polls the other future. -/
  | pollNotified
  | dropNotified
  | check
  | call
  | fetched (result : Except String R)
  /-- The task is cancelled where it waits. -/
  | abort
  | panic
deriving DecidableEq, Repr

variable {R : Type}

def State.mark (s : State R) (m : Mark) : State R := { s with history := m :: s.history }

/-- `notify_one`. -/
def State.notifyOne (s : State R) : State R :=
  match s.point with
  | .selecting .waiting => { s with point := .selecting .notified }
  | .slept .waiting => { s with point := .slept .notified }
  | _ => { s with permit := true }

/-- The watch channel of the pause flag has a receiver for as long as the task runs. -/
def State.send (s : State R) (value : Bool) : State R :=
  if s.point = .stopped then s else { s with paused := value }

/-- Drop a `Notified`, and go on at `next`. -/
def State.drop (s : State R) (n : Notified) (next : Point) : State R :=
  { s with point := next, permit := s.permit || n == .notified }

def PollEvent.ofResult : Except String R → PollEvent R
  | .ok result => .fetched result
  | .error err => .fetchFailed err

/-- Poll a `Notified`. -/
def State.pollNotified (s : State R) : Notified → State R
  | .init =>
    if s.permit then { s with point := .checking true, permit := false }.mark (.woke true)
    else { s with point := .selecting .waiting }
  | .waiting => s
  | .notified => { s with point := .checking true }.mark (.woke true)

/-- One step; an event that cannot happen where the loop is changes nothing. -/
def step (s : State R) : Event R → State R
  | .trigger => s.notifyOne.mark .triggered
  | .pause => (s.send true).mark .paused
  | .resume => (s.send false).mark .resumed
  | .schedule =>
    match s.point with
    | .scheduling => { s with point := .selecting .init }
    | _ => s
  | .pollSleep =>
    match s.point with
    | .selecting n => { s with point := .slept n }.mark (.woke false)
    | _ => s
  | .pollNotified =>
    match s.point with
    | .selecting n => s.pollNotified n
    | _ => s
  | .dropNotified =>
    match s.point with
    | .slept n => s.drop n (.checking false)
    | _ => s
  | .check =>
    match s.point with
    | .checking woken =>
      -- skip the fetch if paused, unless an explicit trigger fired
      { s with point := if s.paused && !woken then .scheduling else .calling woken }.mark .checked
    | _ => s
  | .call =>
    match s.point with
    | .calling _ => { s with point := .fetching }.mark .fetchBegan
    | _ => s
  | .fetched result =>
    match s.point with
    | .fetching => { s with point := .scheduling, published := s.published ++ [.ofResult result] }
    | _ => s
  | .abort =>
    match s.point with
    | .selecting n => s.drop n .stopped
    | .fetching => { s with point := .stopped }
    | _ => s
  | .panic =>
    match s.point with
    | .scheduling | .fetching => { s with point := .stopped }
    | _ => s

/-- The state after these events. -/
def after (es : List (Event R)) : State R := exec step (.init R) es

/-! ## Triggers and pauses -/

/-- A notification is stored, as a permit or with the waiter it woke. -/
def State.Stored (s : State R) : Prop :=
  s.permit = true ∨ s.point = .selecting .notified ∨ s.point = .slept .notified

/-- The loop was woken by a trigger, and nothing comes before its fetch that could prevent it. -/
def State.FetchNext (s : State R) : Prop :=
  (s.point = .checking true ∧ (step s .check).point = .calling true) ∨ s.point = .calling true

/-- Every trigger has been followed by the beginning of a fetch, is stored, or has woken the
loop, which fetches next. -/
def TriggersKept (s : State R) : Prop :=
  ∀ newer older, s.history = newer ++ .triggered :: older →
    .fetchBegan ∈ newer ∨ s.Stored ∨ (.woke true ∈ newer ∧ s.FetchNext)

/-- The history at the last check of the pause flag. -/
def atCheck : List Mark → List Mark
  | [] => []
  | .checked :: h => h
  | _ :: h => atCheck h

/-- A fetch is the work of a trigger if a pause preceded its wake-up that was not resumed
until the flag was checked. -/
def PauseHonoured (s : State R) : Prop :=
  ∀ newer h, s.history = newer ++ .fetchBegan :: h →
    ∀ sinceWake woken sincePause older,
      atCheck h = sinceWake ++ .woke woken :: (sincePause ++ .paused :: older) →
      (∀ b, .woke b ∉ sinceWake) → .resumed ∉ sinceWake → .resumed ∉ sincePause → woken = true

/-! ## What a step can do -/

/-- The steps of the callers and of the loop, each from where it is possible. -/
inductive Moves (s : State R) : State R → Prop where
  | idle : Moves s s
  | triggered : Moves s (s.notifyOne.mark .triggered)
  | paused : Moves s ((s.send true).mark .paused)
  | resumed : Moves s ((s.send false).mark .resumed)
  | scheduled : s.point = .scheduling → Moves s { s with point := .selecting .init }
  | sleepOver {n : Notified} : s.point = .selecting n →
      Moves s ({ s with point := .slept n }.mark (.woke false))
  /-- There is no permit, and the waiter is put into the queue. -/
  | queued : s.point = .selecting .init → s.permit = false →
      Moves s { s with point := .selecting .waiting }
  | permitTaken : s.point = .selecting .init →
      Moves s ({ s with point := .checking true, permit := false }.mark (.woke true))
  | fired : s.point = .selecting .notified →
      Moves s ({ s with point := .checking true }.mark (.woke true))
  | dropped {n : Notified} : s.point = .slept n → Moves s (s.drop n (.checking false))
  | skipped : s.point = .checking false → Moves s ({ s with point := .scheduling }.mark .checked)
  | passed {woken : Bool} : s.point = .checking woken → (s.paused = true → woken = true) →
      Moves s ({ s with point := .calling woken }.mark .checked)
  | called {woken : Bool} : s.point = .calling woken →
      Moves s ({ s with point := .fetching }.mark .fetchBegan)
  | fetched {e : PollEvent R} : s.point = .fetching →
      Moves s { s with point := .scheduling, published := s.published ++ [e] }
  | aborted {n : Notified} : s.point = .selecting n → Moves s (s.drop n .stopped)
  | stopped : s.point = .scheduling ∨ s.point = .fetching → Moves s { s with point := .stopped }

theorem pollNotified_moves {s : State R} {n : Notified} (hpoint : s.point = .selecting n) :
    Moves s (s.pollNotified n) := by
  cases n with
  | init =>
      unfold State.pollNotified
      dsimp only
      split
      · exact .permitTaken hpoint
      · rename_i hpermit
        exact .queued hpoint (by simpa using hpermit)
  | waiting => exact .idle
  | notified => exact .fired hpoint

/-- The pause flag is read. -/
theorem check_moves {s : State R} {woken : Bool} (hpoint : s.point = .checking woken) :
    Moves s ({ s with point := if s.paused && !woken then .scheduling else .calling woken }.mark
      .checked) := by
  split
  · rename_i hskip
    obtain ⟨-, hwoken⟩ := Bool.and_eq_true_iff.mp hskip
    obtain rfl : woken = false := by simpa using hwoken
    exact .skipped hpoint
  · rename_i hgo
    exact .passed hpoint fun hpaused => by simpa [hpaused] using hgo

theorem step_moves (s : State R) (e : Event R) : Moves s (step s e) := by
  cases e with
  | trigger => exact .triggered
  | pause => exact .paused
  | resume => exact .resumed
  | schedule =>
      dsimp only [step]
      split
      · rename_i hpoint
        exact .scheduled hpoint
      · exact .idle
  | pollSleep =>
      dsimp only [step]
      split
      · rename_i hpoint
        exact .sleepOver hpoint
      · exact .idle
  | pollNotified =>
      dsimp only [step]
      split
      · rename_i hpoint
        exact pollNotified_moves hpoint
      · exact .idle
  | dropNotified =>
      dsimp only [step]
      split
      · rename_i hpoint
        exact .dropped hpoint
      · exact .idle
  | check =>
      dsimp only [step]
      split
      · rename_i hpoint
        exact check_moves hpoint
      · exact .idle
  | call =>
      dsimp only [step]
      split
      · rename_i hpoint
        exact .called hpoint
      · exact .idle
  | fetched result =>
      dsimp only [step]
      split
      · rename_i hpoint
        exact .fetched hpoint
      · exact .idle
  | abort =>
      dsimp only [step]
      split
      · rename_i hpoint
        exact .aborted hpoint
      · rename_i hpoint
        exact .stopped (.inr hpoint)
      · exact .idle
  | panic =>
      dsimp only [step]
      split
      · rename_i hpoint
        exact .stopped (.inl hpoint)
      · rename_i hpoint
        exact .stopped (.inr hpoint)
      · exact .idle

/-! ## The step of the triggers -/

theorem fetchNext_iff {s : State R} :
    s.FetchNext ↔ s.point = .checking true ∨ s.point = .calling true := by
  unfold State.FetchNext
  refine or_congr_left ⟨And.left, fun h => ⟨h, ?_⟩⟩
  simp [step, h, State.mark]

theorem fetchNext_mark {s : State R} {m : Mark} : (s.mark m).FetchNext ↔ s.FetchNext := by
  rw [fetchNext_iff, fetchNext_iff]
  rfl

/-- A step that leaves no mark. -/
theorem TriggersKept.same {s s' : State R} (h : TriggersKept s) (hhistory : s'.history = s.history)
    (hstored : s.Stored → s'.Stored) (hnext : s.FetchNext → s'.FetchNext) : TriggersKept s' := by
  intro newer older heq
  rcases h newer older (hhistory ▸ heq) with hfetch | hs | ⟨hwoke, hn⟩
  · exact .inl hfetch
  · exact .inr (.inl (hstored hs))
  · exact .inr (.inr ⟨hwoke, hnext hn⟩)

/-- A step that leaves a mark: what stood for the earlier triggers still does, or the mark does,
and a new trigger is stored. -/
theorem TriggersKept.marked {s s' : State R} {m : Mark} (h : TriggersKept s)
    (hhistory : s'.history = m :: s.history) (htriggered : m = .triggered → s'.Stored)
    (hstored : s.Stored → m = .fetchBegan ∨ s'.Stored ∨ (m = .woke true ∧ s'.FetchNext))
    (hnext : s.FetchNext → m = .fetchBegan ∨ s'.FetchNext) : TriggersKept s' := by
  intro newer older heq
  rw [hhistory] at heq
  cases newer with
  | nil => exact .inr (.inl (htriggered (List.cons.inj heq).1))
  | cons x newer =>
      obtain ⟨rfl, hrest⟩ := List.cons.inj heq
      rcases h newer older hrest with hfetch | hs | ⟨hwoke, hn⟩
      · exact .inl (List.mem_cons_of_mem _ hfetch)
      · rcases hstored hs with rfl | hs' | ⟨rfl, hn⟩
        · exact .inl List.mem_cons_self
        · exact .inr (.inl hs')
        · exact .inr (.inr ⟨List.mem_cons_self, hn⟩)
      · rcases hnext hn with rfl | hn'
        · exact .inl List.mem_cons_self
        · exact .inr (.inr ⟨List.mem_cons_of_mem _ hwoke, hn'⟩)

/-- A notification is stored, whatever the loop does. -/
theorem stored_notifyOne (s : State R) : s.notifyOne.Stored := by
  unfold State.notifyOne State.Stored
  split
  · exact .inr (.inl rfl)
  · exact .inr (.inr rfl)
  · exact .inl rfl

@[simp] theorem notifyOne_history (s : State R) : s.notifyOne.history = s.history := by
  unfold State.notifyOne
  split <;> rfl

@[simp] theorem send_point (s : State R) (value : Bool) : (s.send value).point = s.point := by
  unfold State.send
  split <;> rfl

@[simp] theorem send_permit (s : State R) (value : Bool) : (s.send value).permit = s.permit := by
  unfold State.send
  split <;> rfl

@[simp] theorem send_history (s : State R) (value : Bool) : (s.send value).history = s.history := by
  unfold State.send
  split <;> rfl

theorem fetchNext_notifyOne {s : State R} (h : s.FetchNext) : (s.notifyOne).FetchNext := by
  rw [fetchNext_iff] at h ⊢
  unfold State.notifyOne
  rcases h with h | h <;> simp [h]

/-- The notification of a dropped waiter is given back. -/
theorem stored_drop {s : State R} {n : Notified} {next : Point} (h : s.Stored)
    (hpoint : s.point = .selecting n ∨ s.point = .slept n) : (s.drop n next).Stored := by
  refine .inl ?_
  unfold State.drop
  rcases h with h | h | h
  · simp [h]
  · rw [h] at hpoint
    simp at hpoint
    simp [← hpoint]
  · rw [h] at hpoint
    simp at hpoint
    simp [← hpoint]

/-- A step of the loop where nothing is stored with a waiter. -/
theorem Stored.of_permit {s s' : State R} (h : s.Stored) (h1 : s.point ≠ .selecting .notified)
    (h2 : s.point ≠ .slept .notified) (hpermit : s'.permit = s.permit) : s'.Stored := by
  rcases h with h | h | h
  · exact .inl (hpermit ▸ h)
  · exact absurd h h1
  · exact absurd h h2

/-- A call that sets the pause flag. -/
theorem TriggersKept.send {s : State R} (h : TriggersKept s) (value : Bool) {m : Mark}
    (hm : m ≠ .triggered) : TriggersKept ((s.send value).mark m) := by
  refine h.marked (m := m) (by simp [State.mark]) (absurd · hm) (fun hs => .inr (.inl ?_))
    fun hn => .inr ?_
  · simpa [State.Stored, State.mark] using hs
  · rw [fetchNext_mark]
    rw [fetchNext_iff] at hn ⊢
    rwa [send_point]

/-- A step of the loop from a point where it waits for no one. -/
theorem TriggersKept.unwatched {s s' : State R} (h : TriggersKept s)
    (hpoint : s.point = .scheduling ∨ s.point = .fetching) (hhistory : s'.history = s.history)
    (hpermit : s'.permit = s.permit) : TriggersKept s' := by
  refine h.same hhistory (fun hs => ?_) fun hn => ?_
  · rcases hpoint with hp | hp
    · exact Stored.of_permit hs (by simp [hp]) (by simp [hp]) hpermit
    · exact Stored.of_permit hs (by simp [hp]) (by simp [hp]) hpermit
  · rw [fetchNext_iff] at hn
    rcases hpoint with hp | hp
    · simp [hp] at hn
    · simp [hp] at hn

/-- A wake-up by a trigger stands for all that is stored. -/
theorem TriggersKept.woken {s s' : State R} (h : TriggersKept s) (hno : ¬ s.FetchNext)
    (hhistory : s'.history = .woke true :: s.history) (hpoint : s'.point = .checking true) :
    TriggersKept s' :=
  h.marked hhistory nofun
    (fun _ => .inr (.inr ⟨rfl, fetchNext_iff.mpr (.inl hpoint)⟩)) (absurd · hno)

/-- **No step loses a trigger.** -/
theorem TriggersKept.moves {s s' : State R} (h : TriggersKept s) (hm : Moves s s') : TriggersKept s' := by
  have hno : ∀ {p : Point}, s.point = p → p ≠ .checking true → p ≠ .calling true → ¬ s.FetchNext := by
    intro p hp h1 h2
    rw [fetchNext_iff, hp]
    exact not_or.mpr ⟨h1, h2⟩
  cases hm with
  | idle => exact h
  | triggered =>
      refine h.marked (m := .triggered) ?_ (fun _ => stored_notifyOne s)
        (fun _ => .inr (.inl (stored_notifyOne s))) fun hn => .inr ?_
      · exact congrArg (List.cons Mark.triggered) (notifyOne_history s)
      · exact fetchNext_mark.mpr (fetchNext_notifyOne hn)
  | paused => exact h.send true nofun
  | resumed => exact h.send false nofun
  | scheduled hp => exact h.unwatched (.inl hp) rfl rfl
  | @sleepOver n hp =>
      refine h.marked (m := .woke false) rfl nofun (fun hs => .inr (.inl ?_))
        (absurd · (hno hp nofun nofun))
      -- the notification stays with the waiter that is dropped next
      rcases hs with hs | hs | hs
      · exact .inl hs
      · obtain rfl := Point.selecting.inj (hp.symm.trans hs)
        exact .inr (.inr rfl)
      · cases hp.symm.trans hs
  | queued hp hpermit =>
      refine h.same rfl (fun hs => ?_) (absurd · (hno hp nofun nofun))
      exact Stored.of_permit hs (by simp [hp]) (by simp [hp]) rfl
  | permitTaken hp => exact h.woken (hno hp nofun nofun) rfl rfl
  | fired hp => exact h.woken (hno hp nofun nofun) rfl rfl
  | dropped hp => exact h.same rfl (fun hs => stored_drop hs (.inr hp)) (absurd · (hno hp nofun nofun))
  | skipped hp =>
      refine h.marked (m := .checked) rfl nofun (fun hs => .inr (.inl ?_))
        (absurd · (hno hp nofun nofun))
      exact Stored.of_permit hs (by simp [hp]) (by simp [hp]) rfl
  | passed hp _ =>
      refine h.marked (m := .checked) rfl nofun (fun hs => .inr (.inl ?_)) fun hn => .inr ?_
      · exact Stored.of_permit hs (by simp [hp]) (by simp [hp]) rfl
      · rw [fetchNext_iff, hp] at hn
        rcases hn with hn | hn
        · obtain rfl := Point.checking.inj hn
          exact fetchNext_iff.mpr (.inr rfl)
        · cases hn
  | called hp => exact h.marked (m := .fetchBegan) rfl nofun (fun _ => .inl rfl) fun _ => .inl rfl
  | fetched hp => exact h.unwatched (.inr hp) rfl rfl
  | aborted hp => exact h.same rfl (fun hs => stored_drop hs (.inl hp)) (absurd · (hno hp nofun nofun))
  | stopped hp => exact h.unwatched hp rfl rfl

/-! ## The step of the pauses -/

/-- What the flag holds after these calls. -/
def lastPause : List Mark → Bool
  | [] => false
  | .paused :: _ => true
  | .resumed :: _ => false
  | _ :: h => lastPause h

/-- Whether the last wake-up was by a trigger. -/
def lastWake : List Mark → Option Bool
  | [] => none
  | .woke byTrigger :: _ => some byTrigger
  | _ :: h => lastWake h

theorem lastPause_of_paused {newer older : List Mark} (h : .resumed ∉ newer) :
    lastPause (newer ++ .paused :: older) = true := by
  induction newer with
  | nil => rfl
  | cons m newer ih =>
      rw [List.mem_cons, not_or] at h
      cases m with
      | resumed => exact absurd rfl h.1
      | paused => rfl
      | triggered => exact ih h.2
      | woke b => exact ih h.2
      | checked => exact ih h.2
      | fetchBegan => exact ih h.2

theorem lastWake_of_woke {newer older : List Mark} {byTrigger : Bool} (h : ∀ b, .woke b ∉ newer) :
    lastWake (newer ++ .woke byTrigger :: older) = some byTrigger := by
  induction newer with
  | nil => rfl
  | cons m newer ih =>
      have hrest : ∀ b, .woke b ∉ newer := fun b hb => h b (List.mem_cons_of_mem _ hb)
      cases m with
      | woke b => exact absurd List.mem_cons_self (h b)
      | triggered => exact ih hrest
      | paused => exact ih hrest
      | resumed => exact ih hrest
      | checked => exact ih hrest
      | fetchBegan => exact ih hrest

/-- The marks that callers leave. -/
def Mark.OfCall (m : Mark) : Prop := m = .triggered ∨ m = .paused ∨ m = .resumed

theorem lastWake_ofCall {m : Mark} {h : List Mark} (hm : m.OfCall) : lastWake (m :: h) = lastWake h := by
  rcases hm with rfl | rfl | rfl <;> rfl

theorem atCheck_ofCall {m : Mark} {h : List Mark} (hm : m.OfCall) : atCheck (m :: h) = atCheck h := by
  rcases hm with rfl | rfl | rfl <;> rfl

/-- What the loop goes by at a point, from its wake-up to its call of the hook. -/
def Point.GoesBy (h : List Mark) : Point → Prop
  | .slept _ => lastWake h = some false
  | .checking woken => lastWake h = some woken
  | .calling woken =>
    lastWake (atCheck h) = some woken ∧ (lastPause (atCheck h) = true → woken = true)
  | .scheduling | .selecting _ | .fetching | .stopped => True

structure Follows (s : State R) : Prop where
  flag : s.point ≠ .stopped → s.paused = lastPause s.history
  point : s.point.GoesBy s.history

theorem goesBy_ofCall {m : Mark} {h : List Mark} {p : Point} (hm : m.OfCall) (hp : p.GoesBy h) :
    p.GoesBy (m :: h) := by
  cases p with
  | slept n => exact (lastWake_ofCall hm).trans hp
  | checking woken => exact (lastWake_ofCall hm).trans hp
  | calling woken =>
      unfold Point.GoesBy
      rw [atCheck_ofCall hm]
      exact hp
  | scheduling => trivial
  | selecting n => trivial
  | fetching => trivial
  | stopped => trivial

theorem goesBy_notifyOne {s : State R} {h : List Mark} (hp : s.point.GoesBy h) :
    s.notifyOne.point.GoesBy h := by
  unfold State.notifyOne
  split
  · trivial
  · rename_i hpoint
    rwa [hpoint] at hp
  · exact hp

theorem flag_notifyOne {s : State R} (h : Follows s) (hrun : s.notifyOne.point ≠ .stopped) :
    s.notifyOne.paused = lastPause s.history := by
  unfold State.notifyOne at hrun ⊢
  split
  · rename_i hpoint
    exact h.flag (by rw [hpoint]; nofun)
  · rename_i hpoint
    exact h.flag (by rw [hpoint]; nofun)
  · exact h.flag (by simpa using hrun)

theorem Follows.send {s : State R} (h : Follows s) {value : Bool} {m : Mark} (hm : m.OfCall)
    (hvalue : ∀ h, lastPause (m :: h) = value) : Follows ((s.send value).mark m) := by
  refine ⟨fun hrun => ?_, ?_⟩
  · have hrun' : s.point ≠ .stopped := by rwa [← send_point s value]
    have hsend : (s.send value).paused = value := by
      unfold State.send
      rw [if_neg hrun']
    exact hsend.trans (hvalue _).symm
  · have hp := goesBy_ofCall hm h.point
    show (s.send value).point.GoesBy (m :: (s.send value).history)
    rwa [send_point, send_history]

/-- **The loop follows the calls.** -/
theorem Follows.moves {s s' : State R} (h : Follows s) (hm : Moves s s') : Follows s' := by
  have hflag : ∀ {p : Point}, s.point = p → p ≠ .stopped → s.paused = lastPause s.history :=
    fun hp hne => h.flag (hp ▸ hne)
  cases hm with
  | idle => exact h
  | triggered =>
      refine ⟨fun hrun => ?_, ?_⟩
      · have := flag_notifyOne h hrun
        rwa [← notifyOne_history s] at this
      · have hp := goesBy_ofCall (.inl rfl) (goesBy_notifyOne h.point) (m := .triggered)
        rwa [← notifyOne_history s] at hp
  | paused => exact h.send (.inr (.inl rfl)) fun _ => rfl
  | resumed => exact h.send (.inr (.inr rfl)) fun _ => rfl
  | scheduled hp => exact ⟨fun _ => hflag hp nofun, trivial⟩
  | sleepOver hp => exact ⟨fun _ => hflag hp nofun, rfl⟩
  | queued hp _ => exact ⟨fun _ => hflag hp nofun, trivial⟩
  | permitTaken hp => exact ⟨fun _ => hflag hp nofun, rfl⟩
  | fired hp => exact ⟨fun _ => hflag hp nofun, rfl⟩
  | dropped hp =>
      have hwake := h.point
      rw [hp] at hwake
      exact ⟨fun _ => hflag hp nofun, hwake⟩
  | skipped hp => exact ⟨fun _ => hflag hp nofun, trivial⟩
  | passed hp hgo =>
      have hwake := h.point
      rw [hp] at hwake
      refine ⟨fun _ => hflag hp nofun, hwake, fun hpaused => hgo ?_⟩
      rw [hflag hp nofun]
      exact hpaused
  | called hp => exact ⟨fun _ => hflag hp nofun, trivial⟩
  | fetched hp => exact ⟨fun _ => hflag hp nofun, trivial⟩
  | aborted hp => exact ⟨fun hrun => absurd rfl hrun, trivial⟩
  | stopped hp => exact ⟨fun hrun => absurd rfl hrun, trivial⟩

/-- A step that does not begin a fetch leaves nothing new to honour. -/
theorem PauseHonoured.same {s s' : State R} (h : PauseHonoured s)
    (hhistory : s'.history = s.history ∨
      ∃ m, m ≠ .fetchBegan ∧ s'.history = m :: s.history) : PauseHonoured s' := by
  intro newer older heq
  rcases hhistory with hsame | ⟨m, hm, hcons⟩
  · exact h newer older (hsame ▸ heq)
  · rw [hcons] at heq
    cases newer with
    | nil => exact absurd (List.cons.inj heq).1 hm
    | cons x newer => exact h newer older (List.cons.inj heq).2

/-- Whatever begins a fetch has been woken by a trigger, or has found the flag down. -/
theorem PauseHonoured.call {s s' : State R} {woken : Bool} (h : PauseHonoured s) (hf : Follows s)
    (hpoint : s.point = .calling woken) (hhistory : s'.history = .fetchBegan :: s.history) :
    PauseHonoured s' := by
  intro newer older heq
  rw [hhistory] at heq
  cases newer with
  | cons x newer => exact h newer older (List.cons.inj heq).2
  | nil =>
      obtain rfl : s.history = older := (List.cons.inj heq).2
      intro sinceWake woken' sincePause before hcheck hwake hresumed1 hresumed2
      have hgo := hf.point
      rw [hpoint] at hgo
      obtain ⟨hwoke, hflag⟩ := hgo
      rw [hcheck] at hwoke hflag
      rw [lastWake_of_woke hwake] at hwoke
      rw [Option.some.inj hwoke]
      refine hflag ?_
      rw [← List.cons_append, ← List.append_assoc]
      refine lastPause_of_paused ?_
      simp [hresumed1, hresumed2]

/-- **No step fetches through a pause.** -/
theorem PauseHonoured.moves {s s' : State R} (h : PauseHonoured s) (hf : Follows s)
    (hm : Moves s s') : PauseHonoured s' := by
  cases hm with
  | idle => exact h
  | triggered =>
      exact h.same (.inr ⟨.triggered, nofun, congrArg (List.cons _) (notifyOne_history s)⟩)
  | paused => exact h.same (.inr ⟨.paused, nofun, congrArg (List.cons _) (send_history s true)⟩)
  | resumed => exact h.same (.inr ⟨.resumed, nofun, congrArg (List.cons _) (send_history s false)⟩)
  | scheduled hp => exact h.same (.inl rfl)
  | sleepOver hp => exact h.same (.inr ⟨.woke false, nofun, rfl⟩)
  | queued hp _ => exact h.same (.inl rfl)
  | permitTaken hp => exact h.same (.inr ⟨.woke true, nofun, rfl⟩)
  | fired hp => exact h.same (.inr ⟨.woke true, nofun, rfl⟩)
  | dropped hp => exact h.same (.inl rfl)
  | skipped hp => exact h.same (.inr ⟨.checked, nofun, rfl⟩)
  | passed hp _ => exact h.same (.inr ⟨.checked, nofun, rfl⟩)
  | called hp => exact h.call hf hp rfl
  | fetched hp => exact h.same (.inl rfl)
  | aborted hp => exact h.same (.inl rfl)
  | stopped hp => exact h.same (.inl rfl)

/-! ## Runs -/

/--
**Triggers are kept and pauses are honoured, in every state that is reached.**

Whatever the callers and the loop do, and in whatever order: each trigger has a fetch
that began after it, or is stored, or has woken the loop, which fetches next. And a
fetch that begins after a pause that preceded its wake-up, and that nobody had resumed
when the flag was checked, was woken by a trigger.
-/
theorem kept_and_honoured (es : List (Event R)) : TriggersKept (after es) ∧ PauseHonoured (after es) := by
  have hinit : ∀ m newer older, (State.init R).history ≠ newer ++ m :: older := by
    intro m newer older heq
    cases newer <;> cases heq
  have hstart : TriggersKept (State.init R) ∧ PauseHonoured (State.init R) ∧ Follows (State.init R) :=
    ⟨fun newer older heq => absurd heq (hinit _ newer older),
      fun newer older heq => absurd heq (hinit _ newer older), fun _ => rfl, trivial⟩
  have hstep : ∀ (s : State R) (e : Event R), TriggersKept s ∧ PauseHonoured s ∧ Follows s →
      TriggersKept (step s e) ∧ PauseHonoured (step s e) ∧ Follows (step s e) := by
    rintro s e ⟨hkept, hhonoured, hfollows⟩
    have hm := step_moves s e
    exact ⟨hkept.moves hm, hhonoured.moves hfollows hm, hfollows.moves hm⟩
  have hall := exec_inv hstep hstart es
  exact ⟨hall.1, hall.2.1⟩

/-- The work of a trigger, after any pause that preceded the wake-up. -/
def EveryPauseHonoured (s : State R) : Prop :=
  ∀ newer h, s.history = newer ++ .fetchBegan :: h →
    ∀ sinceWake woken beforeWake, h = sinceWake ++ .woke woken :: beforeWake →
      (∀ b, .woke b ∉ sinceWake) → .paused ∈ beforeWake → woken = true

/-- A sleep that ends after a pause was resumed: the fetch is nobody's trigger. -/
theorem fetch_after_resume : ¬ ∀ es : List (Event Unit), EveryPauseHonoured (after es) := by
  intro h
  have hrun := h [.schedule, .pollNotified, .pause, .resume, .pollSleep, .dropNotified, .check, .call]
  have hwoken := hrun [] [.checked, .woke false, .resumed, .paused] (by decide)
    [.checked] false [.resumed, .paused] rfl (by simp) (by simp)
  cases hwoken

end SynchrotronCD.Git.Poller
